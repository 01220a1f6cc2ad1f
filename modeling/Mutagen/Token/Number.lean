import Mutagen.Token.Fault

set_option autoImplicit false

namespace Mutagen.Number

def bound : Nat := 2 ^ 128

/-- The digits at the start of a text, without their separators. `begun` says that a digit stands
directly in front. -/
def digitRun (isDigit : Char → Bool) : Bool → List Char → Except Fault (List Char × List Char)
  | _, [] => .ok ([], [])
  | begun, c :: rest =>
      if isDigit c then
        (digitRun isDigit true rest).map fun (digits, after) => (c :: digits, after)
      else if c = '_' then
        if begun && rest.head?.any isDigit then digitRun isDigit begun rest
        else .error ⟨.misplacedSeparator, c :: rest⟩
      else .ok ([], c :: rest)

def radix? : List Char → Option Nat
  | '0' :: mark :: _ =>
      if mark = 'x' || mark = 'X' then some 16
      else if mark = 'o' || mark = 'O' then some 8
      else if mark = 'b' || mark = 'B' then some 2
      else none
  | _ => none

def skipSeparator : List Char → List Char
  | '_' :: rest => rest
  | text => text

def readRadix (radix : Nat) (text : List Char) : Except Fault (Token.Kind × List Char) :=
  match digitRun (isDigitOf radix) false (skipSeparator (text.drop 2)) with
  | .error fault => .error fault
  | .ok (digits, after) =>
      if digits.isEmpty || after.head?.any Char.isAlphanum || bound ≤ valueOf radix digits then
        .error ⟨.invalidInteger (String.ofList (text.take (text.length - after.length))), text⟩
      else .ok (.int (valueOf radix digits), after)

def readFraction : List Char → Except Fault (Option (List Char) × List Char)
  | '.' :: rest => (digitRun Char.isDigit false rest).map fun (digits, after) => (some digits, after)
  | text => .ok (none, text)

/-- Whether the exponent at the start of a text is negative, and the text from its digits on. A
mark without digits is none of the number's. -/
def exponentMark? : List Char → Option (Bool × List Char)
  | [] => none
  | mark :: rest =>
      if mark = 'e' || mark = 'E' then
        match rest with
        | '+' :: digits => if digits.head?.any Char.isDigit then some (false, digits) else none
        | '-' :: digits => if digits.head?.any Char.isDigit then some (true, digits) else none
        | digits => if digits.head?.any Char.isDigit then some (false, digits) else none
      else none

def readExponent (text : List Char) : Except Fault (Option Int × List Char) :=
  match exponentMark? text with
  | none => .ok (none, text)
  | some (negative, rest) =>
      (digitRun Char.isDigit false rest).map fun (digits, after) =>
        (some (if negative then -(valueOf 10 digits : Int) else valueOf 10 digits), after)

def decimal (text whole : List Char) (fraction : Option (List Char)) (exponent : Option Int) :
    Except Fault Token.Kind :=
  if fraction.isSome || exponent.isSome then
    let places := fraction.getD []
    .ok (.float (.ofMagnitude
      (Binary64.nearestDecimal (valueOf 10 (whole ++ places)) (exponent.getD 0 - places.length))))
  else if whole.head? = some '0' && whole.any (· != '0') then .error ⟨.leadingZeros, text⟩
  else if bound ≤ valueOf 10 whole then .error ⟨.integerTooLarge (String.ofList whole), text⟩
  else .ok (.int (valueOf 10 whole))

def readDecimal (text : List Char) : Except Fault (Token.Kind × List Char) := do
  let (whole, behindWhole) ← digitRun Char.isDigit false text
  let (fraction, behindFraction) ← readFraction behindWhole
  let (exponent, after) ← readExponent behindFraction
  if after.head? = some 'j' || after.head? = some 'J' then
    .error ⟨.unsupported .imaginaryLiteral, text⟩
  else
    let kind ← decimal text whole fraction exponent
    .ok (kind, after)

def read (text : List Char) : Except Fault (Token.Kind × List Char) :=
  match radix? text with
  | some radix => readRadix radix text
  | none => readDecimal text

theorem digit_run_suffix {isDigit : Char → Bool} {begun : Bool} {text digits after : List Char}
    (h : digitRun isDigit begun text = .ok (digits, after)) : after <:+ text := by
  induction text generalizing begun digits with
  | nil => simp [digitRun] at h; simp [h]
  | cons c rest ih =>
      unfold digitRun at h
      split at h
      · obtain ⟨⟨ds, r⟩, hr, he⟩ := ok_of_map h
        simp only [Prod.mk.injEq] at he
        exact (ih (he.2 ▸ hr)).trans (List.suffix_cons c rest)
      · split at h
        · split at h
          · exact (ih h).trans (List.suffix_cons c rest)
          · simp at h
        · simp at h; simp [h]

theorem digit_run_is_rest {isDigit : Char → Bool} {begun : Bool} {c : Char}
    {rest digits after : List Char} (hc : isDigit c = true)
    (h : digitRun isDigit begun (c :: rest) = .ok (digits, after)) : IsRest after (c :: rest) := by
  rw [digitRun, if_pos hc] at h
  obtain ⟨⟨ds, r⟩, hr, he⟩ := ok_of_map h
  simp only [Prod.mk.injEq] at he
  exact is_rest_cons (digit_run_suffix (he.2 ▸ hr))

theorem read_fraction_suffix {text after : List Char} {fraction : Option (List Char)}
    (h : readFraction text = .ok (fraction, after)) : after <:+ text := by
  unfold readFraction at h
  split at h
  · obtain ⟨⟨ds, r⟩, hr, he⟩ := ok_of_map h
    simp only [Prod.mk.injEq] at he
    exact (digit_run_suffix (he.2 ▸ hr)).trans (List.suffix_cons _ _)
  · simp only [Except.ok.injEq, Prod.mk.injEq] at h
    exact h.2 ▸ List.suffix_refl _

theorem read_fraction_is_rest {rest after : List Char} {fraction : Option (List Char)}
    (h : readFraction ('.' :: rest) = .ok (fraction, after)) : IsRest after ('.' :: rest) := by
  obtain ⟨⟨ds, r⟩, hr, he⟩ := ok_of_map h
  simp only [Prod.mk.injEq] at he
  exact is_rest_cons (digit_run_suffix (he.2 ▸ hr))

theorem exponent_mark_suffix {text after : List Char} {negative : Bool}
    (h : exponentMark? text = some (negative, after)) : after <:+ text := by
  unfold exponentMark? at h
  split at h
  · simp at h
  · split at h
    · split at h <;> split at h <;> simp at h <;> simp [← h.2, List.suffix_cons_iff]
    · simp at h

theorem read_exponent_suffix {text after : List Char} {exponent : Option Int}
    (h : readExponent text = .ok (exponent, after)) : after <:+ text := by
  unfold readExponent at h
  split at h
  · simp only [Except.ok.injEq, Prod.mk.injEq] at h
    exact h.2 ▸ List.suffix_refl _
  · rename_i hm
    obtain ⟨⟨ds, r⟩, hr, he⟩ := ok_of_map h
    simp only [Prod.mk.injEq] at he
    exact (digit_run_suffix (he.2 ▸ hr)).trans (exponent_mark_suffix hm)

theorem skip_separator_suffix (text : List Char) : skipSeparator text <:+ text := by
  unfold skipSeparator
  split
  · exact List.suffix_cons _ _
  · exact List.suffix_refl _

theorem read_radix_iff {text after : List Char} {radix : Nat} {kind : Token.Kind} : readRadix radix text = .ok (kind, after) ↔
    ∃ digits, digitRun (isDigitOf radix) false (skipSeparator (text.drop 2)) = .ok (digits, after) ∧ digits ≠ [] ∧
      after.head?.any Char.isAlphanum = false ∧ valueOf radix digits < bound ∧ kind = .int (valueOf radix digits) := by
  constructor
  · intro h
    unfold readRadix at h
    split at h
    · cases h
    · rename_i digits _ run
      split at h
      · cases h
      · rename_i fine
        cases h
        simp only [Bool.or_eq_true, decide_eq_true_eq, not_or, List.isEmpty_iff, Nat.not_le] at fine
        exact ⟨digits, run, fine.1.1, Bool.eq_false_iff.mpr fine.1.2, fine.2, rfl⟩
  · rintro ⟨digits, run, some, ends, small, rfl⟩
    simp [readRadix, run, some, ends, small]

theorem read_radix_is_rest {text after : List Char} {radix : Nat} {kind : Token.Kind}
    (hr : radix? text = some radix) (h : readRadix radix text = .ok (kind, after)) :
    IsRest after text := by
  unfold radix? at hr
  split at hr
  · rename_i mark rest
    obtain ⟨digits, hd, _⟩ := read_radix_iff.mp h
    exact is_rest_cons (((digit_run_suffix hd).trans (skip_separator_suffix rest)).trans
      (List.suffix_cons mark rest))
  · simp at hr

theorem read_decimal_iff {text after : List Char} {kind : Token.Kind} : readDecimal text = .ok (kind, after) ↔
    ∃ whole behindWhole fraction behindFraction exponent,
      digitRun Char.isDigit false text = .ok (whole, behindWhole) ∧
      readFraction behindWhole = .ok (fraction, behindFraction) ∧
      readExponent behindFraction = .ok (exponent, after) ∧ after.head? ≠ some 'j' ∧ after.head? ≠ some 'J' ∧
      decimal text whole fraction exponent = .ok kind := by
  constructor
  · intro h
    obtain ⟨⟨whole, _⟩, run, h⟩ := ok_of_bind h
    obtain ⟨⟨fraction, _⟩, point, h⟩ := ok_of_bind h
    obtain ⟨⟨exponent, _⟩, mark, h⟩ := ok_of_bind h
    dsimp only at h
    split at h
    · cases h
    · rename_i real
      simp only [Bool.or_eq_true, decide_eq_true_eq, not_or] at real
      obtain ⟨_, token, same⟩ := ok_of_bind h
      cases same
      exact ⟨whole, _, fraction, _, exponent, run, point, mark, real.1, real.2, token⟩
  · rintro ⟨whole, _, fraction, _, exponent, run, point, mark, lower, upper, token⟩
    simp [readDecimal, run, point, mark, lower, upper, token, bind, Except.bind]

theorem read_decimal_is_rest {c : Char} {rest after : List Char} {kind : Token.Kind}
    (hc : c.isDigit = true ∨ c = '.') (h : readDecimal (c :: rest) = .ok (kind, after)) :
    IsRest after (c :: rest) := by
  obtain ⟨whole, _, fraction, _, exponent, hw, hf, he, _⟩ := read_decimal_iff.mp h
  refine is_rest_of_suffix (read_exponent_suffix he) ?_
  rcases hc with hc | rfl
  · exact is_rest_of_suffix (read_fraction_suffix hf) (digit_run_is_rest hc hw)
  · rw [digitRun, if_neg (by decide), if_neg (by decide)] at hw
    cases hw
    exact read_fraction_is_rest hf

theorem read_is_rest {c : Char} {rest after : List Char} {kind : Token.Kind}
    (hc : c.isDigit = true ∨ c = '.') (h : read (c :: rest) = .ok (kind, after)) :
    IsRest after (c :: rest) := by
  unfold read at h
  split at h
  · rename_i hr; exact read_radix_is_rest hr h
  · exact read_decimal_is_rest hc h

end Mutagen.Number
