import Mutagen.Binary64.Layout
import Mutagen.Proofs.Binary64.Rounding
import Mutagen.Proofs.Token.Digits
import Mutagen.Text.Alphabet

set_option autoImplicit false

namespace Mutagen

theorem digit_continues {c : Char} (h : c.isDigit = true) : Text.continuesWord c = true := by
  obtain ⟨low, high⟩ := digit_bounds h
  have numeric : Text.isNumeric c = true := by
    rw [Text.isNumeric, Text.numericRanges, Text.inRanges]
    simp only [low, high, decide_true, Bool.true_and, Bool.true_or]
  rw [Text.continuesWord, numeric, Bool.or_true, Bool.true_or]

namespace Number

-- What may directly follow a number: nothing that a word or another number could go on with.
def Ends (rest : List Char) : Prop :=
  ∀ c, rest.head? = some c → Text.continuesWord c = false ∧ c ≠ '.'

theorem head_ne_of_ends {rest : List Char} {c : Char} (h : Ends rest)
    (hc : Text.continuesWord c = true) : rest.head? ≠ some c := by
  intro head
  rw [(h c head).1] at hc
  cases hc

theorem ends_run {rest : List Char} (h : Ends rest) : EndsRun rest := by
  intro c head
  constructor
  · cases digit : c.isDigit with
    | false => rfl
    | true => exact absurd head (head_ne_of_ends h (digit_continues digit))
  · rintro rfl
    exact head_ne_of_ends h (by decide) head

theorem ends_run_cons {c : Char} {rest : List Char} (hd : c.isDigit = false) (hs : c ≠ '_') :
    EndsRun (c :: rest) := by
  intro d head
  cases head
  exact ⟨hd, hs⟩

theorem read_fraction_end {rest : List Char} (h : rest.head? ≠ some '.') :
    readFraction rest = .ok (none, rest) := by
  cases rest with
  | nil => rfl
  | cons c tail =>
      unfold readFraction
      split
      · simp_all
      · rfl

theorem read_exponent_end {rest : List Char} (h : Ends rest) :
    readExponent rest = .ok (none, rest) := by
  have mark : exponentMark? rest = none := by
    cases rest with
    | nil => rfl
    | cons c tail =>
        have lower : c ≠ 'e' := fun same => head_ne_of_ends h (by decide : Text.continuesWord 'e' = true) (by simp [same])
        have upper : c ≠ 'E' := fun same => head_ne_of_ends h (by decide : Text.continuesWord 'E' = true) (by simp [same])
        simp [exponentMark?, lower, upper]
  rw [readExponent, mark]

theorem exponent_text (e : Int) : ∃ sign digits, (toString e).toList = sign ++ digits ∧
    AllDigits digits ∧ digits ≠ [] ∧
    (sign = [] ∧ (valueOf 10 digits : Int) = e ∨ sign = ['-'] ∧ -(valueOf 10 digits : Int) = e) := by
  rw [Int.toString_eq_repr, Int.repr_eq_if]
  split
  · refine ⟨[], Nat.toDigits 10 e.toNat, by simp, all_digits_to_digits _, Nat.toDigits_ne_nil, .inl ⟨rfl, ?_⟩⟩
    rw [value_of_to_digits]
    omega
  · refine ⟨['-'], Nat.toDigits 10 (-e).toNat, by simp, all_digits_to_digits _, Nat.toDigits_ne_nil,
      .inr ⟨rfl, ?_⟩⟩
    rw [value_of_to_digits]
    omega

theorem read_exponent_append (e : Int) (rest : List Char) (h : Ends rest) :
    readExponent ('e' :: (toString e).toList ++ rest) = .ok (some e, rest) := by
  obtain ⟨sign, digits, text, all, nonempty, value⟩ := exponent_text e
  have run := digit_run_append false digits rest all (ends_run h)
  cases digits with
  | nil => exact absurd rfl nonempty
  | cons d tail =>
      have hd : d.isDigit = true := all d (by simp)
      have plus : d ≠ '+' := by rintro rfl; simp at hd
      have minus : d ≠ '-' := by rintro rfl; simp at hd
      rcases value with ⟨rfl, value⟩ | ⟨rfl, value⟩
      · have mark : exponentMark? ('e' :: (toString e).toList ++ rest) = some (false, d :: tail ++ rest) := by
          rw [text]
          simp [exponentMark?, plus, minus, hd]
        rw [readExponent, mark]
        simp only [run, Except.map, value, Bool.false_eq_true, if_false]
      · have mark : exponentMark? ('e' :: (toString e).toList ++ rest) = some (true, d :: tail ++ rest) := by
          rw [text]
          simp [exponentMark?, hd]
        rw [readExponent, mark]
        simp only [run, Except.map, value, if_true]

theorem radix_none {c : Char} {rest : List Char}
    (h : ∀ mark, rest.head? = some mark → mark ∉ ['x', 'X', 'o', 'O', 'b', 'B']) :
    radix? (c :: rest) = none := by
  cases rest with
  | nil => unfold radix?; split <;> simp_all
  | cons mark tail =>
      have other := h mark rfl
      simp only [List.mem_cons, List.not_mem_nil, or_false, not_or] at other
      unfold radix?
      split
      · rename_i heq
        simp only [List.cons.injEq] at heq
        obtain ⟨_, rfl, _⟩ := heq
        simp [other]
      · rfl

theorem radix_none_of_digits {digits rest : List Char} (all : AllDigits digits) (nonempty : digits ≠ [])
    (h : ∀ mark, rest.head? = some mark → mark ∉ ['x', 'X', 'o', 'O', 'b', 'B']) :
    radix? (digits ++ rest) = none := by
  cases digits with
  | nil => exact absurd rfl nonempty
  | cons c tail =>
      refine radix_none fun mark head => ?_
      cases tail with
      | nil => exact h mark head
      | cons d others =>
          have digit : d.isDigit = true := all d (by simp)
          cases head
          intro member
          simp only [List.mem_cons, List.not_mem_nil, or_false] at member
          rcases member with rfl | rfl | rfl | rfl | rfl | rfl <;> simp at digit

theorem ends_no_radix {rest : List Char} (h : Ends rest) (mark : Char) (head : rest.head? = some mark) :
    mark ∉ ['x', 'X', 'o', 'O', 'b', 'B'] := by
  intro member
  refine head_ne_of_ends h ?_ head
  simp only [List.mem_cons, List.not_mem_nil, or_false] at member
  rcases member with rfl | rfl | rfl | rfl | rfl | rfl <;> decide

theorem ends_no_imaginary {rest : List Char} (h : Ends rest) :
    (decide (rest.head? = some 'j') || decide (rest.head? = some 'J')) = false := by
  have lower : rest.head? ≠ some 'j' := head_ne_of_ends h (by decide)
  have upper : rest.head? ≠ some 'J' := head_ne_of_ends h (by decide)
  simp [lower, upper]

theorem read_int (value : Nat) (rest : List Char) (bounded : value < bound) (h : Ends rest) :
    read ((toString value).toList ++ rest) = .ok (.int value, rest) := by
  have text : (toString value).toList = Nat.toDigits 10 value := by simp
  have all := all_digits_to_digits value
  have noDot : rest.head? ≠ some '.' := fun head => (h '.' head).2 rfl
  have noZeros : (Nat.toDigits 10 value).head? = some '0' → (Nat.toDigits 10 value).any (· != '0') = false := by
    intro head
    have zero : value = 0 := by
      by_cases positive : 0 < value
      · exact absurd head (to_digits_head value positive)
      · omega
    rw [zero]
    rfl
  have token : decimal (Nat.toDigits 10 value ++ rest) (Nat.toDigits 10 value) none none = .ok (.int value) := by
    rw [decimal, if_neg (by simp), if_neg, value_of_to_digits, if_neg (by omega)]
    simpa using noZeros
  rw [text, read, radix_none_of_digits all Nat.toDigits_ne_nil (ends_no_radix h)]
  simp only [readDecimal, digit_run_append false _ rest all (ends_run h), read_fraction_end noDot,
    read_exponent_end h, bind, Except.bind, ends_no_imaginary h, token, Bool.false_eq_true, if_false]

def magnitudeOf (whole places : List Char) (exponent : Int) : Binary64 :=
  .ofMagnitude (Binary64.nearestDecimal (valueOf 10 (whole ++ places)) (exponent - places.length))

theorem dot_ends_run (rest : List Char) : EndsRun ('.' :: rest) := ends_run_cons rfl (by decide)

theorem mark_ends_run (rest : List Char) : EndsRun ('e' :: rest) := ends_run_cons rfl (by decide)

theorem read_fraction_append {places rest : List Char} (hp : AllDigits places) (hr : EndsRun rest) :
    readFraction ('.' :: (places ++ rest)) = .ok (some places, rest) := by
  rw [readFraction, digit_run_append false places rest hp hr]
  rfl

theorem read_of_parts {text whole behind after rest : List Char} {fraction : Option (List Char)}
    {exponent : Option Int} (decimal : radix? text = none)
    (hw : digitRun Char.isDigit false text = .ok (whole, behind))
    (hf : readFraction behind = .ok (fraction, after)) (he : readExponent after = .ok (exponent, rest))
    (float : (fraction.isSome || exponent.isSome) = true) (h : Ends rest) :
    read text = .ok (.float (magnitudeOf whole (fraction.getD []) (exponent.getD 0)), rest) := by
  rw [read, decimal]
  simp only [readDecimal, hw, hf, he, bind, Except.bind, ends_no_imaginary h, Bool.false_eq_true,
    if_false, Number.decimal, if_pos float]
  rfl

theorem read_with_fraction {whole places rest : List Char} (hw : AllDigits whole) (nonempty : whole ≠ [])
    (hp : AllDigits places) (h : Ends rest) :
    read (whole ++ '.' :: (places ++ rest)) = .ok (.float (magnitudeOf whole places 0), rest) :=
  read_of_parts (radix_none_of_digits hw nonempty (by simp)) (digit_run_append false _ _ hw (dot_ends_run _))
    (read_fraction_append hp (ends_run h)) (read_exponent_end h) rfl h

theorem read_with_exponent {whole rest : List Char} (e : Int) (hw : AllDigits whole)
    (nonempty : whole ≠ []) (h : Ends rest) :
    read (whole ++ ('e' :: (toString e).toList ++ rest)) = .ok (.float (magnitudeOf whole [] e), rest) :=
  read_of_parts (radix_none_of_digits hw nonempty (by simp)) (digit_run_append false _ _ hw (mark_ends_run _))
    (read_fraction_end (by simp)) (read_exponent_append e rest h) rfl h

theorem read_with_both {whole places rest : List Char} (e : Int) (hw : AllDigits whole)
    (nonempty : whole ≠ []) (hp : AllDigits places) (h : Ends rest) :
    read (whole ++ '.' :: (places ++ ('e' :: (toString e).toList ++ rest))) =
      .ok (.float (magnitudeOf whole places e), rest) :=
  read_of_parts (radix_none_of_digits hw nonempty (by simp)) (digit_run_append false _ _ hw (dot_ends_run _))
    (read_fraction_append hp (mark_ends_run _)) (read_exponent_append e rest h) rfl h

end Number

end Mutagen
