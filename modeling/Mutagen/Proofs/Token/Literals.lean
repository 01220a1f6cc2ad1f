import Mathlib.Data.Nat.Digits.Defs
import Mutagen.Proofs.Token.Lossless

set_option autoImplicit false

namespace Mutagen

open Token (Kind)

-- A text that has no tokens.
def Refused (slice : List Char) : Prop := ∃ e, tokenize (String.ofList slice) = .error e

namespace Lexer

variable {tab : Nat} {s : State} {kind : Kind}

theorem step_visible {c : Char} {tail rest : List Char} (inLine : s.lineStart = false)
    (text : s.text = (c :: tail) ++ rest) (visible : c ∉ separators)
    (reads : readVisible ((c :: tail) ++ rest) = .ok (kind, rest))
    (counted : countBrackets? s.brackets kind = some s.brackets) :
    step tab s = .ok ([⟨kind, .between s.position (s.position.behind (c :: tail))⟩],
      some { s with position := s.position.behind (c :: tail), text := rest, unfinished := true }) := by
  have noNewline : c ≠ '\n' := by
    rintro rfl
    exact visible (by decide)
  have skipped : skipBlank (0 < s.brackets) s.text = c :: (tail ++ rest) := by
    rw [text, List.cons_append, skip_blank_visible _ visible]
  have here : s.position.upTo s.text (c :: (tail ++ rest)) = s.position := by
    rw [text]
    exact Position.up_to_eq (List.nil_append _)
  have there : s.position.upTo (c :: (tail ++ rest)) rest = s.position.behind (c :: tail) := Position.up_to_eq rfl
  rw [List.cons_append] at reads
  rw [step, if_neg (Bool.eq_false_iff.mp inLine), readNext]
  simp only [skipped, here, if_neg noNewline, reads, counted, there]

theorem visible_refused {c : Char} {tail : List Char} {fault : Fault} (visible : c ∉ separators)
    (fails : readVisible (c :: tail) = .error fault) : Refused (c :: tail) := by
  obtain ⟨place, front, _, ran⟩ := @start_row tabStop (.initial (c :: tail)) 0 ⟨0, []⟩ c tail (Nat.zero_le 1) visible
    ⟨rfl, rfl, rfl, rfl, rfl⟩
  have noNewline : c ≠ '\n' := by
    rintro rfl
    exact visible (by decide)
  have stepped : ∃ e, step tabStop ⟨place, c :: tail, [{}], 0, false, false⟩ = .error e := by
    rw [step, if_neg Bool.false_ne_true, readNext]
    simp only [skip_blank_visible _ visible, if_neg noNewline, fails]
    exact ⟨_, rfl⟩
  obtain ⟨e, failed⟩ := stepped
  have stops : run tabStop ⟨place, c :: tail, [{}], 0, false, false⟩ = .error e := by rw [run_eq, failed]
  refine ⟨e, ?_⟩
  rw [tokenize, String.toList_ofList, drop_mark_visible visible, ran]
  exact congrArg (Except.map _) stops

end Lexer

open Lexer

theorem encode_cons (text : List Char) :
    ∃ tail, Quoted.encode text = Quoted.quoteFor text :: tail ∧ Quoted.quoteFor text ∉ separators := by
  refine ⟨_, rfl, ?_⟩
  rcases Quoted.is_quote_for text with quote | quote
  · rw [quote]
    decide
  · rw [quote]
    decide

/-- A string is read back from its spelling, whatever follows it but the quote itself. -/
theorem string_spelled (value : String) :
    (∀ (tab : Nat) (s : State) (rest : List Char), s.lineStart = false → s.text = Quoted.encode value.toList ++ rest →
      rest.head? ≠ some (Quoted.quoteFor value.toList) →
      step tab s = .ok ([⟨.str value, .between s.position (s.position.behind (Quoted.encode value.toList))⟩],
        some { s with position := s.position.behind (Quoted.encode value.toList), text := rest, unfinished := true })) ∧
    Alone (Quoted.encode value.toList) (.str value) := by
  constructor
  · intro tab s rest inLine text ends
    have reads := read_string ends
    obtain ⟨tail, spelled, visible⟩ := encode_cons value.toList
    rw [spelled] at text reads ⊢
    exact step_visible inLine text visible reads rfl
  · exact @visible_alone _ [] _ (read_string nofun)

-- A quote, a control character and a digit that its escape could take for its own.
theorem string_spelled_escapes :
    Quoted.encode "'\x01".toList = ['"', '\'', '\\', 'x', '0', '1', '"'] ∧
    (['1', '"'] : List Char).head? ≠ some (Quoted.quoteFor "'\x01".toList) ∧
    step tabStop ⟨{}, Quoted.encode "'\x01".toList ++ ['1', '"'], [{}], 0, false, false⟩ =
      .ok ([⟨.str "'\x01", ⟨0, 7, 1, 0⟩⟩], some ⟨⟨7, 1, 7⟩, ['1', '"'], [{}], 0, false, true⟩) := by
  have other : (['1', '"'] : List Char).head? ≠ some (Quoted.quoteFor "'\x01".toList) := by decide
  exact ⟨by decide, other, (string_spelled "'\x01").1 tabStop _ _ rfl rfl other⟩

-- Digits with separators: `text` begins and ends with a digit, and at most one separator stands between two of them.
inductive Separated (isDigit : Char → Bool) : List Char → List Char → Prop where
  | last {c : Char} (digit : isDigit c = true) : Separated isDigit [c] [c]
  | next {c : Char} {text digits : List Char} (digit : isDigit c = true) :
      Separated isDigit text digits → Separated isDigit (c :: text) (c :: digits)
  | apart {c : Char} {text digits : List Char} (digit : isDigit c = true) :
      Separated isDigit text digits → Separated isDigit (c :: '_' :: text) (c :: digits)

-- The number that digits stand for by their places.
def placed (radix : Nat) (digits : List Char) : Nat :=
  Nat.ofDigits radix (digits.reverse.map fun c => (digitValue c).getD 0)

-- A number without leading zeros, unless it is written with zeros only.
def SpellsDecimal (text : List Char) (value : Nat) : Prop :=
  ∃ digits, Separated Char.isDigit text digits ∧ ((∀ c ∈ digits, c = '0') ∨ digits.head? ≠ some '0') ∧
    value = placed 10 digits ∧ value < 2 ^ 128

-- What stands behind the mark of a radix.
def SpellsRadix (radix : Nat) (text : List Char) (value : Nat) : Prop :=
  ∃ body digits, (text = body ∨ text = '_' :: body) ∧ Separated (isDigitOf radix) body digits ∧
    value = placed radix digits ∧ value < 2 ^ 128

theorem value_placed (radix : Nat) (digits : List Char) : valueOf radix digits = placed radix digits := by
  induction digits using List.reverseRecOn with
  | nil => rfl
  | append_singleton front c ih =>
      have last : valueOf radix (front ++ [c]) = valueOf radix front * radix + (digitValue c).getD 0 := by
        rw [valueOf, List.foldl_append]
        rfl
      rw [last, ih, placed, placed, List.reverse_append, List.reverse_singleton, List.singleton_append, List.map_cons,
        Nat.ofDigits_cons, Nat.add_comm, Nat.mul_comm]

namespace Number

variable {isDigit : Char → Bool} {begun : Bool} {text digits after : List Char}

theorem separated_head (h : Separated isDigit text digits) : text.head?.any isDigit = true := by
  cases h with
  | last digit => exact digit
  | next digit => exact digit
  | apart digit => exact digit

theorem separated_digits (h : Separated isDigit text digits) : digits ≠ [] ∧ ∀ c ∈ digits, isDigit c = true := by
  induction h with
  | last digit => exact ⟨List.cons_ne_nil _ _, List.forall_mem_singleton.mpr digit⟩
  | next digit _ ih => exact ⟨List.cons_ne_nil _ _, List.forall_mem_cons.mpr ⟨digit, ih.2⟩⟩
  | apart digit _ ih => exact ⟨List.cons_ne_nil _ _, List.forall_mem_cons.mpr ⟨digit, ih.2⟩⟩

theorem separated_run (noDigit : isDigit '_' = false) (h : Separated isDigit text digits) (begun : Bool) :
    digitRun isDigit begun text = .ok (digits, []) := by
  induction h generalizing begun with
  | last digit =>
      rw [digitRun, if_pos digit]
      rfl
  | next digit _ ih =>
      rw [digitRun, if_pos digit, ih]
      rfl
  | @apart c text digits digit more ih =>
      have separator : digitRun isDigit true ('_' :: text) = digitRun isDigit true text := by
        rw [digitRun, noDigit, if_neg Bool.false_ne_true, if_pos rfl, Bool.true_and, if_pos (separated_head more)]
      rw [digitRun, if_pos digit, separator, ih]
      rfl

theorem run_separated (noDigit : isDigit '_' = false) (h : digitRun isDigit begun text = .ok (digits, after)) :
    (∀ c, after.head? = some c → isDigit c = false ∧ c ≠ '_') ∧
    (digits = [] ∧ text = after ∨ ∃ taken, Separated isDigit taken digits ∧
      (text = taken ++ after ∨ begun = true ∧ text = '_' :: (taken ++ after))) := by
  induction text generalizing begun digits with
  | nil =>
      cases h
      exact ⟨nofun, .inl ⟨rfl, rfl⟩⟩
  | cons c rest ih =>
      rw [digitRun] at h
      split at h
      · rename_i digit
        obtain ⟨⟨others, _⟩, reads, same⟩ := ok_of_map h
        cases same
        obtain ⟨stops, ⟨rfl, rfl⟩ | ⟨taken, more, rfl | ⟨_, rfl⟩⟩⟩ := ih reads
        · exact ⟨stops, .inr ⟨[c], .last digit, .inl rfl⟩⟩
        · exact ⟨stops, .inr ⟨c :: taken, .next digit more, .inl rfl⟩⟩
        · exact ⟨stops, .inr ⟨c :: '_' :: taken, .apart digit more, .inl rfl⟩⟩
      · rename_i other
        split at h
        · rename_i separator
          split at h
          · rename_i inside
            obtain ⟨first, ahead⟩ := Bool.and_eq_true_iff.mp inside
            obtain ⟨stops, ⟨rfl, rfl⟩ | ⟨taken, more, rfl | ⟨_, rfl⟩⟩⟩ := ih h
            · cases head : rest.head? with
              | none =>
                  rw [head] at ahead
                  cases ahead
              | some d =>
                  rw [head] at ahead
                  exact absurd ahead (Bool.eq_false_iff.mp (stops d head).1)
            · exact ⟨stops, .inr ⟨taken, more, .inr ⟨first, by rw [separator]⟩⟩⟩
            · exact absurd ahead (Bool.eq_false_iff.mp noDigit)
          · cases h
        · rename_i noSeparator
          cases h
          refine ⟨fun d head => ?_, .inl ⟨rfl, rfl⟩⟩
          cases head
          exact ⟨Bool.eq_false_iff.mpr other, noSeparator⟩

theorem decimal_int (text : List Char) {whole : List Char} {kind : Kind} :
    decimal text whole none none = .ok kind ↔
      ((∀ c ∈ whole, c = '0') ∨ whole.head? ≠ some '0') ∧ placed 10 whole < 2 ^ 128 ∧ kind = .int (placed 10 whole) := by
  have zeros : (whole.head? = some '0' && whole.any (· != '0')) = false ↔
      (∀ c ∈ whole, c = '0') ∨ whole.head? ≠ some '0' := by
    simp only [Bool.and_eq_false_iff, decide_eq_false_iff_not, List.any_eq_false, bne_iff_ne, ne_eq, Decidable.not_not]
    exact Or.comm
  rw [decimal, if_neg (by simp), value_placed]
  constructor
  · intro h
    split at h
    · cases h
    · rename_i leading
      split at h
      · cases h
      · rename_i small
        cases h
        exact ⟨zeros.mp (Bool.eq_false_iff.mpr leading), Nat.lt_of_not_le small, rfl⟩
  · rintro ⟨leading, small, rfl⟩
    rw [zeros.mpr leading, if_neg Bool.false_ne_true, bound, if_neg (Nat.not_le_of_lt small)]

theorem spelled_radix_none {c : Char} (plain : ∀ d ∈ text, d.isDigit = true ∨ d = '_') : radix? (c :: text) = none := by
  refine radix_none fun mark head announces => ?_
  have other : ∀ d ∈ ['x', 'X', 'o', 'O', 'b', 'B'], d.isDigit = false ∧ d ≠ '_' := each_char (by decide)
  obtain ⟨noDigit, noSeparator⟩ := other mark announces
  rcases plain mark (List.mem_of_head? head) with digit | separator
  · cases noDigit.symm.trans digit
  · exact noSeparator separator

theorem read_spelled_decimal {c : Char} {kind : Kind} (digit : c.isDigit = true)
    (plain : ∀ d ∈ text, d.isDigit = true ∨ d = '_') (rest : List Char) :
    readVisible (c :: text) = .ok (kind, rest) ↔ rest = [] ∧ ∃ value, SpellsDecimal (c :: text) value ∧ kind = .int value := by
  have nothing : readFraction [] = .ok (none, []) ∧ readExponent [] = .ok (none, []) := ⟨rfl, rfl⟩
  rw [read_visible_number digit, read, spelled_radix_none plain, read_decimal_iff]
  constructor
  · rintro ⟨whole, behind, fraction, after, exponent, run, point, mark, _, _, token⟩
    obtain ⟨stops, split⟩ := run_separated (by decide) run
    obtain rfl : behind = [] := by
      cases behind with
      | nil => rfl
      | cons d behind =>
          obtain ⟨noDigit, noSeparator⟩ := stops d rfl
          rcases List.mem_cons.mp ((digit_run_suffix run).subset (.head behind)) with rfl | inside
          · cases noDigit.symm.trans digit
          · rcases plain d inside with found | found
            · cases noDigit.symm.trans found
            · exact absurd found noSeparator
    cases nothing.1.symm.trans point
    cases nothing.2.symm.trans mark
    rcases split with ⟨_, none⟩ | ⟨taken, separated, whole | ⟨begun, _⟩⟩
    · cases none
    · rw [List.append_nil] at whole
      obtain ⟨leading, small, rfl⟩ := (decimal_int _).mp token
      exact ⟨rfl, _, ⟨_, whole ▸ separated, leading, rfl, small⟩, rfl⟩
    · cases begun
  · rintro ⟨rfl, value, ⟨digits, separated, leading, rfl, small⟩, rfl⟩
    have run := separated_run (by decide) separated false
    exact ⟨digits, _, none, _, none, run, nothing.1, nothing.2, by decide, by decide, (decimal_int _).mpr ⟨leading, small, rfl⟩⟩

def radixMarks : List (Char × Nat) := [('x', 16), ('X', 16), ('o', 8), ('O', 8), ('b', 2), ('B', 2)]

theorem radix_announced {mark : Char} {radix : Nat} (listed : (mark, radix) ∈ radixMarks) (text : List Char) :
    radix? ('0' :: mark :: text) = some radix := by
  simp only [radixMarks, List.mem_cons, Prod.mk.injEq, List.not_mem_nil, or_false] at listed
  rcases listed with ⟨rfl, rfl⟩ | ⟨rfl, rfl⟩ | ⟨rfl, rfl⟩ | ⟨rfl, rfl⟩ | ⟨rfl, rfl⟩ | ⟨rfl, rfl⟩ <;> rfl

theorem separator_no_digit (radix : Nat) : isDigitOf radix '_' = false := rfl

theorem skip_separator_separated {radix : Nat} {body : List Char} (spells : text = body ∨ text = '_' :: body)
    (separated : Separated (isDigitOf radix) body digits) : skipSeparator text = body := by
  rcases spells with rfl | rfl
  · cases text with
    | nil => rfl
    | cons c rest =>
        rw [skip_separator_cons, if_neg]
        rintro rfl
        exact absurd (separated_head separated) (Bool.eq_false_iff.mp (separator_no_digit radix))
  · rfl

theorem skip_separator_cases (text : List Char) : text = skipSeparator text ∨ text = '_' :: skipSeparator text := by
  cases text with
  | nil => exact .inl rfl
  | cons c rest =>
      rw [skip_separator_cons]
      split
      · rename_i separator
        exact .inr (by rw [separator])
      · exact .inl rfl

theorem read_spelled_radix {mark : Char} {radix : Nat} {kind : Kind} (listed : (mark, radix) ∈ radixMarks)
    (plain : ∀ d ∈ text, d.isAlphanum = true ∨ d = '_') (rest : List Char) :
    readVisible ('0' :: mark :: text) = .ok (kind, rest) ↔
      rest = [] ∧ ∃ value, SpellsRadix radix text value ∧ kind = .int value := by
  rw [read_visible_number rfl, read, radix_announced listed]
  dsimp only
  rw [read_radix_iff]
  constructor
  · rintro ⟨digits, run, some, ends, small, rfl⟩
    obtain ⟨stops, split⟩ := run_separated (separator_no_digit radix) run
    obtain rfl : rest = [] := by
      cases rest with
      | nil => rfl
      | cons d rest =>
          have inside : d ∈ text := (skip_separator_suffix text).subset ((digit_run_suffix run).subset (.head rest))
          rcases plain d inside with word | separator
          · exact absurd word (Bool.eq_false_iff.mp ends)
          · exact absurd separator (stops d rfl).2
    rw [value_placed] at small ⊢
    rcases split with ⟨none, _⟩ | ⟨taken, separated, whole | ⟨begun, _⟩⟩
    · exact absurd none some
    · rw [List.append_nil] at whole
      exact ⟨rfl, _, ⟨taken, digits, whole ▸ skip_separator_cases text, separated, rfl, small⟩, rfl⟩
    · cases begun
  · rintro ⟨rfl, value, ⟨body, digits, spells, separated, rfl, small⟩, rfl⟩
    refine ⟨digits, ?_, (separated_digits separated).1, rfl, ?_, ?_⟩
    · rw [List.drop_succ_cons, List.drop_succ_cons, List.drop_zero, skip_separator_separated spells separated]
      exact separated_run (separator_no_digit radix) separated false
    · rw [value_placed]
      exact small
    · rw [value_placed]

end Number

theorem alone_or_refused {c : Char} {text : List Char} {Spells : Nat → Prop} (visible : c ∉ separators)
    (reads : ∀ kind rest, readVisible (c :: text) = .ok (kind, rest) ↔
      rest = [] ∧ ∃ value, Spells value ∧ kind = .int value) :
    (∀ value, Spells value → Alone (c :: text) (.int value)) ∧ ((∀ value, ¬ Spells value) → Refused (c :: text)) := by
  constructor
  · intro value spelled
    have whole : readVisible (c :: text) = .ok (.int value, []) := (reads _ _).mpr ⟨rfl, value, spelled, rfl⟩
    rw [← List.append_nil (c :: text)] at whole
    exact visible_alone whole
  · intro none
    cases read : readVisible (c :: text) with
    | error fault => exact visible_refused visible read
    | ok result =>
        obtain ⟨_, value, spelled, _⟩ := (reads result.1 result.2).mp read
        exact absurd spelled (none value)

/-- Integers are read exactly where they are spelled as such, and are those that their digits spell. -/
theorem integers_read :
    (∀ (c : Char) (text : List Char), c.isDigit = true → (∀ d ∈ text, d.isDigit = true ∨ d = '_') →
      (∀ value, SpellsDecimal (c :: text) value → Alone (c :: text) (.int value)) ∧
      ((∀ value, ¬ SpellsDecimal (c :: text) value) → Refused (c :: text))) ∧
    (∀ (mark : Char) (radix : Nat) (text : List Char), (mark, radix) ∈ Number.radixMarks →
      (∀ d ∈ text, d.isAlphanum = true ∨ d = '_') →
      (∀ value, SpellsRadix radix text value → Alone ('0' :: mark :: text) (.int value)) ∧
      ((∀ value, ¬ SpellsRadix radix text value) → Refused ('0' :: mark :: text))) ∧
    ∀ value, value < 2 ^ 128 → Alone (toString value).toList (.int value) := by
  refine ⟨fun c text digit plain => ?_, fun mark radix text listed plain => ?_, fun value small => ?_⟩
  · exact alone_or_refused (digit_visible digit) fun kind rest => Number.read_spelled_decimal digit plain rest
  · exact alone_or_refused (by decide) fun kind rest => Number.read_spelled_radix listed plain rest
  · exact @visible_alone (Kind.int value).spelling [] _ (read_visible_spelling small nofun)

-- Two separators in a row, a separator behind the mark of a radix, and the first number that is too large.
theorem integers_read_separated : Alone ['0', 'x', '_', 'f', '_', 'F'] (.int 255) ∧ Refused ['1', '_', '_', '0'] ∧
    Alone (toString (2 ^ 128 - 1)).toList (.int (2 ^ 128 - 1)) := by
  obtain ⟨decimals, radices, spelled⟩ := integers_read
  refine ⟨?_, ?_, spelled _ (by decide)⟩
  · refine (radices 'x' 16 ['_', 'f', '_', 'F'] (by decide) (each_char (by decide))).1 255 ⟨['f', '_', 'F'], ['f', 'F'], .inr rfl, ?_⟩
    exact ⟨.apart rfl (.last rfl), by decide, by decide⟩
  · refine (decimals '1' ['_', '_', '0'] rfl (each_char (by decide))).2 ?_
    rintro value ⟨digits, separated, _⟩
    cases separated with
    | next _ more => cases Number.separated_head more
    | apart _ more => cases Number.separated_head more

end Mutagen
