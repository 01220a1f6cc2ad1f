import Mutagen.Proofs.Token.Cuts
import Mutagen.Proofs.Token.Line

set_option autoImplicit false

namespace Mutagen

variable {text taken middle after other : List Char}

def Parted (other : List Char) : Prop := ∃ c rest, other = c :: rest ∧ c ∈ separators

-- A reader that takes a separator for the end of the text.
def Stops {α : Type} (read : List Char → Except Fault (α × List Char)) : Prop :=
  ∀ ⦃text after other value⦄, read text = .ok (value, after) → Parted other → read (text ++ other) = .ok (value, after ++ other)

theorem separator_digit : ∀ c ∈ separators, c.isDigit = false := each_char (by decide)

theorem separator_digit_of (radix : Nat) : ∀ c ∈ separators, isDigitOf radix c = false := by
  have valueless : ∀ c ∈ separators, digitValue c = none := each_char (by decide)
  intro c member
  rw [isDigitOf, valueless c member]
  rfl

theorem separator_letter : ∀ c ∈ separators, c.isAlphanum = false := each_char (by decide)

theorem separator_quote : ∀ c ∈ separators, Word.isQuote c = false := each_char (by decide)

theorem separator_word : ∀ c ∈ separators, Text.continuesWord c = false := each_char (by decide +kernel)

theorem separator_ne {d : Char} (outside : d ∉ separators) : ∀ c ∈ separators, c ≠ d :=
  fun _ member same => outside (same ▸ member)

theorem parted_any {p : Char → Bool} (none : ∀ c ∈ separators, p c = false) (parted : Parted other) (text : List Char) :
    (text ++ other).head?.any p = text.head?.any p := by
  obtain ⟨c, rest, rfl, member⟩ := parted
  cases text with
  | nil => exact none c member
  | cons => rfl

theorem parted_head {d : Char} (outside : d ∉ separators) (parted : Parted other) (h : text.head? ≠ some d) :
    (text ++ other).head? ≠ some d := by
  obtain ⟨c, rest, rfl, member⟩ := parted
  cases text with
  | nil => exact fun same => separator_ne outside c member (Option.some.inj same)
  | cons => exact h

namespace Number

theorem digit_run_stops {isDigit : Char → Bool} (none : ∀ c ∈ separators, isDigit c = false) (begun : Bool) :
    Stops (digitRun isDigit begun) := by
  intro text after other digits h parted
  induction text generalizing begun digits with
  | nil =>
      cases h
      obtain ⟨c, rest, rfl, member⟩ := parted
      rw [List.nil_append, digitRun, none c member, if_neg Bool.false_ne_true, if_neg (separator_ne (by decide) c member)]
  | cons c text ih =>
      rw [List.cons_append, digitRun] at *
      split at h
      · rename_i digit
        obtain ⟨⟨others, _⟩, reads, same⟩ := ok_of_map h
        cases same
        rw [if_pos digit, ih true reads]
        rfl
      · rename_i noDigit
        rw [if_neg noDigit, parted_any none parted]
        split at h
        · rename_i separator
          rw [if_pos separator]
          split at h
          · rename_i inside
            rw [if_pos inside]
            exact ih begun h
          · cases h
        · rename_i noSeparator
          cases h
          rw [if_neg noSeparator]
          rfl

theorem read_fraction_stops : Stops readFraction := by
  intro text after other fraction h parted
  by_cases point : text.head? = some '.'
  · obtain ⟨rest, rfl⟩ := List.head?_eq_some_iff.mp point
    obtain ⟨⟨places, _⟩, reads, same⟩ := ok_of_map h
    cases same
    rw [List.cons_append, readFraction, digit_run_stops separator_digit _ reads parted]
    rfl
  · rw [read_fraction_end point] at h
    cases h
    exact read_fraction_end (parted_head (by decide) parted point)

theorem exponent_mark_parted (parted : Parted other) (text : List Char) :
    exponentMark? (text ++ other) = (exponentMark? text).map fun (negative, rest) => (negative, rest ++ other) := by
  have digit := parted_any separator_digit parted
  cases text with
  | nil =>
      obtain ⟨c, rest, rfl, member⟩ := parted
      have lower := separator_ne (d := 'e') (by decide) c member
      have upper := separator_ne (d := 'E') (by decide) c member
      simp [exponentMark?, lower, upper]
  | cons mark text =>
      by_cases marks : (mark = 'e' || mark = 'E') = true
      · cases text with
        | nil =>
            obtain ⟨c, rest, rfl, member⟩ := parted
            have plus := separator_ne (d := '+') (by decide) c member
            have minus := separator_ne (d := '-') (by decide) c member
            simp only [List.cons_append, List.nil_append, exponentMark?, if_pos marks]
            simp [plus, minus, separator_digit c member]
        | cons d text =>
            by_cases plus : d = '+'
            · subst plus
              simp only [List.cons_append, exponentMark?, if_pos marks, digit text]
              split <;> rfl
            · by_cases minus : d = '-'
              · subst minus
                simp only [List.cons_append, exponentMark?, if_pos marks, digit text]
                split <;> rfl
              · simp only [List.cons_append, exponentMark?, if_pos marks]
                by_cases first : d.isDigit = true
                · simp [plus, minus, first]
                · simp [plus, minus, first]
      · simp only [List.cons_append, exponentMark?, if_neg marks, Option.map_none]

theorem read_exponent_stops : Stops readExponent := by
  intro text after other exponent h parted
  rw [readExponent, exponent_mark_parted parted]
  unfold readExponent at h
  split at h
  · rename_i none
    cases h
    rw [none]
    rfl
  · rename_i negative rest marked
    obtain ⟨⟨digits, _⟩, reads, same⟩ := ok_of_map h
    cases same
    rw [marked]
    simp only [Option.map_some, digit_run_stops separator_digit _ reads parted]
    rfl

theorem read_decimal_stops : Stops readDecimal := by
  intro text after other kind h parted
  obtain ⟨whole, _, fraction, _, exponent, run, point, mark, lower, upper, token⟩ := read_decimal_iff.mp h
  exact read_decimal_iff.mpr ⟨whole, _, fraction, _, exponent, digit_run_stops separator_digit _ run parted,
    read_fraction_stops point parted, read_exponent_stops mark parted, parted_head (by decide) parted lower,
    parted_head (by decide) parted upper, decimal_anywhere token⟩

theorem radix_other {d : Char} (other : d ≠ '0') (rest : List Char) : radix? (d :: rest) = none := by
  unfold radix?
  split
  · rename_i same
    exact absurd (List.cons.inj same).1 other
  · rfl

theorem radix_parted (parted : Parted other) (text : List Char) : radix? (text ++ other) = radix? text := by
  obtain ⟨c, rest, rfl, member⟩ := parted
  cases text with
  | nil => exact radix_other (separator_ne (by decide) c member) rest
  | cons d text =>
      by_cases zero : d = '0'
      · subst zero
        cases text with
        | nil =>
            have none : ∀ mark ∈ separators, radix? ['0', mark] = none := each_char (by decide)
            exact none c member
        | cons => rfl
      · rw [List.cons_append, radix_other zero, radix_other zero]

theorem skip_separator_parted (parted : Parted other) (text : List Char) :
    skipSeparator (text ++ other) = skipSeparator text ++ other := by
  cases text with
  | nil =>
      obtain ⟨c, rest, rfl, member⟩ := parted
      rw [List.nil_append, skip_separator_cons, if_neg (separator_ne (by decide) c member)]
      rfl
  | cons c text =>
      rw [List.cons_append, skip_separator_cons, skip_separator_cons]
      split <;> rfl

theorem read_stops : Stops read := by
  intro text after other kind h parted
  unfold read at h ⊢
  rw [radix_parted parted]
  split at h
  · rename_i radix announced
    obtain ⟨mark, rest, rfl, _⟩ := radix_cases announced
    obtain ⟨digits, run, some, ends, small, rfl⟩ := read_radix_iff.mp h
    refine read_radix_iff.mpr ⟨digits, ?_, some, (parted_any separator_letter parted after).trans ends, small, rfl⟩
    have skipped := skip_separator_parted parted rest
    rw [List.cons_append, List.cons_append, List.drop_succ_cons, List.drop_succ_cons, List.drop_zero, skipped]
    exact digit_run_stops (separator_digit_of radix) _ run parted
  · exact read_decimal_stops h parted

end Number

theorem Word.read_stops : Stops Word.read := by
  intro text after other kind h parted
  have ends : ∀ c, other.head? = some c → Text.continuesWord c = false := by
    obtain ⟨d, rest, rfl, member⟩ := parted
    rintro c ⟨⟩
    exact separator_word d member
  obtain ⟨nothing, all⟩ := take_while_end ends
  have word : (text ++ other).takeWhile Text.continuesWord = text.takeWhile Text.continuesWord := by
    rw [List.takeWhile_append, nothing, List.append_nil]
    split
    · rename_i whole
      exact ((List.takeWhile_prefix _).eq_of_length whole).symm
    · rfl
  have behind : (text ++ other).dropWhile Text.continuesWord = text.dropWhile Text.continuesWord ++ other := by
    rw [List.dropWhile_append, all]
    split
    · rename_i empty
      rw [List.isEmpty_iff.mp empty, List.nil_append]
    · rfl
  simp only [Word.read, word, behind, parted_any separator_quote parted] at h ⊢
  refine ok_of_ite h (fun h => by cases h) fun h => ?_
  cases h
  rfl

theorem table_plain : ∀ entry ∈ Mark.table, entry.1.toList.all (!separators.contains ·) = true := by decide

theorem Mark.read_stops : Stops Mark.read := by
  intro text after other kind h parted
  obtain ⟨c, rest, rfl, member⟩ := parted
  have same : ∀ entry ∈ Mark.table, entry.1.toList.isPrefixOf (text ++ c :: rest) = entry.1.toList.isPrefixOf text := by
    intro entry listed
    have plain := table_plain entry listed
    refine prefix_append_stop (p := (· ∉ separators)) _ _ _ (by simpa using plain) ?_
    rintro d ⟨⟩ outside
    exact outside member
  rw [Mark.read, List.find?_congr same]
  unfold Mark.read at h
  split at h
  · rename_i spelling kind found
    cases h
    have fits := List.find?_some found
    rw [List.isPrefixOf_iff_prefix] at fits
    have inside : spelling.length ≤ text.length := by
      rw [← String.length_toList]
      exact fits.length_le
    rw [List.drop_append_of_le_length inside]
  · cases h

theorem Quoted.read_stops {quote : Char} (quotes : Word.isQuote quote = true) : Stops (Quoted.read quote) := by
  intro text after other value h parted
  have opening : (text ++ other).take 3 = [quote, quote, quote] ↔ text.take 3 = [quote, quote, quote] := by
    obtain ⟨c, rest, rfl, member⟩ := parted
    have plain : quote ∉ separators := fun listed => by
      cases (separator_quote quote listed).symm.trans quotes
    have same : [quote, quote, quote].isPrefixOf (text ++ c :: rest) = [quote, quote, quote].isPrefixOf text := by
      refine prefix_append_stop (p := (· ∉ separators)) _ _ _ (by simp [plain]) ?_
      rintro d ⟨⟩ outside
      exact outside member
    rw [Bool.eq_iff_iff, List.isPrefixOf_iff_prefix, List.isPrefixOf_iff_prefix, List.prefix_iff_eq_take,
      List.prefix_iff_eq_take] at same
    exact ⟨fun h => (same.mp h.symm).symm, fun h => (same.mpr h.symm).symm⟩
  unfold Quoted.read at h
  dsimp only at h
  split at h
  · rename_i opens
    have long : 3 ≤ text.length := by
      have sizes := congrArg List.length opens
      rw [List.length_take] at sizes
      exact Nat.le_trans (Nat.le_of_eq sizes.symm) (Nat.min_le_right _ _)
    obtain ⟨body, split, _, again⟩ := read_body_cuts ⟨.unterminatedString, text ++ other⟩ (after ++ other) h
    rw [Quoted.read, if_pos (opening.mpr opens), List.drop_append_of_le_length long, split, List.append_assoc]
    exact again
  · rename_i single
    obtain ⟨body, split, _, again⟩ := read_body_cuts ⟨.unterminatedString, text ++ other⟩ (after ++ other) h
    have some : 1 ≤ text.length := by
      cases text with
      | nil =>
          rw [List.drop_nil, readBody] at h
          cases h
      | cons c text => exact Nat.succ_le_succ (Nat.zero_le _)
    rw [Quoted.read, if_neg (fun opens => single (opening.mp opens)), List.drop_append_of_le_length some, split,
      List.append_assoc]
    exact again

namespace Lexer

open Token (Kind)

theorem read_visible_stops : Stops readVisible := by
  intro text after other kind h parted
  cases text with
  | nil => cases h
  | cons c text =>
      rw [List.cons_append, readVisible, parted_any separator_digit parted, ← List.cons_append]
      rw [readVisible] at h
      refine ok_of_ite h (fun h => Word.read_stops h parted) fun h => ?_
      refine ok_of_ite h (fun h => Number.read_stops h parted) fun h => ?_
      split at h
      · rename_i quotes
        obtain ⟨⟨inner, _⟩, reads, same⟩ := ok_of_map h
        cases same
        rw [if_pos quotes, Quoted.read_stops quotes reads parted]
        rfl
      · rename_i noQuote
        rw [if_neg noQuote]
        exact Mark.read_stops h parted

theorem read_visible_apart {kind : Kind} (h : readVisible (taken ++ (middle ++ after)) = .ok (kind, middle ++ after))
    (parted : Parted other) : readVisible (taken ++ (middle ++ other)) = .ok (kind, middle ++ other) := by
  have cut := read_visible_cuts h (List.prefix_append middle after)
  have reads := read_visible_stops cut parted
  rwa [List.append_assoc] at reads

end Lexer

end Mutagen
