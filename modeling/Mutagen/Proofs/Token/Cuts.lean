import Mathlib.Data.List.Infix
import Mathlib.Data.List.TakeWhile
import Mutagen.Proofs.Token.Spelling

set_option autoImplicit false

namespace Mutagen

-- Less text behind what is read makes no difference.
def Cuts {α : Type} (read : List Char → Except Fault (α × List Char)) : Prop :=
  ∀ ⦃taken after more value⦄, read (taken ++ after) = .ok (value, after) → more <+: after →
    read (taken ++ more) = .ok (value, more)

variable {taken after more text : List Char}

theorem head_fewer {c : Char} (fewer : more <+: after) (h : more.head? = some c) : after.head? = some c := by
  obtain ⟨_, rfl⟩ := fewer
  rw [List.head?_append, h]
  rfl

theorem head_none_fewer {p : Char → Bool} (fewer : more <+: after) (h : after.head?.any p = false) :
    more.head?.any p = false := by
  obtain ⟨_, rfl⟩ := fewer
  cases more with
  | nil => rfl
  | cons => exact h

theorem head_any_cons {p : Char → Bool} (h : text.head?.any p = true) : ∃ c rest, text = c :: rest ∧ p c = true := by
  cases text with
  | nil => cases h
  | cons c rest => exact ⟨c, rest, rfl, h⟩

theorem not_suffix_cons {c : Char} {rest : List Char} : ¬ c :: rest <:+ rest := fun longer =>
  Nat.not_succ_le_self _ longer.length_le

theorem split_behind (front : List Char) {middle : List Char} (whole : taken ++ after = front ++ middle)
    (behind : after <:+ middle) : ∃ back, taken = front ++ back ∧ middle = back ++ after := by
  obtain ⟨back, rfl⟩ := behind
  rw [← List.append_assoc] at whole
  exact ⟨back, List.append_cancel_right whole, rfl⟩

theorem ok_of_ite {ε α : Type} {p : Prop} [Decidable p] {x y x' y' : Except ε α} {a a' : α}
    (h : (if p then x else y) = .ok a) (yes : x = .ok a → x' = .ok a') (no : y = .ok a → y' = .ok a') :
    (if p then x' else y') = .ok a' := by
  split at h
  · rename_i holds
    rw [if_pos holds]
    exact yes h
  · rename_i fails
    rw [if_neg fails]
    exact no h

theorem not_behind_itself {α ε : Type} {c : Char} {x y : α} :
    (.ok (x, c :: (taken ++ after)) : Except ε _) ≠ .ok (y, after) := by
  intro h
  have sizes := congrArg List.length (Prod.mk.inj (Except.ok.inj h)).2
  rw [List.length_cons, List.length_append] at sizes
  omega

namespace Number

variable {isDigit : Char → Bool} {begun : Bool} {digits : List Char}

theorem digit_run_stays {c : Char} {rest : List Char} (h : digitRun isDigit begun (c :: rest) = .ok (digits, c :: rest)) :
    digits = [] ∧ isDigit c = false ∧ c ≠ '_' := by
  rw [digitRun] at h
  split at h
  · obtain ⟨⟨_, _⟩, reads, same⟩ := ok_of_map h
    cases same
    exact absurd (digit_run_suffix reads) not_suffix_cons
  · rename_i noDigit
    split at h
    · split at h
      · exact absurd (digit_run_suffix h) not_suffix_cons
      · cases h
    · rename_i noSeparator
      cases h
      exact ⟨rfl, Bool.eq_false_iff.mpr noDigit, noSeparator⟩

theorem digit_run_fewer (h : digitRun isDigit begun after = .ok (digits, after)) (fewer : more <+: after) :
    digits = [] ∧ digitRun isDigit begun more = .ok ([], more) := by
  obtain ⟨tail, rfl⟩ := fewer
  cases more with
  | nil =>
      cases tail with
      | nil =>
          cases h
          exact ⟨rfl, rfl⟩
      | cons c tail => exact ⟨(digit_run_stays h).1, rfl⟩
  | cons c more =>
      obtain ⟨nothing, noDigit, noSeparator⟩ := digit_run_stays h
      exact ⟨nothing, by rw [digitRun, noDigit, if_neg Bool.false_ne_true, if_neg noSeparator]⟩

theorem digit_run_cuts (isDigit : Char → Bool) (begun : Bool) : Cuts (digitRun isDigit begun) := by
  intro taken after more digits h fewer
  induction taken generalizing begun digits with
  | nil =>
      obtain ⟨rfl, stays⟩ := digit_run_fewer h fewer
      exact stays
  | cons c taken ih =>
      rw [List.cons_append, digitRun] at h ⊢
      split at h
      · rename_i digit
        obtain ⟨⟨others, _⟩, reads, same⟩ := ok_of_map h
        cases same
        rw [if_pos digit, ih true reads]
        rfl
      · rename_i noDigit
        split at h
        · rename_i separator
          rw [if_neg noDigit, if_pos separator]
          split at h
          · rename_i inside
            cases taken with
            | nil =>
                -- A digit follows the separator, so the run does not end with it.
                cases after with
                | nil => simp at inside
                | cons d after => simp [(digit_run_stays h).2.1] at inside
            | cons d taken =>
                rw [if_pos (show (begun && (d :: taken ++ more).head?.any isDigit) = true from inside)]
                exact ih begun h
          · cases h
        · exact absurd h not_behind_itself

theorem read_fraction_cuts : Cuts readFraction := by
  intro taken after more fraction h fewer
  cases taken with
  | nil =>
      rw [List.nil_append] at h ⊢
      unfold readFraction at h
      split at h
      · obtain ⟨⟨_, _⟩, reads, same⟩ := ok_of_map h
        cases same
        exact absurd (digit_run_suffix reads) not_suffix_cons
      · rename_i noPoint
        cases h
        refine read_fraction_end fun head => ?_
        obtain ⟨tail, same⟩ := List.head?_eq_some_iff.mp (head_fewer fewer head)
        exact noPoint tail same
  | cons c taken =>
      by_cases point : c = '.'
      · subst point
        obtain ⟨⟨places, _⟩, reads, same⟩ := ok_of_map h
        cases same
        rw [List.cons_append, readFraction, digit_run_cuts _ _ reads fewer]
        rfl
      · rw [List.cons_append, read_fraction_end (by simpa using point)] at h
        exact absurd h not_behind_itself

theorem exponent_mark_cases {text rest : List Char} {negative : Bool} (h : exponentMark? text = some (negative, rest)) :
    ∃ mark d digits, text = mark ++ d :: digits ∧ rest = d :: digits ∧ d.isDigit = true ∧
      ∀ others, exponentMark? (mark ++ d :: others) = some (negative, d :: others) := by
  unfold exponentMark? at h
  split at h
  · cases h
  · rename_i mark rest'
    split at h
    · rename_i marks
      split at h
      · split at h
        · rename_i some
          cases h
          obtain ⟨d, digits, rfl, digit⟩ := head_any_cons some
          refine ⟨[mark, '+'], d, digits, rfl, rfl, digit, fun others => ?_⟩
          simp only [List.cons_append, List.nil_append, exponentMark?, if_pos marks]
          simp [digit]
        · cases h
      · split at h
        · rename_i some
          cases h
          obtain ⟨d, digits, rfl, digit⟩ := head_any_cons some
          refine ⟨[mark, '-'], d, digits, rfl, rfl, digit, fun others => ?_⟩
          simp only [List.cons_append, List.nil_append, exponentMark?, if_pos marks]
          simp [digit]
        · cases h
      · split at h
        · rename_i noPlus noMinus some
          cases h
          obtain ⟨d, digits, rfl, digit⟩ := head_any_cons some
          refine ⟨[mark], d, digits, rfl, rfl, digit, fun others => ?_⟩
          have plus : d ≠ '+' := fun same => noPlus digits (same ▸ rfl)
          have minus : d ≠ '-' := fun same => noMinus digits (same ▸ rfl)
          simp only [List.cons_append, List.nil_append, exponentMark?, if_pos marks]
          simp [digit, plus, minus]
        · cases h
    · cases h

theorem exponent_mark_none (h : exponentMark? after = none) (fewer : more <+: after) : exponentMark? more = none := by
  obtain ⟨tail, rfl⟩ := fewer
  rw [Option.eq_none_iff_forall_ne_some]
  rintro ⟨negative, rest⟩ marked
  obtain ⟨mark, d, digits, rfl, _, _, marks⟩ := exponent_mark_cases marked
  rw [List.append_assoc, List.cons_append, marks] at h
  cases h

theorem read_exponent_cuts : Cuts readExponent := by
  intro taken after more exponent h fewer
  unfold readExponent at h
  split at h
  · rename_i none
    cases taken with
    | nil =>
        cases h
        rw [List.nil_append, readExponent, exponent_mark_none none fewer]
    | cons c taken => exact absurd h not_behind_itself
  · rename_i negative rest marked
    obtain ⟨⟨digits, _⟩, reads, same⟩ := ok_of_map h
    cases same
    obtain ⟨mark, d, others, whole, rfl, digit, marks⟩ := exponent_mark_cases marked
    obtain ⟨back, rfl, behind⟩ := split_behind _ whole (digit_run_suffix reads)
    cases back with
    | nil =>
        have less := digit_run_is_rest digit reads
        rw [behind] at less
        exact absurd less.2 (Nat.lt_irrefl _)
    | cons c back =>
        obtain ⟨rfl, _⟩ := List.cons.inj behind
        rw [behind] at reads
        have run := digit_run_cuts _ _ reads fewer
        rw [List.cons_append] at run
        rw [readExponent, List.append_assoc, List.cons_append, marks]
        simp only [run]
        rfl

theorem decimal_anywhere {other whole : List Char} {fraction : Option (List Char)} {exponent : Option Int}
    {kind : Token.Kind} (h : decimal text whole fraction exponent = .ok kind) :
    decimal other whole fraction exponent = .ok kind :=
  ok_of_ite h id fun h => ok_of_ite h (fun h => by cases h) fun h => ok_of_ite h (fun h => by cases h) id

theorem read_decimal_cuts : Cuts readDecimal := by
  intro taken after more kind h fewer
  obtain ⟨whole, _, fraction, _, exponent, run, point, mark, lower, upper, token⟩ := read_decimal_iff.mp h
  obtain ⟨back, rfl⟩ := read_exponent_suffix mark
  obtain ⟨middle, rfl⟩ := read_fraction_suffix point
  obtain ⟨front, split⟩ := digit_run_suffix run
  rw [← List.append_assoc middle, ← List.append_assoc front] at split
  obtain rfl := List.append_cancel_right split
  simp only [List.append_assoc] at run
  have inner : middle ++ (back ++ more) <+: middle ++ (back ++ after) := by simpa using fewer
  have last : back ++ more <+: back ++ after := by simpa using fewer
  refine read_decimal_iff.mpr ⟨whole, _, fraction, _, exponent, ?_, read_fraction_cuts point last,
    read_exponent_cuts mark fewer, fun head => lower (head_fewer fewer head), fun head => upper (head_fewer fewer head),
    decimal_anywhere token⟩
  have run' := digit_run_cuts _ _ run inner
  simpa only [List.append_assoc] using run'

theorem radix_cases {radix : Nat} (h : radix? text = some radix) :
    ∃ mark rest, text = '0' :: mark :: rest ∧ ∀ others, radix? ('0' :: mark :: others) = some radix := by
  unfold radix? at h
  split at h
  · exact ⟨_, _, rfl, fun _ => h⟩
  · cases h

theorem radix_none_fewer (h : radix? after = none) (fewer : more <+: after) : radix? more = none := by
  obtain ⟨tail, rfl⟩ := fewer
  rw [Option.eq_none_iff_forall_ne_some]
  intro radix announced
  obtain ⟨mark, rest, rfl, announces⟩ := radix_cases announced
  rw [List.cons_append, List.cons_append, announces] at h
  cases h

theorem skip_separator_cons (c : Char) (rest : List Char) :
    skipSeparator (c :: rest) = if c = '_' then rest else c :: rest := by
  by_cases separator : c = '_'
  · rw [if_pos separator, separator, skipSeparator]
  · rw [if_neg separator]
    unfold skipSeparator
    split
    · rename_i same
      cases same
      exact absurd rfl separator
    · rfl

theorem radix_run_cuts (h : digitRun isDigit false (skipSeparator (taken ++ after)) = .ok (digits, after))
    (some : digits ≠ []) (fewer : more <+: after) :
    digitRun isDigit false (skipSeparator (taken ++ more)) = .ok (digits, more) := by
  cases taken with
  | nil =>
      rw [List.nil_append] at h
      cases after with
      | nil => exact absurd (digit_run_fewer h fewer).1 some
      | cons c rest =>
          rw [skip_separator_cons] at h
          split at h
          · exact absurd (digit_run_suffix h) not_suffix_cons
          · exact absurd (digit_run_stays h).1 some
  | cons c taken =>
      rw [List.cons_append, skip_separator_cons] at h ⊢
      split at h
      · rename_i separator
        rw [if_pos separator]
        exact digit_run_cuts _ _ h fewer
      · rename_i noSeparator
        rw [if_neg noSeparator, ← List.cons_append]
        rw [← List.cons_append] at h
        exact digit_run_cuts _ _ h fewer

theorem read_radix_cuts {radix : Nat} {kind : Token.Kind} (announced : radix? (taken ++ after) = some radix)
    (h : readRadix radix (taken ++ after) = .ok (kind, after)) (fewer : more <+: after) :
    radix? (taken ++ more) = some radix ∧ readRadix radix (taken ++ more) = .ok (kind, more) := by
  obtain ⟨mark, rest, whole, announces⟩ := radix_cases announced
  obtain ⟨digits, run, some, ends, small, rfl⟩ := read_radix_iff.mp h
  rw [whole, List.drop_succ_cons, List.drop_succ_cons, List.drop_zero] at run
  obtain ⟨back, rfl, rfl⟩ := split_behind ['0', mark] whole ((digit_run_suffix run).trans (skip_separator_suffix rest))
  refine ⟨announces _, read_radix_iff.mpr ⟨digits, ?_, some, head_none_fewer fewer ends, small, rfl⟩⟩
  exact radix_run_cuts run some fewer

theorem read_cuts : Cuts read := by
  intro taken after more kind h fewer
  unfold read at h
  split at h
  · rename_i announced
    obtain ⟨announces, reads⟩ := read_radix_cuts announced h fewer
    rw [read, announces]
    exact reads
  · rename_i none
    rw [read, radix_none_fewer none ((List.prefix_append_right_inj taken).mpr fewer)]
    exact read_decimal_cuts h fewer

end Number

theorem Word.read_cuts : Cuts Word.read := by
  intro taken after more kind h fewer
  unfold Word.read at h
  dsimp only at h
  split at h
  · cases h
  · rename_i noQuote
    obtain ⟨word, behind⟩ := Prod.mk.inj (Except.ok.inj h)
    rw [behind] at noQuote
    have split := (taken ++ after).takeWhile_append_dropWhile (p := Text.continuesWord)
    rw [behind] at split
    have front := List.append_cancel_right split
    rw [front] at word
    have continues : ∀ c ∈ taken, Text.continuesWord c = true := fun c member => List.mem_takeWhile_imp (front ▸ member)
    have ends : ∀ c, more.head? = some c → Text.continuesWord c = false := by
      intro c head
      have stops := List.head?_dropWhile_not Text.continuesWord (taken ++ after)
      rwa [behind, head_fewer fewer head] at stops
    obtain ⟨nothing, all⟩ := take_while_end ends
    simp only [Word.read, List.takeWhile_append_of_pos continues, List.dropWhile_append_of_pos continues, nothing, all,
      List.append_nil, word, head_none_fewer fewer (Bool.eq_false_iff.mpr noQuote), Bool.false_eq_true, if_false]

theorem Mark.read_cuts : Cuts Mark.read := by
  intro taken after more kind h fewer
  unfold Mark.read at h
  split at h
  · rename_i spelling kind found
    obtain ⟨rfl, behind⟩ := Prod.mk.inj (Except.ok.inj h)
    obtain ⟨fits, longer, shorter, listed, passed⟩ := List.find?_eq_some_iff_append.mp found
    obtain ⟨rest, whole⟩ := List.isPrefixOf_iff_prefix.mp fits
    have same : rest = after := by rw [← behind, ← whole, ← String.length_toList, List.drop_left]
    rw [same] at whole
    obtain rfl := List.append_cancel_right whole
    have again : Mark.table.find? (·.1.toList.isPrefixOf (spelling.toList ++ more)) = some (spelling, kind) := by
      refine List.find?_eq_some_iff_append.mpr ⟨by simp, longer, shorter, listed, fun entry member => ?_⟩
      have no := passed entry member
      rw [Bool.not_eq_true', ← Bool.not_eq_true, List.isPrefixOf_iff_prefix] at no ⊢
      exact fun fits => no (fits.trans ((List.prefix_append_right_inj _).mpr fewer))
    rw [Mark.read, again]
    simp [← String.length_toList]
  · cases h

namespace Quoted

variable {unclosed : Fault} {quote : Char} {triple : Bool} {value : List Char}

theorem code_point_agrees {places : Nat} {point : Char} {other : List Char} (agree : text.take places = other.take places)
    (h : codePoint places text = .ok point) : codePoint places other = .ok point := by
  simp only [codePoint, agree] at h ⊢
  exact ok_of_ite h (fun h => ok_of_ite h id fun h => by cases h) fun h => by cases h

theorem take_while_agrees {p : Char → Bool} {front back : List Char}
    (agree : front.take ((front.takeWhile p).length + 1) = back.take ((front.takeWhile p).length + 1)) :
    back.takeWhile p = front.takeWhile p := by
  induction front generalizing back with
  | nil =>
      cases back with
      | nil => rfl
      | cons => cases agree
  | cons c front ih =>
      cases back with
      | nil => cases agree
      | cons d back =>
          rw [List.take_succ_cons, List.take_succ_cons] at agree
          obtain ⟨rfl, tails⟩ := List.cons.inj agree
          by_cases some : p c = true
          · rw [List.takeWhile_cons_of_pos some, List.length_cons] at tails
            rw [List.takeWhile_cons_of_pos some, List.takeWhile_cons_of_pos some, ih tails]
          · rw [List.takeWhile_cons_of_neg some, List.takeWhile_cons_of_neg some]

-- An escape looks one character further than it reaches.
theorem escape_agrees {used : Nat} {other : List Char} (unclosed' : Fault)
    (agree : text.take (used + 1) = other.take (used + 1)) (h : escape unclosed text = .ok (value, used)) :
    escape unclosed' other = .ok (value, used) := by
  match text, other with
  | [], _ => cases h
  | _ :: _, [] => cases agree
  | c :: text, d :: other =>
      rw [List.take_succ_cons, List.take_succ_cons] at agree
      obtain ⟨rfl, tails⟩ := List.cons.inj agree
      have point {places : Nat}
          (h : (codePoint places text).map (fun point => ([point], places + 1)) = .ok (value, used)) :
          (codePoint places other).map (fun point => ([point], places + 1)) = .ok (value, used) := by
        obtain ⟨point, reads, same⟩ := ok_of_map h
        cases same
        have shorter := congrArg (List.take places) tails
        simp only [List.take_take, Nat.min_eq_left (Nat.le_succ places)] at shorter
        rw [code_point_agrees shorter reads]
        rfl
      rw [escape] at h ⊢
      refine ok_of_ite h id fun h => ok_of_ite h id fun h => ok_of_ite h id fun h => ok_of_ite h id fun h => ?_
      refine ok_of_ite h id fun h => ok_of_ite h id fun h => ok_of_ite h id fun h => ok_of_ite h id fun h => ?_
      refine ok_of_ite h id fun h => ok_of_ite h point fun h => ok_of_ite h point fun h => ok_of_ite h point fun h => ?_
      refine ok_of_ite h (fun h => ?_) id
      cases h
      have digits := congrArg (List.take 2) tails
      rw [List.take_take, List.take_take, Nat.min_comm, ← List.take_take, ← List.take_take] at digits
      rw [take_while_agrees digits]

theorem escape_cuts {unclosed' : Fault} {rest part tail other : List Char} {used : Nat}
    (escaped : escape unclosed rest = .ok (part, used)) (behind : rest.drop used = taken ++ after)
    (some : 0 < taken.length) (reads : readBody unclosed' quote triple (taken ++ other) = .ok (tail, other)) :
    ∃ front, rest = front ++ (taken ++ after) ∧
      readBody unclosed' quote triple ('\\' :: (front ++ (taken ++ other))) = .ok (part ++ tail, other) := by
  have inside : used ≤ rest.length := by
    have sizes := congrArg List.length behind
    rw [List.length_drop, List.length_append] at sizes
    omega
  obtain ⟨front, rfl, rfl⟩ : ∃ front, rest = front ++ (taken ++ after) ∧ used = front.length :=
    ⟨rest.take used, by rw [← behind, List.take_append_drop], (List.length_take_of_le inside).symm⟩
  refine ⟨front, rfl, ?_⟩
  cases taken with
  | nil => exact absurd some (Nat.lt_irrefl 0)
  | cons c taken =>
      have agree : (front ++ (c :: taken ++ after)).take (front.length + 1) =
          (front ++ (c :: taken ++ other)).take (front.length + 1) := by
        rw [List.take_length_add_append, List.take_length_add_append]
        rfl
      exact read_body_escape (escape_agrees unclosed' agree escaped) (by rwa [List.drop_left])

-- The length of the closing quotes.
def closers (triple : Bool) : Nat := if triple then 3 else 1

theorem closers_pos (triple : Bool) : 0 < closers triple := by cases triple <;> decide

theorem closers_le (triple : Bool) : closers triple ≤ 3 := by cases triple <;> decide

-- A literal ends with its closing quotes, so what stands behind them does not matter at all.
theorem read_body_cuts (unclosed' : Fault) (other : List Char)
    (h : readBody unclosed quote triple text = .ok (value, after)) : ∃ taken, text = taken ++ after ∧
      closers triple ≤ taken.length ∧ readBody unclosed' quote triple (taken ++ other) = .ok (value, other) := by
  fun_induction readBody unclosed quote triple text generalizing value with
  | case1 => cases h
  | case2 => cases h
  | case3 rest part used escaped ih =>
      obtain ⟨⟨tail, _⟩, reads, same⟩ := ok_of_map h
      cases same
      obtain ⟨taken, behind, size, again⟩ := ih reads
      obtain ⟨front, rfl, whole⟩ := escape_cuts escaped behind (Nat.lt_of_lt_of_le (closers_pos triple) size) again
      refine ⟨'\\' :: (front ++ taken), by simp, ?_, ?_⟩
      · rw [List.length_cons, List.length_append]
        omega
      · rwa [List.cons_append, List.append_assoc]
  | case4 => cases h
  | case5 c rest noBackslash noNewline closes =>
      cases h
      have single : triple = false := by simpa using (Bool.and_eq_true_iff.mp closes).2
      refine ⟨[c], rfl, ?_, ?_⟩
      · rw [single]
        exact Nat.le_refl 1
      · rw [List.cons_append, readBody, if_neg noBackslash, if_neg noNewline, if_pos closes]
        rfl
  | case6 c rest noBackslash noNewline noClosing closes =>
      cases h
      simp only [Bool.and_eq_true, decide_eq_true_eq] at closes
      obtain ⟨closing, quotes⟩ := closes
      refine ⟨c :: rest.take 2, ?_, ?_, ?_⟩
      · rw [List.cons_append, List.take_append_drop]
      · rw [List.length_cons, quotes]
        exact closers_le triple
      · rw [List.cons_append, readBody, if_neg noBackslash, if_neg noNewline, if_neg noClosing, quotes]
        simp [closing]
  | case7 c rest noBackslash noNewline noClosing noTriple ih =>
      obtain ⟨⟨tail, _⟩, reads, same⟩ := ok_of_map h
      cases same
      obtain ⟨taken, rfl, size, again⟩ := ih reads
      refine ⟨c :: taken, rfl, Nat.le_succ_of_le size, ?_⟩
      have noQuotes : ¬ (c = quote && decide ((taken ++ other).take 2 = [quote, quote])) = true := by
        cases triple with
        | false =>
            intro closes
            exact noClosing (by simpa using (Bool.and_eq_true_iff.mp closes).1)
        | true =>
            have long : 2 ≤ taken.length := Nat.le_of_succ_le size
            rw [List.take_append_of_le_length long] at noTriple ⊢
            exact noTriple
      rw [List.cons_append, readBody, if_neg noBackslash, if_neg noNewline, if_neg noClosing, if_neg noQuotes, again]
      rfl

theorem read_cuts (quote : Char) : Cuts (read quote) := by
  intro taken after more value h fewer
  unfold read at h
  dsimp only at h
  split at h
  · rename_i opens
    obtain ⟨body, behind, _, again⟩ := read_body_cuts ⟨.unterminatedString, taken ++ more⟩ more h
    have whole : taken ++ after = [quote, quote, quote] ++ body ++ after := by
      rw [List.append_assoc, ← behind, ← opens, List.take_append_drop]
    obtain rfl := List.append_cancel_right whole
    have opens : ([quote, quote, quote] ++ body ++ more).take 3 = [quote, quote, quote] := rfl
    rw [read, if_pos opens]
    exact again
  · rename_i single
    obtain ⟨body, behind, size, again⟩ := read_body_cuts ⟨.unterminatedString, taken ++ more⟩ more h
    obtain ⟨c, rfl⟩ : ∃ c, taken = c :: body := by
      cases taken with
      | nil =>
          have sizes := congrArg List.length behind
          rw [List.nil_append, List.length_drop, List.length_append] at sizes
          have some := Nat.lt_of_lt_of_le (closers_pos false) size
          omega
      | cons c taken => exact ⟨c, by rw [List.append_cancel_right behind]⟩
    have still : ((c :: body) ++ more).take 3 ≠ [quote, quote, quote] := by
      intro opens
      obtain ⟨tail, rfl⟩ := fewer
      refine single ?_
      rw [← List.append_assoc, List.take_append_of_le_length, opens]
      have sizes := congrArg List.length opens
      rw [List.length_take] at sizes
      exact Nat.le_trans (Nat.le_of_eq sizes.symm) (Nat.min_le_right _ _)
    rw [read, if_neg still]
    exact again

end Quoted

namespace Lexer

open Token (Kind)

theorem read_map_cuts {α β : Type} {read : List Char → Except Fault (α × List Char)} (cuts : Cuts read) (f : α → β) :
    Cuts fun text => (read text).map fun (value, after) => (f value, after) := by
  intro taken after more value h fewer
  obtain ⟨⟨inner, _⟩, reads, same⟩ := ok_of_map h
  cases same
  dsimp only
  rw [cuts reads fewer]
  rfl

-- A number that begins with its point takes the digit behind it as well.
theorem point_alone {kind : Kind} (h : Number.read ('.' :: after) = .ok (kind, after)) :
    after.head?.any Char.isDigit = false := by
  cases after with
  | nil => rfl
  | cons d after =>
      refine Bool.eq_false_iff.mpr fun digit => ?_
      obtain ⟨whole, behind, fraction, rest, exponent, run, point, mark, _⟩ := Number.read_decimal_iff.mp h
      obtain ⟨_, rfl⟩ := Prod.mk.inj (Except.ok.inj run)
      obtain ⟨⟨places, _⟩, reads, same⟩ := ok_of_map point
      cases same
      have less := is_rest_of_suffix (Number.read_exponent_suffix mark) (Number.digit_run_is_rest digit reads)
      exact Nat.lt_irrefl _ less.2

theorem number_begins {c : Char} {kind : Kind} (h : readVisible (c :: (taken ++ after)) = .ok (kind, after))
    (fewer : more <+: after) :
    (c = '.' && (taken ++ more).head?.any Char.isDigit) = (c = '.' && (taken ++ after).head?.any Char.isDigit) := by
  by_cases point : c = '.'
  · cases taken with
    | nil =>
        subst point
        rw [List.nil_append] at h ⊢
        have none : after.head?.any Char.isDigit = false := by
          by_contra some
          rw [Bool.not_eq_false] at some
          rw [readVisible, if_neg (by decide), if_pos (by simp [some])] at h
          exact Bool.noConfusion (some.symm.trans (point_alone h))
        rw [List.nil_append, none, head_none_fewer fewer none]
    | cons d taken => rfl
  · simp [point]

theorem read_visible_cuts : Cuts readVisible := by
  intro taken after more kind h fewer
  cases taken with
  | nil =>
      cases after with
      | nil => cases h
      | cons c rest => exact absurd (read_visible_is_rest h).2 (Nat.lt_irrefl _)
  | cons c taken =>
      have begins := number_begins h fewer
      rw [List.cons_append, readVisible] at h ⊢
      rw [begins]
      refine ok_of_ite h (fun h => @Word.read_cuts (c :: taken) _ _ _ h fewer) fun h => ?_
      refine ok_of_ite h (fun h => @Number.read_cuts (c :: taken) _ _ _ h fewer) fun h => ?_
      refine ok_of_ite h (fun h => ?_) fun h => @Mark.read_cuts (c :: taken) _ _ _ h fewer
      exact @read_map_cuts _ _ _ (Quoted.read_cuts c) (fun value => Kind.str (String.ofList value)) (c :: taken) _ _ _ h fewer

end Lexer

end Mutagen
