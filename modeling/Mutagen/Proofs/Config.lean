import Mutagen.Config.Toml
import Mutagen.Proofs.Binary64.ReadBack

set_option autoImplicit false

namespace Mutagen

namespace Binary64

theorem inside_unit {x : Binary64} (inside : x.inUnitInterval = true) : x.magnitude < infinite := by
  have limit : unit < infinite := by decide
  rw [inUnitInterval] at inside
  split at inside
  · rw [eq_of_beq inside]
    decide
  · exact Nat.lt_of_le_of_lt (of_decide_eq_true inside) limit

theorem of_sign (x : Binary64) : Config.signed x.isNegative x.magnitude = x := by
  have small : x.bits.toNat < 2 ^ 64 := x.bits.toNat_lt
  have whole : (if x.isNegative then 2 ^ 63 + x.magnitude else x.magnitude) = x.bits.toNat := by
    rw [isNegative, magnitude]
    split
    · rename_i high
      have := of_decide_eq_true high
      omega
    · rename_i low
      rw [decide_eq_true_eq] at low
      omega
  rw [Config.signed, whole, ofMagnitude, UInt64.ofNat_toNat]

theorem finite_parts {magnitude : Nat} (finite : magnitude ≤ infinite) :
    ∃ whole places, Number.Places (finiteText .fractional magnitude) magnitude whole places := by
  by_cases zero : magnitude = 0
  · have text : finiteText .fractional magnitude = ['0'] ++ '.' :: ['0'] := by rw [finiteText, if_pos zero]; rfl
    have value : nearestDecimal (valueOf 10 (['0'] ++ ['0'])) (0 - (['0'] : List Char).length) = magnitude := by
      rw [← List.replicate_one, List.replicate_append_replicate, value_of_zeros, zero]
      simp [nearestDecimal]
    exact ⟨_, _, text, all_digits_zeros 1, List.cons_ne_nil _ _, fun _ => rfl, all_digits_zeros 1, List.cons_ne_nil _ _, value⟩
  · have text : finiteText .fractional magnitude = (shortest magnitude).inPlace true := by
      rw [finiteText, if_neg zero]
      exact if_pos rfl
    rw [text]
    exact Number.in_place_parts (shortest_denotes magnitude zero finite)

end Binary64

namespace Config

open Number (Places EndsRun)

variable {magnitude : Nat} {text whole places rest : List Char} {negative : Bool}

theorem digits_taken {front : List Char} (all : AllDigits front) (nonempty : front ≠ []) (ends : EndsRun rest) :
    digits? Char.isDigit (front ++ rest) = some (front, rest) := by
  rw [digits?, Number.digit_run_append false front rest all ends]
  dsimp only
  rw [if_neg (by simpa using nonempty)]

theorem read_decimal (parts : Places text magnitude whole places) (finite : magnitude ≠ Binary64.infinite) :
    readDecimal? negative text = some (signed negative magnitude, []) := by
  have front := digits_taken parts.front parts.nonempty (Number.dot_ends_run places)
  have ends : EndsRun [] := fun c head => nomatch head
  have back := digits_taken parts.back parts.behind ends
  have single : (whole.head? = some '0' && 1 < whole.length) = false := by
    by_cases zero : whole.head? = some '0'
    · rw [parts.leads zero]
      rfl
    · simp [zero]
  rw [List.append_nil] at back
  have fraction : readPlaces? ('.' :: places) = some (some places, []) := by
    rw [readPlaces?, back]
    rfl
  rw [parts.spelled, readDecimal?, front]
  simp only [Option.bind_eq_bind, Option.bind_some, fraction, readPower?, single, Option.isSome_some, Option.getD_some,
    Option.getD_none, Bool.true_or, Bool.false_eq_true, if_false, if_true, parts.value]
  rw [if_neg (by simp [finite])]
  rfl

theorem read_unsigned_digit {c : Char} {tail : List Char} (digit : c.isDigit = true) :
    readUnsigned? negative (c :: tail) = readDecimal? negative (c :: tail) := by
  unfold readUnsigned?
  split
  · rename_i same
    cases same
    cases digit
  · rename_i same
    cases same
    cases digit
  · rfl

theorem read_number_digit {c : Char} {tail : List Char} (digit : c.isDigit = true)
    (decimal : ∀ mark, tail.head? = some mark → mark ∉ ['x', 'o', 'b']) :
    readNumber? (c :: tail) = readUnsigned? false (c :: tail) := by
  unfold readNumber?
  split
  all_goals first
    | rfl
    | (rename_i same; cases same; first | exact absurd (by simp) (decimal _ rfl) | cases digit)

-- A number in a document is written with these characters.
def isWritten (c : Char) : Bool := c.isDigit || c == '.' || c == '-'

theorem written_digits {digits : List Char} (all : AllDigits digits) : ∀ c ∈ digits, isWritten c = true := by
  intro c member
  rw [isWritten, all c member]
  rfl

theorem parts_written (parts : Places text magnitude whole places) : ∀ c ∈ text, isWritten c = true := by
  intro c member
  rw [parts.spelled, List.mem_append, List.mem_cons] at member
  obtain front | rfl | back := member
  · exact written_digits parts.front c front
  · rfl
  · exact written_digits parts.back c back

theorem read_unsigned (parts : Places text magnitude whole places) (finite : magnitude ≠ Binary64.infinite) :
    readUnsigned? negative text = some (signed negative magnitude, []) := by
  obtain ⟨c, tail, front⟩ := List.exists_cons_of_ne_nil parts.nonempty
  have digit : c.isDigit = true := parts.front c (by rw [front]; exact List.mem_cons_self)
  rw [← read_decimal parts finite, parts.spelled, front, List.cons_append, read_unsigned_digit digit]

theorem read_positive (parts : Places text magnitude whole places) (finite : magnitude ≠ Binary64.infinite) :
    readNumber? text = some (signed false magnitude, []) := by
  obtain ⟨c, tail, front⟩ := List.exists_cons_of_ne_nil parts.nonempty
  have digit : c.isDigit = true := parts.front c (by rw [front]; exact List.mem_cons_self)
  have decimal : ∀ mark, (tail ++ '.' :: places).head? = some mark → mark ∉ ['x', 'o', 'b'] := by
    intro mark second named
    have plain : mark.isDigit = true ∨ mark = '.' := by
      cases tail with
      | nil => exact .inr (Option.some.inj second).symm
      | cons d more =>
        cases Option.some.inj second
        exact .inl (parts.front _ (by rw [front]; simp))
    simp only [List.mem_cons, List.not_mem_nil, or_false] at named
    obtain rfl | rfl | rfl := named <;> simp at plain
  have unsigned : readUnsigned? false text = some (signed false magnitude, []) := read_unsigned parts finite
  rw [← unsigned, parts.spelled, front, List.cons_append, read_number_digit digit decimal]

theorem text_reads (p : Probability) :
    (∀ c ∈ p.value.text .fractional, isWritten c = true) ∧
      readNumber? (p.value.text .fractional) = some (p.value, []) := by
  obtain ⟨x, inside⟩ := p
  have finite := Binary64.inside_unit inside
  have apart := Nat.ne_of_lt finite
  obtain ⟨whole, places, parts⟩ := Binary64.finite_parts (Nat.le_of_lt finite)
  have number : x.isNaN = false := by
    rw [Binary64.isNaN, decide_eq_false_iff_not]
    exact Nat.not_lt_of_le (Nat.le_of_lt finite)
  have bounded : x.isInfinite = false := by simpa [Binary64.isInfinite] using apart
  have text : x.text .fractional =
      (if x.isNegative then ['-'] else []) ++ Binary64.finiteText .fractional x.magnitude := by
    simp only [Binary64.text, number, bounded, Bool.false_eq_true, if_false]
  have sign := Binary64.of_sign x
  simp only [text]
  cases negative : x.isNegative
  · rw [negative] at sign
    have read := read_positive parts apart
    rw [sign] at read
    exact ⟨parts_written parts, read⟩
  · rw [negative] at sign
    refine ⟨fun c member => ?_, ?_⟩
    · obtain rfl | member := List.mem_cons.mp member
      · rfl
      · exact parts_written parts c member
    · have read : readUnsigned? true (Binary64.finiteText .fractional x.magnitude) = some (signed true x.magnitude, []) :=
        read_unsigned parts apart
      rw [sign] at read
      rw [if_pos rfl, List.cons_append, List.nil_append, readNumber?, read]

theorem split_lines {line : List Char} (single : ∀ c ∈ line, c ≠ '\n' ∧ c ≠ '\r') (rest : List Char) :
    splitLines (line ++ '\n' :: rest) = line :: splitLines rest := by
  induction line with
  | nil => rfl
  | cons c line ih =>
    have first := single c List.mem_cons_self
    have behind := ih fun d member => single d (List.mem_cons_of_mem _ member)
    rw [List.cons_append, splitLines]
    · rw [behind]
    · exact fun same => first.1 same
    · exact fun _ same _ => first.2 same

def pairLine (key : Key) (p : Probability) : List Char :=
  key.name.toList ++ " = ".toList ++ p.value.text .fractional

theorem to_toml_lines (config : Config) :
    (toToml config).toList = Key.all.flatMap fun key => pairLine key (config.get key) ++ ['\n'] := by
  rw [toToml, String.toList_ofList]
  rfl

theorem name_single (key : Key) :
    (key.name.toList ++ " = ".toList).all (fun c => c != '\n' && c != '\r') = true := by
  cases key <;> rfl

theorem pair_line_single (key : Key) (p : Probability) : ∀ c ∈ pairLine key p, c ≠ '\n' ∧ c ≠ '\r' := by
  intro c member
  rw [pairLine, List.mem_append] at member
  obtain name | number := member
  · simpa using List.all_eq_true.mp (name_single key) c name
  · have written := (text_reads p).1 c number
    constructor
    all_goals rintro rfl; cases written

theorem key_reads (key : Key) (rest : List Char) :
    readKey? (key.name.toList ++ ' ' :: rest) = some (key.name.toList, ' ' :: rest) := by
  cases key <;> rfl

theorem key_found (key : Key) : Key.all.find? (·.name.toList == key.name.toList) = some key := by
  cases key <;> decide

theorem pair_line_key (key : Key) (p : Probability) :
    isLineEnd (pairLine key p) = false ∧ (pairLine key p).dropWhile isSpace = pairLine key p := by
  cases key <;> exact ⟨rfl, rfl⟩

theorem text_begins (p : Probability) :
    (p.value.text .fractional).dropWhile isSpace = p.value.text .fractional := by
  cases text : p.value.text .fractional with
  | nil => rfl
  | cons c tail =>
    have written : isWritten c = true := (text_reads p).1 c (by rw [text]; exact List.mem_cons_self)
    have solid : ¬ isSpace c = true := by
      intro space
      rw [isSpace, Bool.or_eq_true, beq_iff_eq, beq_iff_eq] at space
      obtain rfl | rfl := space <;> cases written
    rw [List.dropWhile_cons, if_neg solid]

theorem pair_line_reads (key : Key) (p : Probability) : readPair? (pairLine key p) = some (key, p.value) := by
  have spelled : pairLine key p = key.name.toList ++ ' ' :: '=' :: ' ' :: p.value.text .fractional := by
    rw [pairLine, List.append_assoc]
    rfl
  have equals : (' ' :: '=' :: ' ' :: p.value.text .fractional).dropWhile isSpace = '=' :: ' ' :: p.value.text .fractional := rfl
  have value : (' ' :: p.value.text .fractional).dropWhile isSpace = p.value.text .fractional := text_begins p
  rw [readPair?, spelled, key_reads]
  simp only [Option.bind_eq_bind, Option.bind_some, key_found, equals, value, (text_reads p).2]
  rfl

theorem check_probability (key : Key) (p : Probability) : check key p.value = .ok p := by
  rw [check, Probability.ofFloat?, dif_pos p.in_unit]

theorem read_lines (config : Config) : readPairs? (splitLines (toToml config).toList) =
    some (Key.all.map fun key => (key, (config.get key).value)) := by
  have lines : splitLines (toToml config).toList = Key.all.map (fun key => pairLine key (config.get key)) ++ [[]] := by
    simp only [to_toml_lines, Key.all, List.flatMap_cons, List.flatMap_nil, List.append_assoc, List.cons_append,
      List.nil_append, split_lines (pair_line_single _ _), List.map_cons, List.map_nil]
    rfl
  rw [lines]
  simp only [Key.all, List.map_cons, List.map_nil, List.cons_append, List.nil_append, readPairs?, Option.bind_eq_bind,
    Option.bind_some, (pair_line_key _ _).1, (pair_line_key _ _).2, pair_line_reads]
  rfl

theorem toml_round_trip (config : Config) : ofToml (toToml config) = .ok config := by
  have plain : ∃ rest, (toToml config).toList = 'p' :: rest := ⟨_, to_toml_lines config⟩
  obtain ⟨rest, first⟩ := plain
  have read := read_lines config
  rw [first] at read
  have values (key : Key) : valueOfKey (Key.all.map fun key => (key, (config.get key).value)) key = (config.get key).value := by
    cases key <;> rfl
  rw [ofToml, first]
  split
  · rename_i malformed
    cases malformed.symm.trans read
  · rename_i pairs found
    cases found.symm.trans read
    simp only [values, ofFloats, check_probability]
    rfl

theorem check_inside {x : Binary64} (key : Key) (inside : x.inUnitInterval = true) : check key x = .ok ⟨x, inside⟩ :=
  check_probability key ⟨x, inside⟩

theorem check_outside {x : Binary64} (key : Key) (outside : x.inUnitInterval = false) :
    check key x = .error (.outOfRange key x) := by
  rw [check, Probability.ofFloat?, dif_neg (by simp [outside])]

/-- The error names the first key out of range, in the order the keys are checked. -/
theorem of_floats_error_iff (values : Key → Binary64) (e : Error) :
    ofFloats (values .pVariable) (values .pSwapBranches) (values .pClearDict) = .error e ↔
      ∃ key, Key.all.find? (fun key => !(values key).inUnitInterval) = some key ∧
        e = .outOfRange key (values key) := by
  rw [ofFloats]
  cases first : (values .pVariable).inUnitInterval
  · simp [Key.all, first, check_outside, bind, Except.bind, @eq_comm Error _ e]
  · cases second : (values .pSwapBranches).inUnitInterval
    · simp [Key.all, first, second, check_inside, check_outside, bind, Except.bind, @eq_comm Error _ e]
    · cases third : (values .pClearDict).inUnitInterval
      · simp [Key.all, first, second, third, check_inside, check_outside, bind, Except.bind, @eq_comm Error _ e]
      · simp [Key.all, first, second, third, check_inside, bind, Except.bind, pure, Except.pure]

theorem of_floats_ok_iff (values : Key → Binary64) (config : Config) :
    ofFloats (values .pVariable) (values .pSwapBranches) (values .pClearDict) = .ok config ↔
      ∀ key, (config.get key).value = values key := by
  constructor
  · intro accepted
    have inside (key : Key) : (values key).inUnitInterval = true := by
      cases find : Key.all.find? fun key => !(values key).inUnitInterval with
      | none =>
        have all := List.find?_eq_none.mp find key (by cases key <;> decide)
        simpa using all
      | some found =>
        have refused := (of_floats_error_iff values _).mpr ⟨found, find, rfl⟩
        rw [accepted] at refused
        cases refused
    simp only [ofFloats, check_inside _ (inside _)] at accepted
    cases accepted
    intro key
    cases key <;> rfl
  · intro same
    simp only [ofFloats, ← same, check_probability]
    rfl

end Config

end Mutagen
