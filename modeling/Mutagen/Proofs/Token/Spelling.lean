import Mutagen.Proofs.Binary64.ReadBack
import Mutagen.Proofs.Token.Quoted
import Mutagen.Token.Lexer
import Mathlib.Data.List.Find

set_option autoImplicit false

namespace Mutagen

def isWord (text : List Char) : Bool :=
  match text with
  | [] => false
  | c :: rest => Text.startsWord c && rest.all Text.continuesWord

def isIdentifier (id : String) : Bool :=
  isWord id.toList && !Keyword.all.any (·.spelling == id) && !reservedWords.contains id

namespace Token.Kind

def spelling : Kind → List Char
  | .name id => id.toList
  | .int value => (toString value).toList
  | .float value => if value.isInfinite then "1e309".toList else value.text .scientific
  | .str value => Quoted.encode value.toList
  | .keyword word => word.spelling.toList
  | .reserved word => word.toList
  | .mark m => m.spelling.toList
  | .augAssign op => (op.symbol ++ "=").toList
  | .newline | .indent | .dedent | .eof => []

def IsReadable : Kind → Prop
  | .name id => isIdentifier id = true
  | .int value => value < Number.bound
  | .float value => value.isNaN = false ∧ value.isNegative = false
  | .str _ | .keyword _ | .mark _ | .augAssign _ => True
  | .reserved _ | .newline | .indent | .dedent | .eof => False

def allows : Kind → Char → Bool
  | .int _ | .float _ => fun c => !Text.continuesWord c && c != '.'
  | .str value => fun c => c != Quoted.quoteFor value.toList
  | .mark m => fun c =>
      !(['=', '*', '/', '<', '>'].contains c) && !(m == .dot && c.isDigit)
  | .augAssign _ => fun c => !(['=', '*', '/', '<', '>'].contains c)
  | _ => fun c => !Text.continuesWord c && !Word.isQuote c

def Allows (kind : Kind) (rest : List Char) : Prop := ∀ c, rest.head? = some c → kind.allows c = true

end Token.Kind

open Token (Kind)
open Token.Kind

theorem starts_continues {c : Char} (h : Text.startsWord c = true) : Text.continuesWord c = true := by
  rcases Bool.or_eq_true_iff.mp h with letter | underscore
  · simp [Text.continuesWord, letter]
  · simp [Text.continuesWord, underscore]

theorem word_cons {text : List Char} (h : isWord text = true) :
    ∃ c rest, text = c :: rest ∧ Text.startsWord c = true ∧ ∀ d ∈ text, Text.continuesWord d = true := by
  cases text with
  | nil => cases h
  | cons c rest =>
      obtain ⟨first, others⟩ := Bool.and_eq_true_iff.mp h
      refine ⟨c, rest, rfl, first, ?_⟩
      intro d member
      rcases List.mem_cons.mp member with rfl | tail
      · exact starts_continues first
      · exact List.all_eq_true.mp others d tail

theorem take_while_end {p : Char → Bool} {rest : List Char} (h : ∀ c, rest.head? = some c → p c = false) :
    rest.takeWhile p = [] ∧ rest.dropWhile p = rest := by
  cases rest with
  | nil => exact ⟨rfl, rfl⟩
  | cons c tail =>
      have stops := h c rfl
      simp [stops]

theorem read_word {text rest : List Char} (h : isWord text = true)
    (ends : ∀ c, rest.head? = some c → (!Text.continuesWord c && !Word.isQuote c) = true) :
    Lexer.readVisible (text ++ rest) = .ok (ofWord (String.ofList text), rest) := by
  obtain ⟨c, tail, shape, starts, all⟩ := word_cons h
  have stops : ∀ d, rest.head? = some d → Text.continuesWord d = false ∧ Word.isQuote d = false := by
    intro d head
    simpa using ends d head
  obtain ⟨taken, dropped⟩ := take_while_end fun d head => (stops d head).1
  have noPrefix : rest.head?.any Word.isQuote = false := by
    cases head : rest.head? with
    | none => rfl
    | some d => exact (stops d head).2
  have visible : Lexer.readVisible (text ++ rest) = Word.read (text ++ rest) := by
    rw [shape, List.cons_append, Lexer.readVisible, if_pos starts]
  rw [visible, Word.read]
  simp only [List.takeWhile_append_of_pos all, List.dropWhile_append_of_pos all, taken, dropped,
    List.append_nil, noPrefix, Bool.false_eq_true, if_false]

theorem of_word_identifier {id : String} (h : isIdentifier id = true) : ofWord id = .name id := by
  simp only [isIdentifier, Bool.and_eq_true, Bool.not_eq_true'] at h
  have none : Keyword.all.find? (·.spelling == id) = none := by
    rw [List.find?_eq_none]
    intro word member same
    have := List.any_eq_false.mp h.1.2 word member
    exact this same
  rw [ofWord, none]
  simp only [h.2, Bool.false_eq_true, if_false]

theorem keyword_is_word (word : Keyword) : isWord word.spelling.toList = true := by
  cases word <;> decide

theorem of_word_keyword (word : Keyword) : ofWord word.spelling = .keyword word := by
  cases word <;> rfl

theorem in_ranges_below {code low high : Nat} {rest : List (Nat × Nat)} (h : code < low) :
    Text.inRanges code ((low, high) :: rest) = false := by
  rw [Text.inRanges, decide_eq_false (Nat.not_le_of_lt h), Bool.false_and]

theorem digit_not_starts {c : Char} (h : c.isDigit = true) : Text.startsWord c = false := by
  obtain ⟨low, high⟩ := digit_bounds h
  have letter : Text.isAlphabetic c = false := in_ranges_below (Nat.lt_of_le_of_lt high (by decide))
  have underscore : c ≠ '_' := by
    rintro rfl
    exact absurd high (by decide)
  simp [Text.startsWord, letter, underscore]

theorem read_visible_number {c : Char} {rest : List Char} (h : c.isDigit = true) :
    Lexer.readVisible (c :: rest) = Number.read (c :: rest) := by
  simp [Lexer.readVisible, digit_not_starts h, h]

theorem to_digits_cons (n : Nat) : ∃ c rest, Nat.toDigits 10 n = c :: rest ∧ c.isDigit = true := by
  cases digits : Nat.toDigits 10 n with
  | nil => exact absurd digits Nat.toDigits_ne_nil
  | cons c rest => exact ⟨c, rest, rfl, all_digits_to_digits n c (by simp [digits])⟩

theorem decimal_cons {d : Binary64.Decimal} {magnitude : Nat} (h : d.Denotes magnitude) :
    (∃ c rest, d.inPlace true = c :: rest ∧ c.isDigit = true) ∧
      ∃ c rest, d.withExponent = c :: rest ∧ c.isDigit = true := by
  obtain ⟨digits, exponent⟩ := d
  cases digits with
  | nil => exact absurd rfl h.nonempty
  | cons c tail =>
      have first : c.isDigit = true := h.digits c (by simp)
      refine ⟨?_, c, _, rfl, first⟩
      rw [Binary64.Decimal.inPlace]
      split
      · exact ⟨'0', _, rfl, rfl⟩
      · dsimp only
        split
        · exact ⟨c, _, rfl, first⟩
        · exact ⟨c, _, rfl, first⟩

theorem finite_text_cons (magnitude : Nat) (finite : magnitude ≤ Binary64.infinite) :
    ∃ c rest, Binary64.finiteText .scientific magnitude = c :: rest ∧ c.isDigit = true := by
  rw [Binary64.finiteText]
  split
  · exact ⟨'0', ".0".toList, rfl, rfl⟩
  · rename_i positive
    obtain ⟨inPlace, withExponent⟩ := decimal_cons (Binary64.shortest_denotes magnitude positive finite)
    dsimp only
    split
    · exact inPlace
    · exact withExponent

theorem of_magnitude_self {x : Binary64} (h : x.isNegative = false) : .ofMagnitude x.magnitude = x := by
  have small : x.bits.toNat < 2 ^ 63 := by simpa [Binary64.isNegative] using h
  have same : x.magnitude = x.bits.toNat := Nat.mod_eq_of_lt small
  cases x
  simp [Binary64.ofMagnitude, same]

theorem read_float {value : Binary64} {rest : List Char} (h : (Kind.float value).IsReadable)
    (ends : Number.Ends rest) :
    Lexer.readVisible ((Kind.float value).spelling ++ rest) = .ok (.float value, rest) := by
  obtain ⟨number, positive⟩ := h
  rw [spelling]
  split
  · rename_i infinite
    have same : value.magnitude = Binary64.infinite := by simpa [Binary64.isInfinite] using infinite
    have reads := Number.read_infinity ends
    rw [← same, of_magnitude_self positive] at reads
    exact reads ▸ read_visible_number (c := '1') rfl
  · rename_i finite
    have bounded : value.magnitude ≤ Binary64.infinite := by simpa [Binary64.isNaN] using number
    have text : value.text .scientific = Binary64.finiteText .scientific value.magnitude := by
      simp [Binary64.text, number, positive, finite]
    obtain ⟨c, tail, shape, digit⟩ := finite_text_cons value.magnitude bounded
    have reads := Number.read_finite_text value.magnitude bounded ends
    rw [of_magnitude_self positive] at reads
    rw [text, ← reads, shape]
    exact read_visible_number digit

def markTails : List Char := ['=', '*', '/', '<', '>']

theorem prefix_append_stop {p : Char → Prop} (entry text rest : List Char) (tails : ∀ c ∈ entry, p c)
    (stops : ∀ c, rest.head? = some c → ¬ p c) :
    entry.isPrefixOf (text ++ rest) = entry.isPrefixOf text := by
  induction text generalizing entry with
  | nil =>
      cases entry with
      | nil => cases rest <;> rfl
      | cons c others =>
          cases rest with
          | nil => rfl
          | cons d tail =>
              have other : c ≠ d := fun same => stops d rfl (same ▸ tails c (by simp))
              simp [List.isPrefixOf, other]
  | cons d text ih =>
      cases entry with
      | nil => rfl
      | cons c others =>
          have := ih others fun x member => tails x (List.mem_cons_of_mem c member)
          simp [List.isPrefixOf, this]

theorem table_tails : ∀ entry ∈ Mark.table, entry.1.toList.tail.all (markTails.contains ·) = true := by
  decide

theorem read_mark {c : Char} {tail rest : List Char} {spelling : String} {kind : Kind}
    (shape : spelling.toList = c :: tail)
    (found : Mark.table.find? (·.1.toList.isPrefixOf spelling.toList) = some (spelling, kind))
    (stops : ∀ d, rest.head? = some d → d ∉ markTails) :
    Mark.read (spelling.toList ++ rest) = .ok (kind, rest) := by
  have same : ∀ entry ∈ Mark.table,
      entry.1.toList.isPrefixOf (spelling.toList ++ rest) = entry.1.toList.isPrefixOf spelling.toList := by
    intro entry member
    cases chars : entry.1.toList with
    | nil => cases h : spelling.toList ++ rest <;> cases spelling.toList <;> rfl
    | cons d others =>
        have tails := table_tails entry member
        rw [chars, List.tail_cons] at tails
        have step := prefix_append_stop others tail rest (by simpa using tails) stops
        simp [List.isPrefixOf, shape, step]
  have search : Mark.table.find? (·.1.toList.isPrefixOf (spelling.toList ++ rest)) =
      Mark.table.find? (·.1.toList.isPrefixOf spelling.toList) :=
    List.find?_congr same
  rw [Mark.read, search, found]
  simp [← String.length_toList]

theorem mark_cons (m : Mark) : ∃ c tail, m.spelling.toList = c :: tail ∧ Text.startsWord c = false ∧
    c.isDigit = false ∧ Word.isQuote c = false ∧ (c = '.' → m = .dot) := by
  cases m <;> exact ⟨_, _, rfl, by decide, by decide, by decide, by decide⟩

theorem augmented_cons (op : ArithmeticOp) : ∃ c tail, (op.symbol ++ "=").toList = c :: tail ∧
    Text.startsWord c = false ∧ c.isDigit = false ∧ Word.isQuote c = false ∧ c ≠ '.' := by
  cases op <;> exact ⟨_, _, rfl, by decide, by decide, by decide, by decide⟩

theorem find_mark (m : Mark) :
    Mark.table.find? (·.1.toList.isPrefixOf m.spelling.toList) = some (m.spelling, .mark m) := by
  cases m <;> rfl

theorem find_augmented (op : ArithmeticOp) :
    Mark.table.find? (·.1.toList.isPrefixOf (op.symbol ++ "=").toList) =
      some (op.symbol ++ "=", .augAssign op) := by
  cases op <;> rfl

theorem read_visible_mark {c : Char} {rest : List Char} (noWord : Text.startsWord c = false)
    (noDigit : c.isDigit = false) (noQuote : Word.isQuote c = false)
    (noPoint : c = '.' → rest.head?.any Char.isDigit = false) :
    Lexer.readVisible (c :: rest) = Mark.read (c :: rest) := by
  have noNumber : (c = '.' && rest.head?.any Char.isDigit) = false := by
    by_cases point : c = '.'
    · simp [noPoint point]
    · simp [point]
  simp [Lexer.readVisible, noWord, noDigit, noQuote, noNumber]

theorem read_string {value : String} {rest : List Char}
    (ends : rest.head? ≠ some (Quoted.quoteFor value.toList)) :
    Lexer.readVisible (Quoted.encode value.toList ++ rest) = .ok (.str value, rest) := by
  have reads := Quoted.read_encode value.toList rest ends
  have shape : ∃ tail, Quoted.encode value.toList ++ rest = Quoted.quoteFor value.toList :: tail := ⟨_, rfl⟩
  obtain ⟨tail, shape⟩ := shape
  rw [shape] at reads ⊢
  have quote := Quoted.is_quote_for value.toList
  generalize Quoted.quoteFor value.toList = q at quote reads ⊢
  have visible : Lexer.readVisible (q :: tail) =
      (Quoted.read q (q :: tail)).map fun read => (.str (String.ofList read.1), read.2) := by
    rcases quote with rfl | rfl
    · rfl
    · rfl
  rw [visible, reads]
  simp [Except.map]

theorem read_visible_spelling {kind : Kind} {rest : List Char} (readable : kind.IsReadable)
    (ends : kind.Allows rest) : Lexer.readVisible (kind.spelling ++ rest) = .ok (kind, rest) := by
  cases kind with
  | name id =>
      have word : isWord id.toList = true := by
        simp only [IsReadable, isIdentifier, Bool.and_eq_true] at readable
        exact readable.1.1
      rw [spelling, read_word word ends, String.ofList_toList, of_word_identifier readable]
  | keyword word =>
      rw [spelling, read_word (keyword_is_word word) ends, String.ofList_toList, of_word_keyword]
  | int value =>
      have stops : Number.Ends rest := fun c head => by simpa [allows] using ends c head
      have reads := Number.read_int value rest readable stops
      obtain ⟨c, tail, shape, digit⟩ := to_digits_cons value
      have text : (toString value).toList = c :: tail := by simp [shape]
      rw [spelling]
      rw [text, List.cons_append] at reads ⊢
      rw [read_visible_number digit, reads]
  | float value =>
      have stops : Number.Ends rest := fun c head => by simpa [allows] using ends c head
      exact read_float readable stops
  | str value =>
      refine read_string fun same => ?_
      have := ends _ same
      simp [allows] at this
  | mark m =>
      obtain ⟨c, tail, shape, noWord, noDigit, noQuote, point⟩ := mark_cons m
      have stops : ∀ d, rest.head? = some d → d ∉ markTails := by
        intro d head
        have := ends d head
        simp only [allows, Bool.and_eq_true, Bool.not_eq_true'] at this
        simpa [markTails] using this.1
      have noPoint : c = '.' → (tail ++ rest).head?.any Char.isDigit = false := by
        intro same
        cases point same
        cases shape
        cases head : rest.head? with
        | none => simp [head]
        | some d =>
            have := ends d head
            simp only [allows, Bool.and_eq_true, Bool.not_eq_true', beq_self_eq_true, Bool.true_and] at this
            simp [head, this.2]
      have reads := read_mark shape (find_mark m) stops
      rw [spelling]
      rw [shape, List.cons_append] at reads ⊢
      rw [read_visible_mark noWord noDigit noQuote noPoint, reads]
  | augAssign op =>
      obtain ⟨c, tail, shape, noWord, noDigit, noQuote, point⟩ := augmented_cons op
      have stops : ∀ d, rest.head? = some d → d ∉ markTails := by
        intro d head
        simpa [allows, markTails] using ends d head
      have reads := read_mark shape (find_augmented op) stops
      rw [spelling]
      rw [shape, List.cons_append] at reads ⊢
      rw [read_visible_mark noWord noDigit noQuote fun same => absurd same point, reads]
  | reserved _ | newline | indent | dedent | eof => exact readable.elim

end Mutagen
