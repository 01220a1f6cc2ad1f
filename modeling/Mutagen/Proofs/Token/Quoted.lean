import Mutagen.Token.Quoted

set_option autoImplicit false

namespace Mutagen.Quoted

def IsQuote (quote : Char) : Prop := quote = '\'' ∨ quote = '"'

theorem is_quote_for (text : List Char) : IsQuote (quoteFor text) := by
  unfold quoteFor
  split
  · exact .inr rfl
  · exact .inl rfl

variable {quote : Char}

theorem digit_value_of_digit_char : ∀ n < 16, digitValue (Nat.digitChar n) = some n := by decide

theorem code_point_of_byte (n : Nat) (h : n < 128) (rest : List Char) :
    codePoint 2 (Nat.digitChar (n / 16) :: Nat.digitChar (n % 16) :: rest) = .ok (Char.ofNat n) := by
  have high := digit_value_of_digit_char (n / 16) (by omega)
  have low := digit_value_of_digit_char (n % 16) (by omega)
  have value : valueOf 16 [Nat.digitChar (n / 16), Nat.digitChar (n % 16)] = n := by
    simp only [valueOf, List.foldl_cons, List.foldl_nil, high, low, Option.getD_some]
    omega
  have digits : [Nat.digitChar (n / 16), Nat.digitChar (n % 16)].all (isDigitOf 16) = true := by
    have : n / 16 < 16 := by omega
    have : n % 16 < 16 := by omega
    simp [isDigitOf, *]
  have valid : n.isValidChar := .inl (by omega)
  simp only [codePoint, List.take_succ_cons, List.take_zero, List.length_cons, List.length_nil,
    Nat.zero_add, Nat.reduceAdd, decide_true, Bool.true_and, digits, value, if_true, if_pos valid]

theorem encode_char_cases (c : Char) :
    (∃ letter, encodeChar quote c = ['\\', letter] ∧
      ((letter, c) ∈ [('\\', '\\'), ('n', '\n'), ('r', '\r'), ('t', '\t')] ∨ letter = quote ∧ c = quote)) ∨
    (encodeChar quote c = ['\\', 'x', Nat.digitChar (c.toNat / 16), Nat.digitChar (c.toNat % 16)] ∧
      c.toNat < 128) ∨
    (encodeChar quote c = [c] ∧ c ≠ '\\' ∧ c ≠ '\n' ∧ c ≠ quote) := by
  unfold encodeChar
  split
  · rename_i h; exact .inl ⟨'\\', rfl, .inl (by simp [h])⟩
  · split
    · rename_i h; exact .inl ⟨'n', rfl, .inl (by simp [h])⟩
    · split
      · rename_i h; exact .inl ⟨'r', rfl, .inl (by simp [h])⟩
      · split
        · rename_i h; exact .inl ⟨'t', rfl, .inl (by simp [h])⟩
        · split
          · rename_i h; exact .inl ⟨c, rfl, .inr ⟨h, h⟩⟩
          · split
            · rename_i control
              simp only [isControl, Bool.or_eq_true, decide_eq_true_eq, beq_iff_eq] at control
              exact .inr (.inl ⟨rfl, by omega⟩)
            · exact .inr (.inr ⟨rfl, by assumption, by assumption, by assumption⟩)

theorem encode_char_head (c : Char) (hq : IsQuote quote) :
    ∃ first others, encodeChar quote c = first :: others ∧ first ≠ quote := by
  have backslash : '\\' ≠ quote := by rcases hq with rfl | rfl <;> decide
  rcases @encode_char_cases quote c with ⟨letter, text, _⟩ | ⟨text, _⟩ | ⟨text, _, _, other⟩
  · exact ⟨'\\', _, text, backslash⟩
  · exact ⟨'\\', _, text, backslash⟩
  · exact ⟨c, [], text, other⟩

theorem read_body_escape {unclosed : Fault} {triple : Bool} {rest value tail after : List Char} {used : Nat}
    (he : escape unclosed rest = .ok (value, used))
    (hr : readBody unclosed quote triple (rest.drop used) = .ok (tail, after)) :
    readBody unclosed quote triple ('\\' :: rest) = .ok (value ++ tail, after) := by
  rw [readBody, if_pos rfl, he]
  simp only [hr]
  rfl

theorem read_body_encode (unclosed : Fault) (hq : IsQuote quote) (text rest : List Char) :
    readBody unclosed quote false (text.flatMap (encodeChar quote) ++ quote :: rest) = .ok (text, rest) := by
  have backslash : quote ≠ '\\' := by rcases hq with rfl | rfl <;> decide
  have newline : quote ≠ '\n' := by rcases hq with rfl | rfl <;> decide
  induction text with
  | nil => simp [readBody, backslash, newline]
  | cons c tail ih =>
      rw [List.flatMap_cons, List.append_assoc]
      rcases @encode_char_cases quote c with ⟨letter, spelled, meaning⟩ | ⟨spelled, small⟩ | ⟨spelled, plain⟩
      · have escaped (more : List Char) : escape unclosed (letter :: more) = .ok ([c], 1) := by
          rcases meaning with listed | ⟨rfl, rfl⟩
          · simp only [List.mem_cons, Prod.mk.injEq, List.not_mem_nil, or_false] at listed
            rcases listed with ⟨rfl, rfl⟩ | ⟨rfl, rfl⟩ | ⟨rfl, rfl⟩ | ⟨rfl, rfl⟩ <;> simp [escape]
          · rcases hq with rfl | rfl <;> simp [escape]
        rw [spelled]
        exact read_body_escape (escaped _) ih
      · have escaped (more : List Char) : escape unclosed
            ('x' :: Nat.digitChar (c.toNat / 16) :: Nat.digitChar (c.toNat % 16) :: more) = .ok ([c], 3) := by
          have point := code_point_of_byte c.toNat small more
          rw [Char.ofNat_toNat] at point
          simp [escape, point, Except.map]
        rw [spelled]
        exact read_body_escape (escaped _) ih
      · rw [spelled, List.singleton_append, readBody, if_neg plain.1]
        simp [plain.2.1, plain.2.2, ih, Except.map]

theorem read_encode (text rest : List Char) (h : rest.head? ≠ some (quoteFor text)) :
    read (quoteFor text) (encode text ++ rest) = .ok (text, rest) := by
  have hq := is_quote_for text
  have single : (encode text ++ rest).take 3 ≠ [quoteFor text, quoteFor text, quoteFor text] := by
    cases text with
    | nil =>
        cases rest with
        | nil => simp [encode]
        | cons c tail =>
            have other : c ≠ quoteFor [] := fun same => h (by simp [same])
            simp [encode, other]
    | cons c tail =>
        obtain ⟨first, others, spelled, other⟩ := encode_char_head c hq
        simp [encode, spelled, other]
  have text_eq : (encode text ++ rest).drop 1 =
      text.flatMap (encodeChar (quoteFor text)) ++ quoteFor text :: rest := by simp [encode]
  rw [read, if_neg single, text_eq]
  exact read_body_encode _ hq text rest

end Mutagen.Quoted
