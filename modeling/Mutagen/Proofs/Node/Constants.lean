import Mutagen.Proofs.Node.Fields
import Mutagen.Proofs.Node.Shape

set_option autoImplicit false

namespace Mutagen

-- Not a number has no sign in its text, and both infinities have one text.
def Constant.HasOwnText : Constant → Prop
  | .float value => value.isNaN = false ∧ ¬ (value.isInfinite = true ∧ value.isNegative = true)
  | _ => True

theorem own_text_of_writable {value : Constant} (h : value.IsWritable) : value.HasOwnText := by
  cases value with
  | float value => exact ⟨h.1, fun infinite => by rw [h.2] at infinite; cases infinite.2⟩
  | _ => trivial

def isPlain (c : Char) : Bool := c.isAlphanum || c == '.' || c == '-'

theorem digit_plain {c : Char} (h : c.isDigit = true) : isPlain c = true := by
  simp [isPlain, Char.isAlphanum, h]

theorem digits_plain {digits : List Char} (h : AllDigits digits) : ∀ c ∈ digits, isPlain c = true :=
  fun c member => digit_plain (h c member)

theorem exponent_plain (e : Int) : ∀ c ∈ (toString e).toList, isPlain c = true := by
  intro c member
  obtain ⟨sign, digits, text, all, _, signs⟩ := Number.exponent_text e
  rw [text] at member
  rcases List.mem_append.mp member with front | back
  · rcases signs with ⟨rfl, _⟩ | ⟨rfl, _⟩
    · cases front
    · rw [List.mem_singleton.mp front]
      rfl
  · exact digits_plain all c back

theorem finite_text_plain (magnitude : Nat) (finite : magnitude ≤ Binary64.infinite) :
    ∀ c ∈ Binary64.finiteText .scientific magnitude, isPlain c = true := by
  rw [Binary64.finiteText]
  split
  · exact each_char (by decide)
  · rename_i positive
    have digits := digits_plain (Binary64.shortest_denotes magnitude positive finite).digits
    have zero : isPlain '0' = true := rfl
    have dot : isPlain '.' = true := rfl
    have mark : isPlain 'e' = true := rfl
    intro c member
    dsimp only at member
    split at member
    · rw [Binary64.Decimal.inPlace] at member
      split at member
      · simp only [String.toList, List.mem_append, List.mem_replicate] at member
        rcases member with (zeros | ⟨_, rfl⟩) | tail
        · exact @each_char (isPlain · = true) _ "0.".toList (by decide) c zeros
        · exact zero
        · exact digits c tail
      · dsimp only at member
        split at member
        · simp only [List.mem_append, List.mem_replicate] at member
          rcases member with (front | ⟨_, rfl⟩) | fraction
          · exact digits c front
          · exact zero
          · exact @each_char (isPlain · = true) _ ".0".toList (by decide) c fraction
        · simp only [List.mem_append, List.mem_cons] at member
          rcases member with front | rfl | back
          · exact digits c (List.mem_of_mem_take front)
          · exact dot
          · exact digits c (List.mem_of_mem_drop back)
    · simp only [Binary64.Decimal.withExponent, List.mem_append, List.mem_cons] at member
      rcases member with (front | fraction) | rfl | back
      · exact digits c (List.mem_of_mem_take front)
      · split at fraction
        · cases fraction
        · rcases List.mem_cons.mp fraction with rfl | tail
          · exact dot
          · exact digits c (List.mem_of_mem_drop tail)
      · exact mark
      · exact exponent_plain _ c back

theorem decimal_not_float (text whole : List Char) (value : Binary64) :
    Number.decimal text whole none none ≠ .ok (.float value) := by
  intro token
  simp only [Number.decimal, Option.isSome_none, Bool.or_false, Bool.false_eq_true, if_false] at token
  split at token
  · cases token
  · split at token <;> cases token

theorem read_digits_not_float {digits rest : List Char} (all : AllDigits digits) (nonempty : digits ≠ [])
    (value : Binary64) : Number.read digits ≠ .ok (.float value, rest) := by
  have ends : Number.Ends [] := fun c head => by cases head
  have decimal : Number.radix? digits = none := by
    simpa using @Number.radix_none_of_digits digits [] all nonempty (by simp)
  have run := Number.digit_run_append false digits [] all (Number.ends_run ends)
  rw [List.append_nil] at run
  intro reads
  rw [Number.read, decimal] at reads
  simp only [Number.readDecimal, run, @Number.read_fraction_end [] (by simp),
    Number.read_exponent_end ends, bind, Except.bind, Number.ends_no_imaginary ends, Bool.false_eq_true,
    if_false] at reads
  cases token : Number.decimal digits digits none none with
  | error fault =>
      rw [token] at reads
      cases reads
  | ok kind =>
      rw [token] at reads
      cases reads
      exact decimal_not_float digits digits value token

def signText (negative : Bool) : List Char := if negative then ['-'] else []

-- The text of a float: a sign, and a number that reads back to the magnitude.
theorem float_text {value : Binary64} (h : (Constant.float value).HasOwnText) : ∃ c tail,
    (Constant.float value).spelling = signText value.isNegative ++ c :: tail ∧ c.isDigit = true ∧
      (∀ d ∈ c :: tail, isPlain d = true) ∧
      Number.read (c :: tail) = .ok (.float (.ofMagnitude value.magnitude), []) := by
  have ends : Number.Ends [] := fun c head => by cases head
  obtain ⟨number, own⟩ := h
  rw [Constant.spelling]
  split
  · rename_i infinite
    have positive : value.isNegative = false := by
      cases sign : value.isNegative with
      | false => rfl
      | true => exact absurd ⟨infinite, sign⟩ own
    have same : value.magnitude = Binary64.infinite := by simpa [Binary64.isInfinite] using infinite
    have reads := Number.read_infinity ends
    rw [List.append_nil, ← same] at reads
    rw [positive]
    exact ⟨'1', "e309".toList, rfl, rfl, each_char (by decide), reads⟩
  · rename_i finite
    have bounded : value.magnitude ≤ Binary64.infinite := by simpa [Binary64.isNaN] using number
    obtain ⟨c, tail, shape, digit⟩ := finite_text_cons value.magnitude bounded
    have reads := Number.read_finite_text value.magnitude bounded ends
    have plain := finite_text_plain value.magnitude bounded
    rw [List.append_nil, shape] at reads
    rw [shape] at plain
    refine ⟨c, tail, ?_, digit, plain, reads⟩
    simp only [Binary64.text, number, finite, Bool.false_eq_true, if_false, shape]
    rfl

theorem binary64_ext {x y : Binary64} (sign : x.isNegative = y.isNegative)
    (magnitude : x.magnitude = y.magnitude) : x = y := by
  have hx := x.bits.toNat_lt
  have hy := y.bits.toNat_lt
  simp only [Binary64.isNegative, Binary64.magnitude, decide_eq_decide] at sign magnitude
  have bits : x.bits = y.bits := UInt64.toNat_inj.mp (by omega)
  cases x
  cases y
  exact congrArg Binary64.mk bits

theorem of_magnitude_injective {m n : Nat} (hm : m < 2 ^ 63) (hn : n < 2 ^ 63)
    (same : Binary64.ofMagnitude m = .ofMagnitude n) : m = n := by
  injection same with bits
  have values := congrArg UInt64.toNat bits
  rw [UInt64.toNat_ofNat_of_lt' (Nat.lt_trans hm (by decide)),
    UInt64.toNat_ofNat_of_lt' (Nat.lt_trans hn (by decide))] at values
  exact values

theorem float_injective {x y : Binary64} (hx : (Constant.float x).HasOwnText)
    (hy : (Constant.float y).HasOwnText) (same : (Constant.float x).spelling = (Constant.float y).spelling) :
    x = y := by
  obtain ⟨c, tail, text, digit, _, reads⟩ := float_text hx
  obtain ⟨c', tail', text', digit', _, reads'⟩ := float_text hy
  rw [text, text'] at same
  have minus {d : Char} (h : d.isDigit = true) : d ≠ '-' := by
    rintro rfl
    cases h
  have parts : x.isNegative = y.isNegative ∧ c :: tail = c' :: tail' := by
    cases sign : x.isNegative <;> cases sign' : y.isNegative <;> rw [sign, sign'] at same
    · exact ⟨rfl, same⟩
    · injection same with head
      exact absurd head (minus digit)
    · injection same with head
      exact absurd head.symm (minus digit')
    · injection same with _ rest
      exact ⟨rfl, rest⟩
  rw [parts.2, reads'] at reads
  injection reads with values
  injection values with values
  injection values with values
  have below (z : Binary64) : z.magnitude < 2 ^ 63 := Nat.mod_lt _ (by decide)
  exact binary64_ext parts.1 (of_magnitude_injective (below x) (below y) values.symm)

def Constant.isNumber : Constant → Bool
  | .int _ | .float _ => true
  | _ => false

theorem number_head {value : Constant} (h : value.HasOwnText) :
    value.spelling.head?.any (fun c => c.isDigit || c == '-') = value.isNumber := by
  cases value with
  | none => rfl
  | bool value => cases value <;> rfl
  | int value =>
      obtain ⟨c, tail, shape, digit⟩ := int_cons value
      have text : (Constant.int value).spelling = c :: tail := shape
      simp [text, digit, Constant.isNumber]
  | float value =>
      obtain ⟨c, tail, text, digit, _⟩ := float_text h
      rw [text]
      cases value.isNegative <;> simp [signText, digit, Constant.isNumber]
  | str value =>
      rcases Quoted.is_quote_for value.toList with quote | quote <;>
        simp [Constant.spelling, Quoted.encode, quote, Constant.isNumber]

theorem int_injective {m n : Nat} (same : (Constant.int m).spelling = (Constant.int n).spelling) : m = n := by
  have digits : Nat.toDigits 10 m = Nat.toDigits 10 n := by simpa [Constant.spelling] using same
  rw [← value_of_to_digits m, digits, value_of_to_digits]

theorem int_apart_float {n : Nat} {x : Binary64} (h : (Constant.float x).HasOwnText) :
    (Constant.int n).spelling ≠ (Constant.float x).spelling := by
  have digits : (Constant.int n).spelling = Nat.toDigits 10 n := by simp [Constant.spelling]
  obtain ⟨c, tail, text, _, _, reads⟩ := float_text h
  rw [digits, text]
  intro same
  cases sign : x.isNegative with
  | false =>
      rw [sign] at same
      have number : Nat.toDigits 10 n = c :: tail := same
      rw [← number] at reads
      exact read_digits_not_float (all_digits_to_digits n) Nat.toDigits_ne_nil _ reads
  | true =>
      rw [sign] at same
      have digit := all_digits_to_digits n '-' (by rw [same]; exact List.mem_cons_self)
      cases digit

theorem plain_injective {value other : Constant} (h : value.HasOwnText) (h' : other.HasOwnText)
    (plain : ∀ text, value ≠ .str text) (plain' : ∀ text, other ≠ .str text)
    (same : value.spelling = other.spelling) : value = other := by
  have heads := number_head h
  rw [same, number_head h'] at heads
  cases value with
  | str text => exact absurd rfl (plain text)
  | none =>
      cases other with
      | none => rfl
      | bool truth => cases truth <;> cases same
      | str text => exact absurd rfl (plain' text)
      | _ => cases heads
  | bool truth =>
      cases other with
      | none => cases truth <;> cases same
      | bool truth' => cases truth <;> cases truth' <;> first | rfl | cases same
      | str text => exact absurd rfl (plain' text)
      | _ => cases heads
  | int n =>
      cases other with
      | int m => rw [int_injective same]
      | float x => exact absurd same (int_apart_float h')
      | str text => exact absurd rfl (plain' text)
      | _ => cases heads
  | float x =>
      cases other with
      | int n => exact absurd same.symm (int_apart_float h)
      | float y => rw [float_injective h h' same]
      | str text => exact absurd rfl (plain' text)
      | _ => cases heads

theorem spelling_plain {value : Constant} (h : value.HasOwnText) (plain : ∀ text, value ≠ .str text) :
    ∀ c ∈ value.spelling, isPlain c = true := by
  cases value with
  | none => exact each_char (by decide)
  | bool truth => cases truth <;> exact each_char (by decide)
  | int n =>
      have digits : (Constant.int n).spelling = Nat.toDigits 10 n := by simp [Constant.spelling]
      rw [digits]
      exact digits_plain (all_digits_to_digits n)
  | float x =>
      obtain ⟨c, tail, text, _, plain, _⟩ := float_text h
      rw [text]
      intro d member
      rcases List.mem_append.mp member with sign | number
      · cases negative : x.isNegative <;> rw [negative] at sign
        · cases sign
        · rw [List.mem_singleton.mp sign]
          rfl
      · exact plain d number
  | str text => exact absurd rfl (plain text)

namespace Node

theorem plain_stops {rest : List Char} (h : EndsField rest) (c : Char) (head : rest.head? = some c) :
    isPlain c = false :=
  ends_field_stops (each_char (by decide)) h c head

theorem plain_apart_quoted {text other rest rest' : List Char} (plain : ∀ c ∈ text, isPlain c = true)
    (ends : EndsField rest) : text ++ rest ≠ Quoted.encode other ++ rest' := by
  have quote : isPlain (Quoted.quoteFor other) = false ∧ Quoted.quoteFor other ∉ fieldEnds := by
    rcases Quoted.is_quote_for other with quote | quote <;> rw [quote] <;> decide
  intro same
  rw [Quoted.encode, List.cons_append] at same
  cases text with
  | nil =>
      obtain ⟨c, tail, rfl, member⟩ := ends
      injection same with head
      exact quote.2 (head ▸ member)
  | cons c tail =>
      injection same with head
      have first := plain c (by simp)
      rw [head, quote.1] at first
      cases first

theorem constant_tells {value other : Constant} (h : value.HasOwnText) (h' : other.HasOwnText) :
    Tells value.spelling other.spelling (value = other) := by
  by_cases quoted : ∃ text, value = .str text
  · obtain ⟨text, rfl⟩ := quoted
    by_cases quoted' : ∃ text', other = .str text'
    · obtain ⟨text', rfl⟩ := quoted'
      exact tells_imp (name_tells text text') fun same => by rw [same]
    · have plain := spelling_plain h' fun text same => quoted' ⟨text, same⟩
      exact tells_of_apart fun rest rest' _ ends same => plain_apart_quoted plain ends same.symm
  · have plain := spelling_plain h fun text same => quoted ⟨text, same⟩
    by_cases quoted' : ∃ text', other = .str text'
    · obtain ⟨text', rfl⟩ := quoted'
      exact tells_of_apart fun rest rest' ends _ => plain_apart_quoted plain ends
    · have plain' := spelling_plain h' fun text same => quoted' ⟨text, same⟩
      intro rest rest' ends ends' same
      obtain ⟨spellings, behind⟩ := split_unique plain plain' (plain_stops ends) (plain_stops ends') same
      exact ⟨plain_injective h h' (fun text same => quoted ⟨text, same⟩) (fun text same => quoted' ⟨text, same⟩)
        spellings, behind⟩

end Node

end Mutagen
