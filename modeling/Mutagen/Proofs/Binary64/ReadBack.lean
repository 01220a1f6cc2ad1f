import Mutagen.Proofs.Token.Number

set_option autoImplicit false

namespace Mutagen

namespace Binary64

theorem zeros_stripped (digits : List Char) :
    ∃ k, digits = (digits.reverse.dropWhile (· == '0')).reverse ++ List.replicate k '0' := by
  have zeros : ∀ c ∈ digits.reverse.takeWhile (· == '0'), c = '0' := by
    have all := @List.all_takeWhile _ (· == '0') digits.reverse
    intro c member
    simpa using List.all_eq_true.mp all c member
  refine ⟨(digits.reverse.takeWhile (· == '0')).length, ?_⟩
  rw [← List.eq_replicate_of_mem zeros, ← List.reverse_inj, List.reverse_append, List.reverse_reverse]
  have reversed : (digits.reverse.takeWhile (· == '0')).reverse = digits.reverse.takeWhile (· == '0') := by
    rw [List.eq_replicate_of_mem zeros, List.reverse_replicate]
  rw [reversed, List.takeWhile_append_dropWhile]

theorem head_append {front : List Char} (nonempty : front ≠ []) (back : List Char) :
    (front ++ back).head? = front.head? := by
  cases front with
  | nil => exact absurd rfl nonempty
  | cons c tail => rfl

structure Decimal.Denotes (d : Decimal) (magnitude : Nat) : Prop where
  digits : AllDigits d.digits
  nonempty : d.digits ≠ []
  leads : d.digits.head? ≠ some '0'
  value : nearestDecimal (valueOf 10 d.digits) (d.exponent + 1 - d.digits.length) = magnitude

theorem of_coefficient_denotes (n : Nat) (e : Int) (positive : n ≠ 0) :
    (Decimal.ofCoefficient n e).Denotes (nearestDecimal n e) := by
  obtain ⟨k, text⟩ := zeros_stripped (Nat.toDigits 10 n)
  obtain ⟨stripped, hs⟩ : ∃ stripped, stripped = (((Nat.toDigits 10 n).reverse.dropWhile (· == '0')).reverse) :=
    ⟨_, rfl⟩
  rw [← hs] at text
  have all : AllDigits (stripped ++ List.replicate k '0') := text ▸ all_digits_to_digits n
  have spelled : n = valueOf 10 stripped * 10 ^ k := by
    have value := value_of_append stripped (List.replicate k '0') all
    rw [← text, value_of_to_digits, value_of_zeros, List.length_replicate, Nat.add_zero] at value
    exact value
  have length : (Nat.toDigits 10 n).length = stripped.length + k := by
    rw [text, List.length_append, List.length_replicate]
  have nonempty : stripped ≠ [] := by
    intro none
    rw [none] at spelled
    simp [valueOf] at spelled
    exact positive spelled
  refine ⟨fun c member => ?_, fun empty => nonempty (hs.trans empty), ?_, ?_⟩
  · have : c ∈ stripped := by rw [hs]; exact member
    exact all c (List.mem_append_left _ this)
  · have first := to_digits_head n (Nat.pos_of_ne_zero positive)
    rw [text, head_append nonempty, hs] at first
    exact first
  · have exponent : (Decimal.ofCoefficient n e).exponent + 1 - (stripped.length : Int) = e + k := by
      simp only [Decimal.ofCoefficient, length]
      omega
    change nearestDecimal (valueOf 10 (((Nat.toDigits 10 n).reverse.dropWhile (· == '0')).reverse))
      ((Decimal.ofCoefficient n e).exponent + 1 - (((Nat.toDigits 10 n).reverse.dropWhile (· == '0')).reverse.length : Int)) = _
    rw [← hs, exponent, ← nearest_decimal_shift _ k, ← spelled]
    congr 1
    omega

theorem shortest_denotes (magnitude : Nat) (positive : magnitude ≠ 0) (bounded : magnitude ≤ infinite) :
    (shortest magnitude).Denotes magnitude := by
  have reads := coefficient_reads_back magnitude bounded
  have nonzero : (coefficient magnitude).1 ≠ 0 := by
    intro zero
    rw [zero] at reads
    exact positive (by simpa [nearestDecimal] using reads.symm)
  have denotes := of_coefficient_denotes (coefficient magnitude).1 (coefficient magnitude).2 nonzero
  rw [reads] at denotes
  exact denotes

end Binary64

namespace Number

open Binary64

variable {d : Decimal} {magnitude : Nat} {rest : List Char}

theorem read_with_exponent_text (h : d.Denotes magnitude) (ends : Ends rest) :
    read (d.withExponent ++ rest) = .ok (.float (.ofMagnitude magnitude), rest) := by
  obtain ⟨all, nonempty, _, value⟩ := h
  cases digits : d.digits with
  | nil => exact absurd digits nonempty
  | cons c tail =>
      rw [digits] at all value
      have first : AllDigits [c] := fun x member => all x (by simp_all)
      cases tail with
      | nil =>
          have exponent : d.exponent + 1 - (([c] : List Char).length : Int) = d.exponent := by simp
          have parts := read_with_exponent d.exponent first (List.cons_ne_nil _ _) ends
          rw [magnitudeOf, List.append_nil, List.length_nil] at parts
          rw [exponent] at value
          rw [show d.exponent - ((0 : Nat) : Int) = d.exponent by omega, value] at parts
          simpa [Decimal.withExponent, digits] using parts
      | cons c' others =>
          have places : AllDigits (c' :: others) := fun x member => all x (List.mem_cons_of_mem c member)
          have exponent : d.exponent + 1 - ((c :: c' :: others).length : Int) =
              d.exponent - ((c' :: others).length : Int) := by
            simp only [List.length_cons]
            omega
          have parts := read_with_both d.exponent first (List.cons_ne_nil _ _) places ends
          have joined : [c] ++ (c' :: others) = c :: c' :: others := rfl
          rw [magnitudeOf, joined, ← exponent, value] at parts
          simpa [Decimal.withExponent, digits] using parts

/-- The two parts of a number in place, which read back to its magnitude. -/
structure Places (text : List Char) (magnitude : Nat) (whole places : List Char) : Prop where
  spelled : text = whole ++ '.' :: places
  front : AllDigits whole
  nonempty : whole ≠ []
  leads : whole.head? = some '0' → whole = ['0']
  back : AllDigits places
  behind : places ≠ []
  value : nearestDecimal (valueOf 10 (whole ++ places)) (0 - places.length) = magnitude

theorem in_place_parts (h : d.Denotes magnitude) : ∃ whole places, Places (d.inPlace true) magnitude whole places := by
  obtain ⟨all, nonempty, leads, value⟩ := h
  have zero : AllDigits ['0'] := all_digits_zeros 1
  rw [Decimal.inPlace]
  split
  · rename_i negative
    obtain ⟨zeros, hz⟩ : ∃ zeros, zeros = (-d.exponent - 1).toNat := ⟨_, rfl⟩
    have spelled : valueOf 10 (['0'] ++ (List.replicate zeros '0' ++ d.digits)) = valueOf 10 d.digits := by
      rw [← List.append_assoc, value_of_append _ _ (all_digits_append (all_digits_append zero (all_digits_zeros zeros)) all),
        ← List.replicate_one, List.replicate_append_replicate, value_of_zeros, Nat.zero_mul, Nat.zero_add]
    have exponent : 0 - ((List.replicate zeros '0' ++ d.digits).length : Int) =
        d.exponent + 1 - d.digits.length := by
      rw [List.length_append, List.length_replicate]
      omega
    refine ⟨['0'], List.replicate zeros '0' ++ d.digits, by simp [← hz], zero, List.cons_ne_nil _ _, fun _ => rfl,
      all_digits_append (all_digits_zeros zeros) all, by simp [nonempty], ?_⟩
    rw [spelled, exponent, value]
  · rename_i nonnegative
    obtain ⟨whole, hw⟩ : ∃ whole, whole = d.exponent.toNat + 1 := ⟨_, rfl⟩
    simp only [← hw]
    split
    · rename_i short
      obtain ⟨zeros, hz⟩ : ∃ zeros, zeros = whole - d.digits.length := ⟨_, rfl⟩
      have spelled : valueOf 10 (d.digits ++ List.replicate zeros '0' ++ ['0']) =
          valueOf 10 d.digits * 10 ^ (zeros + 1) := by
        rw [List.append_assoc, ← List.replicate_one, List.replicate_append_replicate,
          value_of_append _ _ (all_digits_append all (all_digits_zeros _)), value_of_zeros,
          List.length_replicate, Nat.add_zero]
      have exponent : 0 - ((['0'] : List Char).length : Int) =
          (d.exponent + 1 - d.digits.length) - ((zeros + 1 : Nat) : Int) := by
        rw [List.length_singleton]
        omega
      refine ⟨d.digits ++ List.replicate zeros '0', ['0'], by simp [← hz], all_digits_append all (all_digits_zeros zeros),
        by simp [nonempty], fun head => ?_, zero, List.cons_ne_nil _ _, ?_⟩
      · rw [head_append nonempty] at head
        exact absurd head leads
      · rw [spelled, exponent, nearest_decimal_shift, value]
    · rename_i long
      have exponent : 0 - ((d.digits.drop whole).length : Int) = d.exponent + 1 - d.digits.length := by
        rw [List.length_drop]
        omega
      refine ⟨d.digits.take whole, d.digits.drop whole, rfl, fun x member => all x (List.mem_of_mem_take member), ?_,
        fun head => ?_, fun x member => all x (List.mem_of_mem_drop member), ?_, ?_⟩
      · intro empty
        have := congrArg List.length empty
        rw [List.length_take, List.length_nil] at this
        omega
      · rw [List.head?_take, if_neg (by omega)] at head
        exact absurd head leads
      · rw [ne_eq, List.drop_eq_nil_iff]
        omega
      · rw [List.take_append_drop, exponent, value]

theorem read_in_place_text (h : d.Denotes magnitude) (ends : Ends rest) :
    read (d.inPlace true ++ rest) = .ok (.float (.ofMagnitude magnitude), rest) := by
  obtain ⟨whole, places, parts⟩ := in_place_parts h
  have reads := read_with_fraction parts.front parts.nonempty parts.back ends
  rw [magnitudeOf, parts.value] at reads
  rw [parts.spelled, List.append_assoc]
  exact reads

theorem read_finite_text (magnitude : Nat) (finite : magnitude ≤ infinite) (ends : Ends rest) :
    read (finiteText .scientific magnitude ++ rest) = .ok (.float (.ofMagnitude magnitude), rest) := by
  rw [finiteText]
  split
  · rename_i zero
    have parts := read_with_fraction (all_digits_zeros 1) (List.cons_ne_nil _ _) (all_digits_zeros 1) ends
    rw [zero]
    exact parts
  · rename_i positive
    have denotes := shortest_denotes magnitude positive finite
    dsimp only
    split
    · exact read_in_place_text denotes ends
    · exact read_with_exponent_text denotes ends

theorem read_infinity (ends : Ends rest) :
    read ("1e309".toList ++ rest) = .ok (.float (.ofMagnitude infinite), rest) := by
  have one : AllDigits ['1'] := by simp [AllDigits]
  have parts := read_with_exponent 309 one (List.cons_ne_nil _ _) ends
  have limit : magnitudeOf ['1'] [] 309 = .ofMagnitude infinite := by decide +kernel
  rw [limit] at parts
  exact parts

end Number

end Mutagen
