import Mutagen.Token.Number

set_option autoImplicit false

namespace Mutagen

def AllDigits (digits : List Char) : Prop := ∀ c ∈ digits, c.isDigit = true

theorem digit_bounds {c : Char} (h : c.isDigit = true) : 48 ≤ c.toNat ∧ c.toNat ≤ 57 := by
  simp only [Char.isDigit, Bool.and_eq_true, decide_eq_true_eq, UInt32.le_iff_toNat_le] at h
  exact h

theorem digit_value_of_digit {c : Char} (h : c.isDigit = true) :
    digitValue c = some (c.toNat - 48) := by
  have inRange : ('0' ≤ c && c ≤ '9') = true := by
    simpa [Char.isDigit, Char.le_def] using h
  rw [digitValue, if_pos inRange]

theorem value_of_digits (digits : List Char) (h : AllDigits digits) :
    valueOf 10 digits = Nat.ofDigitChars 10 digits 0 := by
  have folds (start : Nat) : digits.foldl (fun value c => value * 10 + (digitValue c).getD 0) start =
      Nat.ofDigitChars 10 digits start := by
    induction digits generalizing start with
    | nil => simp
    | cons c rest ih =>
        rw [List.foldl_cons, Nat.ofDigitChars_cons, digit_value_of_digit (h c (by simp)),
          ih (fun d member => h d (by simp [member])), Nat.mul_comm]
        rfl
  exact folds 0

theorem value_of_append (front back : List Char) (h : AllDigits (front ++ back)) :
    valueOf 10 (front ++ back) = valueOf 10 front * 10 ^ back.length + valueOf 10 back := by
  have hf : AllDigits front := fun c member => h c (by simp [member])
  have hb : AllDigits back := fun c member => h c (by simp [member])
  rw [value_of_digits _ h, value_of_digits _ hf, value_of_digits _ hb, Nat.ofDigitChars_append,
    Nat.ofDigitChars_eq_ofDigitChars_zero, Nat.mul_comm]

theorem all_digits_zeros (n : Nat) : AllDigits (List.replicate n '0') := by
  intro c member
  rw [List.eq_of_mem_replicate member]
  rfl

theorem value_of_zeros (n : Nat) : valueOf 10 (List.replicate n '0') = 0 := by
  rw [value_of_digits _ (all_digits_zeros n)]
  simp

theorem all_digits_append {front back : List Char} (hf : AllDigits front) (hb : AllDigits back) :
    AllDigits (front ++ back) := by
  intro c member
  exact (List.mem_append.mp member).elim (hf c) (hb c)

theorem all_digits_to_digits (n : Nat) : AllDigits (Nat.toDigits 10 n) := by
  intro c member
  exact Nat.isDigit_of_mem_toDigits (by decide) (by decide) member

theorem value_of_to_digits (n : Nat) : valueOf 10 (Nat.toDigits 10 n) = n := by
  rw [value_of_digits _ (all_digits_to_digits n)]
  exact Nat.ofDigitChars_toDigits (by decide) (by decide)

theorem to_digits_head (n : Nat) (h : 0 < n) : (Nat.toDigits 10 n).head? ≠ some '0' := by
  induction n using Nat.strongRecOn with
  | _ n ih =>
      rw [Nat.toDigits_eq_if (by decide)]
      split
      · simp only [List.head?_cons, ne_eq, Option.some.injEq, Nat.digitChar_eq_zero]
        omega
      · rename_i large
        have := ih (n / 10) (by omega) (by omega)
        cases front : Nat.toDigits 10 (n / 10) with
        | nil => exact absurd front Nat.toDigits_ne_nil
        | cons c rest => simpa [front] using this

namespace Number

def EndsRun (rest : List Char) : Prop := ∀ c, rest.head? = some c → c.isDigit = false ∧ c ≠ '_'

theorem digit_run_end (begun : Bool) (rest : List Char) (h : EndsRun rest) :
    digitRun Char.isDigit begun rest = .ok ([], rest) := by
  cases rest with
  | nil => rfl
  | cons c tail =>
      obtain ⟨noDigit, noSeparator⟩ := h c rfl
      rw [digitRun, if_neg (by simp [noDigit]), if_neg noSeparator]

theorem digit_run_append (begun : Bool) (digits rest : List Char) (hd : AllDigits digits)
    (hr : EndsRun rest) : digitRun Char.isDigit begun (digits ++ rest) = .ok (digits, rest) := by
  induction digits generalizing begun with
  | nil => exact digit_run_end begun rest hr
  | cons c tail ih =>
      rw [List.cons_append, digitRun, if_pos (hd c (by simp)),
        ih true (fun d member => hd d (by simp [member]))]
      rfl

end Number

end Mutagen
