import Mutagen.ParseError

set_option autoImplicit false

namespace Mutagen

structure Fault where
  cause : ParseError.Cause
  rest : List Char

def IsRest (after text : List Char) : Prop := after <:+ text ∧ after.length < text.length

theorem is_rest_cons {c : Char} {after text : List Char} (h : after <:+ text) :
    IsRest after (c :: text) :=
  ⟨h.trans (List.suffix_cons c text), Nat.lt_succ_of_le h.length_le⟩

theorem is_rest_of_suffix {after middle text : List Char} (h : after <:+ middle)
    (hm : IsRest middle text) : IsRest after text :=
  ⟨h.trans hm.1, Nat.lt_of_le_of_lt h.length_le hm.2⟩

theorem ok_of_map {ε α β : Type} {f : α → β} {x : Except ε α} {b : β} (h : x.map f = .ok b) :
    ∃ a, x = .ok a ∧ f a = b := by
  cases x with
  | error fault => simp [Except.map] at h
  | ok a => exact ⟨a, rfl, by simpa [Except.map] using h⟩

theorem ok_of_bind {ε α β : Type} {f : α → Except ε β} {x : Except ε α} {b : β} (h : x >>= f = .ok b) :
    ∃ a, x = .ok a ∧ f a = .ok b := by
  cases x with
  | error fault => cases h
  | ok a => exact ⟨a, rfl, h⟩

theorem ok_of_option {ε α : Type} {x : Except ε α} {a : α} (h : x.toOption = some a) : x = .ok a := by
  cases x with
  | error fault => cases h
  | ok b =>
      cases h
      rfl

def digitValue (c : Char) : Option Nat :=
  if '0' ≤ c && c ≤ '9' then some (c.toNat - 48)
  else if 'a' ≤ c && c ≤ 'f' then some (c.toNat - 87)
  else if 'A' ≤ c && c ≤ 'F' then some (c.toNat - 55)
  else none

def isDigitOf (radix : Nat) (c : Char) : Bool := (digitValue c).any (· < radix)

def valueOf (radix : Nat) (digits : List Char) : Nat :=
  digits.foldl (fun value c => value * radix + (digitValue c).getD 0) 0

end Mutagen
