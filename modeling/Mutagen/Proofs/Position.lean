import Mathlib.Algebra.Ring.Nat
import Mathlib.Data.List.Induction
import Mutagen.Position

set_option autoImplicit false

namespace Mutagen

def bytes (text : List Char) : Nat := (text.map Char.utf8Size).sum

def lineBehind (text : List Char) : Nat := 1 + text.count '\n'

def columnBehind (text : List Char) : Nat := (text.reverse.takeWhile (· != '\n')).length

theorem bytes_append (front back : List Char) : bytes (front ++ back) = bytes front + bytes back := by
  rw [bytes, List.map_append, List.sum_append, bytes, bytes]

namespace Position

theorem behind_append (p : Position) (front back : List Char) :
    p.behind (front ++ back) = (p.behind front).behind back := List.foldl_append

theorem behind_snoc (p : Position) (front : List Char) (c : Char) : p.behind (front ++ [c]) = (p.behind front).step c :=
  behind_append p front [c]

theorem up_to_eq {p : Position} {text front rest : List Char} (h : front ++ rest = text) :
    p.upTo text rest = p.behind front := by
  rw [← h, upTo, List.length_append, Nat.add_sub_cancel, List.take_left']
  rfl

theorem step_coordinates (text : List Char) (c : Char) :
    step ⟨bytes text, lineBehind text, columnBehind text⟩ c =
      ⟨bytes (text ++ [c]), lineBehind (text ++ [c]), columnBehind (text ++ [c])⟩ := by
  have size : bytes (text ++ [c]) = bytes text + c.utf8Size := by
    rw [bytes_append]
    rfl
  by_cases newline : c = '\n'
  · subst newline
    simp [step, size, lineBehind, columnBehind, Nat.add_assoc]
    rfl
  · simp [step, newline, size, lineBehind, columnBehind, Nat.add_comm]

theorem behind_eq (text : List Char) :
    behind {} text = ⟨bytes text, lineBehind text, columnBehind text⟩ := by
  induction text using List.reverseRecOn with
  | nil => rfl
  | append_singleton text c ih => rw [behind_snoc, ih, step_coordinates]

end Position

end Mutagen
