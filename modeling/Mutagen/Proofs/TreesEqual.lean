import Mutagen.Mutant
import Mutagen.Proofs.Grammar.Program
import Mutagen.Proofs.Node.Dump
import Mutagen.Proofs.RoundTrip

set_option autoImplicit false

namespace Mutagen

open Node

theorem own_text_of_shaped {node : Node} (h : Shaped node) : OwnText node := by
  cases node with
  | constant value => exact own_text_of_writable h
  | _ => trivial

theorem parsed_own_text {source : String} {tree : Tree} (h : Tree.parse source = .ok tree) :
    Everywhere OwnText tree.root :=
  (Grammar.parse_shaped h).shaped.imp fun _ => own_text_of_shaped

theorem tree_dump_iff {s t : Tree} (own : Everywhere OwnText s.root) (own' : Everywhere OwnText t.root) :
    s.dump = t.dump ↔ s.root = t.root := by
  constructor
  · intro same
    exact dump_injective own own' (String.ofList_inj.mp same)
  · intro same
    rw [Tree.dump, Tree.dump, same]

theorem trees_equal_eq {a b : String} {s t : Tree} (first : Tree.parse a = .ok s)
    (second : Tree.parse b = .ok t) : treesEqual a b = .ok (s.dump == t.dump) := by
  rw [treesEqual, first, second]
  rfl

/-- Two trees without NaN and negative infinity have one dump only if they are the same tree, and so two programs compare
equal only if they have one tree. -/
theorem dump_faithful :
    (∀ s t : Tree, Everywhere OwnText s.root → Everywhere OwnText t.root →
      (s.dump = t.dump ↔ s.root = t.root)) ∧
    (∀ a b : String, ∀ s t : Tree, Tree.parse a = .ok s → Tree.parse b = .ok t →
      ∃ equal, treesEqual a b = .ok equal ∧ (equal = true ↔ s.root = t.root)) := by
  constructor
  · intro s t own own'
    exact tree_dump_iff own own'
  · intro a b s t first second
    refine ⟨_, trees_equal_eq first second, ?_⟩
    rw [beq_iff_eq]
    exact tree_dump_iff (parsed_own_text first) (parsed_own_text second)

theorem dump_faithful_signs :
    (signsTree 1).dump ≠ (signsTree 2).dump ∧
      treesEqual (signsTree 1).render (signsTree 2).render = .ok false := by
  have own (n : Nat) : Everywhere OwnText (signsTree n).root :=
    (signs_formed n).shaped.imp fun _ => own_text_of_shaped
  have apart : (signsTree 1).root ≠ (signsTree 2).root := by simp [signsTree, Tree.ofBody, signs]
  refine ⟨fun same => apart ((dump_faithful.1 _ _ (own 1) (own 2)).mp same), ?_⟩
  obtain ⟨equal, result, iff⟩ := dump_faithful.2 _ _ _ _ (signs_parse 1 (by decide)) (signs_parse 2 (by decide))
  cases equal with
  | false => exact result
  | true => exact absurd (iff.mp rfl) apart

end Mutagen
