import Mutagen.Proofs.Grammar.Program

set_option autoImplicit false

namespace Mutagen.Grammar

open Node
open Lexer (EndsContinued tabStop dropMark)

/-- Only a text that ends in a continued margin has an empty block. -/
theorem parse_filled {source : String} {tree : Tree} (h : Tree.parse source = .ok tree)
    (ends : ¬ EndsContinued tabStop (dropMark source.toList)) : Everywhere Filled tree.root ∧ fill tree.root = tree.root := by
  obtain ⟨tokens, body, rest, read, run, rfl⟩ := parse_runs h
  have statements := (program_accounted run).statements (tokenize_sound read)
  have filled : ∀ statement ∈ body, Everywhere Filled statement := fun statement member =>
    (statements statement member).1.2 (tokenize_opens read ends)
  have whole : Everywhere Filled (Tree.ofBody body).root := .node trivial filled
  exact ⟨whole, fill_self whole⟩

def loopHolds (source : String) (body : List Node → Bool) : Bool :=
  match Tree.parse source with
  | .ok ⟨.program [.whileStmt _ statements], _⟩ => body statements
  | _ => false

theorem loop_parses {source : String} {body : List Node → Bool} (h : loopHolds source body = true) :
    ∃ tree test statements, Tree.parse source = .ok tree ∧ tree.root = .program [.whileStmt test statements] ∧
      body statements = true := by
  unfold loopHolds at h
  split at h
  · rename_i parsed
    exact ⟨_, _, _, parsed, rfl, h⟩
  · cases h

theorem parse_filled_loop : ∃ tree, Tree.parse "while x:\n  # y\n\n  y" = .ok tree ∧
    Everywhere Filled tree.root ∧ fill tree.root = tree.root := by
  have holds : loopHolds "while x:\n  # y\n\n  y" (fun _ => true) = true := by decide +kernel
  obtain ⟨tree, _, _, parsed, _⟩ := loop_parses holds
  exact ⟨tree, parsed, parse_filled parsed (Lexer.no_backslash_ends (by decide))⟩

-- The second line is a margin with a continued line end, and the block that it opens is empty.
theorem continued_block_empty : ∃ tree, Tree.parse "while x:\n  \\\n" = .ok tree ∧
    ¬ Everywhere Filled tree.root ∧ fill tree.root ≠ tree.root := by
  have holds : loopHolds "while x:\n  \\\n" List.isEmpty = true := by decide +kernel
  obtain ⟨tree, test, body, parsed, root, empty⟩ := loop_parses holds
  have hollow : body = [] := List.isEmpty_iff.mp empty
  rw [hollow] at root
  have unfilled : ¬ Everywhere Filled tree.root := by
    intro filled
    rw [root] at filled
    exact (filled.child _ (.head _)).here rfl
  refine ⟨tree, parsed, unfilled, fun same => unfilled ?_⟩
  rw [← same]
  exact fill_filled (parse_shaped parsed).shaped

end Mutagen.Grammar
