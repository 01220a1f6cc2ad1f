import Mutagen.Proofs.Grammar.Program

set_option autoImplicit false

namespace Mutagen.Grammar

open Mutagen.Parser Node
open Token (leavesOf)

-- A program is read up to the end of its tokens.
theorem rest_last {tokens rest : List Token} (ends : Lexer.Ends tokens) (left : rest <:+ tokens)
    (first : firstKind rest = .eof) : rest = [] ∨ ∃ last, rest = [last] ∧ last.kind = .eof := by
  obtain ⟨front, last, rfl, eof, visible⟩ := ends
  rcases List.suffix_concat_iff.mp left with rfl | ⟨before, rfl, behind⟩
  · exact .inl rfl
  · cases before with
    | nil => exact .inr ⟨last, rfl, eof⟩
    | cons token more => exact absurd first (visible token (behind.subset (by simp)))

theorem rest_ends {tokens rest : List Token} (ends : Lexer.Ends tokens) (left : rest <:+ tokens)
    (first : firstKind rest = .eof) : leavesOf (rest.map (·.kind)) = [] := by
  rcases rest_last ends left first with rfl | ⟨last, rfl, eof⟩
  · rfl
  · rw [List.map_singleton, eof]
    rfl

theorem program_leaves {tokens rest : List Token} {body : List Node} (sound : Lexer.AllSound tokens) (ends : Lexer.Ends tokens)
    (run : program.run tokens = .ok (body, rest)) : allLeaves body = leavesOf (tokens.map (·.kind)) := by
  have accounted := program_accounted run
  have leaves := accounted.leaves sound
  rwa [rest_ends ends (program.suffix run) accounted.ended, List.append_nil] at leaves

theorem source_leaves {source : String} {tree : Tree} (h : Tree.parse source = .ok tree) :
    ∃ tokens, tokenize source = .ok tokens ∧ tree.root.leaves = leavesOf (tokens.map (·.kind)) := by
  obtain ⟨tokens, body, rest, read, run, rfl⟩ := parse_runs h
  exact ⟨tokens, read, program_leaves (tokenize_sound read) (tokenize_ends read) run⟩

end Mutagen.Grammar
