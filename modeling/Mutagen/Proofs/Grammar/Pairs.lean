import Mutagen.Proofs.Grammar.SourceOrder
import Mutagen.Proofs.Token.Reach

set_option autoImplicit false

namespace Mutagen.Grammar

open Mutagen.Parser
open Token (Kind)

theorem program_admits {tokens rest : List Token} {body : List Node} (ends : Lexer.Ends tokens)
    (run : program.run tokens = .ok (body, rest)) : Admits [] (tokens.map (·.kind)) [] := by
  have accounted := program_accounted run
  obtain ⟨front, split, admits⟩ := accounted.admits
  rw [split]
  rcases rest_last ends (program.suffix run) accounted.ended with rfl | ⟨last, rfl, eof⟩
  · rw [List.map_nil, List.append_nil]
    exact admits
  · rw [List.map_singleton, eof]
    exact admits_snoc admits rfl

-- What the lexer takes for brackets is what the parser takes for brackets. In front of every token the number that the
-- lexer goes by is that of the brackets that are open there, which the parser is to close one by one.
structure BracketsAgree (source : String) (tokens : List Token) : Prop where
  paired : Paired (tokens.map (·.kind))
  supported : ∀ kind ∈ tokens.map (·.kind), ∀ word, kind ≠ .reserved word
  counted : ∀ front, front <+: tokens.map (·.kind) → ∃ opened, Admits [] front opened ∧
    Lexer.bracketsBehind? 0 front = some opened.length ∧ opened.length ≤ Lexer.maxBrackets ∧
    front.countP (·.isOpening) = front.countP (·.isClosing) + opened.length
  closes : ∀ front closing, front ++ [.mark closing] <+: tokens.map (·.kind) → closing.isClosing = true →
    Lexer.bracketsBehind? 0 front ≠ some 0
  carried : ∀ front s, Lexer.Reaches Lexer.tabStop (.initial (Lexer.dropMark source.toList)) front s →
    front <+: tokens ∧ Lexer.bracketsBehind? 0 (front.map (·.kind)) = some s.brackets

theorem admits_counted {kinds : List Kind} {brackets : Nat} (whole : Admits [] kinds [])
    (counts : Lexer.bracketsBehind? 0 kinds = some brackets) {front : List Kind} (begins : front <+: kinds) :
    ∃ opened, Admits [] front opened ∧ Lexer.bracketsBehind? 0 front = some opened.length ∧
      opened.length ≤ Lexer.maxBrackets ∧ front.countP (·.isOpening) = front.countP (·.isClosing) + opened.length := by
  obtain ⟨back, rfl⟩ := begins
  obtain ⟨opened, admits, _⟩ := admits_front whole
  rw [Lexer.brackets_behind_append] at counts
  obtain ⟨number, counted, _⟩ := Option.bind_eq_some_iff.mp counts
  obtain ⟨rfl, limited⟩ := Lexer.brackets_counted (Nat.zero_le _) admits rfl counted
  have balance : 0 + front.countP (·.isOpening) = opened.length + front.countP (·.isClosing) := admits_open admits
  exact ⟨opened, admits, counted, limited, by omega⟩

/-- In a text that parses the brackets that the lexer counts are those that the grammar pairs. -/
theorem brackets_agree {source : String} {tree : Tree} (h : Tree.parse source = .ok tree) :
    ∃ tokens, tokenize source = .ok tokens ∧ BracketsAgree source tokens := by
  obtain ⟨tokens, body, rest, read, run, rfl⟩ := parse_runs h
  have whole := program_admits (tokenize_ends read) run
  obtain ⟨brackets, counts⟩ := Lexer.run_counted read
  have counted := @admits_counted _ _ whole counts
  refine ⟨tokens, read, admits_paired whole, admits_supported whole, fun _ => counted, ?_, ?_⟩
  · intro front closing begins closes none
    obtain ⟨opened, admits, _⟩ := counted begins
    obtain ⟨within, before, last⟩ := admits_front admits
    obtain ⟨middle, admitted, _⟩ := admits_cons last
    obtain ⟨opening, rfl⟩ := closing_admitted closes admitted
    obtain ⟨opened', admits', number, _⟩ := counted ((List.prefix_append _ [Kind.mark closing]).trans begins)
    cases before.symm.trans admits'
    cases number.symm.trans none
  · intro front s reached
    obtain ⟨back, _, rfl⟩ := Lexer.run_prefix reached read
    exact ⟨List.prefix_append .., Lexer.reaches_counted reached⟩

theorem brackets_agree_nested : ∃ tree, Tree.parse "f([1,\n \x7b2: (x)\x7d])" = .ok tree ∧
    ∃ tokens, tokenize "f([1,\n \x7b2: (x)\x7d])" = .ok tokens ∧ BracketsAgree "f([1,\n \x7b2: (x)\x7d])" tokens := by
  have parses : (Tree.parse "f([1,\n \x7b2: (x)\x7d])").toBool = true := by decide +kernel
  cases parsed : Tree.parse "f([1,\n \x7b2: (x)\x7d])" with
  | error e =>
      rw [parsed] at parses
      cases parses
  | ok tree => exact ⟨tree, rfl, brackets_agree parsed⟩

end Mutagen.Grammar
