import Mutagen.Proofs.RoundTrip

set_option autoImplicit false

namespace Mutagen

open Node Grammar Mutagen.Parser
open Lexer (maxBrackets)

variable {s : Node} {body : List Node} {kinds : List Token.Kind}

-- The statements are read in turn, each with any limit on the nesting from `2 * (depth s - 1)` on.
inductive ReadInTurn : List Node → List Token → Prop where
  | done {tokens : List Token} (ends : firstKind tokens = .eof) : ReadInTurn [] tokens
  | next {s : Node} {body : List Node} {front rest : List Token}
      (reads : ∀ m, 2 * (depth s - 1) ≤ m → (statement (nested m) (blocksFor m)).run (front ++ rest) = .ok ([s], rest))
      (brackets : ∀ part, part <+: front → nesting (part.map (·.kind)) ≤ depth s)
      (others : ReadInTurn body rest) : ReadInTurn (s :: body) (front ++ rest)

theorem levels_depth (node : Node) : levels node ≤ 2 * (depth node - 1) := by
  rw [depth_eq]
  exact levels_height node

theorem left_unique {α : Type} {p : Parser α} {front rest left : List Token} {a : α} (run : p.run (front ++ rest) = .ok (a, left))
    (same : left.length = rest.length) : left = rest := by
  have inside := List.suffix_of_suffix_length_le (p.suffix run) (List.suffix_append front rest) (Nat.le_of_eq same)
  exact inside.eq_of_length same

theorem statement_in_turn (h : ReadsStatement s) (filled : Everywhere Filled s) {front rest : List Token}
    (first : front.map (·.kind) = statementTokens s) (apart : Apart (rest.map (·.kind))) (others : ReadInTurn body rest) :
    ReadInTurn (s :: body) (front ++ rest) := by
  refine .next (fun m enough => ?_) (fun part inside => ?_) others
  · have kinds : (front ++ rest).map (·.kind) = statementTokens s ++ rest.map (·.kind) := by rw [List.map_append, first]
    have fits : levels s ≤ m := (levels_depth s).trans enough
    obtain ⟨left, run, behind⟩ := (h.statement m _ apart).reads fits (front ++ rest) kinds
    have same : left.length = rest.length := by simpa using congrArg List.length behind
    rw [left_unique run same] at run
    exact run
  · have within := statement_within filled
    have part_kinds : part.map (·.kind) <+: statementTokens s := first ▸ inside.map (·.kind)
    rw [depth_eq]
    exact within.few _ part_kinds

theorem body_in_turn (all : ∀ s ∈ body, ReadsStatement s) (filled : ∀ s ∈ body, Everywhere Filled s) {tokens : List Token}
    (kinds : tokens.map (·.kind) = bodyTokens body ++ [.eof]) : ReadInTurn body tokens := by
  induction body generalizing tokens with
  | nil =>
      refine .done ?_
      rw [first_kind_map, kinds]
      rfl
  | cons s body ih =>
      have split : bodyTokens (s :: body) ++ [.eof] = statementTokens s ++ (bodyTokens body ++ [.eof]) := by
        simp [body_tokens_eq]
      rw [split] at kinds
      obtain ⟨front, rest, rfl, first, behind⟩ := List.map_eq_append_iff.mp kinds
      have others := ih (fun x member => all x (by simp [member])) (fun x member => filled x (by simp [member])) behind
      refine statement_in_turn (all s (by simp)) (filled s (by simp)) first ?_ others
      rw [behind]
      cases body with
      | nil => exact ⟨by simp [bodyTokens, firstOf], by simp [bodyTokens, firstOf]⟩
      | cons next body =>
          rw [body_tokens_eq, List.flatMap_cons, List.append_assoc]
          exact leads_apart ((all next (by simp)).leads _)

theorem shallow_within {root : Node} (low : ∀ s ∈ root.children, depth s ≤ 51) : WithinLimits root := by
  intro s member
  have shallow := low s member
  have few := levels_depth s
  have limit : maxDepth = 100 := rfl
  exact ⟨by omega, by omega⟩

/-- The text of a statement asks for `2 * (depth - 1)` levels of nesting and `depth` brackets at most. -/
theorem render_budget {root : Node} (formed : WellFormed root) :
    (∀ tokens : List Token, tokens.map (·.kind) = bodyTokens root.children ++ [.eof] → ReadInTurn root.children tokens) ∧
    ((∃ tokens, tokenize (String.ofList root.render) = .ok tokens ∧
        tokens.map (·.kind) = bodyTokens root.children ++ [.eof]) ∨
      ∃ e, tokenize (String.ofList root.render) = .error e ∧ e.cause = .tooManyBrackets ∧
        ∃ s ∈ root.children, maxBrackets < depth s) ∧
    ((∀ s ∈ root.children, depth s ≤ 51) →
      Tree.parse (String.ofList root.render) = .ok ⟨root, .ofNames root.identifiers⟩) := by
  refine ⟨?_, ?_, fun low => parse_render formed (shallow_within low)⟩
  · obtain ⟨body, rfl⟩ := root_program formed.program
    intro tokens kinds
    exact body_in_turn (program_statements formed) (fun s member => (statement_shaped formed s member).2.1) kinds
  · obtain ⟨body, rfl⟩ := root_program formed.program
    by_cases low : ∀ s ∈ body, depth s ≤ maxBrackets
    · exact .inl ((program_tokens formed).1 (program_fit low))
    · by_cases fit : Lexer.Fit (rowsAll 0 body)
      · exact .inl ((program_tokens formed).1 fit)
      · obtain ⟨e, failed, cause⟩ := (program_tokens formed).2 fit
        push Not at low
        exact .inr ⟨e, failed, cause, low⟩

-- Forty-nine signs make a statement of fifty-one levels.
theorem render_budget_signs : WellFormed (signsTree 49).root ∧ Tree.parse (signsTree 49).render = .ok (signsTree 49) := by
  refine ⟨signs_formed 49, (render_budget (signs_formed 49)).2.2 fun s member => ?_⟩
  rw [List.mem_singleton.mp member, signs_depth]

end Mutagen
