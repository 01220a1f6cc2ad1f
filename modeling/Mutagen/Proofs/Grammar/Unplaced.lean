import Mathlib.Logic.Relation
import Mutagen.Proofs.Grammar.Congruence
import Mutagen.Proofs.Grammar.Reads
import Mutagen.Proofs.Token.Relaid

set_option autoImplicit false

namespace Mutagen.Parser

open Token (Kind)

variable {α β σ γ : Type} {p q : Parser α} {tokens tokens' : List Token}

abbrev SameKinds (tokens tokens' : List Token) : Prop := tokens'.map (·.kind) = tokens.map (·.kind)

theorem same_first (same : SameKinds tokens tokens') : firstKind tokens' = firstKind tokens := by
  cases tokens with
  | nil => rw [List.map_eq_nil_iff.mp same]
  | cons token rest =>
      obtain ⟨_, _, rfl, first, _⟩ := List.map_eq_cons_iff.mp same
      exact first

theorem same_tail (same : SameKinds tokens tokens') : SameKinds tokens.tail tokens'.tail := by
  rw [SameKinds, List.map_tail, List.map_tail, same]

inductive SameResult : Except ParseError (α × List Token) → Except ParseError (α × List Token) → Prop where
  | ok (a : α) {rest rest' : List Token} (same : SameKinds rest rest') : SameResult (.ok (a, rest)) (.ok (a, rest'))
  | error {e e' : ParseError} (same : e'.cause = e.cause) : SameResult (.error e) (.error e')

structure Matches (p q : Parser α) : Prop where
  holds : ∀ tokens tokens', SameKinds tokens tokens' → SameResult (p.run tokens) (q.run tokens')

def Unplaced (p : Parser α) : Prop := Matches p p

theorem unplaced_pure (a : α) : Unplaced (pure a) := ⟨fun _ _ same => .ok a same⟩

theorem unplaced_kind : Unplaced kind := by
  constructor
  intro tokens tokens' same
  change SameResult (.ok (firstKind tokens, tokens)) (.ok (firstKind tokens', tokens'))
  rw [same_first same]
  exact .ok _ same

theorem unplaced_second : Unplaced secondKind := by
  constructor
  intro tokens tokens' same
  change SameResult (.ok (firstKind tokens.tail, tokens)) (.ok (firstKind tokens'.tail, tokens'))
  rw [same_first (same_tail same)]
  exact .ok _ same

theorem matches_bind {f g : α → Parser β} (hp : Matches p q) (hf : ∀ a, Matches (f a) (g a)) :
    Matches (p >>= f) (q >>= g) := by
  constructor
  intro tokens tokens' same
  have first := hp.holds tokens tokens' same
  rw [run_bind, run_bind]
  generalize p.run tokens = result, q.run tokens' = result' at first
  cases first with
  | ok a behind => exact (hf a).holds _ _ behind
  | error cause => exact .error cause

theorem matches_span {f g : Span → Parser β} (hf : ∀ place place', Matches (f place) (g place')) :
    Matches (span >>= f) (span >>= g) :=
  ⟨fun tokens tokens' same => (hf (firstSpan tokens) (firstSpan tokens')).holds tokens tokens' same⟩

theorem matches_fail_at (cause : ParseError.Cause) (place place' : Span) :
    Matches (failAt cause place : Parser α) (failAt cause place') :=
  ⟨fun _ _ _ => .error rfl⟩

theorem unplaced_refuse (cause : ParseError.Cause) : Unplaced (refuse cause : Parser α) := ⟨fun _ _ _ => .error rfl⟩

theorem unplaced_expected (what : Expected) : Unplaced (expected what : Parser α) := by
  constructor
  intro tokens tokens' same
  refine .error ?_
  simp only [ParseError.atSpan, same_first same]

theorem unplaced_skip : Unplaced skip := by
  constructor
  intro tokens tokens' same
  cases tokens with
  | nil =>
      rw [List.map_eq_nil_iff.mp same]
      exact .error rfl
  | cons token rest =>
      obtain ⟨_, _, rfl, _, behind⟩ := List.map_eq_cons_iff.mp same
      exact .ok () behind

theorem matches_chain {link : Kind → Kind → Option γ} {body body' : σ → γ → Parser (Step σ)}
    (next : ∀ state g, Matches (body state g) (body' state g)) (state : σ) :
    Matches (chain link body state) (chain link body' state) := by
  constructor
  intro tokens
  induction size : tokens.length using Nat.strong_induction_on generalizing state tokens with
  | _ n ih =>
      intro tokens' same
      cases tokens with
      | nil =>
          rw [List.map_eq_nil_iff.mp same]
          change SameResult (chainRun link body state []) (chainRun link body' state [])
          rw [chainRun, chainRun]
          exact .ok state rfl
      | cons token rest =>
          obtain ⟨token', rest', rfl, first, behind⟩ := List.map_eq_cons_iff.mp same
          have kinds : link token'.kind (firstKind rest') = link token.kind (firstKind rest) := by
            rw [same_first behind]
            exact congrArg (link · (firstKind rest)) first
          cases linked : link token.kind (firstKind rest) with
          | none =>
              change SameResult (chainRun link body state (token :: rest)) (chainRun link body' state (token' :: rest'))
              rw [chainRun, chainRun]
              simp only [kinds, linked]
              exact .ok state same
          | some g =>
              have turned := (next state g).holds rest rest' behind
              rw [chain_turn link body state token rest linked,
                chain_turn link body' state token' rest' (kinds.trans linked), turn, turn, run_bind, run_bind]
              generalize ran : (body state g).run rest = result, (body' state g).run rest' = result' at turned
              cases turned with
              | error cause => exact .error cause
              | @ok step left left' behind =>
                  have less := ((body state g).suffix ran).length_le
                  rw [List.length_cons] at size
                  cases step with
                  | stop final => exact .ok final behind
                  | again after => exact ih left.length (by omega) after left rfl left' behind

theorem matches_until {stop : Kind → Bool} {item item' : Parser (List α)} (strict : item.Strict) (strict' : item'.Strict)
    (h : Matches item item') : Matches (untilKind stop item strict) (untilKind stop item' strict') := by
  have runs (collected : List α) : Matches (untilFrom stop item strict collected) (untilFrom stop item' strict' collected) := by
    constructor
    intro tokens
    induction size : tokens.length using Nat.strong_induction_on generalizing collected tokens with
    | _ n ih =>
        intro tokens' same
        rw [until_run_eq, until_run_eq, same_first same]
        split
        · exact .ok collected same
        · have turned := h.holds tokens tokens' same
          rw [run_bind, run_bind]
          generalize ran : item.run tokens = result, item'.run tokens' = result' at turned
          cases turned with
          | error cause => exact .error cause
          | @ok items left left' behind =>
              have less := strict ran
              exact ih left.length (by omega) (collected ++ items) left rfl left' behind
  exact runs []

theorem matches_congruence : Congruence (fun _ _ => True) @Matches where
  related_pure := unplaced_pure
  related_bind := matches_bind
  first := unplaced_kind
  second := unplaced_second
  related_span behind := matches_span fun place place' => behind place place' trivial
  related_fail_at cause _ := matches_fail_at cause _ _
  related_refuse := unplaced_refuse
  related_expected := unplaced_expected
  related_skip := unplaced_skip
  related_chain := matches_chain
  related_until := matches_until

end Mutagen.Parser

namespace Mutagen.Grammar

open Mutagen.Parser

theorem unplaced_program : Unplaced program := matches_congruence.related_program

theorem tree_unplaced {tokens tokens' : List Token} (same : SameKinds tokens tokens') :
    (treeOf tokens').mapError (·.cause) = (treeOf tokens).mapError (·.cause) := by
  have result := unplaced_program.holds tokens tokens' same
  rw [treeOf, treeOf]
  generalize program.run tokens = first, program.run tokens' = second at result
  cases result with
  | ok body => rfl
  | error cause => exact congrArg Except.error cause

theorem parse_unplaced {source source' : String} {tokens tokens' : List Token} (read : tokenize source = .ok tokens)
    (read' : tokenize source' = .ok tokens') (same : SameKinds tokens tokens') :
    (Tree.parse source').mapError (·.cause) = (Tree.parse source).mapError (·.cause) := by
  rw [Tree.parse, Tree.parse, read, read']
  exact tree_unplaced same

/-- Blanks, comments, continued lines and empty lines that are put between tokens change nothing but places. -/
theorem layout_indifferent {source source' : String} {tokens : List Token} (read : tokenize source = .ok tokens)
    (relaid : Relation.ReflTransGen Relaid source source') :
    ∃ tokens', tokenize source' = .ok tokens' ∧ tokens'.map (·.kind) = tokens.map (·.kind) ∧
      (Tree.parse source').mapError (·.cause) = (Tree.parse source).mapError (·.cause) := by
  obtain ⟨tokens', read', same⟩ : ∃ tokens', tokenize source' = .ok tokens' ∧ SameKinds tokens tokens' := by
    induction relaid with
    | refl => exact ⟨tokens, read, rfl⟩
    | tail _ last ih =>
        obtain ⟨middle, read', same⟩ := ih
        obtain ⟨tokens', read'', same'⟩ := relaid_tokens last read'
        exact ⟨tokens', read'', same'.trans same⟩
  exact ⟨tokens', read', same, parse_unplaced read read' same⟩

-- A comment and a new line within the brackets, and an empty line in front.
theorem layout_indifferent_call : ∃ tokens tokens', tokenize "f(x)\n" = .ok tokens ∧
    tokenize " \nf(#a\nx)\n" = .ok tokens' ∧ tokens'.map (·.kind) = tokens.map (·.kind) ∧
    (Tree.parse " \nf(#a\nx)\n").mapError (·.cause) = (Tree.parse "f(x)\n").mapError (·.cause) := by
  have read : tokenize "f(x)\n" = .ok [⟨.name "f", ⟨0, 1, 1, 0⟩⟩, ⟨.mark .leftParen, ⟨1, 2, 1, 1⟩⟩,
      ⟨.name "x", ⟨2, 3, 1, 2⟩⟩, ⟨.mark .rightParen, ⟨3, 4, 1, 3⟩⟩, ⟨.newline, ⟨4, 5, 1, 4⟩⟩, ⟨.eof, ⟨5, 5, 2, 0⟩⟩] := by
    decide +kernel
  have inside : Relaid "f(x)\n" "f(#a\nx)\n" := by
    refine ⟨_, [], "f(".toList, "#a\n".toList, "x)\n".toList, read, rfl, rfl, rfl, ?_⟩
    exact @Inserts.joined _ _ [⟨.name "f", ⟨0, 1, 1, 0⟩⟩] ⟨.mark .leftParen, ⟨1, 2, 1, 1⟩⟩ _ _ 1 ⟨_, rfl⟩ rfl rfl rfl
      (Nat.lt_succ_self 0) (@IdleLine.comment [] ['a'] (List.forall_mem_nil _) (by decide))
  obtain ⟨middle, read', _⟩ := relaid_tokens inside read
  have front : Relaid "f(#a\nx)\n" " \nf(#a\nx)\n" :=
    ⟨middle, [], [], " \n".toList, _, read', rfl, rfl, rfl, .first rfl (@IdleLine.blank [' '] (List.forall_mem_singleton.mpr rfl))⟩
  obtain ⟨tokens', rest⟩ := layout_indifferent read (.tail (.single inside) front)
  exact ⟨_, tokens', read, rest⟩

end Mutagen.Grammar
