import Mutagen.Proofs.Grammar.Congruence

set_option autoImplicit false

namespace Mutagen.Parser

open Token (Kind)

variable {α β σ γ : Type} {G : Nat → Nat → Prop} {p q : Parser α} {tokens rest : List Token} {place : Span}

def Marked (G : Nat → Nat → Prop) (place : Span) : Prop := G place.line place.column

-- Every token stands at such a place, and so does the end behind the last.
def Standing (G : Nat → Nat → Prop) (tokens : List Token) : Prop :=
  ∀ rest, rest <:+ tokens → Marked G (firstSpan rest)

theorem standing_of_each (start : G 1 0) (h : ∀ token ∈ tokens, Marked G token.span) : Standing G tokens := by
  intro rest inside
  cases rest with
  | nil => exact start
  | cons token rest => exact h token (inside.subset (.head _))

theorem standing_behind (h : Standing G tokens) (inside : rest <:+ tokens) : Standing G rest :=
  fun _ further => h _ (further.trans inside)

theorem standing_first (h : Standing G tokens) : Marked G (firstSpan tokens) := h tokens (List.suffix_refl tokens)

structure Blames (G : Nat → Nat → Prop) (p : Parser α) : Prop where
  holds : ∀ tokens, Standing G tokens → ∀ e, p.run tokens = .error e → G e.line e.column

theorem blames_pure (a : α) : Blames G (pure a) := by
  constructor
  intro tokens _ e failed
  cases failed

theorem blames_look (f : List Token → α) : Blames G (look f) := by
  constructor
  intro tokens _ e failed
  cases failed

theorem blames_bind {f : α → Parser β} (hp : Blames G p) (hf : ∀ a, Blames G (f a)) : Blames G (p >>= f) := by
  constructor
  intro tokens standing e failed
  rw [run_bind] at failed
  split at failed
  · rename_i front
    cases failed
    exact hp.holds tokens standing e front
  · rename_i a middle front
    exact (hf a).holds middle (standing_behind standing (p.suffix front)) e failed

theorem blames_span {f : Span → Parser β} (hf : ∀ place, Marked G place → Blames G (f place)) : Blames G (span >>= f) :=
  ⟨fun tokens standing => (hf (firstSpan tokens) (standing_first standing)).holds tokens standing⟩

theorem blames_fail_at {cause : ParseError.Cause} (marked : Marked G place) : Blames G (failAt cause place : Parser α) := by
  constructor
  intro tokens _ e failed
  cases failed
  exact marked

theorem blames_refuse (cause : ParseError.Cause) : Blames G (refuse cause : Parser α) := by
  constructor
  intro tokens standing e failed
  cases failed
  exact standing_first standing

theorem blames_expected (what : Expected) : Blames G (expected what : Parser α) := by
  constructor
  intro tokens standing e failed
  cases failed
  exact standing_first standing

theorem blames_skip : Blames G skip := by
  constructor
  intro tokens standing e failed
  cases tokens with
  | nil =>
      cases failed
      exact standing_first standing
  | cons token rest => cases failed

theorem blames_chain {link : Kind → Kind → Option γ} {body : σ → γ → Parser (Step σ)}
    (next : ∀ state g, Blames G (body state g)) (state : σ) : Blames G (chain link body state) := by
  constructor
  intro tokens standing e failed
  change chainRun link body state tokens = .error e at failed
  fun_induction chainRun link body state tokens with
  | case1 | case2 | case4 => cases failed
  | case3 state token tail g linked fault stopped =>
      cases failed
      exact (next state g).holds tail (standing_behind standing (List.suffix_cons token tail)) e stopped
  | case5 state token tail g linked after left stepped ih =>
      have behind := standing_behind standing (List.suffix_cons token tail)
      exact ih (standing_behind behind ((body state g).suffix stepped)) failed

theorem blames_until {stop : Kind → Bool} {item : Parser (List α)} (strict : item.Strict) (h : Blames G item) :
    Blames G (untilKind stop item strict) := by
  have runs (collected : List α) : ∀ tokens, Standing G tokens → ∀ e,
      untilRun stop item strict collected tokens = .error e → G e.line e.column := by
    intro tokens standing e failed
    fun_induction untilRun stop item strict collected tokens with
    | case1 => cases failed
    | case2 collected tokens _ fault stopped =>
        cases failed
        exact h.holds tokens standing e stopped
    | case3 collected tokens _ items left stepped ih => exact ih (standing_behind standing (item.suffix stepped)) failed
  exact ⟨runs []⟩

-- This is about one parser, so nothing is asked of the other side.
theorem blames_congruence : Congruence (fun place _ => Marked G place) (fun _ p _ => Blames G p) where
  related_pure := blames_pure
  related_bind := blames_bind
  first := blames_look firstKind
  second := blames_look _
  related_span behind := blames_span fun place => behind place place
  related_fail_at _ := blames_fail_at
  related_refuse := blames_refuse
  related_expected := blames_expected
  related_skip := blames_skip
  related_chain := blames_chain
  related_until strict _ := blames_until strict

end Mutagen.Parser

namespace Mutagen.Grammar

open Mutagen.Parser

theorem blames_program {G : Nat → Nat → Prop} : Blames G program := blames_congruence.related_program

end Mutagen.Grammar
