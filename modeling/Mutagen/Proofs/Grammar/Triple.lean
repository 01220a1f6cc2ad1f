import Mutagen.Grammar.Parser

set_option autoImplicit false

namespace Mutagen.Parser

open Token (Kind)

variable {α β σ γ : Type} {p q : Parser α} {S T : List Token → Prop} {Q : α → List Token → Prop}
  {R : β → List Token → Prop} {I : σ → List Token → Prop}

structure Triple (T : List Token → Prop) (p : Parser α) (Q : α → List Token → Prop) : Prop where
  holds : ∀ tokens, T tokens → ∀ a rest, p.run tokens = .ok (a, rest) → Q a rest

theorem triple_under (h : Triple T p Q) (stronger : ∀ tokens, S tokens → T tokens) : Triple S p Q :=
  ⟨fun tokens before => h.holds tokens (stronger tokens before)⟩

theorem triple_imp {Q' : α → List Token → Prop} (h : Triple T p Q) (step : ∀ a rest, Q a rest → Q' a rest) :
    Triple T p Q' :=
  ⟨fun tokens before a rest run => step a rest (h.holds tokens before a rest run)⟩

theorem triple_given {c : Prop} (h : c → Triple T p Q) : Triple (fun tokens => c ∧ T tokens) p Q :=
  ⟨fun tokens both => (h both.1).holds tokens both.2⟩

theorem triple_forget (h : Triple T p Q) : Triple (fun tokens => S tokens ∧ T tokens) p Q :=
  triple_under h fun _ both => both.2

theorem triple_pure {a : α} (h : ∀ tokens, T tokens → Q a tokens) : Triple T (pure a) Q := by
  constructor
  intro tokens before b rest run
  cases run
  exact h tokens before

theorem triple_ite {c : Prop} [Decidable c] (hp : c → Triple T p Q) (hq : ¬ c → Triple T q Q) :
    Triple T (if c then p else q) Q := by
  by_cases holds : c
  · rw [if_pos holds]
    exact hp holds
  · rw [if_neg holds]
    exact hq holds

theorem triple_fail (f : List Token → ParseError) : Triple T (failWith f : Parser α) Q := by
  constructor
  intro tokens before a rest run
  cases run

theorem triple_bind {f : α → Parser β} (hp : Triple T p Q) (hf : ∀ a, Triple (Q a) (f a) R) :
    Triple T (p >>= f) R := by
  constructor
  intro tokens before b rest run
  rw [run_bind] at run
  cases front : p.run tokens with
  | error e =>
      rw [front] at run
      cases run
  | ok result =>
      obtain ⟨a, middle⟩ := result
      rw [front] at run
      exact (hf a).holds middle (hp.holds tokens before a middle front) b rest run

-- A look at the tokens, of which nothing is remembered.
theorem triple_look {look? : List Token → α} {f : α → Parser β} (h : ∀ a, Triple T (f a) R) :
    Triple T (look look? >>= f) R :=
  ⟨fun tokens before => (h (look? tokens)).holds tokens before⟩

theorem triple_kind {f : Kind → Parser β}
    (h : ∀ first, Triple (fun tokens => firstKind tokens = first ∧ T tokens) (f first) R) : Triple T (kind >>= f) R :=
  ⟨fun tokens before => (h (firstKind tokens)).holds tokens ⟨rfl, before⟩⟩

theorem triple_if_kind {wanted : Kind} (found : Triple (fun tokens => firstKind tokens = wanted ∧ T tokens) p Q)
    (other : Triple T q Q) : Triple T (kind >>= fun first => if first = wanted then p else q) Q := by
  apply triple_kind
  intro first
  apply triple_ite
  · rintro rfl
    exact found
  · intro absent
    exact triple_forget other

theorem triple_second_kind {f : Kind → Parser β}
    (h : ∀ second, Triple (fun tokens => firstKind tokens.tail = second ∧ T tokens) (f second) R) :
    Triple T (secondKind >>= f) R :=
  ⟨fun tokens before => (h (firstKind tokens.tail)).holds tokens ⟨rfl, before⟩⟩

theorem triple_forbid (unwanted : Kind) (construct : Construct) : Triple T (forbid unwanted construct) fun _ => T := by
  apply triple_look
  intro first
  apply triple_ite
  · intro found
    exact triple_fail _
  · intro absent
    exact triple_pure fun _ holds => holds

theorem triple_require {condition : Bool} {cause : ParseError.Cause} {place : Span} :
    Triple T (require condition cause place) fun _ tokens => condition = true ∧ T tokens := by
  apply triple_ite
  · intro holds
    exact triple_pure fun _ before => ⟨holds, before⟩
  · intro fails
    exact triple_fail _

theorem triple_skip (h : ∀ token rest, T (token :: rest) → S rest) : Triple T skip fun _ => S := by
  constructor
  intro tokens before a rest run
  cases tokens with
  | nil => cases run
  | cons token tail =>
      cases run
      exact h token _ before

-- Where a token of this kind goes unnoticed.
def Ignores (T : List Token → Prop) (kind : Kind) : Prop :=
  ∀ token rest, token.kind = kind → T (token :: rest) → T rest

theorem triple_take {wanted : Kind} (ignores : Ignores T wanted) :
    Triple (fun tokens => firstKind tokens = wanted ∧ T tokens) skip fun _ => T :=
  triple_skip fun token rest both => ignores token rest both.1 both.2

-- Loops: `I` holds before every turn, `J` behind the last one.
def Goes (I J : σ → List Token → Prop) : Step σ → List Token → Prop
  | .again state => I state
  | .stop state => J state

theorem triple_chain {link : Kind → Kind → Option γ} {body : σ → γ → Parser (Step σ)} {J : σ → List Token → Prop}
    {state : σ} (unlinked : ∀ state, I state [] → J state [])
    (done : ∀ state token rest, link token.kind (firstKind rest) = none → I state (token :: rest) → J state (token :: rest))
    (next : ∀ state token g,
      Triple (fun rest => link token.kind (firstKind rest) = some g ∧ I state (token :: rest)) (body state g) (Goes I J)) :
    Triple (I state) (chain link body state) J := by
  constructor
  intro tokens before final rest run
  change chainRun link body state tokens = .ok (final, rest) at run
  fun_induction chainRun link body state tokens with
  | case1 =>
      cases run
      exact unlinked _ before
  | case2 =>
      rename_i unmet
      cases run
      exact done _ _ _ unmet before
  | case3 => cases run
  | case4 state token tail g linked last left stepped =>
      cases run
      exact (next state token g).holds tail ⟨linked, before⟩ _ _ stepped
  | case5 state token tail g linked after left stepped ih =>
      exact ih ((next state token g).holds tail ⟨linked, before⟩ _ _ stepped) run

theorem linked_kind {wanted first second : Kind} {g : Unit} (linked : linkedBy wanted first second = some g) :
    first = wanted := by
  by_cases same : first = wanted
  · exact same
  · rw [linkedBy, if_neg same] at linked
    cases linked

theorem triple_linked {wanted : Kind} {body : σ → Unit → Parser (Step σ)} {state : σ}
    (ignores : ∀ state, Ignores (I state) wanted) (next : ∀ state, Triple (I state) (body state ()) (Goes I I)) :
    Triple (I state) (chain (linkedBy wanted) body state) I := by
  apply triple_chain
  · exact fun state holds => holds
  · exact fun state token rest _ holds => holds
  · intro state token g
    apply triple_under (next state)
    rintro rest ⟨linked, holds⟩
    exact ignores state token rest (linked_kind linked) holds

theorem triple_behind_commas {stop : Kind → Bool} {item : σ → Parser σ} {state : σ}
    (ignores : ∀ state, Ignores (I state) (.mark .comma)) (next : ∀ state, Triple (I state) (item state) I) :
    Triple (I state) (behindCommas stop item state) I := by
  apply triple_linked ignores
  intro state
  apply triple_look
  intro first
  apply triple_ite
  · intro stops
    exact triple_pure fun _ holds => holds
  · intro goes
    apply triple_bind (next state)
    intro after
    exact triple_pure fun _ holds => holds

theorem triple_up_to {closing : Mark} {item : σ → Parser σ} {state : σ}
    (ignores : ∀ state, Ignores (I state) (.mark .comma)) (next : ∀ state, Triple (I state) (item state) I) :
    Triple (I state) (upTo closing item state) I := by
  apply triple_look
  intro first
  apply triple_ite
  · intro closes
    exact triple_pure fun _ holds => holds
  · intro goes
    apply triple_bind (next state)
    intro after
    exact triple_behind_commas ignores next

theorem triple_until {stop : Kind → Bool} {item : Parser (List α)} {strict : item.Strict}
    {I : List α → List Token → Prop} (next : ∀ collected, Triple (I collected) item fun items => I (collected ++ items)) :
    Triple (I []) (untilKind stop item strict) fun all rest => I all rest ∧ stop (firstKind rest) = true := by
  constructor
  intro tokens before all rest run
  change untilRun stop item strict [] tokens = .ok (all, rest) at run
  generalize [] = collected at before run
  fun_induction untilRun stop item strict collected tokens with
  | case1 collected tokens stops =>
      cases run
      exact ⟨before, stops⟩
  | case2 => cases run
  | case3 collected tokens _ items left stepped ih =>
      exact ih ((next collected).holds tokens before items left stepped) run

theorem until_stops {stop : Kind → Bool} {item : Parser (List α)} {strict : item.Strict} {all : List α}
    {tokens rest : List Token} (run : (untilKind stop item strict).run tokens = .ok (all, rest)) :
    stop (firstKind rest) = true :=
  ((triple_until (I := fun _ _ => True) fun _ => ⟨fun _ _ _ _ _ => trivial⟩).holds tokens trivial all rest run).2

end Mutagen.Parser
