import Mutagen.Arena.Basic
import Mutagen.Grammar.Parser

set_option autoImplicit false

namespace Mutagen

abbrev Builder := StateT Arena Parser

namespace Builder

open Parser (kind skip expected linkedBy Step)

def alloc (cell : Cell) : Builder NodeId := fun a => return a.alloc cell

def update (id : NodeId) (cell : Cell) : Builder Unit := fun a => return ((), a.update id cell)

def intern (name : String) : Builder Symbol := fun a => return a.intern name

def text (symbol : Symbol) : Builder String := fun a => return (a.textOf symbol, a)

def expectName : Builder Symbol := do intern (← Parser.expectName)

def store (ids : List NodeId) (place : Span) : Builder Unit := fun a =>
  match ids.foldlM Arena.store? a with
  | some b => return ((), b)
  | none => Parser.failAt .assignmentTarget place

def withArena {σ : Type} : Step σ × Arena → Step (σ × Arena)
  | (.again state, a) => .again (state, a)
  | (.stop state, a) => .stop (state, a)

def chain {σ γ : Type} (link : Token.Kind → Token.Kind → Option γ)
    (body : σ → γ → Builder (Step σ)) (state : σ) : Builder σ := fun a =>
  Parser.chain link (fun (state, a) g => do return withArena (← body state g a)) (state, a)

def behindCommas {σ : Type} (stop : Token.Kind → Bool) (item : σ → Builder σ) (state : σ) :
    Builder σ :=
  chain (linkedBy (.mark .comma)) (fun state _ => do
    if stop (← kind) then return .stop state else return .again (← item state)) state

def upTo {σ : Type} (closing : Mark) (item : σ → Builder σ) (state : σ) : Builder σ := do
  if (← kind) = .mark closing then return state
  else behindCommas (· = .mark closing) item (← item state)

def append {α : Type} (item : Builder α) (items : List α) : Builder (List α) := do
  return items ++ [← item]

def Strict {α : Type} (build : Builder α) : Prop := ∀ a, (build a).Strict

theorem strict_bind_left {α β : Type} {p : Builder α} {f : α → Builder β} (hp : Strict p) :
    Strict (p >>= f) :=
  fun a => Parser.strict_bind_left (hp a)

theorem strict_bind_right {α β : Type} {p : Builder α} {f : α → Builder β}
    (hf : ∀ x, Strict (f x)) : Strict (p >>= f) :=
  fun _ => Parser.strict_bind_right fun (x, b) => hf x b

theorem strict_lift {α : Type} {p : Parser α} (hp : p.Strict) : Strict (liftM p : Builder α) :=
  fun _ => Parser.strict_bind_left hp

theorem strict_skip : Strict (liftM skip : Builder Unit) := strict_lift Parser.strict_skip

theorem strict_ite {α : Type} {c : Prop} [Decidable c] {p q : Builder α} (hp : Strict p)
    (hq : Strict q) : Strict (if c then p else q) := by
  split
  · exact hp
  · exact hq

def untilRun {α : Type} (stop : Token.Kind → Bool) (item : Builder (List α)) (strict : Strict item)
    (collected : List α) (a : Arena) (tokens : List Token) :
    Except ParseError ((List α × Arena) × List Token) :=
  if stop (Parser.firstKind tokens) then .ok ((collected, a), tokens)
  else
    match _h : (item a).run tokens with
    | .error e => .error e
    | .ok ((items, b), rest) => untilRun stop item strict (collected ++ items) b rest
termination_by tokens.length
decreasing_by exact strict a (by assumption)

theorem until_run_suffix {α : Type} {stop : Token.Kind → Bool} {item : Builder (List α)}
    {strict : Strict item} {collected : List α} {a : Arena} {all : List α × Arena}
    {tokens rest : List Token} (h : untilRun stop item strict collected a tokens = .ok (all, rest)) :
    rest <:+ tokens := by
  fun_induction untilRun stop item strict collected a tokens with
  | case1 =>
      simp only [Except.ok.injEq, Prod.mk.injEq] at h
      exact h.2 ▸ List.suffix_refl _
  | case2 => simp at h
  | case3 _ a _ _ _ _ _ hi ih => exact (ih h).trans ((item a).suffix hi)

def untilKind {α : Type} (stop : Token.Kind → Bool) (item : Builder (List α))
    (strict : Strict item) : Builder (List α) := fun a =>
  ⟨untilRun stop item strict [] a, until_run_suffix⟩

end Builder

end Mutagen
