import Mutagen.ParseError

set_option autoImplicit false

namespace Mutagen

structure Parser (α : Type) where
  run : List Token → Except ParseError (α × List Token)
  suffix : ∀ {tokens rest : List Token} {a : α}, run tokens = .ok (a, rest) → rest <:+ tokens

namespace Parser

def firstKind : List Token → Token.Kind
  | [] => .eof
  | token :: _ => token.kind

def firstSpan : List Token → Span
  | [] => .empty {}
  | token :: _ => token.span

instance : Monad Parser where
  pure a := ⟨fun tokens => .ok (a, tokens), by
    intro tokens rest b h
    simp only [Except.ok.injEq, Prod.mk.injEq] at h
    exact h.2 ▸ List.suffix_refl _⟩
  bind p f := ⟨fun tokens =>
    match p.run tokens with
    | .error e => .error e
    | .ok (a, rest) => (f a).run rest, by
    intro tokens rest b h
    split at h
    · simp at h
    · rename_i a middle hp
      exact ((f a).suffix h).trans (p.suffix hp)⟩

theorem run_pure {α : Type} (a : α) (tokens : List Token) :
    (pure a : Parser α).run tokens = .ok (a, tokens) := rfl

theorem run_bind {α β : Type} (p : Parser α) (f : α → Parser β) (tokens : List Token) :
    (p >>= f).run tokens =
      match p.run tokens with
      | .error e => .error e
      | .ok (a, rest) => (f a).run rest := rfl

def look {α : Type} (f : List Token → α) : Parser α :=
  ⟨fun tokens => .ok (f tokens, tokens), by
    intro tokens rest a h
    simp only [Except.ok.injEq, Prod.mk.injEq] at h
    exact h.2 ▸ List.suffix_refl _⟩

def kind : Parser Token.Kind := look firstKind

def secondKind : Parser Token.Kind := look fun tokens => firstKind tokens.tail

def span : Parser Span := look firstSpan

def failWith {α : Type} (f : List Token → ParseError) : Parser α :=
  ⟨fun tokens => .error (f tokens), by intro tokens rest a h; simp at h⟩

def failAt {α : Type} (cause : ParseError.Cause) (span : Span) : Parser α :=
  failWith fun _ => .atSpan cause span

def refuse {α : Type} (cause : ParseError.Cause) : Parser α :=
  failWith fun tokens => .atSpan cause (firstSpan tokens)

/-- The first token does not fit. A word outside the supported language is reported as such. -/
def expected {α : Type} (what : Expected) : Parser α :=
  failWith fun tokens =>
    .atSpan
      (match firstKind tokens with
        | .reserved word => .unsupported (.word word)
        | found => .unexpected what found)
      (firstSpan tokens)

def skip : Parser Unit :=
  ⟨fun
    | [] => .error (.atSpan (.unexpected .newline .eof) (firstSpan []))
    | _ :: rest => .ok ((), rest), by
    intro tokens rest a h
    split at h
    · simp at h
    · simp only [Except.ok.injEq, Prod.mk.injEq] at h
      exact h.2 ▸ List.suffix_cons _ _⟩

def accept (wanted : Token.Kind) : Parser Bool := do
  if (← kind) = wanted then
    skip
    return true
  else return false

def expect (wanted : Token.Kind) (what : Expected) : Parser Unit := do
  if (← kind) = wanted then skip else expected what

def expectMark (mark : Mark) : Parser Unit := expect (.mark mark) (.mark mark)

def expectKeyword (word : Keyword) : Parser Unit := expect (.keyword word) (.keyword word)

def expectName : Parser String := do
  match ← kind with
  | .name id =>
      skip
      return id
  | _ => expected .name

def forbid (unwanted : Token.Kind) (construct : Construct) : Parser Unit := do
  if (← kind) = unwanted then refuse (.unsupported construct) else return ()

def require (condition : Bool) (cause : ParseError.Cause) (span : Span) : Parser Unit :=
  if condition then pure () else failAt cause span

inductive Step (σ : Type) where
  | again (state : σ)
  | stop (state : σ)

/-- While the first two tokens satisfy `link`, takes the first and lets `body` go on from there. -/
def chainRun {σ γ : Type} (link : Token.Kind → Token.Kind → Option γ)
    (body : σ → γ → Parser (Step σ)) (state : σ) (tokens : List Token) :
    Except ParseError (σ × List Token) :=
  match tokens with
  | [] => .ok (state, [])
  | token :: rest =>
      match link token.kind (firstKind rest) with
      | none => .ok (state, token :: rest)
      | some g =>
          match _h : (body state g).run rest with
          | .error e => .error e
          | .ok (.stop next, left) => .ok (next, left)
          | .ok (.again next, left) => chainRun link body next left
termination_by tokens.length
decreasing_by exact Nat.lt_succ_of_le ((body state g).suffix (by assumption)).length_le

theorem chain_run_suffix {σ γ : Type} {link : Token.Kind → Token.Kind → Option γ}
    {body : σ → γ → Parser (Step σ)} {state final : σ} {tokens rest : List Token}
    (h : chainRun link body state tokens = .ok (final, rest)) : rest <:+ tokens := by
  fun_induction chainRun link body state tokens with
  | case1 | case2 =>
      simp only [Except.ok.injEq, Prod.mk.injEq] at h
      exact h.2 ▸ List.suffix_refl _
  | case3 => simp at h
  | case4 state token tail g _ next left hb =>
      simp only [Except.ok.injEq, Prod.mk.injEq] at h
      exact h.2 ▸ ((body state g).suffix hb).trans (List.suffix_cons token tail)
  | case5 state token tail g _ next left hb ih =>
      exact ((ih h).trans ((body state g).suffix hb)).trans (List.suffix_cons token tail)

def chain {σ γ : Type} (link : Token.Kind → Token.Kind → Option γ)
    (body : σ → γ → Parser (Step σ)) (state : σ) : Parser σ :=
  ⟨chainRun link body state, chain_run_suffix⟩

def linkedBy (wanted : Token.Kind) : Token.Kind → Token.Kind → Option Unit :=
  fun first _ => if first = wanted then some () else none

def behindCommas {σ : Type} (stop : Token.Kind → Bool) (item : σ → Parser σ) (state : σ) : Parser σ :=
  chain (linkedBy (.mark .comma)) (fun state _ => do
    if stop (← kind) then return .stop state else return .again (← item state)) state

def upTo {σ : Type} (closing : Mark) (item : σ → Parser σ) (state : σ) : Parser σ := do
  if (← kind) = .mark closing then return state
  else behindCommas (· = .mark closing) item (← item state)

def append {α : Type} (item : Parser α) (items : List α) : Parser (List α) := do
  return items ++ [← item]

def Strict {α : Type} (p : Parser α) : Prop :=
  ∀ {tokens rest : List Token} {a : α}, p.run tokens = .ok (a, rest) → rest.length < tokens.length

theorem strict_bind_left {α β : Type} {p : Parser α} {f : α → Parser β} (hp : p.Strict) :
    (p >>= f).Strict := by
  intro tokens rest b h
  rw [run_bind] at h
  split at h
  · simp at h
  · rename_i a middle hr
    exact Nat.lt_of_le_of_lt ((f a).suffix h).length_le (hp hr)

theorem strict_bind_right {α β : Type} {p : Parser α} {f : α → Parser β}
    (hf : ∀ a, (f a).Strict) : (p >>= f).Strict := by
  intro tokens rest b h
  rw [run_bind] at h
  split at h
  · simp at h
  · rename_i a middle hr
    exact Nat.lt_of_lt_of_le (hf a h) (p.suffix hr).length_le

theorem strict_fail_with {α : Type} (f : List Token → ParseError) :
    (failWith f : Parser α).Strict := by
  intro tokens rest a h
  simp [failWith] at h

theorem strict_skip : skip.Strict := by
  intro tokens rest a h
  cases tokens with
  | nil => simp [skip] at h
  | cons token tail => simp only [skip, Except.ok.injEq, Prod.mk.injEq] at h; simp [h.2]

theorem strict_ite {α : Type} {c : Prop} [Decidable c] {p q : Parser α} (hp : p.Strict)
    (hq : q.Strict) : (if c then p else q).Strict := by
  split
  · exact hp
  · exact hq

def untilRun {α : Type} (stop : Token.Kind → Bool) (item : Parser (List α)) (strict : item.Strict)
    (collected : List α) (tokens : List Token) : Except ParseError (List α × List Token) :=
  if stop (firstKind tokens) then .ok (collected, tokens)
  else
    match _h : item.run tokens with
    | .error e => .error e
    | .ok (items, rest) => untilRun stop item strict (collected ++ items) rest
termination_by tokens.length
decreasing_by exact strict (by assumption)

theorem until_run_suffix {α : Type} {stop : Token.Kind → Bool} {item : Parser (List α)}
    {strict : item.Strict} {collected all : List α} {tokens rest : List Token}
    (h : untilRun stop item strict collected tokens = .ok (all, rest)) : rest <:+ tokens := by
  fun_induction untilRun stop item strict collected tokens with
  | case1 =>
      simp only [Except.ok.injEq, Prod.mk.injEq] at h
      exact h.2 ▸ List.suffix_refl _
  | case2 => simp at h
  | case3 _ _ _ _ _ hi ih => exact (ih h).trans (item.suffix hi)

def untilKind {α : Type} (stop : Token.Kind → Bool) (item : Parser (List α))
    (strict : item.Strict) : Parser (List α) :=
  ⟨untilRun stop item strict [], until_run_suffix⟩

end Parser

end Mutagen
