import Mutagen.Proofs.Grammar.Reads
import Mutagen.Proofs.Grammar.Triple
import Mutagen.Proofs.Node.Leaves
import Mutagen.Proofs.Token.Layout
import Mutagen.Proofs.Token.Leaves
import Mutagen.Proofs.Token.Pairs

set_option autoImplicit false

namespace Mutagen

open Token (Kind)

-- The kinds that say nothing about what is open. A semicolon stands in no statement.
def Token.Kind.isPlain : Kind → Bool
  | .name _ | .int _ | .float _ | .str _ | .augAssign _ => true
  | .keyword word => word ≠ .kwLambda
  | .mark m => !m.isOpening && !m.isClosing && m ≠ .colon && m ≠ .semicolon
  | _ => false

structure Scan (S : Type) where
  step : S → Kind → Option S
  start : S
  push : Mark → S → S
  lambda : S → S
  plain : ∀ state kind, kind.isPlain = true → step state kind = some state
  opens : ∀ state opening, opening.isOpening = true → step state (.mark opening) = some (push opening state)
  closes : ∀ state opening closing, opening.partner? = some closing →
    step (push opening state) (.mark closing) = some state
  divides : ∀ state opening, opening.isOpening = true →
    step (push opening state) (.mark .colon) = some (push opening state)
  binds : ∀ state, step state (.keyword .kwLambda) = some (lambda state)
  bound : ∀ state, step (lambda state) (.mark .colon) = some state

end Mutagen

namespace Mutagen.Parser

open Token (Kind leavesOf leaves_silent leaves_plain leaves_string join_leaves)
open Lexer (AllSound)

-- The kinds of all tokens, what is looked at as they are taken, and what is known of them.
structure Pass (S : Type) where
  scan : Scan S
  kinds : List Kind
  sound : Prop
  opens : Prop

namespace Pass

variable {S : Type}

structure Within (pass : Pass S) (opened : S) (tokens : List Token) : Prop where
  sound : pass.sound → AllSound tokens
  opens : pass.opens → Lexer.Opens tokens
  taken : ∃ front, pass.kinds = front ++ tokens.map (·.kind) ∧ front.foldlM pass.scan.step pass.scan.start = some opened

-- In front of `tokens` this was read, and this is open.
structure At (pass : Pass S) (read : List Leaf) (opened : S) (tokens : List Token) : Prop extends pass.Within opened tokens where
  ahead : pass.sound → read ++ leavesOf (tokens.map (·.kind)) = leavesOf pass.kinds

-- A result that keeps `P`, and that has the leaves of what was taken for it.
structure Told {α : Type} (pass : Pass S) (P : α → Prop) (L : α → List Leaf) (read : List Leaf) (opened : S) (a : α)
    (tokens : List Token) : Prop where
  holds : pass.sound → P a
  here : pass.At (read ++ L a) opened tokens

structure Skips (pass : Pass S) (before : S) (kind : Kind) (after : S) : Prop where
  silent : kind.leaf? = none
  admitted : pass.scan.step before kind = some after

end Pass

abbrev Accounts {S α : Type} (pass : Pass S) (p : Parser α) (P : α → Prop) (L : α → List Leaf) : Prop :=
  ∀ read opened, Triple (pass.At read opened) p (pass.Told P L read opened)

variable {S : Type} {pass : Pass S} {α β σ γ : Type} {read more : List Leaf} {opened before middle after : S} {p q : Parser α}
  {P : α → Prop} {L : α → List Leaf} {Q : β → List Token → Prop} {I : σ → Prop} {M : σ → List Leaf}

theorem skips_plain {kind : Kind} (plain : kind.isPlain = true) (silent : kind.leaf? = none) : pass.Skips opened kind opened :=
  ⟨silent, pass.scan.plain _ _ plain⟩

theorem skips_open {opening : Mark} (opens : opening.isOpening = true) :
    pass.Skips opened (.mark opening) (pass.scan.push opening opened) :=
  ⟨rfl, pass.scan.opens _ _ opens⟩

theorem skips_close {opening closing : Mark} (fits : opening.partner? = some closing) :
    pass.Skips (pass.scan.push opening opened) (.mark closing) opened :=
  ⟨rfl, pass.scan.closes _ _ _ fits⟩

theorem skips_colon {opening : Mark} (opens : opening.isOpening = true) :
    pass.Skips (pass.scan.push opening opened) (.mark .colon) (pass.scan.push opening opened) :=
  ⟨rfl, pass.scan.divides _ _ opens⟩

theorem within_behind {token : Token} {rest : List Token} (within : pass.Within before (token :: rest))
    (admitted : pass.scan.step before token.kind = some after) : pass.Within after rest := by
  obtain ⟨front, whole, admits⟩ := within.taken
  refine ⟨fun known other member => within.sound known other (List.mem_cons_of_mem token member),
    fun known => (within.opens known).suffix (List.suffix_cons token rest), front ++ [token.kind], by rw [whole]; simp, ?_⟩
  rw [List.foldlM_append, admits]
  change pass.scan.step before token.kind >>= _ = _
  rw [admitted]
  rfl

theorem at_behind {token : Token} {rest : List Token} (here : pass.At read before (token :: rest))
    (skips : pass.Skips before token.kind after) : pass.At read after rest := by
  refine ⟨within_behind here.toWithin skips.admitted, fun known => ?_⟩
  rw [← here.ahead known, List.map_cons, leaves_silent skips.silent]

theorem at_skip {kind : Kind} (skips : pass.Skips before kind after) :
    Triple (fun tokens => firstKind tokens = kind ∧ pass.At read before tokens) skip fun _ => pass.At read after := by
  apply triple_skip
  rintro token rest ⟨same, here⟩
  obtain rfl : token.kind = kind := same
  exact at_behind here skips

theorem at_leaf {kind : Kind} {leaf : Leaf} (plain : kind.isPlain = true) (single : kind.isStr = false)
    (spells : kind.leaf? = some leaf) :
    Triple (fun tokens => firstKind tokens = kind ∧ pass.At read opened tokens) skip fun _ => pass.At (read ++ [leaf]) opened := by
  apply triple_skip
  rintro token rest ⟨same, here⟩
  obtain rfl : token.kind = kind := same
  refine ⟨within_behind here.toWithin (pass.scan.plain _ _ plain), fun known => ?_⟩
  rw [← here.ahead known, List.map_cons, leaves_plain single spells, List.append_assoc]
  rfl

theorem at_ignores {kind : Kind} (skips : pass.Skips opened kind opened) : Ignores (pass.At read opened) kind := by
  rintro token rest rfl here
  exact at_behind here skips

-- In front of a token of which nothing is asked but its kind.
theorem at_kind {f : Kind → Parser β}
    (h : ∀ first, (pass.sound → first.IsSound) → Triple (fun tokens => firstKind tokens = first ∧ pass.At read opened tokens) (f first) Q) :
    Triple (pass.At read opened) (kind >>= f) Q := by
  constructor
  intro tokens here
  have first (known : pass.sound) : (firstKind tokens).IsSound := by
    cases tokens with
    | nil => trivial
    | cons token rest => exact here.sound known token List.mem_cons_self
  exact (h _ first).holds tokens ⟨rfl, here⟩

theorem at_expect {wanted : Kind} (skips : pass.Skips before wanted after) (what : Expected) :
    Triple (pass.At read before) (expect wanted what) fun _ => pass.At read after :=
  triple_if_kind (at_skip skips) (triple_fail _)

theorem at_if_accept {wanted : Kind} {q : Parser β} {p : Parser β} (skips : pass.Skips before wanted middle)
    (found : Triple (pass.At read middle) p Q) (other : Triple (pass.At read before) q Q) :
    Triple (pass.At read before) (accept wanted >>= fun taken => if taken then p else q) Q := by
  have accepts : Triple (pass.At read before) (accept wanted) fun taken => pass.At read (if taken then middle else before) := by
    apply triple_if_kind
    · apply triple_bind (at_skip skips)
      intro _
      exact triple_pure fun _ here => here
    · exact triple_pure fun _ here => here
  apply triple_bind accepts
  intro taken
  cases taken with
  | true => exact found
  | false => exact other

theorem told_pure {a : α} (holds : pass.sound → P a) (same : pass.sound → more = read ++ L a) :
    Triple (pass.At more opened) (pure a) (pass.Told P L read opened) :=
  triple_pure fun _ here => ⟨holds, here.toWithin, fun known => same known ▸ here.ahead known⟩

theorem told_bind {T : List Token → Prop} {f : α → Parser β} (hp : Triple T p (pass.Told P L read middle))
    (hf : ∀ a, (pass.sound → P a) → Triple (pass.At (read ++ L a) middle) (f a) Q) : Triple T (p >>= f) Q :=
  triple_bind hp fun a => ⟨fun tokens told => (hf a told.holds).holds tokens told.here⟩

theorem told_name : Accounts pass expectName (isIdentifier · = true) fun id => [.name id] := by
  intro read opened
  apply at_kind
  intro first sound
  split
  · apply triple_bind (at_leaf rfl rfl rfl)
    intro _
    exact told_pure sound fun _ => rfl
  · exact triple_fail _

-- Loops: what holds of the state holds again behind each turn.
def Turns (pass : Pass S) (I : σ → Prop) (M : σ → List Leaf) (read : List Leaf) (opened : S) : Step σ → List Token → Prop :=
  Goes (pass.Told I M read opened) (pass.Told I M read opened)

theorem turns_pure {state : σ} (holds : pass.sound → I state) (same : pass.sound → more = read ++ M state) :
    Triple (pass.At more opened) (pure (.again state)) (Turns pass I M read opened) :=
  triple_pure fun _ here => ⟨holds, here.toWithin, fun known => same known ▸ here.ahead known⟩

theorem turns_map {T : List Token → Prop} {item : Parser σ} (h : Triple T item (pass.Told I M read opened)) :
    Triple T (item >>= fun state => pure (.again state)) (Turns pass I M read opened) :=
  triple_bind h fun _ => triple_pure fun _ told => told

theorem told_start {state : σ} {item : Parser β} (h : Triple (pass.Told I M read opened state) item Q) (start : pass.sound → I state) :
    Triple (pass.At (read ++ M state) opened) item Q :=
  triple_under h fun _ here => ⟨start, here⟩

theorem told_given {state : σ} {item : Parser β}
    (h : (pass.sound → I state) → Triple (pass.At (read ++ M state) opened) item Q) :
    Triple (pass.Told I M read opened state) item Q :=
  ⟨fun tokens told => (h told.holds).holds tokens told.here⟩

theorem told_ignores {kind : Kind} (skips : pass.Skips opened kind opened) (state : σ) :
    Ignores (pass.Told I M read opened state) kind :=
  fun token rest same told => ⟨told.holds, at_ignores skips token rest same told.here⟩

theorem told_chain {link : Kind → Kind → Option γ} {body : σ → γ → Parser (Step σ)} {state : σ} (start : pass.sound → I state)
    (next : ∀ state first g, (∃ second, link first second = some g) → (pass.sound → I state) →
      ∃ middle, pass.Skips opened first middle ∧
        Triple (fun rest => link first (firstKind rest) = some g ∧ pass.At (read ++ M state) middle rest) (body state g)
          (Turns pass I M read opened)) :
    Triple (pass.At (read ++ M state) opened) (chain link body state) (pass.Told I M read opened) := by
  refine told_start (triple_chain (fun _ told => told) (fun _ _ _ _ told => told) ?_) start
  intro state token g
  constructor
  rintro rest ⟨linked, told⟩
  obtain ⟨middle, skips, turn⟩ := next state token.kind g ⟨_, linked⟩ told.holds
  exact turn.holds rest ⟨linked, at_behind told.here skips⟩

theorem told_linked {wanted : Kind} {body : σ → Unit → Parser (Step σ)} {state : σ} (skips : pass.Skips opened wanted opened)
    (start : pass.sound → I state)
    (next : ∀ state, (pass.sound → I state) → Triple (pass.At (read ++ M state) opened) (body state ()) (Turns pass I M read opened)) :
    Triple (pass.At (read ++ M state) opened) (chain (linkedBy wanted) body state) (pass.Told I M read opened) :=
  told_start (triple_linked (told_ignores skips) fun state => told_given (next state)) start

-- Where the loop is sure to turn, nothing is asked of the state before.
theorem told_linked_once {wanted : Kind} {body : σ → Unit → Parser (Step σ)} {state : σ} (visible : wanted ≠ .eof)
    (skips : pass.Skips opened wanted opened)
    (first : Triple (pass.At (read ++ M state) opened) (body state ()) (Turns pass I M read opened))
    (next : ∀ state, (pass.sound → I state) → Triple (pass.At (read ++ M state) opened) (body state ()) (Turns pass I M read opened)) :
    Triple (fun tokens => firstKind tokens = wanted ∧ pass.At (read ++ M state) opened tokens) (chain (linkedBy wanted) body state)
      (pass.Told I M read opened) := by
  have later : Triple (pass.At (read ++ M state) opened) (turn (linkedBy wanted) body state ()) (pass.Told I M read opened) := by
    apply triple_bind first
    intro step
    cases step with
    | stop state => exact triple_pure fun _ told => told
    | again state => exact triple_linked (told_ignores skips) fun state => told_given (next state)
  constructor
  rintro tokens ⟨found, here⟩ final rest run
  cases tokens with
  | nil => exact absurd found.symm visible
  | cons token tail =>
      obtain rfl : token.kind = wanted := found
      rw [chain_turn (linkedBy token.kind) body state token tail (if_pos rfl)] at run
      exact later.holds tail (at_behind here skips) final rest run

theorem told_behind_commas {stop : Kind → Bool} {item : σ → Parser σ} {state : σ} (start : pass.sound → I state)
    (next : ∀ state, (pass.sound → I state) → Triple (pass.At (read ++ M state) opened) (item state) (pass.Told I M read opened)) :
    Triple (pass.At (read ++ M state) opened) (behindCommas stop item state) (pass.Told I M read opened) :=
  told_start (triple_behind_commas (told_ignores (skips_plain rfl rfl)) fun state => told_given (next state)) start

theorem told_up_to {closing : Mark} {item : σ → Parser σ} {state : σ} (start : pass.sound → I state)
    (next : ∀ state, (pass.sound → I state) → Triple (pass.At (read ++ M state) opened) (item state) (pass.Told I M read opened)) :
    Triple (pass.At (read ++ M state) opened) (upTo closing item state) (pass.Told I M read opened) :=
  told_start (triple_up_to (told_ignores (skips_plain rfl rfl)) fun state => told_given (next state)) start

-- What a parser takes is admitted by the scan, whatever the tokens are.
theorem accounts_scanned (scan : Scan S) {tokens rest : List Token} {a : α} (h : ∀ kinds, Accounts ⟨scan, kinds, False, False⟩ p P L)
    (run : p.run tokens = .ok (a, rest)) :
    ∃ front, tokens.map (·.kind) = front ++ rest.map (·.kind) ∧ front.foldlM scan.step scan.start = some scan.start :=
  ((h (tokens.map (·.kind)) [] scan.start).holds tokens ⟨⟨nofun, nofun, [], rfl, rfl⟩, nofun⟩ a rest run).here.taken

end Mutagen.Parser
