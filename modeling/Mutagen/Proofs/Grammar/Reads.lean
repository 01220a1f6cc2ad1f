import Mutagen.Grammar.Parser

set_option autoImplicit false

namespace Mutagen

open Token (Kind)

-- The causes that a limit gives rise to.
def ParseError.Cause.isLimit : ParseError.Cause → Bool
  | .nestedTooDeeply | .statementTooDeep | .tooManyBrackets => true
  | _ => false

namespace Parser

def firstOf : List Kind → Kind
  | [] => .eof
  | kind :: _ => kind

theorem first_kind_map (tokens : List Token) : firstKind tokens = firstOf (tokens.map (·.kind)) := by
  cases tokens <;> rfl

-- On tokens of the kinds `kinds`, `p` returns `a` and leaves `rest` if `fits` holds; if not, it fails at a limit.
structure Reads {α : Type} (p : Parser α) (fits : Prop) (kinds : List Kind) (a : α) (rest : List Kind) : Prop where
  reads : fits → ∀ tokens : List Token, tokens.map (·.kind) = kinds →
    ∃ left, p.run tokens = .ok (a, left) ∧ left.map (·.kind) = rest
  fails : ¬ fits → ∀ tokens : List Token, tokens.map (·.kind) = kinds →
    ∃ e, p.run tokens = .error e ∧ e.cause.isLimit = true

variable {α β σ γ : Type} {p : Parser α} {f : α → Parser β} {fits fits' : Prop} {kinds middle rest : List Kind}
  {a : α} {b : β}

theorem reads_iff (h : Reads p fits kinds a rest) (same : fits ↔ fits') : Reads p fits' kinds a rest :=
  ⟨fun fit => h.reads (same.mpr fit), fun beyond => h.fails fun fit => beyond (same.mp fit)⟩

theorem reads_always (h : ∀ tokens : List Token, tokens.map (·.kind) = kinds →
    ∃ left, p.run tokens = .ok (a, left) ∧ left.map (·.kind) = rest) : Reads p True kinds a rest :=
  ⟨fun _ => h, fun beyond => absurd trivial beyond⟩

theorem reads_pure (a : α) (kinds : List Kind) : Reads (pure a) True kinds a kinds :=
  reads_always fun tokens same => ⟨tokens, rfl, same⟩

theorem reads_bind (hp : Reads p fits kinds a middle) (hf : Reads (f a) fits' middle b rest) :
    Reads (p >>= f) (fits ∧ fits') kinds b rest := by
  constructor
  · intro fit tokens same
    obtain ⟨left, ran, kept⟩ := hp.reads fit.1 tokens same
    obtain ⟨last, ran', kept'⟩ := hf.reads fit.2 left kept
    exact ⟨last, by rw [run_bind, ran]; exact ran', kept'⟩
  · intro beyond tokens same
    by_cases fit : fits
    · obtain ⟨left, ran, kept⟩ := hp.reads fit tokens same
      obtain ⟨e, failed, cause⟩ := hf.fails (fun fit' => beyond ⟨fit, fit'⟩) left kept
      exact ⟨e, by rw [run_bind, ran]; exact failed, cause⟩
    · obtain ⟨e, failed, cause⟩ := hp.fails fit tokens same
      exact ⟨e, by rw [run_bind, failed], cause⟩

theorem reads_then (hp : Reads p True kinds a middle) (hf : Reads (f a) fits middle b rest) :
    Reads (p >>= f) fits kinds b rest :=
  reads_iff (reads_bind hp hf) (Iff.of_eq (true_and _))

theorem reads_first (hp : Reads p fits kinds a middle) (hf : Reads (f a) True middle b rest) :
    Reads (p >>= f) fits kinds b rest :=
  reads_iff (reads_bind hp hf) (Iff.of_eq (and_true _))

theorem reads_return (hp : Reads p fits kinds a rest) (f : α → β) :
    Reads (p >>= fun a => pure (f a)) fits kinds (f a) rest :=
  reads_first hp (reads_pure (f a) rest)

theorem reads_pos {c : Prop} [Decidable c] {q : Parser α} (holds : c) (h : Reads p fits kinds a rest) :
    Reads (if c then p else q) fits kinds a rest := by rwa [if_pos holds]

theorem reads_neg {c : Prop} [Decidable c] {q : Parser α} (holds : ¬ c) (h : Reads p fits kinds a rest) :
    Reads (if c then q else p) fits kinds a rest := by rwa [if_neg holds]

theorem reads_kind {f : Kind → Parser β} (h : Reads (f (firstOf kinds)) fits kinds b rest) :
    Reads (kind >>= f) fits kinds b rest := by
  refine reads_then (reads_always fun tokens same => ⟨tokens, ?_, same⟩) h
  rw [← same, ← first_kind_map]
  rfl

theorem reads_second {f : Kind → Parser β} (h : Reads (f (firstOf kinds.tail)) fits kinds b rest) :
    Reads (secondKind >>= f) fits kinds b rest := by
  refine reads_then (reads_always fun tokens same => ⟨tokens, ?_, same⟩) h
  rw [← same, ← List.map_tail, ← first_kind_map]
  rfl

theorem reads_span {f : Span → Parser β} (h : ∀ place, Reads (f place) fits kinds b rest) :
    Reads (span >>= f) fits kinds b rest :=
  ⟨fun fit tokens same => (h (firstSpan tokens)).reads fit tokens same,
    fun beyond tokens same => (h (firstSpan tokens)).fails beyond tokens same⟩

theorem reads_skipped (first : Kind) (kinds : List Kind) : Reads skip True (first :: kinds) () kinds := by
  refine reads_always fun tokens same => ?_
  cases tokens with
  | nil => cases same
  | cons token tail =>
      cases same
      exact ⟨tail, rfl, rfl⟩

theorem reads_skip {f : Unit → Parser β} {first : Kind} (h : Reads (f ()) fits kinds b rest) :
    Reads (skip >>= f) fits (first :: kinds) b rest := reads_then (reads_skipped first kinds) h

theorem reads_accept {f : Bool → Parser β} {wanted : Kind} (h : Reads (f true) fits kinds b rest) :
    Reads (accept wanted >>= f) fits (wanted :: kinds) b rest :=
  reads_then (reads_kind (reads_pos rfl (reads_skip (reads_pure true kinds)))) h

theorem reads_decline {f : Bool → Parser β} {wanted : Kind} (other : firstOf kinds ≠ wanted)
    (h : Reads (f false) fits kinds b rest) : Reads (accept wanted >>= f) fits kinds b rest :=
  reads_then (reads_kind (reads_neg other (reads_pure false kinds))) h

theorem reads_expect {f : Unit → Parser β} {wanted : Kind} {what : Expected} (h : Reads (f ()) fits kinds b rest) :
    Reads (expect wanted what >>= f) fits (wanted :: kinds) b rest :=
  reads_then (reads_kind (reads_pos rfl (reads_skipped wanted kinds))) h

theorem reads_name {f : String → Parser β} {id : String} (h : Reads (f id) fits kinds b rest) :
    Reads (expectName >>= f) fits (.name id :: kinds) b rest :=
  reads_then (reads_kind (reads_skip (reads_pure id kinds))) h

theorem reads_forbid {f : Unit → Parser β} {unwanted : Kind} {construct : Construct} (other : firstOf kinds ≠ unwanted)
    (h : Reads (f ()) fits kinds b rest) : Reads (forbid unwanted construct >>= f) fits kinds b rest :=
  reads_then (reads_kind (reads_neg other (reads_pure () kinds))) h

theorem reads_require {f : Unit → Parser β} {condition : Bool} {cause : ParseError.Cause} {place : Span}
    (holds : condition = true) (h : Reads (f ()) fits kinds b rest) :
    Reads (require condition cause place >>= f) fits kinds b rest := by
  rw [require, if_pos holds]
  exact reads_then (reads_pure () kinds) h

theorem reads_limit {f : Unit → Parser β} {condition : Bool} {cause : ParseError.Cause} {place : Span}
    (limit : cause.isLimit = true) (h : Reads (f ()) fits kinds b rest) :
    Reads (require condition cause place >>= f) (condition = true ∧ fits) kinds b rest := by
  cases condition with
  | true =>
      rw [require, if_pos rfl]
      exact reads_iff (reads_then (reads_pure () kinds) h) (by simp)
  | false => exact ⟨fun both => absurd both.1 Bool.false_ne_true, fun _ _ _ => ⟨_, rfl, limit⟩⟩

theorem refuse_fails {cause : ParseError.Cause} (limit : cause.isLimit = true) (never : ¬ fits) :
    Reads (refuse cause) fits kinds a rest :=
  ⟨fun fit => absurd fit never, fun _ _ _ => ⟨_, rfl, limit⟩⟩

variable {link : Kind → Kind → Option γ} {body : σ → γ → Parser (Step σ)} {state next final : σ} {g : γ}

-- A turn of the loop, and what comes behind it.
def turn (link : Kind → Kind → Option γ) (body : σ → γ → Parser (Step σ)) (state : σ) (g : γ) : Parser σ := do
  match ← body state g with
  | .stop next => return next
  | .again next => chain link body next

theorem chain_turn (link : Kind → Kind → Option γ) (body : σ → γ → Parser (Step σ)) (state : σ) (token : Token)
    (tail : List Token) (linked : link token.kind (firstKind tail) = some g) :
    (chain link body state).run (token :: tail) = (turn link body state g).run tail := by
  show chainRun link body state (token :: tail) = _
  rw [chainRun, turn, run_bind]
  split
  · rename_i none
    rw [linked] at none
    cases none
  · rename_i g' same
    rw [linked] at same
    cases same
    split <;> simp_all [chain, run_pure]

theorem reads_chain {first : Kind} {result : σ} (linked : link first (firstOf kinds) = some g)
    (h : Reads (turn link body state g) fits kinds result rest) :
    Reads (chain link body state) fits (first :: kinds) result rest := by
  have same : ∀ tokens : List Token, tokens.map (·.kind) = first :: kinds →
      ∃ tail : List Token, tail.map (·.kind) = kinds ∧
        (chain link body state).run tokens = (turn link body state g).run tail := by
    intro tokens same
    cases tokens with
    | nil => cases same
    | cons token tail =>
        cases same
        rw [← first_kind_map] at linked
        exact ⟨tail, rfl, chain_turn link body state token tail linked⟩
  constructor
  · intro fit tokens shape
    obtain ⟨tail, kept, turned⟩ := same tokens shape
    rw [turned]
    exact h.reads fit tail kept
  · intro beyond tokens shape
    obtain ⟨tail, kept, turned⟩ := same tokens shape
    rw [turned]
    exact h.fails beyond tail kept

theorem reads_chain_again {first : Kind} {result : σ} (linked : link first (firstOf kinds) = some g)
    (hb : Reads (body state g) fits kinds (.again next) middle)
    (hc : Reads (chain link body next) fits' middle result rest) :
    Reads (chain link body state) (fits ∧ fits') (first :: kinds) result rest :=
  reads_chain linked (reads_bind hb hc)

theorem reads_chain_end {first : Kind} (linked : link first (firstOf kinds) = some g)
    (hb : Reads (body state g) fits kinds (.stop next) rest) :
    Reads (chain link body state) fits (first :: kinds) next rest :=
  reads_chain linked (reads_first hb (reads_pure next rest))

theorem reads_chain_stop (state : σ) (stops : ∀ first more, kinds = first :: more → link first (firstOf more) = none) :
    Reads (chain link body state) True kinds state kinds := by
  refine reads_always fun tokens same => ⟨tokens, ?_, same⟩
  show chainRun link body state tokens = _
  cases tokens with
  | nil => rw [chainRun]
  | cons token tail =>
      rw [List.map_cons] at same
      have none := stops _ _ same.symm
      rw [← first_kind_map] at none
      rw [chainRun]
      split
      · rfl
      · rename_i g' linked
        rw [none] at linked
        cases linked

def EndsItem (closing : Mark) (kinds : List Kind) : Prop :=
  firstOf kinds = .mark .comma ∨ firstOf kinds = .mark closing

theorem linked_by (wanted second : Kind) : linkedBy wanted wanted second = some () := if_pos rfl

theorem not_linked {wanted : Kind} (other : firstOf kinds ≠ wanted) :
    ∀ first more, kinds = first :: more → linkedBy wanted first (firstOf more) = none := by
  intro first more same
  rw [same] at other
  exact if_neg other

variable {stop : Kind → Bool} {item : σ → Parser σ} {spelled : β → List Kind} {fit : β → Prop} {gather : σ → β → σ}

-- `item` reads each of the items, given those in front of it, and none of them begins with a stop.
def ReadsItems (stop : Kind → Bool) (closing : Mark) (item : σ → Parser σ) (spelled : β → List Kind)
    (fit : β → Prop) (gather : σ → β → σ) (items : List β) (state : σ) : Prop :=
  ∀ front x back, items = front ++ x :: back → ∀ kinds, EndsItem closing kinds →
    stop (firstOf (spelled x ++ kinds)) = false ∧
      Reads (item (front.foldl gather state)) (fit x) (spelled x ++ kinds) (gather (front.foldl gather state) x) kinds

theorem reads_items_tail {closing : Mark} {x : β} {items : List β}
    (h : ReadsItems stop closing item spelled fit gather (x :: items) state) :
    ReadsItems stop closing item spelled fit gather items (gather state x) := by
  intro front y back same kinds ends
  exact h (x :: front) y back (by rw [same]; rfl) kinds ends

theorem reads_behind_commas {closing : Mark} (noComma : closing ≠ .comma) (items : List β) (state : σ)
    (h : ReadsItems stop closing item spelled fit gather items state) (kinds : List Kind) :
    Reads (behindCommas stop item state) (∀ x ∈ items, fit x)
      (items.flatMap (fun x => .mark .comma :: spelled x) ++ .mark closing :: kinds)
      (items.foldl gather state) (.mark closing :: kinds) := by
  induction items generalizing state with
  | nil =>
      refine reads_iff (reads_chain_stop state (not_linked ?_)) (by simp)
      simpa [firstOf] using noComma
  | cons x items ih =>
      have ends : EndsItem closing (items.flatMap (fun x => .mark .comma :: spelled x) ++ .mark closing :: kinds) := by
        cases items with
        | nil => exact .inr rfl
        | cons y items => exact .inl rfl
      obtain ⟨goes, reads⟩ := h [] x items rfl _ ends
      rw [List.flatMap_cons, List.cons_append, List.cons_append, List.append_assoc]
      refine reads_iff (reads_chain_again (linked_by _ _) ?_ (ih (gather state x) (reads_items_tail h)))
        List.forall_mem_cons.symm
      refine reads_kind (reads_neg ?_ (reads_return reads Step.again))
      rw [goes]
      exact Bool.false_ne_true

theorem reads_trailing_comma (state : σ) (stops : stop (firstOf kinds) = true) :
    Reads (behindCommas stop item state) True (.mark .comma :: kinds) state kinds :=
  reads_chain_end (linked_by _ _) (reads_kind (reads_pos stops (reads_pure _ kinds)))

theorem reads_up_to {closing : Mark} (noComma : closing ≠ .comma) (x : β) (items : List β) (state : σ)
    (h : ReadsItems (· = .mark closing) closing item spelled fit gather (x :: items) state) (kinds : List Kind) :
    Reads (upTo closing item state) (∀ y ∈ x :: items, fit y)
      (spelled x ++ (items.flatMap (fun y => .mark .comma :: spelled y) ++ .mark closing :: kinds))
      ((x :: items).foldl gather state) (.mark closing :: kinds) := by
  have ends : EndsItem closing (items.flatMap (fun y => .mark .comma :: spelled y) ++ .mark closing :: kinds) := by
    cases items with
    | nil => exact .inr rfl
    | cons y items => exact .inl rfl
  obtain ⟨goes, reads⟩ := h [] x items rfl _ ends
  have others := reads_behind_commas noComma items _ (reads_items_tail h) kinds
  refine reads_kind (reads_neg (by simpa using goes) ?_)
  exact reads_iff (reads_bind reads others) List.forall_mem_cons.symm

theorem reads_up_to_none {closing : Mark} (state : σ) (kinds : List Kind) :
    Reads (upTo closing item state) True (.mark closing :: kinds) state (.mark closing :: kinds) :=
  reads_kind (reads_pos rfl (reads_pure state _))

def snoc (items : List β) (x : β) : List β := items ++ [x]

theorem foldl_snoc (items front : List β) : items.foldl snoc front = front ++ items := by
  induction items generalizing front with
  | nil => rw [List.foldl_nil, List.append_nil]
  | cons x items ih => rw [List.foldl_cons, ih, snoc, List.append_assoc, List.singleton_append]

theorem reads_append {p : Parser β} {closing : Mark} {items front : List β}
    (h : ∀ x ∈ items, ∀ kinds, EndsItem closing kinds →
      stop (firstOf (spelled x ++ kinds)) = false ∧ Reads p (fit x) (spelled x ++ kinds) x kinds) :
    ReadsItems stop closing (append p) spelled fit snoc items front := by
  intro before x back same kinds ends
  obtain ⟨goes, reads⟩ := h x (by simp [same]) kinds ends
  exact ⟨goes, reads_return reads _⟩

-- Two readings of the same tokens agree.
theorem reads_agree {fits fits' : Prop} {a a' : α} {rest rest' : List Kind} (h : Reads p fits kinds a rest)
    (h' : Reads p fits' kinds a' rest') (fit : fits) (fit' : fits') : a = a' ∧ rest = rest' := by
  have shape : (kinds.map fun kind => (⟨kind, .empty {}⟩ : Token)).map (·.kind) = kinds := by
    rw [List.map_map]
    exact List.map_id kinds
  obtain ⟨left, ran, kept⟩ := h.reads fit _ shape
  obtain ⟨left', ran', kept'⟩ := h'.reads fit' _ shape
  rw [ran] at ran'
  cases ran'
  exact ⟨rfl, kept.symm.trans kept'⟩

def untilFrom {α : Type} (stop : Kind → Bool) (item : Parser (List α)) (strict : item.Strict) (collected : List α) :
    Parser (List α) :=
  ⟨untilRun stop item strict collected, until_run_suffix⟩

theorem until_run_eq {α : Type} {stop : Kind → Bool} {item : Parser (List α)} (strict : item.Strict)
    (collected : List α) (tokens : List Token) :
    (untilFrom stop item strict collected).run tokens =
      if stop (firstKind tokens) then .ok (collected, tokens)
      else (item >>= fun items => untilFrom stop item strict (collected ++ items)).run tokens := by
  show untilRun stop item strict collected tokens = _
  fun_cases untilRun stop item strict collected tokens <;> simp_all [run_bind, untilFrom]

theorem reads_until_step {α : Type} {stop : Kind → Bool} {item : Parser (List α)} (strict : item.Strict)
    {collected items all : List α} (goes : stop (firstOf kinds) = false) (first : Reads item fits kinds items middle)
    (others : Reads (untilFrom stop item strict (collected ++ items)) fits' middle all rest) :
    Reads (untilFrom stop item strict collected) (fits ∧ fits') kinds all rest := by
  have both := @reads_bind _ _ _ (fun items => untilFrom stop item strict (collected ++ items)) _ _ _ _ _ _ _ first others
  constructor
  · intro fit tokens same
    rw [until_run_eq strict collected tokens, first_kind_map, same, if_neg (by simp [goes])]
    exact both.reads fit tokens same
  · intro beyond tokens same
    rw [until_run_eq strict collected tokens, first_kind_map, same, if_neg (by simp [goes])]
    exact both.fails beyond tokens same

theorem reads_until_stop {α : Type} {stop : Kind → Bool} {item : Parser (List α)} (strict : item.Strict)
    (collected : List α) (stops : stop (firstOf kinds) = true) :
    Reads (untilFrom stop item strict collected) True kinds collected kinds := by
  refine reads_always fun tokens same => ⟨tokens, ?_, same⟩
  rw [until_run_eq strict collected tokens, first_kind_map, same, if_pos stops]

-- `good` says what may follow each of the items.
theorem reads_until {α : Type} {stop : Kind → Bool} {item : Parser (List α)} (strict : item.Strict)
    {spelled : α → List Kind} {fit : α → Prop} (good : List Kind → Prop) (items : List α)
    (follow : ∀ x ∈ items, ∀ kinds, good kinds → good (spelled x ++ kinds))
    (h : ∀ x ∈ items, ∀ kinds, good kinds →
      stop (firstOf (spelled x ++ kinds)) = false ∧ Reads item (fit x) (spelled x ++ kinds) [x] kinds)
    (kinds : List Kind) (last : good kinds) (stops : stop (firstOf kinds) = true) :
    Reads (untilKind stop item strict) (∀ x ∈ items, fit x) (items.flatMap spelled ++ kinds) items kinds := by
  suffices collects : ∀ collected : List α, Reads (untilFrom stop item strict collected) (∀ x ∈ items, fit x)
      (items.flatMap spelled ++ kinds) (collected ++ items) kinds from collects []
  induction items with
  | nil =>
      intro collected
      rw [List.append_nil]
      exact reads_iff (reads_until_stop strict collected stops) (by simp)
  | cons x items ih =>
      intro collected
      have follows : good (items.flatMap spelled ++ kinds) := by
        have all : ∀ x ∈ items, ∀ kinds, good kinds → good (spelled x ++ kinds) := fun y member =>
          follow y (by simp [member])
        clear ih h follow
        induction items with
        | nil => exact last
        | cons y items ih =>
            rw [List.flatMap_cons, List.append_assoc]
            exact all y (by simp) _ (ih fun z member => all z (by simp [member]))
      obtain ⟨goes, first⟩ := h x (by simp) _ follows
      have others := ih (fun y member => follow y (by simp [member])) (fun y member => h y (by simp [member]))
        (collected ++ [x])
      rw [List.append_assoc] at others
      rw [List.flatMap_cons, List.append_assoc]
      exact reads_iff (reads_until_step strict goes first others) List.forall_mem_cons.symm

end Parser

end Mutagen
