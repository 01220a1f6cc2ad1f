import Mutagen.Arena.Statement
import Mutagen.Proofs.Arena.Store
import Mutagen.Proofs.Grammar.Compound
import Mutagen.Proofs.Grammar.Reads
import Mutagen.Proofs.Grammar.Triple
import Mutagen.Proofs.Token.Leaves

set_option autoImplicit false

namespace Mutagen.Builder

open Token (Kind)
open Mutagen.Parser (firstKind kind secondKind span skip accept expect expectMark expectKeyword forbid require failWith Step
  linkedBy)
open Mutagen.Arena (Grown Extends)

def namesOf (tokens : List Token) : List String := tokens.filterMap (·.kind.name?)

def Interns (all : List String) (a : Arena) (tokens : List Token) : Prop :=
  ∃ before, a.symbols = .ofNames before ∧ before ++ namesOf tokens = all

variable {all : List String} {tokens : List Token} {a b : Arena} {α β γ δ σ τ : Type}

/-- From these tokens on, `build` fails as `p` does. Where `p` succeeds, it leaves the same tokens, the
names of those taken are interned, and what comes out is related by `R`. -/
def Builds (all : List String) (tokens : List Token) (p : Parser α) (a : Arena) (build : Builder β)
    (R : α → β → Arena → Prop) : Prop :=
  Interns all a tokens →
    match p.run tokens with
    | .error e => (build a).run tokens = .error e
    | .ok (x, rest) => ∃ y b, (build a).run tokens = .ok ((y, b), rest) ∧ Interns all b rest ∧ R x y b

variable {R : α → β → Arena → Prop} {S : γ → δ → Arena → Prop}

theorem builds_interned {p : Parser α} {build : Builder β} (h : Interns all a tokens → Builds all tokens p a build R) :
    Builds all tokens p a build R :=
  fun interns => h interns interns

theorem builds_pure {x : α} {y : β} (h : R x y a) : Builds all tokens (pure x) a (pure y) R :=
  fun interns => ⟨y, a, rfl, interns, h⟩

theorem builds_bind {p : Parser α} {build : Builder β} {f : α → Parser γ} {g : β → Builder δ}
    (front : Builds all tokens p a build R)
    (behind : ∀ x y b rest, p.run tokens = .ok (x, rest) → R x y b → Builds all rest (f x) b (g y) S) :
    Builds all tokens (p >>= f) a (build >>= g) S := by
  intro interns
  have first := front interns
  have run : ((build >>= g) a).run tokens = (build a >>= fun result => g result.1 result.2).run tokens := rfl
  rw [run, Parser.run_bind, Parser.run_bind]
  cases read : p.run tokens with
  | error e =>
      rw [read] at first
      rw [first]
  | ok result =>
      obtain ⟨x, rest⟩ := result
      rw [read] at first
      obtain ⟨y, b, built, interns', related⟩ := first
      rw [built]
      exact behind x y b rest read related interns'

def Silent (tokens : List Token) (p : Parser α) : Prop :=
  ∀ x rest, p.run tokens = .ok (x, rest) → namesOf rest = namesOf tokens

theorem silent_pure (x : α) : Silent tokens (pure x) := by
  intro y rest run
  cases run
  rfl

theorem silent_fail (f : List Token → ParseError) : Silent tokens (failWith f : Parser α) := by
  intro x rest run
  cases run

theorem silent_bind {p : Parser α} {f : α → Parser γ} (front : Silent tokens p)
    (behind : ∀ x rest, p.run tokens = .ok (x, rest) → Silent rest (f x)) : Silent tokens (p >>= f) := by
  intro y rest run
  rw [Parser.run_bind] at run
  cases read : p.run tokens with
  | error e =>
      rw [read] at run
      cases run
  | ok result =>
      obtain ⟨x, middle⟩ := result
      rw [read] at run
      exact (behind x middle read y rest run).trans (front x middle read)

theorem silent_look {look? : List Token → α} {f : α → Parser γ} (h : Silent tokens (f (look? tokens))) :
    Silent tokens (Parser.look look? >>= f) :=
  h

theorem silent_skip (plain : (firstKind tokens).name? = none) : Silent tokens skip := by
  intro u rest run
  cases tokens with
  | nil => cases run
  | cons token tail =>
      cases run
      exact (List.filterMap_cons_none (f := fun token : Token => token.kind.name?) plain).symm

theorem silent_ite {c : Prop} [Decidable c] {p q : Parser α} (hp : c → Silent tokens p) (hq : ¬ c → Silent tokens q) :
    Silent tokens (if c then p else q) := by
  split
  · exact hp ‹_›
  · exact hq ‹_›

variable {wanted : Kind}

theorem silent_accept (plain : wanted.name? = none) : Silent tokens (accept wanted) := by
  apply silent_look
  apply silent_ite
  · intro found
    exact silent_bind (silent_skip (found ▸ plain)) fun _ _ _ => silent_pure true
  · exact fun _ => silent_pure false

theorem silent_expect (plain : wanted.name? = none) (what : Expected) : Silent tokens (expect wanted what) := by
  apply silent_look
  apply silent_ite
  · exact fun found => silent_skip (found ▸ plain)
  · exact fun _ => silent_fail _

theorem silent_forbid (construct : Construct) : Silent tokens (forbid wanted construct) := by
  apply silent_look
  exact silent_ite (fun _ => silent_fail _) fun _ => silent_pure ()

theorem silent_require (condition : Bool) (cause : ParseError.Cause) (place : Span) :
    Silent tokens (require condition cause place) :=
  silent_ite (fun _ => silent_pure ()) fun _ => silent_fail _

theorem silent_chain {link : Kind → Kind → Option γ} {body : σ → γ → Parser (Step σ)}
    (plain : ∀ first second g, link first second = some g → first.name? = none)
    (turn : ∀ state g tokens, Silent tokens (body state g)) (state : σ) : Silent tokens (Parser.chain link body state) := by
  intro final rest run
  replace run : Parser.chainRun link body state tokens = .ok (final, rest) := run
  have taken {token : Token} {tail : List Token} {g : γ} (linked : link token.kind (firstKind tail) = some g) :
      namesOf (token :: tail) = namesOf tail :=
    List.filterMap_cons_none (f := fun token : Token => token.kind.name?) (plain _ _ g linked)
  fun_induction Parser.chainRun link body state tokens with
  | case1 => cases run; rfl
  | case2 => cases run; rfl
  | case3 => cases run
  | case4 state token tail g linked next left read =>
      cases run
      exact (turn state g tail _ _ read).trans (taken linked).symm
  | case5 state token tail g linked next left read ih =>
      exact ((ih run).trans (turn state g tail _ _ read)).trans (taken linked).symm

theorem builds_then {p : Parser α} {f : α → Parser γ} {g : α → Builder δ} (silent : Silent tokens p)
    (behind : ∀ x rest, p.run tokens = .ok (x, rest) → Builds all rest (f x) a (g x) S) :
    Builds all tokens (p >>= f) a (liftM p >>= g) S := by
  intro interns
  have run : ((liftM p >>= g) a).run tokens = (p >>= fun x => g x a).run tokens := by
    show ((p >>= fun x => pure (x, a)) >>= fun result => g result.1 result.2).run tokens = _
    rw [bind_assoc]
    simp only [pure_bind]
  rw [run, Parser.run_bind, Parser.run_bind]
  cases read : p.run tokens with
  | error e => rfl
  | ok result =>
      obtain ⟨x, rest⟩ := result
      obtain ⟨before, same, whole⟩ := interns
      exact behind x rest read ⟨before, same, by rw [silent x rest read, whole]⟩

theorem builds_fail (f : List Token → ParseError) :
    Builds all tokens (failWith f : Parser α) a (liftM (failWith f : Parser β)) R :=
  fun _ => rfl

theorem builds_ite {c : Prop} [Decidable c] {p q : Parser α} {build build' : Builder β}
    (hp : c → Builds all tokens p a build R) (hq : ¬ c → Builds all tokens q a build' R) :
    Builds all tokens (if c then p else q) a (if c then build else build') R := by
  by_cases holds : c
  · rw [if_pos holds, if_pos holds]
    exact hp holds
  · rw [if_neg holds, if_neg holds]
    exact hq holds

section tokens

variable {f : Unit → Parser γ} {g : Unit → Builder δ}

theorem builds_look {look? : List Token → α} {f : α → Parser γ} {g : α → Builder δ}
    (behind : Builds all tokens (f (look? tokens)) a (g (look? tokens)) S) :
    Builds all tokens (Parser.look look? >>= f) a (liftM (Parser.look look?) >>= g) S :=
  builds_then (silent_look (silent_pure _)) fun _ _ run => by cases run; exact behind

theorem builds_kind {f : Kind → Parser γ} {g : Kind → Builder δ}
    (behind : ∀ first, firstKind tokens = first → Builds all tokens (f first) a (g first) S) :
    Builds all tokens (kind >>= f) a (liftM kind >>= g) S :=
  builds_look (behind _ rfl)

theorem builds_second {f : Kind → Parser γ} {g : Kind → Builder δ}
    (behind : ∀ second, firstKind tokens.tail = second → Builds all tokens (f second) a (g second) S) :
    Builds all tokens (secondKind >>= f) a (liftM secondKind >>= g) S :=
  builds_look (behind _ rfl)

theorem builds_skip (plain : (firstKind tokens).name? = none) (behind : ∀ rest, Builds all rest (f ()) a (g ()) S) :
    Builds all tokens (skip >>= f) a (liftM skip >>= g) S :=
  builds_then (silent_skip plain) fun _ rest _ => behind rest

theorem builds_accept {f : Bool → Parser γ} {g : Bool → Builder δ} (plain : wanted.name? = none)
    (behind : ∀ taken rest, Builds all rest (f taken) a (g taken) S) :
    Builds all tokens (accept wanted >>= f) a (liftM (accept wanted) >>= g) S :=
  builds_then (silent_accept plain) fun taken rest _ => behind taken rest

theorem builds_expect {what : Expected} (plain : wanted.name? = none)
    (behind : ∀ rest, Builds all rest (f ()) a (g ()) S) :
    Builds all tokens (expect wanted what >>= f) a (liftM (expect wanted what) >>= g) S :=
  builds_then (silent_expect plain what) fun _ rest _ => behind rest

theorem builds_mark {mark : Mark} (behind : ∀ rest, Builds all rest (f ()) a (g ()) S) :
    Builds all tokens (expectMark mark >>= f) a (liftM (expectMark mark) >>= g) S :=
  builds_expect rfl behind

theorem builds_forbid {construct : Construct} (behind : ∀ rest, Builds all rest (f ()) a (g ()) S) :
    Builds all tokens (forbid wanted construct >>= f) a (liftM (forbid wanted construct) >>= g) S :=
  builds_then (silent_forbid construct) fun _ rest _ => behind rest

theorem builds_require {condition : Bool} {cause : ParseError.Cause} {place : Span}
    (behind : condition = true → Builds all tokens (f ()) a (g ()) S) :
    Builds all tokens (require condition cause place >>= f) a (liftM (require condition cause place) >>= g) S := by
  refine builds_then (silent_require condition cause place) fun _ rest run => ?_
  cases condition with
  | false => cases run
  | true =>
      cases run
      exact behind rfl

end tokens

theorem builds_text {p : Parser α} {symbol : Symbol} {g : String → Builder β}
    (behind : Builds all tokens p a (g (a.textOf symbol)) R) : Builds all tokens p a (text symbol >>= g) R :=
  behind

theorem builds_get {p : Parser α} {g : Arena → Builder β} (behind : Builds all tokens p a (g a) R) :
    Builds all tokens p a (get >>= g) R :=
  behind

theorem interns_name {token : Token} {rest : List Token} {id : String} (interns : Interns all a (token :: rest))
    (name : token.kind = .name id) :
    Interns all (a.intern id).2 rest ∧ (a.intern id).2.symbols.name? (a.intern id).1 = some id := by
  obtain ⟨before, same, whole⟩ := interns
  have taken : namesOf (token :: rest) = id :: namesOf rest :=
    List.filterMap_cons_some (f := fun token : Token => token.kind.name?) (by rw [name]; rfl)
  refine ⟨⟨before ++ [id], ?_, ?_⟩, ?_⟩
  · rw [SymbolTable.of_names_snoc, ← same]
    rfl
  · rw [← whole, taken, List.append_assoc]
    rfl
  · have inverse : a.symbols.Inverse := same ▸ SymbolTable.inverse_of_names before
    exact SymbolTable.intern_stores inverse id

theorem builds_take_name {p : Parser γ} {g : Symbol → Builder δ} {id : String} (first : firstKind tokens = .name id)
    (behind : ∀ symbol b rest, Extends a b → b.symbols.name? symbol = some id → Builds all rest p b (g symbol) S) :
    Builds all tokens (skip >>= fun _ => p) a (liftM skip >>= fun _ => intern id >>= g) S := by
  intro interns
  cases tokens with
  | nil => cases first
  | cons token rest =>
      obtain ⟨interns', stands⟩ := interns_name interns first
      exact behind _ _ rest (Arena.extends_intern a id) stands interns'

theorem name_run {token : Token} {rest : List Token} {id : String} (name : token.kind = .name id) :
    Parser.expectName.run (token :: rest) = .ok (id, rest) := by
  cases token
  cases name
  rfl

theorem name_fails {token : Token} (rest : List Token) (other : token.kind.name? = none) :
    ∃ e, Parser.expectName.run (token :: rest) = .error e := by
  obtain ⟨kind, span⟩ := token
  cases kind with
  | name id => cases other
  | _ => exact ⟨_, rfl⟩

theorem builds_name {f : String → Parser γ} {g : Symbol → Builder δ}
    (behind : ∀ id symbol b, Extends a b → b.symbols.name? symbol = some id →
      Builds all tokens.tail (f id) b (g symbol) S) :
    Builds all tokens (Parser.expectName >>= f) a (expectName >>= g) S := by
  intro interns
  have run : ((expectName >>= g) a).run tokens =
      (Parser.expectName >>= fun id => g (a.intern id).1 (a.intern id).2).run tokens := by
    show (((Parser.expectName >>= fun id => pure (id, a)) >>= fun result => pure (result.2.intern result.1)) >>=
      fun result => g result.1 result.2).run tokens = _
    simp only [bind_assoc, pure_bind]
  rw [run, Parser.run_bind, Parser.run_bind]
  cases tokens with
  | nil => rfl
  | cons token rest =>
      cases taken : token.kind.name? with
      | none =>
          obtain ⟨e, failed⟩ := name_fails rest taken
          rw [failed]
      | some id =>
          have name : token.kind = .name id := by
            cases kind : token.kind <;> rw [kind] at taken <;> cases taken
            rfl
          obtain ⟨interns', stands⟩ := interns_name interns name
          rw [name_run name]
          exact behind id _ _ (Arena.extends_intern a id) stands interns'

theorem builds_alloc {base : Arena} {cell : Cell} {node : Node} (grown : Grown base a cell.children node.children)
    (like : cell.Like a.symbols.name? node) :
    Builds all tokens (pure node) a (alloc cell) fun x y b => Grown base b [y] [x] :=
  fun interns => ⟨_, _, rfl, interns, Arena.grown_alloc grown like⟩

theorem builds_alloc_then {base : Arena} {cell : Cell} (node : Node) {p : Parser γ} {g : NodeId → Builder δ}
    (grown : Grown base a cell.children node.children) (like : cell.Like a.symbols.name? node)
    (behind : ∀ id b, Grown base b [id] [node] → Builds all tokens p b (g id) S) :
    Builds all tokens p a (alloc cell >>= g) S :=
  fun interns => behind _ _ (Arena.grown_alloc grown like) interns

section loops

variable {I : σ → τ → Arena → Prop} {state : σ} {state' : τ}

def Turns (I : σ → τ → Arena → Prop) : Step σ → Step τ → Arena → Prop
  | .again state, .again state', a => I state state' a
  | .stop state, .stop state', a => I state state' a
  | _, _, _ => False

theorem chain_none {link : Kind → Kind → Option γ} {body : σ → γ → Parser (Step σ)} {token : Token} {tail : List Token}
    (unlinked : link token.kind (firstKind tail) = none) (state : σ) :
    (Parser.chain link body state).run (token :: tail) = .ok (state, token :: tail) := by
  show Parser.chainRun link body state (token :: tail) = _
  rw [Parser.chainRun]
  split
  · rfl
  · rename_i g linked
    rw [unlinked] at linked
    cases linked

theorem chain_some {link : Kind → Kind → Option γ} {body : τ → γ → Builder (Step τ)} {token : Token} {tail : List Token}
    {g : γ} (linked : link token.kind (firstKind tail) = some g) (state : τ) (a : Arena) :
    (chain link body state a).run (token :: tail) =
      ((body state g >>= fun step : Step τ => match step with
        | .stop next => pure next
        | .again next => chain link body next) a).run tail := by
  rw [chain, Parser.chain_turn link _ _ token tail linked, Parser.turn]
  show (((body state g a) >>= fun result => pure (withArena result)) >>= _).run tail = ((body state g a) >>= _).run tail
  rw [bind_assoc]
  congr 1
  refine bind_congr fun result => ?_
  obtain ⟨step, b⟩ := result
  cases step <;> rfl

-- A loop whose turns keep `I` keeps it. No turn begins with a name.
theorem builds_chain {link : Kind → Kind → Option γ} {body : σ → γ → Parser (Step σ)} {body' : τ → γ → Builder (Step τ)}
    (plain : ∀ first second g, link first second = some g → first.name? = none)
    (turn : ∀ tokens first g state state' b, link first (firstKind tokens) = some g → I state state' b →
      Builds all tokens (body state g) b (body' state' g) (Turns I))
    (start : I state state' a) : Builds all tokens (Parser.chain link body state) a (chain link body' state') I := by
  induction size : tokens.length using Nat.strongRecOn generalizing tokens state state' a with
  | _ n ih =>
  intro interns
  cases tokens with
  | nil =>
      have run : (Parser.chain link body state).run [] = .ok (state, []) := Parser.chainRun.eq_1 ..
      rw [run]
      exact ⟨state', a, Parser.chainRun.eq_1 .., interns, start⟩
  | cons token tail =>
      cases linked : link token.kind (firstKind tail) with
      | none =>
          rw [chain_none linked state]
          exact ⟨state', a, chain_none linked (state', a), interns, start⟩
      | some g =>
          obtain ⟨before, same, whole⟩ := interns
          have silent : namesOf (token :: tail) = namesOf tail :=
            List.filterMap_cons_none (f := fun token : Token => token.kind.name?) (plain _ _ g linked)
          rw [Parser.chain_turn link body state token tail linked, chain_some linked]
          refine builds_bind (turn tail token.kind g state state' a linked start) (fun step step' b rest run turned => ?_)
            ⟨before, same, by rw [← whole, silent]⟩
          cases step with
          | stop next =>
              cases step' with
              | stop => exact builds_pure turned
              | again => exact turned.elim
          | again next =>
              cases step' with
              | stop => exact turned.elim
              | again next' =>
                  have shorter := ((body state g).suffix run).length_le
                  rw [List.length_cons] at size
                  exact ih rest.length (by omega) turned rfl

theorem linked_plain {first second : Kind} {g : Unit} (plain : wanted.name? = none)
    (linked : linkedBy wanted first second = some g) : first.name? = none :=
  (Parser.linked_kind linked) ▸ plain

theorem builds_behind_commas {stop : Kind → Bool} {item : σ → Parser σ} {item' : τ → Builder τ}
    (next : ∀ tokens state state' b, I state state' b → Builds all tokens (item state) b (item' state') I)
    (start : I state state' a) : Builds all tokens (Parser.behindCommas stop item state) a (behindCommas stop item' state') I := by
  refine builds_chain (fun _ _ _ linked => linked_plain rfl linked) (fun tokens _ _ state state' b _ holds => ?_) start
  apply builds_look
  apply builds_ite
  · exact fun _ => builds_pure holds
  · intro _
    apply builds_bind (next tokens state state' b holds)
    intro after after' c rest _ holds'
    exact builds_pure holds'

theorem builds_up_to {closing : Mark} {item : σ → Parser σ} {item' : τ → Builder τ}
    (next : ∀ tokens state state' b, I state state' b → Builds all tokens (item state) b (item' state') I)
    (start : I state state' a) : Builds all tokens (Parser.upTo closing item state) a (upTo closing item' state') I := by
  apply builds_look
  apply builds_ite
  · exact fun _ => builds_pure start
  · intro _
    apply builds_bind (next tokens state state' a start)
    intro after after' b rest _ holds
    exact builds_behind_commas next holds

end loops

def Gives (all : List String) (p : Parser Node) (build : Builder NodeId) : Prop :=
  ∀ tokens a, Builds all tokens p a build fun node id b => Grown a b [id] [node]

def GivesAll (all : List String) (p : Parser (List Node)) (build : Builder (List NodeId)) : Prop :=
  ∀ tokens a, Builds all tokens p a build fun nodes ids b => Grown a b ids nodes

def GivesOptional (all : List String) (p : Parser (Option Node)) (build : Builder (Option NodeId)) : Prop :=
  ∀ tokens a, Builds all tokens p a build fun node id b => Grown a b id.toList node.toList

variable {base : Arena} {ids : List NodeId} {nodes : List Node}

theorem builds_next {p : Parser Node} {build : Builder NodeId} {f : Node → Parser γ} {g : NodeId → Builder δ}
    (h : Gives all p build) (grown : Grown base a ids nodes)
    (behind : ∀ node id b rest, Extends a b → Grown base b (ids ++ [id]) (nodes ++ [node]) →
      Builds all rest (f node) b (g id) S) :
    Builds all tokens (p >>= f) a (build >>= g) S :=
  builds_bind (h tokens a) fun node id b rest _ more => behind node id b rest more.grows (Arena.grown_append grown more)

theorem builds_append {p : Parser Node} {build : Builder NodeId} (h : Gives all p build) (grown : Grown base a ids nodes) :
    Builds all tokens (Parser.append p nodes) a (append build ids) fun nodes ids b => Grown base b ids nodes :=
  builds_next h grown fun _ _ _ _ _ more => builds_pure more

def untilFrom {α : Type} (stop : Kind → Bool) (item : Builder (List α)) (strict : Strict item) (collected : List α) :
    Builder (List α) := fun a =>
  ⟨untilRun stop item strict collected a, until_run_suffix⟩

theorem until_run_eq {α : Type} {stop : Kind → Bool} {item : Builder (List α)} (strict : Strict item)
    (collected : List α) (a : Arena) (tokens : List Token) :
    (untilFrom stop item strict collected a).run tokens =
      if stop (firstKind tokens) then .ok ((collected, a), tokens)
      else ((item >>= fun items => untilFrom stop item strict (collected ++ items)) a).run tokens := by
  have turn : ((item >>= fun items => untilFrom stop item strict (collected ++ items)) a).run tokens =
      (item a >>= fun result => untilFrom stop item strict (collected ++ result.1) result.2).run tokens := rfl
  rw [turn]
  show untilRun stop item strict collected a tokens = _
  fun_cases untilRun stop item strict collected a tokens <;> simp_all [Parser.run_bind, untilFrom]

theorem builds_until {stop : Kind → Bool} {item : Parser (List Node)} {item' : Builder (List NodeId)} (strict : item.Strict)
    (strict' : Strict item') (h : GivesAll all item item') :
    GivesAll all (Parser.untilKind stop item strict) (untilKind stop item' strict') := by
  intro tokens base
  suffices collects : ∀ (tokens : List Token) a ids nodes, Grown base a ids nodes →
      Builds all tokens (Parser.untilFrom stop item strict nodes) a (untilFrom stop item' strict' ids)
        fun nodes ids b => Grown base b ids nodes from
    collects tokens base [] [] (Arena.grown_refl base)
  intro tokens
  induction size : tokens.length using Nat.strongRecOn generalizing tokens with
  | _ n ih =>
  intro a ids nodes grown interns
  rw [Parser.until_run_eq, until_run_eq]
  by_cases stops : stop (firstKind tokens) = true
  · rw [if_pos stops, if_pos stops]
    exact ⟨ids, a, rfl, interns, grown⟩
  · rw [if_neg stops, if_neg stops]
    refine builds_bind (h tokens a) (fun more more' b rest run further => ?_) interns
    have shorter := strict run
    exact ih rest.length (by omega) rest rfl b _ _ (Arena.grown_append grown further)

end Mutagen.Builder
