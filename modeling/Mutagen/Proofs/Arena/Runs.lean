import Mutagen.Proofs.Arena.Simulation
import Mutagen.Proofs.Mutation.Contexts
import Mutagen.Proofs.Mutation.Depth

set_option autoImplicit false

namespace Mutagen.Arena

open Mutagen.Mutation (Changes Shrinks)
open Node (WellShaped KeepsContexts)

variable {a b : Arena} {tree : Tree} {id : NodeId} {ids : List NodeId} {path : Path} {node : Node} {cell changed : Cell}
  {kind : Node.Kind} {operator : Operator}

/-- What a caller can do to an arena: the cells may be any, also such that the program has lost. -/
inductive Action where
  | adjust (config : Config) (candidates : List NodeId)
  | replace (candidates : List NodeId)
  | apply (config : Config) (kind : Node.Kind) (id : NodeId)

def Action.run (a : Arena) : Action → Draw Arena
  | .adjust config candidates => return (← adjustExpression config a candidates).arena
  | .replace candidates => return (← replaceVariable a candidates).arena
  | .apply config kind id =>
      match operator? kind with
      | some operator => do return (← operator config a id).2
      | none => return a

inductive Leads (first : Arena) : Arena → Prop where
  | start : Leads first first
  | step {a : Arena} (before : Leads first a) (action : Action) (words : Words) : Leads first (action.run a words).1

def Interned (table : SymbolTable) (name : String) : Prop := ∃ symbol, table.name? symbol = some name

def Turns (tree : Tree) (b : Arena) : Prop := ∃ tree', b.Has tree' ∧ Changes (Interned tree.symbols) tree tree'

theorem changes_symbols {offered : String → Prop} {tree' : Tree} (changes : Changes offered tree tree') :
    tree'.symbols = tree.symbols := by
  cases changes <;> rfl

theorem turns_self (has : a.Has tree) : Turns tree a := ⟨tree, has, .nothing⟩

-- A cell that no path leads to is below no part of the program.
theorem has_apart (has : a.Has tree) (framed : Framed a b id cell changed) (apart : ∀ path, a.follow a.root path ≠ some id)
    (known : b.Known) : Turns tree b := by
  obtain ⟨below, held, distinct⟩ := has.rooted
  have outside : id ∉ below := by
    intro member
    obtain ⟨start, single, path, leads⟩ := (mem_below_iff held).mp member
    rw [List.mem_singleton.mp single] at leads
    exact apart path leads
  have kept : b.Rooted tree.root := ⟨below, framed.root ▸ holds_framed framed held outside, distinct⟩
  exact ⟨tree, ⟨kept, framed.symbols.trans has.symbols, framed.symbols ▸ has.inverse, known⟩, .nothing⟩

theorem operator_turns (has : a.Has tree) (registered : operator? kind = some operator) (config : Config) (id : NodeId) :
    Draws (operator config a id) fun result => Turns tree result.2 := by
  by_cases hasKind : a.kind? id = some kind
  · intro words
    obtain ⟨cell, found, cellKind⟩ := kind_cell hasKind
    obtain ⟨_, changed, rewritten, framed⟩ := operator_frames registered found cellKind config words
    have known := known_framed has.known framed fun symbol used => by
      rw [rewritten_unnamed rewritten] at used
      cases used
    by_cases reached : ∃ path, a.follow a.root path = some id
    · obtain ⟨path, leads⟩ := reached
      obtain ⟨node, cell', place, found', like⟩ := kind_at has leads
      cases found.symm.trans found'
      obtain ⟨operator', registered'⟩ := Option.isSome_iff_exists.mp ((registered_same kind).symm.trans (registered ▸ rfl))
      have becomes := (operator_becomes registered registered' found like cellKind config words).2
      have rewrites := Mutation.operators_rewrite registered' config node words
      exact ⟨_, has_becomes has leads place becomes framed.root framed.symbols known, .rewritten place rewrites⟩
    · exact has_apart has framed (fun path leads => reached ⟨path, leads⟩) known
  · rw [operator_skips registered hasKind]
    exact draws_pure (turns_self has)

theorem rename_turns (has : a.Has tree) {current replacement : Symbol} (named : a.identifier? id = some current)
    {other : NodeId} (used : a.identifier? other = some replacement) : Turns tree (a.rename id replacement) := by
  obtain ⟨ctx, found⟩ := identifier_cell named
  obtain ⟨new, stands⟩ := has.known other replacement used
  have framed := framed_update found rfl (.name replacement ctx)
  have known := known_framed has.known framed fun symbol same => by
    cases same
    exact ⟨new, stands⟩
  rw [rename, found]
  by_cases reached : ∃ path, a.follow a.root path = some id
  · obtain ⟨path, leads⟩ := reached
    obtain ⟨node, cell, place, found', like⟩ := kind_at has leads
    cases found.symm.trans found'
    cases node with
    | name old ctx' =>
        obtain ⟨_, rfl⟩ := like
        have becomes : Becomes a _ id (.name old ctx) (.name new ctx) := becomes_same framed ⟨stands, rfl⟩ rfl rfl
        exact ⟨_, has_becomes has leads place becomes rfl rfl known, .renamed place ⟨replacement, has.symbols ▸ stands⟩⟩
    | _ => exact like.elim
  · exact has_apart has framed (fun path leads => reached ⟨path, leads⟩) known

theorem adjust_turns (has : a.Has tree) (config : Config) (candidates : List NodeId) :
    Draws (adjustExpression config a candidates) fun outcome => Turns tree outcome.arena := by
  refine draws_then fun chosen => ?_
  split
  · exact draws_pure (turns_self has)
  · split
    · exact draws_pure (turns_self has)
    · split
      · exact draws_pure (turns_self has)
      · rename_i operator registered
        exact draws_bind (operator_turns has registered config _) fun result turns => draws_pure turns

theorem replace_turns (has : a.Has tree) (candidates : List NodeId) :
    Draws (replaceVariable a candidates) fun outcome => Turns tree outcome.arena := by
  refine draws_then fun chosen => ?_
  split
  · exact draws_pure (turns_self has)
  · split
    · exact draws_pure (turns_self has)
    · rename_i current named
      refine draws_then fun source => ?_
      split
      · exact draws_pure (turns_self has)
      · split
        · exact draws_pure (turns_self has)
        · rename_i replacement used
          exact draws_pure (rename_turns has named used)

theorem action_turns (has : a.Has tree) (action : Action) : Draws (action.run a) (Turns tree) := by
  cases action with
  | adjust config candidates => exact draws_bind (adjust_turns has config candidates) fun _ turns => draws_pure turns
  | replace candidates => exact draws_bind (replace_turns has candidates) fun _ turns => draws_pure turns
  | apply config kind id =>
      rw [Action.run]
      split
      · rename_i operator registered
        exact draws_bind (operator_turns has registered config id) fun _ turns => draws_pure turns
      · exact draws_pure (turns_self has)

structure Kept (tree last : Tree) : Prop where
  shaped : WellShaped last.root
  contexts : KeepsContexts tree.root last.root
  shallow : ∀ s ∈ last.root.children, s.depth ≤ Grammar.maxDepth

theorem interned_identifiers {tokens : List Token} (sound : Lexer.AllSound tokens) {name : String}
    (interned : Interned (.ofNames (Builder.namesOf tokens)) name) : isIdentifier name = true := by
  obtain ⟨symbol, stands⟩ := interned
  have listed : name ∈ (SymbolTable.ofNames (Builder.namesOf tokens)).names.toList :=
    List.mem_of_getElem? ((Array.getElem?_toList ..).trans stands)
  rw [SymbolTable.of_names_eq, List.mem_eraseDups] at listed
  obtain ⟨token, member, named⟩ := List.mem_filterMap.mp listed
  have kind := sound token member
  cases found : token.kind with
  | name id =>
      rw [found] at named kind
      cases named
      exact kind
  | _ =>
      rw [found] at named
      cases named

/-- Whatever is done to a parsed program's arena, with whatever cells, it has a tree, which keeps the shape, the contexts
and the limit of depth, and no statement of which becomes deeper. -/
theorem leads_keep {source : String} {first : Arena} (parsed : Arena.parse source = .ok first) (leads : Leads first a) :
    ∃ tree last, Tree.parse source = .ok tree ∧ first.Has tree ∧ a.Has last ∧ Kept tree last ∧
      ∀ action : Action, Draws (action.run a) fun b => ∃ next, b.Has next ∧ Shrinks last.root next.root := by
  obtain ⟨tree, tokens, made, read, has, table⟩ := tree_of_parse parsed
  have identifiers (name : String) : Interned tree.symbols name → isIdentifier name = true := by
    rw [← has.symbols, table]
    exact interned_identifiers (tokenize_sound read)
  have shrinks {a : Arena} {last : Tree} (has : a.Has last) (shaped : Mutation.ShapedTree last) (action : Action) :
      Draws (action.run a) fun b => ∃ next, b.Has next ∧ Shrinks last.root next.root := fun words =>
    have ⟨next, has', changes⟩ := action_turns has action words
    ⟨next, has', Mutation.changes_shrink shaped changes⟩
  suffices kept : ∃ last, a.Has last ∧ last.symbols = tree.symbols ∧ Kept tree last by
    obtain ⟨last, has', _, kept⟩ := kept
    exact ⟨tree, last, made, has, has', kept, shrinks has' kept.shaped⟩
  induction leads with
  | start => exact ⟨tree, has, rfl, Grammar.parse_shaped made, Node.keeps_refl _, Grammar.parse_shallow made⟩
  | step before action words ih =>
      obtain ⟨last, has', same, kept⟩ := ih
      obtain ⟨next, has'', changes⟩ := action_turns has' action words
      refine ⟨next, has'', (changes_symbols changes).trans same, ?_, ?_, ?_⟩
      · exact Mutation.changes_shaped kept.shaped (same ▸ identifiers) changes
      · exact Node.keeps_trans kept.contexts (Mutation.changes_keep changes)
      · exact Mutation.stays_low (Mutation.changes_shrink kept.shaped changes) kept.shallow

end Mutagen.Arena
