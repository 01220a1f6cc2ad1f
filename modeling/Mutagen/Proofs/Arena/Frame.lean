import Mutagen.Arena.Mutation
import Mutagen.Proofs.Arena.Store
import Mutagen.Proofs.Random.Draws

set_option autoImplicit false

namespace Mutagen.Arena

variable {a b : Arena} {id : NodeId} {cell changed : Cell} {kind : Node.Kind} {operator : Operator}

/-- What a cell may be turned into; `fresh` is the number of the next cell. -/
inductive Rewritten (fresh : NodeId) : Cell → Cell → Prop where
  | boolOp (op op' : LogicalOp) (values : List NodeId) : Rewritten fresh (.boolOp op values) (.boolOp op' values)
  | binOp (left : NodeId) (op op' : ArithmeticOp) (right : NodeId) :
      Rewritten fresh (.binOp left op right) (.binOp left op' right)
  | augAssign (target : NodeId) (op op' : ArithmeticOp) (value : NodeId) :
      Rewritten fresh (.augAssign target op value) (.augAssign target op' value)
  | unaryOp (op op' : PrefixOp) (operand : NodeId) : Rewritten fresh (.unaryOp op operand) (.unaryOp op' operand)
  | branchesKept (test body orelse : NodeId) : Rewritten fresh (.ifExp test body orelse) (.ifExp test body orelse)
  | branchesSwapped (test body orelse : NodeId) : Rewritten fresh (.ifExp test body orelse) (.ifExp test orelse body)
  | lambda (params : List Symbol) (defaults : List NodeId) (body : NodeId) :
      Rewritten fresh (.lambda params defaults body) (.lambda params defaults fresh)
  | dictKept (keys values : List NodeId) : Rewritten fresh (.dict keys values) (.dict keys values)
  | dictCleared (keys values : List NodeId) : Rewritten fresh (.dict keys values) (.dict [] [])

def added : Cell → List Cell
  | .lambda .. => [.constant .none]
  | _ => []

/-- The cell `id` is `changed` now, and but for what is added everything else is as it was. -/
structure Framed (a b : Arena) (id : NodeId) (cell changed : Cell) : Prop where
  root : b.root = a.root
  symbols : b.symbols = a.symbols
  was : a.cell? id = some cell
  cells : b.cells.toList = a.cells.toList.set id changed ++ added cell

theorem framed_update (found : a.cell? id = some cell) (none : added cell = []) (changed : Cell) :
    Framed a (a.update id changed) id cell changed := by
  refine ⟨rfl, rfl, found, ?_⟩
  rw [none, List.append_nil, update, Array.toList_setIfInBounds]

theorem framed_self (found : a.cell? id = some cell) (none : added cell = []) : Framed a a id cell cell := by
  refine ⟨rfl, rfl, found, ?_⟩
  obtain ⟨inside, same⟩ := Array.getElem?_eq_some_iff.mp found
  rw [none, List.append_nil, ← same, ← Array.getElem_toList inside, List.set_getElem_self]

theorem framed_lambda {params : List Symbol} {defaults : List NodeId} {body : NodeId}
    (found : a.cell? id = some (.lambda params defaults body)) (changed : Cell) :
    Framed a ((a.alloc (.constant .none)).2.update id changed) id (.lambda params defaults body) changed := by
  refine ⟨rfl, rfl, found, ?_⟩
  have inside : id < a.cells.toList.length := cell_size found
  show ((a.cells.push (.constant .none)).setIfInBounds id changed).toList = _
  rw [Array.toList_setIfInBounds, Array.toList_push, List.set_append_left _ _ inside]
  rfl

theorem framed_here (framed : Framed a b id cell changed) : b.cell? id = some changed := by
  have inside : id < (a.cells.toList.set id changed).length := by simpa using cell_size framed.was
  rw [cell?, ← Array.getElem?_toList, framed.cells, List.getElem?_append_left inside, List.getElem?_set_self]
  simpa using inside

theorem framed_other {other : NodeId} {kept : Cell} (framed : Framed a b id cell changed) (different : other ≠ id)
    (found : a.cell? other = some kept) : b.cell? other = some kept := by
  have inside : other < (a.cells.toList.set id changed).length := by simpa using cell_size found
  rw [cell?, ← Array.getElem?_toList, framed.cells, List.getElem?_append_left inside, List.getElem?_set_ne (Ne.symm different),
    Array.getElem?_toList]
  exact found

theorem framed_new (framed : Framed a b id cell changed) (i : Nat) : b.cell? (a.cells.size + i) = (added cell)[i]? := by
  have size : (a.cells.toList.set id changed).length = a.cells.size := by simp
  rw [cell?, ← Array.getElem?_toList, framed.cells, ← size, List.getElem?_append_right (Nat.le_add_right _ _),
    Nat.add_sub_cancel_left]

theorem kind_cell (hasKind : a.kind? id = some kind) : ∃ cell, a.cell? id = some cell ∧ cell.kind? = some kind :=
  Option.bind_eq_some_iff.mp hasKind

theorem operator_frames (registered : operator? kind = some operator) (found : a.cell? id = some cell)
    (hasKind : cell.kind? = some kind) (config : Config) :
    Draws (operator config a id) fun result =>
      result.1 = id ∧ ∃ changed, Rewritten a.cells.size cell changed ∧ Framed a result.2 id cell changed := by
  cases cell <;> cases hasKind <;> cases registered
  · rename_i target op value
    simp only [replaceAugmented, found]
    exact draws_then fun op' => draws_pure ⟨rfl, _, .augAssign target op _ value, framed_update found rfl _⟩
  · rename_i op values
    simp only [replaceLogical, found]
    exact draws_then fun op' => draws_pure ⟨rfl, _, .boolOp op _ values, framed_update found rfl _⟩
  · rename_i left op right
    simp only [replaceArithmetic, found]
    exact draws_then fun op' => draws_pure ⟨rfl, _, .binOp left op _ right, framed_update found rfl _⟩
  · rename_i op operand
    simp only [replacePrefix, found]
    exact draws_then fun op' => draws_pure ⟨rfl, _, .unaryOp op _ operand, framed_update found rfl _⟩
  · rename_i params defaults body
    simp only [nullifyLambda, found]
    exact draws_pure ⟨rfl, _, .lambda params defaults body, framed_lambda found _⟩
  · rename_i test body orelse
    simp only [swapBranches, found]
    refine draws_then fun swapped => draws_ite ?_ ?_
    · exact draws_pure ⟨rfl, _, .branchesSwapped test body orelse, framed_update found rfl _⟩
    · exact draws_pure ⟨rfl, _, .branchesKept test body orelse, framed_self found rfl⟩
  · rename_i keys values
    simp only [clearDict, found]
    refine draws_then fun cleared => draws_ite ?_ ?_
    · exact draws_pure ⟨rfl, _, .dictCleared keys values, framed_update found rfl _⟩
    · exact draws_pure ⟨rfl, _, .dictKept keys values, framed_self found rfl⟩

theorem operator_skips (registered : operator? kind = some operator) (other : a.kind? id ≠ some kind) (config : Config) :
    operator config a id = pure (id, a) := by
  cases found : a.cell? id with
  | none => cases kind <;> cases registered <;> simp only [swapBranches, nullifyLambda, clearDict, replaceLogical,
      replaceArithmetic, replacePrefix, replaceAugmented, found]
  | some cell =>
      rw [kind?, found, Option.bind_some] at other
      cases kind <;> cases registered <;> cases cell <;>
        first
        | exact absurd rfl other
        | simp only [swapBranches, nullifyLambda, clearDict, replaceLogical, replaceArithmetic, replacePrefix,
            replaceAugmented, found]

/-- Where the drawn candidate satisfies `mutates` it is reported, and its cell alone is changed, in the way that `made`
says. Where none is reported, nothing is changed. -/
structure OneCell (a : Arena) (candidates : List NodeId) (words : Words) (mutates : NodeId → Node.Kind → Prop)
    (made : Cell → Cell → Prop) (outcome : Outcome) : Prop where
  reported : ∀ id kind, outcome.mutation = some ⟨id, kind⟩ ↔ (Draw.choose candidates words).1 = some id ∧ mutates id kind
  listed : ∀ id kind, outcome.mutation = some ⟨id, kind⟩ → id ∈ candidates
  nothing : outcome.mutation = none → outcome.arena = a
  changed : ∀ id kind, outcome.mutation = some ⟨id, kind⟩ →
    ∃ cell changed, cell.kind? = some kind ∧ made cell changed ∧ Framed a outcome.arena id cell changed

def Adjustable (a : Arena) (id : NodeId) (kind : Node.Kind) : Prop := a.kind? id = some kind ∧ (operator? kind).isSome

def Renamable (a : Arena) (candidates : List NodeId) (id : NodeId) (kind : Node.Kind) : Prop :=
  kind = .name ∧ ∃ old, a.identifier? id = some old ∧ ∃ other ∈ candidates, ∃ new, a.identifier? other = some new ∧ new ≠ old

def Renamed (a : Arena) (candidates : List NodeId) (cell changed : Cell) : Prop :=
  ∃ old new ctx, cell = .name old ctx ∧ changed = .name new ctx ∧ new ≠ old ∧
    ∃ other ∈ candidates, a.identifier? other = some new

variable {candidates : List NodeId} {words : Words} {mutates : NodeId → Node.Kind → Prop} {made : Cell → Cell → Prop}

theorem one_cell_nothing {log : List Event}
    (none : ∀ id kind, (Draw.choose candidates words).1 = some id → ¬ mutates id kind) :
    OneCell a candidates words mutates made ⟨.none, a, log⟩ := by
  refine ⟨fun id kind => ⟨fun same => (nomatch same), ?_⟩, fun _ _ same => (nomatch same), fun _ => rfl,
    fun _ _ same => (nomatch same)⟩
  exact fun ⟨chosen, mutable⟩ => (none id kind chosen mutable).elim

theorem one_cell_some {log : List Event} (chosen : (Draw.choose candidates words).1 = some id)
    (mutable : ∀ kind', mutates id kind' ↔ kind' = kind) (hasKind : cell.kind? = some kind) (rewritten : made cell changed)
    (framed : Framed a b id cell changed) : OneCell a candidates words mutates made ⟨some ⟨id, kind⟩, b, log⟩ := by
  have listed := draws_choose candidates words id chosen
  refine ⟨fun id' kind' => ?_, ?_, fun none => (nomatch none), ?_⟩
  · constructor
    · intro same
      cases same
      exact ⟨chosen, (mutable kind).mpr rfl⟩
    · rintro ⟨chosen', mutable'⟩
      cases chosen.symm.trans chosen'
      rw [(mutable kind').mp mutable']
  · intro _ _ same
    cases same
    exact listed
  · intro _ _ same
    cases same
    exact ⟨cell, changed, hasKind, rewritten, framed⟩

theorem adjust_one_cell (config : Config) (a : Arena) (candidates : List NodeId) (words : Words) :
    OneCell a candidates words a.Adjustable (Rewritten a.cells.size) (adjustExpression config a candidates words).1 := by
  apply draws_after (Q := OneCell a candidates words a.Adjustable (Rewritten a.cells.size))
  split
  · rename_i none
    exact draws_pure (one_cell_nothing fun id kind chosen => nomatch none.symm.trans chosen)
  · rename_i id chosen
    split
    · rename_i none
      refine draws_pure (one_cell_nothing fun id' kind chosen' mutable => ?_)
      cases chosen.symm.trans chosen'
      cases none.symm.trans mutable.1
    · rename_i kind hasKind
      split
      · rename_i none
        refine draws_pure (one_cell_nothing fun id' kind' chosen' mutable => ?_)
        obtain ⟨hasKind', registered⟩ := mutable
        cases chosen.symm.trans chosen'
        cases hasKind.symm.trans hasKind'
        rw [none] at registered
        cases registered
      · rename_i operator registered
        obtain ⟨cell, found, cellKind⟩ := kind_cell hasKind
        refine draws_bind (operator_frames registered found cellKind config) fun result ⟨same, changed, rewritten, framed⟩ => ?_
        have mutable (kind' : Node.Kind) : a.Adjustable id kind' ↔ kind' = kind := by
          constructor
          · exact fun mutable => Option.some.inj (mutable.1.symm.trans hasKind)
          · rintro rfl
            exact ⟨hasKind, registered ▸ rfl⟩
        refine draws_pure ?_
        rw [same]
        exact one_cell_some chosen mutable cellKind rewritten framed

theorem mem_others_iff {current : Symbol} {other : NodeId} :
    other ∈ a.others candidates current ↔ other ∈ candidates ∧ ∃ new, a.identifier? other = some new ∧ new ≠ current := by
  rw [others, List.mem_filter]
  refine and_congr_right fun _ => ?_
  cases a.identifier? other <;> simp

theorem replace_one_cell (a : Arena) (candidates : List NodeId) (words : Words) :
    OneCell a candidates words (a.Renamable candidates) (a.Renamed candidates) (replaceVariable a candidates words).1 := by
  apply draws_after (Q := OneCell a candidates words (a.Renamable candidates) (a.Renamed candidates))
  split
  · rename_i none
    exact draws_pure (one_cell_nothing fun id kind chosen => nomatch none.symm.trans chosen)
  · rename_i id chosen
    split
    · rename_i none
      refine draws_pure (one_cell_nothing fun id' kind chosen' ⟨_, old, named, _⟩ => ?_)
      cases chosen.symm.trans chosen'
      cases none.symm.trans named
    · rename_i old named
      by_cases alone : a.others candidates old = []
      · have nothing : Draw.choose (a.others candidates old) = pure none := by
          rw [alone]
          rfl
        rw [nothing, pure_bind]
        refine draws_pure (one_cell_nothing fun id' kind chosen' ⟨_, old', named', other, member, new, used, different⟩ => ?_)
        cases chosen.symm.trans chosen'
        cases named.symm.trans named'
        have listed := mem_others_iff.mpr ⟨member, new, used, different⟩
        rw [alone] at listed
        cases listed
      · refine draws_bind (draws_chosen alone) fun source ⟨other, listed, same⟩ => ?_
        obtain ⟨member, new, used, different⟩ := mem_others_iff.mp listed
        obtain ⟨ctx, found⟩ := identifier_cell named
        subst same
        simp only [used]
        have mutable (kind' : Node.Kind) : a.Renamable candidates id kind' ↔ kind' = .name := by
          constructor
          · exact fun mutable => mutable.1
          · rintro rfl
            exact ⟨rfl, old, named, other, member, new, used, different⟩
        have renamed : a.Renamed candidates (.name old ctx) (.name new ctx) :=
          ⟨old, new, ctx, rfl, rfl, different, other, member, used⟩
        have framed : Framed a (a.rename id new) id (.name old ctx) (.name new ctx) := by
          rw [rename, found]
          exact framed_update found rfl _
        exact draws_pure (one_cell_some chosen mutable rfl renamed framed)

/-- A mutation of any arena, whatever the candidates, changes the cell that it reports, in the way of its kind, and
nothing else; where it reports none, it changes nothing. An operator leaves a cell of another kind as it is, without a
draw. -/
theorem mutations_change_one_cell (config : Config) (a : Arena) (candidates : List NodeId) (words : Words) :
    OneCell a candidates words a.Adjustable (Rewritten a.cells.size) (adjustExpression config a candidates words).1 ∧
    OneCell a candidates words (a.Renamable candidates) (a.Renamed candidates) (replaceVariable a candidates words).1 ∧
    ∀ kind operator id, operator? kind = some operator →
      (a.kind? id ≠ some kind → operator config a id words = ((id, a), words)) ∧
      (∀ cell, a.cell? id = some cell → cell.kind? = some kind → ∃ changed b, (operator config a id words).1 = (id, b) ∧
        Rewritten a.cells.size cell changed ∧ Framed a b id cell changed) := by
  refine ⟨adjust_one_cell config a candidates words, replace_one_cell a candidates words, ?_⟩
  intro kind operator id registered
  constructor
  · intro other
    rw [operator_skips registered other]
    rfl
  · intro cell found hasKind
    obtain ⟨same, changed, rewritten, framed⟩ := operator_frames registered found hasKind config words
    exact ⟨changed, _, Prod.ext same rfl, rewritten, framed⟩

-- `g(lambda: a)`, and what is left of it when the lambda has lost its body: `a` is detached.
def callArena : Arena :=
  ⟨#[.program [5], .name 0 .load, .name 1 .load, .lambda [] [] 2, .call 1 [3] [], .exprStmt 4], 0, .ofNames ["g", "a"]⟩

def detachedArena : Arena := (adjustExpression {} callArena [4, 3] (.ofList [2147483648])).1.arena

-- The lambda is drawn and rewritten, and then `g` is renamed to the detached `a`.
theorem mutations_change_one_cell_detached :
    (∃ changed, Rewritten 6 (.lambda [] [] 2) changed ∧ Framed callArena detachedArena 3 (.lambda [] [] 2) changed) ∧
    (∃ cell changed, detachedArena.Renamed [1, 2] cell changed ∧
      Framed detachedArena (replaceVariable detachedArena [1, 2] (.ofList [0])).1.arena 1 cell changed) ∧
    swapBranches {} detachedArena 3 (.ofList [0]) = ((3, detachedArena), .ofList [0]) := by
  obtain ⟨adjusted, _⟩ := mutations_change_one_cell {} callArena [4, 3] (.ofList [2147483648])
  obtain ⟨_, renamed, skips⟩ := mutations_change_one_cell {} detachedArena [1, 2] (.ofList [0])
  refine ⟨?_, ?_, ?_⟩
  · have reported := (adjusted.reported 3 .lambda).mpr ⟨by decide +kernel, rfl, rfl⟩
    obtain ⟨cell, changed, _, rewritten, framed⟩ := adjusted.changed 3 .lambda reported
    cases framed.was
    exact ⟨changed, rewritten, framed⟩
  · have reported := (renamed.reported 1 .name).mpr
      ⟨by decide +kernel, rfl, 0, by decide +kernel, 2, by decide, 1, by decide +kernel, by decide⟩
    obtain ⟨cell, changed, _, rewritten, framed⟩ := renamed.changed 1 .name reported
    exact ⟨cell, changed, rewritten, framed⟩
  · exact (skips .ifExp swapBranches 3 rfl).1 (by decide +kernel)

end Mutagen.Arena
