import Mathlib.Data.List.Induction
import Mutagen.Proofs.Node.Paths
import Mutagen.Proofs.Node.Walk

set_option autoImplicit false

namespace Mutagen.Node

def ctx? : Node → Option Context
  | .name _ ctx | .attr _ _ ctx | .subscript _ _ ctx | .list _ ctx | .tuple _ ctx => some ctx
  | _ => none

def binds : Node → Nat → Bool
  | .assign targets _, i => i < targets.length
  | .augAssign .., i | .forStmt .., i => i = 0
  | .list _ ctx, _ | .tuple _ ctx, _ => ctx = .store
  | _, _ => false

def contextFor (parent : Node) (i : Nat) : Context := if parent.binds i then .store else .load

-- What an augmented assignment may bind, and what other statements may bind.
inductive Single : Node → Prop where
  | name (id : String) : Single (.name id .store)
  | attr (value : Node) (id : String) : Single (.attr value id .store)
  | subscript (value index : Node) : Single (.subscript value index .store)

inductive Assignable : Node → Prop where
  | single {node : Node} (h : Single node) : Assignable node
  | list {elements : List Node} (h : ∀ node ∈ elements, Assignable node) : Assignable (.list elements .store)
  | tuple {elements : List Node} (h : ∀ node ∈ elements, Assignable node) : Assignable (.tuple elements .store)

structure ContextsBelow (parent : Node) : Prop where
  exact : ∀ i child ctx, parent.children[i]? = some child → child.ctx? = some ctx → ctx = parent.contextFor i
  targets : ∀ i child, parent.children[i]? = some child → parent.binds i = true → Assignable child
  augmented : ∀ target op value, parent = .augAssign target op value → Single target

structure ExactContexts (root : Node) : Prop where
  top : root.ctx? = none
  below : Everywhere ContextsBelow root

variable {node parent child root : Node} {nodes : List Node} {path : Path} {i : Nat} {ctx : Context}

-- The place of a node tells its context.
theorem store_place (h : node.ctx? = some ctx) : ctx = .store ↔ node.place ∈ targetPlaces := by
  cases node with
  | tuple elements ctx' =>
      cases h
      cases ctx with
      | load =>
          rw [place]
          split <;> decide
      | store => simp [place, targetPlaces]
  | name _ ctx' | attr _ _ ctx' | subscript _ _ ctx' | list _ ctx' =>
      cases h
      cases ctx <;> simp [place, targetPlaces]
  | _ => cases h

theorem single_target_place (h : node.place = .single) : Single node := by
  cases node with
  | name id ctx =>
      cases ctx with
      | load => cases h
      | store => exact .name id
  | attr value id ctx =>
      cases ctx with
      | load => cases h
      | store => exact .attr value id
  | subscript value index ctx =>
      cases ctx with
      | load => cases h
      | store => exact .subscript value index
  | tuple elements ctx =>
      cases ctx with
      | load =>
          rw [place] at h
          split at h <;> cases h
      | store => cases h
  | list _ ctx => cases ctx <;> cases h
  | _ => cases h

theorem target_assignable (shaped : Everywhere Shaped node) (stands : node.place ∈ targetPlaces) : Assignable node := by
  induction shaped with
  | @node node here below ih =>
      rcases List.mem_cons.mp stands with several | single
      · cases node with
        | list elements ctx =>
            cases ctx with
            | load => cases several
            | store => exact .list fun child member => ih child member (here child member)
        | tuple elements ctx =>
            cases ctx with
            | load =>
                rw [place] at several
                split at several <;> cases several
            | store => exact .tuple fun child member => ih child member (here child member)
        | name _ ctx | attr _ _ ctx | subscript _ _ ctx => cases ctx <;> cases several
        | _ => cases several
      · exact .single (single_target_place (List.mem_singleton.mp single))

def Free (nodes : List Node) : Prop := ∀ node ∈ nodes, node.place ∉ targetPlaces

theorem free_in {places : List Place} (h : AllIn places nodes)
    (apart : ∀ place ∈ places, place ∉ targetPlaces) : Free nodes :=
  fun node member => apart node.place (h node member)

theorem free_values (h : AreValues nodes) : Free nodes := free_in h (by decide)

theorem free_statements (h : AreStatements nodes) : Free nodes := free_in h (by decide)

theorem free_cons (h : node.place = .value) (h' : Free nodes) : Free (node :: nodes) := by
  refine List.forall_mem_cons.mpr ⟨?_, h'⟩
  rw [h]
  decide

theorem free_single (h : node.place = .value) : Free [node] := free_cons h fun _ none => by cases none

theorem free_append {more : List Node} (h : Free nodes) (h' : Free more) : Free (nodes ++ more) :=
  List.forall_mem_append.mpr ⟨h, h'⟩

def isBinder : Node → Bool
  | .assign .. | .augAssign .. | .forStmt .. | .list _ .store | .tuple _ .store => true
  | _ => false

theorem free_children (h : Shaped parent) (other : parent.isBinder = false) : Free parent.children := by
  cases parent with
  | assign | augAssign | forStmt => cases other
  | passStmt | breakStmt | continueStmt | constant _ | name _ _ => exact fun _ none => by cases none
  | program => exact free_statements h
  | returnStmt | raiseStmt | slice => exact free_values h
  | functionDef => exact free_append (free_values h.2.1.values) (free_statements h.2.2)
  | whileStmt => exact free_cons h.1 (free_statements h.2)
  | ifStmt => exact free_cons h.1 (free_append (free_statements h.2.1) (free_statements h.2.2))
  | assertStmt => exact free_cons h.1 (free_values h.2)
  | exprStmt | unaryOp => exact free_single h
  | boolOp | set => exact free_values h.2
  | binOp => exact free_cons h.1 (free_single h.2)
  | lambda => exact free_append (free_values h.1.values) (free_single h.2)
  | ifExp => exact free_cons h.1 (free_cons h.2.1 (free_single h.2.2))
  | dict => exact free_append (free_values h.2.1) (free_values h.2.2)
  | compare => exact free_cons h.2.2.1 (free_values h.2.2.2)
  | call => exact free_cons h.1 (free_append (free_values h.2.1) (free_values h.2.2.values))
  | attr => exact free_single h.1
  | subscript value index ctx =>
      have part : AllIn indexPlaces [index] := List.forall_mem_singleton.mpr h.2
      exact free_cons h.1 (free_in part (by decide))
  | list elements ctx =>
      cases ctx with
      | load => exact free_values h
      | store => cases other
  | tuple elements ctx =>
      cases ctx with
      | load => exact free_in h (by decide)
      | store => cases other

theorem binds_other (other : parent.isBinder = false) (i : Nat) : parent.binds i = false := by
  cases parent with
  | assign | augAssign | forStmt => cases other
  | list _ ctx | tuple _ ctx =>
      cases ctx with
      | load => rfl
      | store => cases other
  | _ => rfl

theorem first_bound {target : Node} (bound : target.place ∈ targetPlaces) (free : Free nodes)
    (found : (target :: nodes)[i]? = some child) : decide (i = 0) = true ↔ child.place ∈ targetPlaces := by
  cases i with
  | zero =>
      cases found
      exact iff_of_true rfl bound
  | succ i =>
      have member := List.mem_of_getElem? (show nodes[i]? = some child from found)
      exact iff_of_false (by simp) (free child member)

theorem bound_iff (h : Shaped parent) (found : parent.children[i]? = some child) :
    parent.binds i = true ↔ child.place ∈ targetPlaces := by
  by_cases other : parent.isBinder = false
  · rw [binds_other other]
    exact iff_of_false Bool.false_ne_true (free_children h other child (List.mem_of_getElem? found))
  · cases parent with
    | assign targets value =>
        have free : Free [value] := free_single h.2.2
        rw [binds, decide_eq_true_iff]
        by_cases inside : i < targets.length
        · have target : targets[i]? = some child := (List.getElem?_append_left inside).symm.trans found
          exact iff_of_true inside (h.2.1 child (List.mem_of_getElem? target))
        · have behind : [value][i - targets.length]? = some child :=
            (List.getElem?_append_right (Nat.le_of_not_lt inside)).symm.trans found
          exact iff_of_false inside (free child (List.mem_of_getElem? behind))
    | augAssign target op value =>
        have bound : target.place ∈ targetPlaces := by
          rw [h.1]
          decide
        exact first_bound bound (free_single h.2) found
    | forStmt target iterable body => exact first_bound h.1 (free_cons h.2.1 (free_statements h.2.2)) found
    | list elements ctx | tuple elements ctx =>
        cases ctx with
        | load => exact absurd rfl other
        | store => exact iff_of_true rfl (h child (List.mem_of_getElem? found))
    | _ => exact absurd rfl other

theorem shaped_contexts (h : Everywhere Shaped node) : Everywhere ContextsBelow node := by
  induction h with
  | @node parent here below ih =>
      refine .node ⟨?_, ?_, ?_⟩ ih
      · intro i child ctx found carries
        have same := (store_place carries).trans (bound_iff here found).symm
        rw [contextFor]
        split
        · rename_i bound
          exact same.mpr bound
        · rename_i unbound
          cases ctx with
          | load => rfl
          | store => exact absurd (same.mp rfl) unbound
      · intro i child found bound
        exact target_assignable (below child (List.mem_of_getElem? found)) ((bound_iff here found).mp bound)
      · rintro target op value rfl
        exact single_target_place here.1

theorem shaped_exact_contexts (h : WellShaped root) : ExactContexts root := by
  obtain ⟨body, rfl⟩ := root_program h.program
  exact ⟨rfl, shaped_contexts h.shaped⟩

-- What a statement binds, with the elements of it.
inductive Targeted (root : Node) : Path → Prop where
  | assign {path : Path} {targets : List Node} {value : Node} {i : Nat}
      (found : root.at? path = some (.assign targets value)) (inside : i < targets.length) : Targeted root (path ++ [i])
  | augAssign {path : Path} {target : Node} {op : ArithmeticOp} {value : Node}
      (found : root.at? path = some (.augAssign target op value)) : Targeted root (path ++ [0])
  | forStmt {path : Path} {target iterable : Node} {body : List Node}
      (found : root.at? path = some (.forStmt target iterable body)) : Targeted root (path ++ [0])
  | list {path : Path} {elements : List Node} {ctx : Context} (above : Targeted root path)
      (found : root.at? path = some (.list elements ctx)) (i : Nat) : Targeted root (path ++ [i])
  | tuple {path : Path} {elements : List Node} {ctx : Context} (above : Targeted root path)
      (found : root.at? path = some (.tuple elements ctx)) (i : Nat) : Targeted root (path ++ [i])

theorem at_snoc (found : root.at? path = some parent) (i : Nat) : root.at? (path ++ [i]) = parent.children[i]? := by
  rw [at_append, found, Option.bind_some, at_cons]
  cases parent.children[i]? <;> rfl

theorem targeted_iff (h : WellShaped root) (found : root.at? path = some node) :
    Targeted root path ↔ node.place ∈ targetPlaces := by
  have bound {path : Path} {parent node : Node} {i : Nat} (above : root.at? path = some parent)
      (found : root.at? (path ++ [i]) = some node) : parent.binds i = true ↔ node.place ∈ targetPlaces := by
    rw [at_snoc above] at found
    exact bound_iff (at_everywhere h.shaped above).here found
  constructor
  · intro targeted
    induction targeted generalizing node with
    | assign above inside => exact (bound above found).mp (decide_eq_true inside)
    | augAssign above | forStmt above => exact (bound above found).mp rfl
    | list _ above _ ih | tuple _ above _ ih =>
        have store := (store_place rfl).mpr (ih above)
        exact (bound above found).mp (decide_eq_true store)
  · intro stands
    induction path using List.reverseRecOn generalizing node with
    | nil =>
        cases found
        rw [h.program] at stands
        exact absurd stands (by decide)
    | append_singleton path i ih =>
        have whole := found
        rw [at_append, Option.bind_eq_some_iff] at found
        obtain ⟨parent, above, _⟩ := found
        have binds := (bound above whole).mpr stands
        cases parent with
        | assign targets value => exact .assign above (of_decide_eq_true binds)
        | augAssign target op value =>
            rw [of_decide_eq_true binds]
            exact .augAssign above
        | forStmt target iterable body =>
            rw [of_decide_eq_true binds]
            exact .forStmt above
        | list elements ctx =>
            have store := of_decide_eq_true binds
            exact .list (ih above ((store_place rfl).mp store)) above i
        | tuple elements ctx =>
            have store := of_decide_eq_true binds
            exact .tuple (ih above ((store_place rfl).mp store)) above i
        | _ => cases binds

theorem variable_paths_exact (h : WellShaped root) :
    path ∈ root.variablePaths ↔ ∃ id ctx, root.at? path = some (.name id ctx) ∧ ¬ Targeted root path := by
  rw [mem_variable_paths_iff]
  constructor
  · rintro ⟨id, found⟩
    refine ⟨id, .load, found, fun targeted => ?_⟩
    have store := (store_place rfl).mpr ((targeted_iff h found).mp targeted)
    cases store
  · rintro ⟨id, ctx, found, untargeted⟩
    cases ctx with
    | load => exact ⟨id, found⟩
    | store => exact absurd ((targeted_iff h found).mpr ((store_place rfl).mp rfl)) untargeted

end Mutagen.Node
