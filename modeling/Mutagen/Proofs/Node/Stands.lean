import Mutagen.Node.Target
import Mutagen.Proofs.Node.Shape

set_option autoImplicit false

namespace Mutagen.Node

structure Stands (places : List Place) (node : Node) : Prop where
  shaped : Everywhere Shaped node
  place : node.place ∈ places

def IsValue : Node → Prop := Stands [.value]

def IsTarget : Node → Prop := Stands targetPlaces

def IsStatement : Node → Prop := Stands [.statement]

variable {places : List Place} {node : Node} {nodes : List Node}

theorem value_place (h : IsValue node) : node.place = .value := List.mem_singleton.mp h.place

theorem value_stands (here : Shaped node) (place : node.place = .value)
    (below : ∀ child ∈ node.children, Everywhere Shaped child) : IsValue node :=
  ⟨.node here below, List.mem_singleton.mpr place⟩

theorem statement_stands (here : Shaped node) (place : node.place = .statement)
    (below : ∀ child ∈ node.children, Everywhere Shaped child) : IsStatement node :=
  ⟨.node here below, List.mem_singleton.mpr place⟩

theorem all_places (h : ∀ node ∈ nodes, Stands places node) : AllIn places nodes :=
  fun node member => (h node member).place

theorem all_shaped (h : ∀ node ∈ nodes, Stands places node) : ∀ node ∈ nodes, Everywhere Shaped node :=
  fun node member => (h node member).shaped

theorem tuple_place {elements : List Node} (h : AreValues elements) :
    (Node.tuple elements .load).place = .value := by
  have none : elements.any isSlice = false := by
    rw [List.any_eq_false]
    intro node member part
    have value := whole_value (List.mem_singleton.mp (h node member))
    rw [value] at part
    cases part
  rw [Node.place, none]
  rfl

theorem tuple_stands {elements : List Node} (h : ∀ node ∈ elements, IsValue node) :
    IsValue (.tuple elements .load) := by
  have values := all_places h
  refine value_stands (fun node member => ?_) (tuple_place values) (all_shaped h)
  rw [List.mem_singleton.mp (values node member)]
  decide

-- A tuple that stands as a value has only values in it, and is not bound.
theorem tuple_values {elements : List Node} {ctx : Context} (h : IsValue (.tuple elements ctx)) :
    ctx = .load ∧ ∀ node ∈ elements, IsValue node := by
  have place := value_place h
  cases ctx with
  | store => cases place
  | load =>
      refine ⟨rfl, fun node member => ⟨h.shaped.child node member, ?_⟩⟩
      have allowed : node.place ∈ [Place.value, .slice] := h.shaped.here node member
      rw [Node.place] at place
      split at place
      · cases place
      · rename_i noSlice
        have whole : node.place ≠ .slice := fun slice =>
          noSlice (List.any_eq_true.mpr ⟨node, member, (slice_place node).mp slice⟩)
        simpa [whole] using allowed

theorem list_values {elements : List Node} {ctx : Context} (h : IsValue (.list elements ctx)) :
    ctx = .load ∧ ∀ node ∈ elements, IsValue node := by
  have place := value_place h
  cases ctx with
  | store => cases place
  | load =>
      have values : AreValues elements := h.shaped.here
      exact ⟨rfl, fun node member => ⟨h.shaped.child node member, values node member⟩⟩

theorem targets_stand {targets : List Node}
    (h : ∀ node ∈ nodes, ∀ target, target? node = some target → IsTarget target)
    (bound : targets? nodes = some targets) :
    targets.length = nodes.length ∧ ∀ target ∈ targets, IsTarget target := by
  induction nodes generalizing targets with
  | nil =>
      cases bound
      exact ⟨rfl, fun target member => nomatch member⟩
  | cons node rest ih =>
      rw [targets?] at bound
      split at bound
      · rename_i target others first more
        cases bound
        obtain ⟨length, stand⟩ := ih (fun node member => h node (by simp [member])) more
        refine ⟨by rw [List.length_cons, List.length_cons, length], ?_⟩
        exact List.forall_mem_cons.mpr ⟨h node (by simp) target first, stand⟩
      · cases bound

theorem single_stands {target : Node} (h : IsValue node) (bound : singleTarget? node = some target) :
    Everywhere Shaped target ∧ target.place = .single := by
  have here := h.shaped.here
  have below := h.shaped.child
  cases node <;> cases bound
  · exact ⟨.node here below, rfl⟩
  · exact ⟨.node here below, rfl⟩
  · exact ⟨.node here below, rfl⟩

theorem target_stands (node : Node) : IsValue node → ∀ target, target? node = some target → IsTarget target := by
  induction node using node_induction with
  | step node ih =>
      intro h target bound
      have single : singleTarget? node = some target → IsTarget target := by
        intro one
        obtain ⟨shaped, place⟩ := single_stands h one
        exact ⟨shaped, by rw [place]; decide⟩
      cases node with
      | name id ctx => exact single bound
      | attr value id ctx => exact single bound
      | subscript value index ctx => exact single bound
      | tuple elements ctx =>
          rw [target?, Option.map_eq_some_iff] at bound
          obtain ⟨targets, bound, rfl⟩ := bound
          have values := (tuple_values h).2
          obtain ⟨_, stand⟩ := targets_stand (fun node member => ih node member (values node member)) bound
          exact ⟨.node (all_places stand) (all_shaped stand), .head _⟩
      | list elements ctx =>
          rw [target?, Option.map_eq_some_iff] at bound
          obtain ⟨targets, bound, rfl⟩ := bound
          have values := (list_values h).2
          obtain ⟨_, stand⟩ := targets_stand (fun node member => ih node member (values node member)) bound
          exact ⟨.node (all_places stand) (all_shaped stand), .head _⟩
      | _ => cases bound

end Mutagen.Node
