import Mutagen.Node.Target
import Mutagen.Proofs.Node.Levels

set_option autoImplicit false

namespace Mutagen.Node

mutual
-- The expression that a target is read as.
def asValue : Node → Node
  | .name id _ => .name id .load
  | .attr value id _ => .attr value id .load
  | .subscript value index _ => .subscript value index .load
  | .list elements _ => .list (asValues elements) .load
  | .tuple elements _ => .tuple (asValues elements) .load
  | node => node

def asValues : List Node → List Node
  | [] => []
  | node :: rest => asValue node :: asValues rest
end

theorem as_values_eq (nodes : List Node) : asValues nodes = nodes.map asValue := by
  induction nodes with
  | nil => rfl
  | cons node rest ih => rw [asValues, ih, List.map_cons]

structure AsTarget (node : Node) : Prop where
  shaped : Everywhere Shaped (asValue node)
  place : (asValue node).place = .value
  atomic : (asValue node).precedence = .atom
  tokens : tokens (asValue node) = tokens node
  levels : levels (asValue node) = levels node
  bound : target? (asValue node) = some node

theorem levels_congr {node node' : Node}
    (same : ∀ bound, (∀ edge ∈ edges node, levels edge.1 + edge.2 ≤ bound) ↔ ∀ edge ∈ edges node', levels edge.1 + edge.2 ≤ bound) :
    levels node = levels node' :=
  eq_of_forall_ge_iff fun bound => by rw [levels_le, levels_le, same]

theorem targets_map {nodes : List Node} (h : ∀ node ∈ nodes, target? (asValue node) = some node) :
    targets? (nodes.map asValue) = some nodes := by
  induction nodes with
  | nil => rfl
  | cons node rest ih =>
      have first := h node (by simp)
      have others := ih fun other member => h other (by simp [member])
      simp only [List.map_cons, targets?, first, others]

structure AsTargets (elements : List Node) : Prop where
  shaped : ∀ node ∈ elements.map asValue, Everywhere Shaped node
  values : AreValues (elements.map asValue)
  tokens : tokensAll .test (elements.map asValue) = tokensAll .test elements
  levels : ∀ bound, (∀ edge ∈ (elements.map asValue).map (·, 1), levels edge.1 + edge.2 ≤ bound) ↔
    ∀ edge ∈ elements.map (·, 1), levels edge.1 + edge.2 ≤ bound
  bound : targets? (elements.map asValue) = some elements

theorem as_targets {elements : List Node} (h : ∀ node ∈ elements, AsTarget node) : AsTargets elements := by
  refine ⟨?_, ?_, ?_, ?_, targets_map fun node member => (h node member).bound⟩
  · exact List.forall_mem_map.mpr fun node member => (h node member).shaped
  · exact List.forall_mem_map.mpr fun node member => List.mem_singleton.mpr (h node member).place
  · rw [tokens_all_eq, tokens_all_eq, List.map_map]
    refine List.map_congr_left fun node member => ?_
    rw [Function.comp_apply, tokens_at_test, tokens_at_test, (h node member).tokens]
  · intro bound
    simp only [List.forall_mem_map]
    refine forall₂_congr fun node member => ?_
    rw [(h node member).levels]

theorem as_target_list {elements : List Node} (h : AsTargets elements) : AsTarget (.list elements .store) := by
  have value : asValue (.list elements .store) = .list (elements.map asValue) .load := by rw [asValue, as_values_eq]
  refine ⟨?_, ?_, ?_, ?_, ?_, ?_⟩ <;> rw [value]
  · exact .node h.values h.shaped
  · rfl
  · rfl
  · show Token.Kind.mark .leftBracket :: commaTokens (tokensAll .test (elements.map asValue)) ++ [.mark .rightBracket] = _
    rw [h.tokens]
    rfl
  · exact levels_congr h.levels
  · rw [target?, h.bound]
    rfl

theorem values_no_slice {nodes : List Node} (h : AreValues nodes) : nodes.any isSlice = false := by
  rw [List.any_eq_false]
  intro node member
  rw [whole_value (List.mem_singleton.mp (h node member))]
  exact Bool.false_ne_true

theorem as_target_tuple {elements : List Node} (h : AsTargets elements) : AsTarget (.tuple elements .store) := by
  have value : asValue (.tuple elements .store) = .tuple (elements.map asValue) .load := by rw [asValue, as_values_eq]
  refine ⟨?_, ?_, ?_, ?_, ?_, ?_⟩ <;> rw [value]
  · exact .node (fun node member => by simp [List.mem_singleton.mp (h.values node member)]) h.shaped
  · rw [place, values_no_slice h.values]
    rfl
  · rfl
  · show enclosed (elementTokens (tokensAll .test (elements.map asValue))) = _
    rw [h.tokens]
    rfl
  · exact levels_congr h.levels
  · rw [target?, h.bound]
    rfl

theorem target_reads (node : Node) (shaped : Everywhere Shaped node) (stands : node.place ∈ targetPlaces) :
    AsTarget node := by
  induction node using node_induction with
  | step node ih =>
  have here := shaped.here
  have below := shaped.child
  cases node with
  | name id ctx =>
      cases ctx with
      | load => exact absurd stands (by simp [place, targetPlaces])
      | store => exact ⟨.node here below, rfl, rfl, rfl, levels_congr fun _ => Iff.rfl, rfl⟩
  | attr value id ctx =>
      cases ctx with
      | load => exact absurd stands (by simp [place, targetPlaces])
      | store => exact ⟨.node here below, rfl, rfl, rfl, levels_congr fun _ => Iff.rfl, rfl⟩
  | subscript value index ctx =>
      cases ctx with
      | load => exact absurd stands (by simp [place, targetPlaces])
      | store => exact ⟨.node here below, rfl, rfl, by cases index <;> rfl, levels_congr fun _ => Iff.rfl, rfl⟩
  | list elements ctx =>
      cases ctx with
      | load => exact absurd stands (by simp [place, targetPlaces])
      | store => exact as_target_list (as_targets fun child member => ih child member (below child member) (here child member))
  | tuple elements ctx =>
      cases ctx with
      | load =>
          rw [place] at stands
          split at stands <;> exact absurd stands (by decide)
      | store => exact as_target_tuple (as_targets fun child member => ih child member (below child member) (here child member))
  | _ => exact absurd stands (by simp [place, targetPlaces])

theorem single_target {node : Node} (stands : node.place = .single) : singleTarget? (asValue node) = some node := by
  cases node with
  | name _ ctx | attr _ _ ctx | subscript _ _ ctx =>
      cases ctx with
      | load => cases stands
      | store => rfl
  | list _ ctx => cases ctx <;> cases stands
  | tuple elements ctx =>
      cases ctx with
      | load =>
          rw [place] at stands
          split at stands <;> cases stands
      | store => cases stands
  | _ => cases stands

end Mutagen.Node
