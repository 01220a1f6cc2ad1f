import Mutagen.Node.Leaves
import Mutagen.Proofs.Node.Stands

set_option autoImplicit false

namespace Mutagen.Node

def allLeaves (nodes : List Node) : List Leaf := (leavesAll nodes).flatten

@[simp] theorem all_leaves_nil : allLeaves [] = [] := rfl

@[simp] theorem all_leaves_cons (node : Node) (rest : List Node) :
    allLeaves (node :: rest) = leaves node ++ allLeaves rest := by
  rw [allLeaves, leavesAll, List.flatten_cons, allLeaves]

@[simp] theorem all_leaves_append (nodes others : List Node) :
    allLeaves (nodes ++ others) = allLeaves nodes ++ allLeaves others := by
  simp only [allLeaves, leaves_all_eq, List.map_append, List.flatten_append]

@[simp] theorem keyword_leaves_snoc (keywords : List (String × Node)) (id : String) (value : Node) :
    leavesKeywords (keywords ++ [(id, value)]) = leavesKeywords keywords ++ .name id :: leaves value := by
  induction keywords with
  | nil => simp [leavesKeywords]
  | cons first rest ih =>
      rw [List.cons_append, leavesKeywords, ih, leavesKeywords]
      simp only [List.cons_append, List.append_assoc]

theorem interleave_snoc {α : Type} {xs ys : List (List α)} (same : xs.length = ys.length) (x y : List α) :
    interleave (xs ++ [x]) (ys ++ [y]) = interleave xs ys ++ (x ++ y) := by
  induction xs generalizing ys with
  | nil =>
      rw [List.length_eq_zero_iff.mp same.symm]
      simp [interleave]
  | cons first xs ih =>
      cases ys with
      | nil => cases same
      | cons second ys =>
          rw [List.cons_append, List.cons_append, interleave, interleave, ih (Nat.succ.inj same)]
          simp only [List.append_assoc]

theorem param_leaves_none (names : List String) : paramLeaves names [] = names.map .name := by
  simp [paramLeaves, interleave]

theorem param_leaves_snoc {names : List String} {defaults : List (List Leaf)}
    (fit : defaults.length ≤ names.length) (id : String) (value : List Leaf) :
    paramLeaves (names ++ [id]) (defaults ++ [value]) = paramLeaves names defaults ++ .name id :: value := by
  have required : (names ++ [id]).length - (defaults ++ [value]).length = names.length - defaults.length := by
    simp only [List.length_append, List.length_singleton]
    omega
  have inside : names.length - defaults.length ≤ names.length := Nat.sub_le _ _
  have same : ((names.drop (names.length - defaults.length)).map fun id => [Leaf.name id]).length = defaults.length := by
    rw [List.length_map, List.length_drop]
    omega
  rw [paramLeaves, required, List.take_append_of_le_length inside, List.drop_append_of_le_length inside,
    List.map_append, List.map_singleton, interleave_snoc same, paramLeaves]
  simp only [List.singleton_append, List.append_assoc]

theorem single_leaves {node target : Node} (bound : singleTarget? node = some target) : leaves target = leaves node := by
  cases node <;> cases bound <;> rfl

theorem targets_leaves {nodes targets : List Node}
    (h : ∀ node ∈ nodes, ∀ target, target? node = some target → leaves target = leaves node)
    (bound : targets? nodes = some targets) : allLeaves targets = allLeaves nodes := by
  induction nodes generalizing targets with
  | nil =>
      cases bound
      rfl
  | cons node rest ih =>
      rw [targets?] at bound
      split at bound
      · rename_i target others first more
        cases bound
        have front := h node (by simp) target first
        have behind := ih (fun node member => h node (by simp [member])) more
        rw [all_leaves_cons, all_leaves_cons, front, behind]
      · cases bound

theorem target_leaves (node : Node) : ∀ target, target? node = some target → leaves target = leaves node := by
  induction node using node_induction with
  | step node ih =>
      intro target bound
      cases node with
      | name id ctx => exact single_leaves bound
      | attr value id ctx => exact single_leaves bound
      | subscript value index ctx => exact single_leaves bound
      | tuple elements ctx =>
          rw [target?, Option.map_eq_some_iff] at bound
          obtain ⟨targets, bound, rfl⟩ := bound
          exact targets_leaves ih bound
      | list elements ctx =>
          rw [target?, Option.map_eq_some_iff] at bound
          obtain ⟨targets, bound, rfl⟩ := bound
          exact targets_leaves ih bound
      | _ => cases bound

end Mutagen.Node
