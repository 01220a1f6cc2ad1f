import Mutagen.Proofs.Node.Levels
import Mutagen.Proofs.Node.Paths

set_option autoImplicit false

namespace Mutagen.Node

def height (node : Node) : Nat :=
  1 + (node.children.attach.map fun child => height child.1).foldr max 0
termination_by sizeOf node
decreasing_by exact child_size child.2

theorem height_le (node : Node) (bound : Nat) :
    height node ≤ 1 + bound ↔ ∀ child ∈ node.children, height child ≤ bound := by
  rw [height, Nat.add_le_add_iff_left, foldr_max_le]
  constructor
  · intro all child member
    exact all _ (List.mem_map.mpr ⟨⟨child, member⟩, List.mem_attach _ _, rfl⟩)
  · intro all value member
    obtain ⟨child, _, rfl⟩ := List.mem_map.mp member
    exact all child.1 child.2

theorem height_pos (node : Node) : 1 ≤ height node := by
  rw [height]
  exact Nat.le_add_right 1 _

theorem height_child {node child : Node} (h : child ∈ node.children) : 1 + height child ≤ height node := by
  have pos := height_pos node
  have whole : height node ≤ 1 + (height node - 1) := by omega
  have := (height_le node (height node - 1)).mp whole child h
  omega

theorem height_leaf {node : Node} (leaf : node.children = []) : height node = 1 := by
  have low : height node ≤ 1 + 0 := (height_le node 0).mpr fun child member => by
    rw [leaf] at member
    cases member
  exact Nat.le_antisymm low (height_pos node)

-- The loop: what is still on the stack counts from its level on.
theorem deepest_level_le (deepest : Nat) (stack : List (Node × Nat)) (bound : Nat) :
    deepestLevel deepest stack ≤ bound ↔ deepest ≤ bound ∧ ∀ entry ∈ stack, entry.2 + height entry.1 ≤ bound + 1 := by
  fun_induction deepestLevel deepest stack with
  | case1 deepest => simp
  | case2 deepest node level rest ih =>
      have here : level + height node ≤ bound + 1 ↔
          level ≤ bound ∧ ∀ child ∈ node.children, level + 1 + height child ≤ bound + 1 := by
        constructor
        · intro low
          have pos := height_pos node
          refine ⟨by omega, fun child member => ?_⟩
          have := height_child member
          omega
        · rintro ⟨low, below⟩
          have all := (height_le node (bound - level)).mpr fun child member => by
            have := below child member
            omega
          omega
      rw [ih, Nat.max_le, List.forall_mem_append, List.forall_mem_map, List.forall_mem_cons, here]
      simp only [and_assoc]

theorem depth_eq (node : Node) : depth node = height node := by
  apply eq_of_forall_ge_iff
  intro bound
  rw [depth, deepest_level_le, List.forall_mem_singleton]
  show 0 ≤ bound ∧ 1 + height node ≤ bound + 1 ↔ height node ≤ bound
  omega

-- The levels of the parser: parentheses and a sign, or parentheses and a power, are two.
theorem parens_one (level : Precedence) (node : Node) : parens level node ≤ 1 := by
  rw [parens]
  split <;> decide

theorem item_one (node : Node) : (item node).2 ≤ 1 := by
  rw [item]
  dsimp only
  split <;> decide

theorem index_edge_one {index : Node} {edge : Node × Nat} (h : edge ∈ indexEdges index) : edge.2 ≤ 1 := by
  unfold indexEdges at h
  split at h
  · obtain ⟨node, _, rfl⟩ := List.mem_map.mp h
    exact item_one node
  · rw [List.mem_singleton.mp h]
    exact item_one index

theorem edge_two {node : Node} {edge : Node × Nat} (h : edge ∈ edges node) : edge.2 ≤ 2 := by
  have mapped {nodes : List Node} {weight : Node → Nat} (light : ∀ child, weight child ≤ 2)
      (member : edge ∈ nodes.map fun child => (child, weight child)) : edge.2 ≤ 2 := by
    obtain ⟨child, _, rfl⟩ := List.mem_map.mp member
    exact light child
  have one {nodes : List Node} (member : edge ∈ nodes.map (·, 1)) : edge.2 ≤ 2 := mapped (fun _ => Nat.le_succ 1) member
  have paren (level : Precedence) (child : Node) : parens level child ≤ 2 := (parens_one level child).trans (Nat.le_succ 1)
  cases node with
  | program body => exact mapped (fun _ => Nat.zero_le 2) h
  | boolOp op values => exact mapped (paren op.precedence.next) h
  | compare left ops comparators => exact mapped (paren .bitOr) h
  | passStmt | breakStmt | continueStmt | constant | name => cases h
  | binOp left op right =>
      simp only [edges, List.mem_cons, List.not_mem_nil, or_false] at h
      rcases h with rfl | rfl
      · exact paren _ left
      · have := parens_one op.operands.2 right
        dsimp only
        split <;> omega
  | unaryOp op operand =>
      rw [List.mem_singleton.mp h]
      exact Nat.succ_le_succ (parens_one op.precedence operand)
  | ifExp test body orelse =>
      simp only [edges, List.mem_cons, List.not_mem_nil, or_false] at h
      rcases h with rfl | rfl | rfl
      · exact paren .or test
      · exact paren .or body
      · exact Nat.le_succ 1
  | attr value id ctx =>
      rw [List.mem_singleton.mp h]
      dsimp only
      split
      · exact Nat.le_succ 1
      · exact paren .atom value
  | augAssign target op value =>
      simp only [edges, List.mem_cons, List.not_mem_nil, or_false] at h
      rcases h with rfl | rfl <;> exact Nat.le_succ 1
  | exprStmt value =>
      rw [List.mem_singleton.mp h]
      exact Nat.le_succ 1
  | forStmt target iterable body =>
      rcases List.mem_cons.mp h with rfl | inside
      · exact Nat.zero_le 2
      · exact one inside
  | call function args keywords =>
      rcases List.mem_cons.mp h with rfl | inside
      · exact paren .atom function
      · exact one inside
  | subscript value index ctx =>
      rcases List.mem_cons.mp h with rfl | inside
      · exact paren .atom value
      · exact (index_edge_one inside).trans (Nat.le_succ 1)
  | _ => exact one h

theorem edge_height {node : Node} {edge : Node × Nat} (h : edge ∈ edges node) : 1 + height edge.1 ≤ height node := by
  rcases edge_below h with child | ⟨index, child, grandchild⟩
  · exact height_child child
  · have := height_child child
    have := height_child grandchild
    omega

theorem levels_height (node : Node) : levels node ≤ 2 * (height node - 1) := by
  rw [levels_le]
  intro edge member
  have below := edge_height member
  have light := edge_two member
  have pos := height_pos edge.1
  have inner := levels_height edge.1
  omega
termination_by sizeOf node
decreasing_by exact edge_size member

theorem map_children_height {f : Nat → Node → Node} (node : Node)
    (h : ∀ i child, node.children[i]? = some child → height (f i child) ≤ height child) :
    height (node.mapChildren f) ≤ height node := by
  have pos := height_pos node
  have low : height (node.mapChildren f) ≤ 1 + (height node - 1) := by
    rw [height_le, children_map]
    intro changed member
    obtain ⟨i, inside, rfl⟩ := List.mem_mapIdx.mp member
    have kept := h i _ (List.getElem?_eq_getElem inside)
    have below := height_child (List.getElem_mem inside)
    omega
  omega

theorem modify_height {root node new : Node} {path : Path} (found : root.at? path = some node)
    (low : height new ≤ height node) : height (root.modifyAt (fun _ => new) path) ≤ height root := by
  induction path generalizing root with
  | nil =>
      cases found
      exact low
  | cons i path ih =>
      rw [at?, Option.bind_eq_some_iff] at found
      obtain ⟨child, place, found⟩ := found
      apply map_children_height root
      intro j other there
      by_cases here : j = i
      · subst here
        rw [place] at there
        cases there
        rw [if_pos rfl]
        exact ih found
      · rw [if_neg here]

end Mutagen.Node
