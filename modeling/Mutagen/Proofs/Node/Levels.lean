import Mutagen.Proofs.Node.Tokens

set_option autoImplicit false

namespace Mutagen.Node

-- The level of the parentheses around a node, if its place asks for them.
def parens (level : Precedence) (node : Node) : Nat := if node.precedence.rank < level.rank then 1 else 0

theorem precedence_ne_tuple (node : Node) : node.precedence ≠ .tuple := by
  cases node with
  | boolOp op _ | binOp _ op _ | unaryOp op _ => cases op <;> exact fun same => by cases same
  | _ => exact fun same => by cases same

theorem test_rank (node : Node) : Precedence.test.rank ≤ node.precedence.rank := by
  have all : ∀ p : Precedence, p ≠ .tuple → Precedence.test.rank ≤ p.rank := by
    intro p
    cases p <;> decide
  exact all _ (precedence_ne_tuple node)

theorem tokens_at_test (node : Node) : tokensAt .test node = tokens node := if_neg (Nat.not_lt_of_le (test_rank node))

theorem tokens_at_tuple (node : Node) : tokensAt .tuple node = tokens node := by
  rw [tokensAt, guarded, if_neg (show ¬ node.precedence.rank < Precedence.tuple.rank from Nat.not_lt_zero _)]

def item (node : Node) : Node × Nat := (node, if node.isSlice then 0 else 1)

def indexEdges : Node → List (Node × Nat)
  | .tuple (first :: others) _ => (first :: others).map item
  | index => [item index]

-- The nodes that are read below a node, with the levels between.
def edges : Node → List (Node × Nat)
  | .program body => body.map (·, 0)
  | .functionDef _ _ defaults body => (defaults ++ body).map (·, 1)
  | .returnStmt part | .raiseStmt part => part.toList.map (·, 1)
  | .assign targets value => (targets ++ [value]).map (·, 1)
  | .augAssign target _ value => [(target, 1), (value, 1)]
  | .forStmt target iterable body => (target, 0) :: (iterable :: body).map (·, 1)
  | .whileStmt test body => (test :: body).map (·, 1)
  | .ifStmt test body orelse => (test :: (body ++ orelse)).map (·, 1)
  | .assertStmt test message => (test :: message.toList).map (·, 1)
  | .exprStmt value => [(value, 1)]
  | .passStmt | .breakStmt | .continueStmt => []
  | .boolOp op values => values.map fun value => (value, parens op.precedence.next value)
  | .binOp left op right =>
      [(left, parens op.operands.1 left), (right, parens op.operands.2 right + if op = .pow then 1 else 0)]
  | .unaryOp op operand => [(operand, parens op.precedence operand + 1)]
  | .lambda _ defaults body => (defaults ++ [body]).map (·, 1)
  | .ifExp test body orelse => [(test, parens .or test), (body, parens .or body), (orelse, 1)]
  | .dict keys values => (keys ++ values).map (·, 1)
  | .set elements | .list elements _ | .tuple elements _ => elements.map (·, 1)
  | .compare left _ comparators => (left :: comparators).map fun value => (value, parens .bitOr value)
  | .call function args keywords =>
      (function, parens .atom function) :: (args ++ keywords.map (·.2)).map (·, 1)
  | .constant _ | .name _ _ => []
  | .attr value _ _ => [(value, if value.isNumber then 1 else parens .atom value)]
  | .subscript value index _ => (value, parens .atom value) :: indexEdges index
  | .slice lower upper step => (lower.toList ++ upper.toList ++ step.toList).map (·, 1)

theorem index_edge {index : Node} {edge : Node × Nat} (h : edge ∈ indexEdges index) :
    edge.1 = index ∨ edge.1 ∈ index.children := by
  unfold indexEdges at h
  split at h
  · obtain ⟨node, member, rfl⟩ := List.mem_map.mp h
    exact .inr member
  · rw [List.mem_singleton.mp h]
    exact .inl rfl

theorem edge_below {node : Node} {edge : Node × Nat} (h : edge ∈ edges node) :
    edge.1 ∈ node.children ∨ ∃ index ∈ node.children, edge.1 ∈ index.children := by
  cases node with
  | subscript value index ctx =>
      rcases List.mem_cons.mp h with rfl | inside
      · exact .inl (by simp [children])
      · rcases index_edge inside with same | below
        · exact .inl (by simp [children, same])
        · exact .inr ⟨index, by simp [children], below⟩
  | passStmt | breakStmt | continueStmt | constant | name => cases h
  | binOp | unaryOp | augAssign | exprStmt | ifExp | attr =>
      left
      simp only [edges, List.mem_cons, List.not_mem_nil, or_false] at h
      rcases h with rfl | rfl | rfl <;> simp [children]
  | forStmt target iterable body =>
      rcases List.mem_cons.mp h with rfl | inside
      · exact .inl (by simp [children])
      · obtain ⟨child, member, rfl⟩ := List.mem_map.mp inside
        exact .inl (List.mem_cons_of_mem _ member)
  | call function args keywords =>
      rcases List.mem_cons.mp h with rfl | inside
      · exact .inl (by simp [children])
      · obtain ⟨child, member, rfl⟩ := List.mem_map.mp inside
        exact .inl (List.mem_cons_of_mem _ member)
  | _ =>
      obtain ⟨child, member, rfl⟩ := List.mem_map.mp h
      exact .inl member

theorem edge_size {node : Node} {edge : Node × Nat} (h : edge ∈ edges node) : sizeOf edge.1 < sizeOf node := by
  rcases edge_below h with child | ⟨index, child, grandchild⟩
  · exact child_size child
  · exact (child_size grandchild).trans (child_size child)

def levels (node : Node) : Nat :=
  ((edges node).attach.map fun edge => levels edge.1.1 + edge.1.2).foldr max 0
termination_by sizeOf node
decreasing_by exact edge_size edge.2

theorem foldr_max_le (values : List Nat) (bound : Nat) : values.foldr max 0 ≤ bound ↔ ∀ value ∈ values, value ≤ bound := by
  induction values with
  | nil => simp
  | cons value values ih => simp [ih]

theorem levels_le (node : Node) (bound : Nat) :
    levels node ≤ bound ↔ ∀ edge ∈ edges node, levels edge.1 + edge.2 ≤ bound := by
  rw [levels, foldr_max_le]
  constructor
  · intro all edge member
    exact all _ (List.mem_map.mpr ⟨⟨edge, member⟩, List.mem_attach _ _, rfl⟩)
  · intro all value member
    obtain ⟨edge, _, rfl⟩ := List.mem_map.mp member
    exact all edge.1 edge.2

theorem levels_single {node child : Node} {between : Nat} (single : edges node = [(child, between)]) :
    levels node = levels child + between := by
  refine eq_of_forall_ge_iff fun bound => ?_
  rw [levels_le, single, List.forall_mem_singleton]

theorem levels_leaf {node : Node} (leaf : edges node = []) : levels node = 0 := by
  refine Nat.le_zero.mp ((levels_le node 0).mpr fun edge member => ?_)
  rw [leaf] at member
  cases member

def levelsAt (level : Precedence) (node : Node) : Nat := levels node + parens level node

end Mutagen.Node
