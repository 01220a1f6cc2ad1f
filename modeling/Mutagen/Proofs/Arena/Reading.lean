import Mutagen.Proofs.Arena.Holds
import Mutagen.Proofs.Node.Depth

set_option autoImplicit false

namespace Mutagen.Arena

variable {a b : Arena} {id : NodeId} {ids ids' below : List NodeId} {node : Node} {nodes nodes' : List Node} {cell : Cell}

def Is (a : Arena) (id : NodeId) (node : Node) : Prop := ∃ below, Holds a [id] [node] below

theorem holds_is (held : Holds a ids nodes below) : List.Forall₂ a.Is ids nodes := by
  induction held with
  | nil => exact .nil
  | cons found like under _ _ ih => exact .cons ⟨_, .cons found like under .nil⟩ ih

theorem rooted_is {root : Node} (rooted : a.Rooted root) : a.Is a.root root := by
  obtain ⟨below, held, _⟩ := rooted
  exact ⟨below, held⟩

theorem is_cell (is : a.Is id node) :
    ∃ cell, a.cell? id = some cell ∧ cell.Like a.symbols.name? node ∧ List.Forall₂ a.Is cell.children node.children := by
  obtain ⟨_, held⟩ := is
  cases held with
  | cons found like under _ => exact ⟨_, found, like, holds_is under⟩

theorem forall_split {α β : Type} {R : α → β → Prop} {xs xs' : List α} {ys ys' : List β} (length : xs.length = ys.length)
    (all : List.Forall₂ R (xs ++ xs') (ys ++ ys')) : List.Forall₂ R xs ys ∧ List.Forall₂ R xs' ys' := by
  induction xs generalizing ys with
  | nil =>
      obtain rfl := List.eq_nil_of_length_eq_zero length.symm
      exact ⟨.nil, all⟩
  | cons x xs ih =>
      cases ys with
      | nil => cases length
      | cons y ys =>
          obtain ⟨first, others⟩ := List.forall₂_cons.mp all
          obtain ⟨front, back⟩ := ih (Nat.succ_inj.mp length) others
          exact ⟨.cons first front, back⟩

theorem map_all {α β : Type} {f : α → Option β} {xs : List α} {ys : List β}
    (all : List.Forall₂ (fun x y => f x = some y) xs ys) : xs.mapM f = some ys := by
  induction all with
  | nil => rfl
  | cons first _ ih => simp [List.mapM_cons, first, ih]

theorem option_length {α β : Type} {x : Option α} {y : Option β} (same : x.isSome = y.isSome) :
    x.toList.length = y.toList.length := by
  cases x <;> cases y <;> first | rfl | cases same

theorem map_keywords {name? : Symbol → Option String} {f : NodeId → Option Node} {keywords : List (Symbol × NodeId)}
    {pairs : List (String × Node)} (stand : StandFor name? (keywords.map (·.1)) (pairs.map (·.1)))
    (all : List.Forall₂ (fun id node => f id = some node) (keywords.map (·.2)) (pairs.map (·.2))) :
    keywords.mapM (fun keyword => (name? keyword.1).bind fun arg => (f keyword.2).bind fun value => some (arg, value)) =
      some pairs := by
  apply map_all
  rw [StandFor, List.forall₂_map_left_iff, List.forall₂_map_right_iff] at stand
  rw [List.forall₂_map_left_iff, List.forall₂_map_right_iff] at all
  induction stand with
  | nil => exact .nil
  | cons first _ ih =>
      obtain ⟨second, others⟩ := List.forall₂_cons.mp all
      exact .cons (by simp [first, second]) (ih others)

theorem node_eq (is : a.Is id node) : a.node? id = some node := by
  induction node using Node.node_induction generalizing id with
  | step node ih =>
  obtain ⟨cell, found, like, under⟩ := is_cell is
  have read : List.Forall₂ (fun id child => a.node? id = some child) cell.children node.children := by
    rw [List.forall₂_iff_zip] at under ⊢
    exact ⟨under.1, fun member => ih _ (List.of_mem_zip member).2 (under.2 member)⟩
  rw [node?, found, Option.bind_eq_bind, Option.bind_some]
  cases node <;> cases cell <;> try exact like.elim
  case passStmt.passStmt | breakStmt.breakStmt | continueStmt.continueStmt =>
    rfl
  case constant.constant =>
    cases like
    rfl
  case name.name =>
    obtain ⟨id, rfl⟩ := like
    simp [id]
  case program.program | set.set =>
    dsimp only [Cell.children, Node.children] at read
    simp [map_all read]
  case boolOp.boolOp | list.list | tuple.tuple =>
    dsimp only [Cell.children, Node.children] at read
    cases like
    simp [map_all read]
  case exprStmt.exprStmt =>
    simp [(List.forall₂_cons.mp read).1]
  case attr.attr =>
    obtain ⟨id, rfl⟩ := like
    simp [id, (List.forall₂_cons.mp read).1]
  case unaryOp.unaryOp =>
    cases like
    simp [(List.forall₂_cons.mp read).1]
  case augAssign.augAssign | binOp.binOp | subscript.subscript =>
    cases like
    obtain ⟨first, others⟩ := List.forall₂_cons.mp read
    simp [first, (List.forall₂_cons.mp others).1]
  case ifExp.ifExp =>
    obtain ⟨test, others⟩ := List.forall₂_cons.mp read
    obtain ⟨body, others⟩ := List.forall₂_cons.mp others
    simp [test, body, (List.forall₂_cons.mp others).1]
  case forStmt.forStmt =>
    obtain ⟨target, others⟩ := List.forall₂_cons.mp read
    obtain ⟨iterable, body⟩ := List.forall₂_cons.mp others
    simp [target, iterable, map_all body]
  case whileStmt.whileStmt =>
    obtain ⟨test, body⟩ := List.forall₂_cons.mp read
    simp [test, map_all body]
  case compare.compare =>
    cases like
    obtain ⟨left, comparators⟩ := List.forall₂_cons.mp read
    simp [left, map_all comparators]
  case ifStmt.ifStmt =>
    obtain ⟨test, others⟩ := List.forall₂_cons.mp read
    obtain ⟨body, orelse⟩ := forall_split like others
    simp [test, map_all body, map_all orelse]
  case call.call =>
    obtain ⟨length, names⟩ := like
    obtain ⟨function, others⟩ := List.forall₂_cons.mp read
    obtain ⟨args, keywords⟩ := forall_split length others
    simp [function, map_all args, map_keywords names keywords]
  case dict.dict =>
    obtain ⟨keys, values⟩ := forall_split like read
    simp [map_all keys, map_all values]
  case functionDef.functionDef =>
    obtain ⟨id, params, length⟩ := like
    obtain ⟨defaults, body⟩ := forall_split length read
    simp [id, map_all params, map_all defaults, map_all body]
  case lambda.lambda =>
    obtain ⟨defaults, body⟩ := forall_split (by simpa [Cell.children, Node.children] using read.length_eq) read
    simp [map_all like, map_all defaults, (List.forall₂_cons.mp body).1]
  case assign.assign =>
    obtain ⟨targets, value⟩ := forall_split (by simpa [Cell.children, Node.children] using read.length_eq) read
    simp [map_all targets, (List.forall₂_cons.mp value).1]
  case returnStmt.returnStmt | raiseStmt.raiseStmt =>
    dsimp only [Cell.children, Node.children] at read
    simp [map_all read]
  case assertStmt.assertStmt =>
    obtain ⟨test, message⟩ := List.forall₂_cons.mp read
    simp [test, map_all message]
  case slice.slice =>
    obtain ⟨front, step⟩ := forall_split (by simp [option_length like.1, option_length like.2]) read
    obtain ⟨lower, upper⟩ := forall_split (option_length like.1) front
    simp [map_all lower, map_all upper, map_all step]

-- The order on a stack does not matter for the deepest level.
theorem deepest_level_perm {stack stack' : List (Node × Nat)} (same : stack.Perm stack') (deepest : Nat) :
    Node.deepestLevel deepest stack = Node.deepestLevel deepest stack' := by
  apply eq_of_forall_ge_iff
  intro bound
  simp only [Node.deepest_level_le, same.mem_iff]

def OnStack (a : Arena) (entry : NodeId × Nat) (entry' : Node × Nat) : Prop := a.Is entry.1 entry'.1 ∧ entry.2 = entry'.2

-- As in `children_size`.
attribute [local instance (2000)] Zero.ofOfNat0

theorem deepest_level_eq {stack : List (NodeId × Nat)} {stack' : List (Node × Nat)}
    (same : List.Forall₂ a.OnStack stack stack') (deepest : Nat) :
    a.deepestLevel deepest stack = some (Node.deepestLevel deepest stack') := by
  induction size : (stack'.map fun entry => sizeOf entry.1).sum using Nat.strongRecOn generalizing deepest stack stack' with
  | _ n ih =>
  cases same with
  | nil =>
      rw [deepestLevel, Node.deepestLevel]
      rfl
  | @cons entry entry' rest rest' first others =>
      obtain ⟨id, level⟩ := entry
      obtain ⟨node, _⟩ := entry'
      obtain ⟨is, rfl⟩ := first
      obtain ⟨cell, found, _, under⟩ := is_cell is
      have children : List.Forall₂ a.OnStack (cell.children.map (·, level + 1)) (node.children.map (·, level + 1)) := by
        rw [List.forall₂_map_left_iff, List.forall₂_map_right_iff]
        exact under.imp fun _ _ is => ⟨is, rfl⟩
      have order : ((node.children.map (·, level + 1)).reverse ++ rest').Perm (node.children.map (·, level + 1) ++ rest') :=
        (List.reverse_perm _).append_right rest'
      have smaller : (((node.children.map (·, level + 1)).reverse ++ rest').map fun entry => sizeOf entry.1).sum < n := by
        have below : (node.children.map fun child => sizeOf child).sum < sizeOf node := Node.children_size node
        rw [(order.map _).sum_eq, ← size]
        simp only [List.map_append, List.map_map, Function.comp_def, List.sum_append, List.map_cons, List.sum_cons]
        omega
      rw [deepestLevel, Node.deepestLevel, ← deepest_level_perm order]
      simp only [found, Option.bind_eq_bind, Option.bind_some]
      exact ih _ smaller (List.rel_append (List.rel_reverse children) others) _ rfl

theorem depth_is (is : a.Is id node) : a.depth? id = some node.depth :=
  deepest_level_eq (.cons ⟨is, rfl⟩ .nil) 0

end Mutagen.Arena
