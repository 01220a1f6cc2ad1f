import Mutagen.Mutation.Outcome
import Mutagen.Proofs.Node.Paths
import Mutagen.Proofs.Random.Draws

set_option autoImplicit false

namespace Mutagen

open Node

-- What an operator may make of a node.
inductive Rewritten : Node → Node → Prop where
  | boolOp (op op' : LogicalOp) (values : List Node) : Rewritten (.boolOp op values) (.boolOp op' values)
  | binOp (left : Node) (op op' : ArithmeticOp) (right : Node) :
      Rewritten (.binOp left op right) (.binOp left op' right)
  | augAssign (target : Node) (op op' : ArithmeticOp) (value : Node) :
      Rewritten (.augAssign target op value) (.augAssign target op' value)
  | unaryOp (op op' : PrefixOp) (operand : Node) : Rewritten (.unaryOp op operand) (.unaryOp op' operand)
  | branchesKept (test body orelse : Node) : Rewritten (.ifExp test body orelse) (.ifExp test body orelse)
  | branchesSwapped (test body orelse : Node) : Rewritten (.ifExp test body orelse) (.ifExp test orelse body)
  | lambda (params : List String) (defaults : List Node) (body : Node) :
      Rewritten (.lambda params defaults body) (.lambda params defaults (.constant .none))
  | dictKept (keys values : List Node) : Rewritten (.dict keys values) (.dict keys values)
  | dictCleared (keys values : List Node) : Rewritten (.dict keys values) (.dict [] [])

namespace Mutation

def Rewrites (node changed : Node) : Prop := changed = node ∨ Rewritten node changed

variable {kind : Kind} {operator : Config → Node → Draw Node} {node : Node}

theorem operator_rewrites (registered : operator? kind = some operator) (hasKind : node.kind? = some kind) (config : Config) :
    Draws (operator config node) (Rewritten node) := by
  cases node <;> cases hasKind <;> cases registered
  · rename_i target op value
    exact draws_then fun op' => draws_pure (.augAssign target op op' value)
  · rename_i op values
    exact draws_then fun op' => draws_pure (.boolOp op op' values)
  · rename_i left op right
    exact draws_then fun op' => draws_pure (.binOp left op op' right)
  · rename_i op operand
    exact draws_then fun op' => draws_pure (.unaryOp op op' operand)
  · rename_i params defaults body
    exact draws_pure (.lambda params defaults body)
  · rename_i test body orelse
    exact draws_then fun swapped => draws_ite (draws_pure (.branchesSwapped test body orelse))
      (draws_pure (.branchesKept test body orelse))
  · rename_i keys values
    exact draws_then fun cleared => draws_ite (draws_pure (.dictCleared keys values)) (draws_pure (.dictKept keys values))

-- An operator draws nothing for a node of another kind.
theorem operator_keeps (registered : operator? kind = some operator) (other : node.kind? ≠ some kind) (config : Config) :
    operator config node = pure node := by
  cases kind <;> cases registered <;> cases node <;> first | rfl | exact absurd rfl other

theorem operators_rewrite (registered : operator? kind = some operator) (config : Config) (node : Node) :
    Draws (operator config node) (Rewrites node) := by
  by_cases hasKind : node.kind? = some kind
  · exact fun words => .inr (operator_rewrites registered hasKind config words)
  · rw [operator_keeps registered hasKind config]
    exact draws_pure (.inl rfl)

-- What a mutation makes of a tree; the identifier that a name is given is one of those offered.
inductive Changes (offered : String → Prop) (tree : Tree) : Tree → Prop where
  | nothing : Changes offered tree tree
  | rewritten {path : Path} {node changed : Node} (found : tree.root.at? path = some node)
      (rewrites : Rewrites node changed) : Changes offered tree (modifyAt tree path fun _ => changed)
  | renamed {path : Path} {old new : String} {ctx : Context} (found : tree.root.at? path = some (.name old ctx))
      (used : offered new) : Changes offered tree (modifyAt tree path fun _ => .name new ctx)

def Uses (tree : Tree) (id : String) : Prop := ∃ path ctx, tree.root.at? path = some (.name id ctx)

variable {tree : Tree}

theorem mutable_at {path : Path} {node : Node} {kind : Kind} {operator : Config → Node → Draw Node}
    (found : mutableAt? tree path = some (node, kind, operator)) :
    tree.root.at? path = some node ∧ node.kind? = some kind ∧ operator? kind = some operator := by
  simp only [mutableAt?, Option.bind_eq_bind, Option.bind_eq_some_iff, pure, Option.some.injEq,
    Prod.mk.injEq] at found
  obtain ⟨other, place, kind', hasKind, operator', registered, rfl, rfl, rfl⟩ := found
  exact ⟨place, hasKind, registered⟩

theorem identifier_at {path : Path} {id : String} (found : identifierAt? tree path = some id) :
    ∃ ctx, tree.root.at? path = some (.name id ctx) := by
  rw [identifierAt?, Option.bind_eq_some_iff] at found
  obtain ⟨node, place, name⟩ := found
  cases node with
  | name other ctx =>
      cases name
      exact ⟨ctx, place⟩
  | _ => cases name

theorem modify_renames {path : Path} {old new : String} {ctx : Context}
    (found : tree.root.at? path = some (.name old ctx)) :
    modifyAt tree path (rename new) = modifyAt tree path fun _ => .name new ctx := by
  refine congrArg (fun root => { tree with root := root }) (modify_congr fun node found' => ?_)
  rw [found] at found'
  cases found'
  rfl

theorem adjust_changes (config : Config) (candidates : List Path) :
    Draws (adjustExpression config tree candidates) fun outcome => Changes (Uses tree) tree outcome.tree := by
  refine draws_then fun chosen => ?_
  split
  · exact draws_pure .nothing
  · split
    · exact draws_pure .nothing
    · rename_i node kind operator found
      obtain ⟨place, _, registered⟩ := mutable_at found
      refine draws_bind (operators_rewrite registered config node) fun changed rewrites => ?_
      exact draws_pure (.rewritten place rewrites)

theorem replace_changes (candidates : List Path) :
    Draws (replaceVariable tree candidates) fun outcome => Changes (Uses tree) tree outcome.tree := by
  refine draws_then fun chosen => ?_
  split
  · exact draws_pure .nothing
  · rename_i path
    split
    · exact draws_pure .nothing
    · rename_i current named
      obtain ⟨ctx, place⟩ := identifier_at named
      refine draws_bind (draws_choose _) fun chosen' listed => ?_
      split
      · exact draws_pure .nothing
      · rename_i id
        obtain ⟨other, _, used⟩ := List.mem_filterMap.mp (List.mem_filter.mp (listed id rfl)).1
        obtain ⟨ctx', source⟩ := identifier_at used
        refine draws_pure ?_
        rw [modify_renames place]
        exact .renamed place ⟨other, ctx', source⟩

theorem apply_changes (config : Config) (kind : Kind) (path : Path) :
    Draws (applyOperator config tree kind path) fun changed => ∀ tree' ∈ changed, Changes (Uses tree) tree tree' := by
  rw [applyOperator]
  split
  · rename_i operator node registered place
    refine draws_bind (operators_rewrite registered config node) fun changed rewrites => ?_
    refine draws_pure fun tree' same => ?_
    cases same
    exact .rewritten place rewrites
  · exact draws_pure fun tree' none => by cases none

-- What a caller can do to a tree; an operator may be applied to a node of any form.
inductive Action where
  | adjust (config : Config) (candidates : List Path)
  | replace (candidates : List Path)
  | apply (config : Config) (kind : Kind) (path : Path)

def Action.run (tree : Tree) : Action → Draw Tree
  | .adjust config candidates => return (← adjustExpression config tree candidates).tree
  | .replace candidates => return (← replaceVariable tree candidates).tree
  | .apply config kind path => return (← applyOperator config tree kind path).getD tree

theorem action_changes (action : Action) : Draws (action.run tree) (Changes (Uses tree) tree) := by
  cases action with
  | adjust config candidates =>
      exact draws_bind (adjust_changes config candidates) fun outcome changes => draws_pure changes
  | replace candidates =>
      exact draws_bind (replace_changes candidates) fun outcome changes => draws_pure changes
  | apply config kind path =>
      refine draws_bind (apply_changes config kind path) fun changed changes => draws_pure ?_
      cases changed with
      | none => exact .nothing
      | some tree' => exact changes tree' rfl

-- Trees that finitely many actions lead to, each with words of its own.
inductive Leads (first : Tree) : Tree → Prop where
  | start : Leads first first
  | step {tree : Tree} (before : Leads first tree) (action : Action) (words : Words) :
      Leads first (action.run tree words).1

end Mutation

end Mutagen
