import Mutagen.Node.Basic

set_option autoImplicit false

namespace Mutagen

inductive Leaf where
  | name (id : String)
  | constant (value : Constant)
deriving DecidableEq, Repr

namespace Node

def interleave {α : Type} : List (List α) → List (List α) → List α
  | [], ys => ys.flatten
  | xs, [] => xs.flatten
  | x :: xs, y :: ys => x ++ y ++ interleave xs ys

def paramLeaves (params : List String) (defaults : List (List Leaf)) : List Leaf :=
  let required := params.length - defaults.length
  (params.take required).map .name ++
    interleave ((params.drop required).map fun id => [.name id]) defaults

mutual
def leaves : Node → List Leaf
  | .program body => (leavesAll body).flatten
  | .functionDef id params defaults body =>
      .name id :: paramLeaves params (leavesAll defaults) ++ (leavesAll body).flatten
  | .returnStmt value => leavesOption value
  | .assign targets value => (leavesAll targets).flatten ++ leaves value
  | .augAssign target _ value => leaves target ++ leaves value
  | .forStmt target iterable body => leaves target ++ leaves iterable ++ (leavesAll body).flatten
  | .whileStmt test body => leaves test ++ (leavesAll body).flatten
  | .ifStmt test body orelse =>
      leaves test ++ (leavesAll body).flatten ++ (leavesAll orelse).flatten
  | .assertStmt test message => leaves test ++ leavesOption message
  | .raiseStmt exception => leavesOption exception
  | .exprStmt value => leaves value
  | .passStmt | .breakStmt | .continueStmt => []
  | .boolOp _ values => (leavesAll values).flatten
  | .binOp left _ right => leaves left ++ leaves right
  | .unaryOp _ operand => leaves operand
  | .lambda params defaults body => paramLeaves params (leavesAll defaults) ++ leaves body
  | .ifExp test body orelse => leaves body ++ leaves test ++ leaves orelse
  | .dict keys values => interleave (leavesAll keys) (leavesAll values)
  | .set elements => (leavesAll elements).flatten
  | .compare left _ comparators => leaves left ++ (leavesAll comparators).flatten
  | .call function args keywords =>
      leaves function ++ (leavesAll args).flatten ++ leavesKeywords keywords
  | .constant value => [.constant value]
  | .attr value id _ => leaves value ++ [.name id]
  | .subscript value index _ => leaves value ++ leaves index
  | .name id _ => [.name id]
  | .list elements _ => (leavesAll elements).flatten
  | .tuple elements _ => (leavesAll elements).flatten
  | .slice lower upper step => leavesOption lower ++ leavesOption upper ++ leavesOption step

def leavesAll : List Node → List (List Leaf)
  | [] => []
  | node :: rest => leaves node :: leavesAll rest

def leavesOption : Option Node → List Leaf
  | none => []
  | some node => leaves node

def leavesKeywords : List (String × Node) → List Leaf
  | [] => []
  | (id, value) :: rest => .name id :: leaves value ++ leavesKeywords rest
end

theorem leaves_all_eq (nodes : List Node) : leavesAll nodes = nodes.map leaves := by
  induction nodes with
  | nil => rfl
  | cons node rest ih => rw [leavesAll, ih, List.map_cons]

def identifiers (root : Node) : List String :=
  root.leaves.filterMap fun
    | .name id => some id
    | .constant _ => none

end Node

end Mutagen
