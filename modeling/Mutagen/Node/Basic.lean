import Mutagen.Binary64.Layout
import Mutagen.Syntax.Operator
import Mutagen.Token.Quoted

set_option autoImplicit false

namespace Mutagen

inductive Constant where
  | none
  | bool (value : Bool)
  | int (value : Nat)
  | float (value : Binary64)
  | str (value : String)
deriving DecidableEq, Repr

/-- The spelling of a constant in a program. Infinity is spelled as a literal too large for the
finite values, since it has no name. -/
def Constant.spelling : Constant → List Char
  | .none => "None".toList
  | .bool true => "True".toList
  | .bool false => "False".toList
  | .int value => (toString value).toList
  | .float value => if value.isInfinite then "1e309".toList else value.text .scientific
  | .str value => Quoted.encode value.toList

/-- Defaults belong to the last parameters. -/
inductive Node where
  | program (body : List Node)
  | functionDef (name : String) (params : List String) (defaults : List Node) (body : List Node)
  | returnStmt (value : Option Node)
  | assign (targets : List Node) (value : Node)
  | augAssign (target : Node) (op : ArithmeticOp) (value : Node)
  | forStmt (target : Node) (iterable : Node) (body : List Node)
  | whileStmt (test : Node) (body : List Node)
  | ifStmt (test : Node) (body : List Node) (orelse : List Node)
  | assertStmt (test : Node) (message : Option Node)
  | raiseStmt (exception : Option Node)
  | exprStmt (value : Node)
  | passStmt
  | breakStmt
  | continueStmt
  | boolOp (op : LogicalOp) (values : List Node)
  | binOp (left : Node) (op : ArithmeticOp) (right : Node)
  | unaryOp (op : PrefixOp) (operand : Node)
  | lambda (params : List String) (defaults : List Node) (body : Node)
  | ifExp (test : Node) (body : Node) (orelse : Node)
  | dict (keys : List Node) (values : List Node)
  | set (elements : List Node)
  | compare (left : Node) (ops : List ComparisonOp) (comparators : List Node)
  | call (function : Node) (args : List Node) (keywords : List (String × Node))
  | constant (value : Constant)
  | attr (value : Node) (name : String) (ctx : Context)
  | subscript (value : Node) (index : Node) (ctx : Context)
  | name (id : String) (ctx : Context)
  | list (elements : List Node) (ctx : Context)
  | tuple (elements : List Node) (ctx : Context)
  | slice (lower : Option Node) (upper : Option Node) (step : Option Node)
deriving Repr, Inhabited

namespace Node

def label : Node → String
  | .program _ => "Module"
  | .functionDef .. => "FunctionDef"
  | .returnStmt _ => "Return"
  | .assign .. => "Assign"
  | .augAssign .. => "AugAssign"
  | .forStmt .. => "For"
  | .whileStmt .. => "While"
  | .ifStmt .. => "If"
  | .assertStmt .. => "Assert"
  | .raiseStmt _ => "Raise"
  | .exprStmt _ => "Expr"
  | .passStmt => "Pass"
  | .breakStmt => "Break"
  | .continueStmt => "Continue"
  | .boolOp .. => "BoolOp"
  | .binOp .. => "BinOp"
  | .unaryOp .. => "UnaryOp"
  | .lambda .. => "Lambda"
  | .ifExp .. => "IfExp"
  | .dict .. => "Dict"
  | .set _ => "Set"
  | .compare .. => "Compare"
  | .call .. => "Call"
  | .constant _ => "Constant"
  | .attr .. => "Attribute"
  | .subscript .. => "Subscript"
  | .name .. => "Name"
  | .list .. => "List"
  | .tuple .. => "Tuple"
  | .slice .. => "Slice"

def identifier? : Node → Option String
  | .name id _ => some id
  | _ => none

def children : Node → List Node
  | .program body => body
  | .functionDef _ _ defaults body => defaults ++ body
  | .returnStmt value => value.toList
  | .assign targets value => targets ++ [value]
  | .augAssign target _ value => [target, value]
  | .forStmt target iterable body => target :: iterable :: body
  | .whileStmt test body => test :: body
  | .ifStmt test body orelse => test :: (body ++ orelse)
  | .assertStmt test message => test :: message.toList
  | .raiseStmt exception => exception.toList
  | .exprStmt value => [value]
  | .passStmt | .breakStmt | .continueStmt => []
  | .boolOp _ values => values
  | .binOp left _ right => [left, right]
  | .unaryOp _ operand => [operand]
  | .lambda _ defaults body => defaults ++ [body]
  | .ifExp test body orelse => [test, body, orelse]
  | .dict keys values => keys ++ values
  | .set elements | .list elements _ | .tuple elements _ => elements
  | .compare left _ comparators => left :: comparators
  | .call function args keywords => function :: (args ++ keywords.map (·.2))
  | .constant _ | .name _ _ => []
  | .attr value _ _ => [value]
  | .subscript value index _ => [value, index]
  | .slice lower upper step => lower.toList ++ upper.toList ++ step.toList

def mapChildren (f : Nat → Node → Node) : Node → Node
  | .program body => .program (body.mapIdx f)
  | .functionDef id params defaults body =>
      .functionDef id params (defaults.mapIdx f) (body.mapIdx fun i => f (defaults.length + i))
  | .returnStmt value => .returnStmt (value.map (f 0))
  | .assign targets value => .assign (targets.mapIdx f) (f targets.length value)
  | .augAssign target op value => .augAssign (f 0 target) op (f 1 value)
  | .forStmt target iterable body =>
      .forStmt (f 0 target) (f 1 iterable) (body.mapIdx fun i => f (i + 2))
  | .whileStmt test body => .whileStmt (f 0 test) (body.mapIdx fun i => f (i + 1))
  | .ifStmt test body orelse =>
      .ifStmt (f 0 test) (body.mapIdx fun i => f (i + 1))
        (orelse.mapIdx fun i => f (body.length + i + 1))
  | .assertStmt test message => .assertStmt (f 0 test) (message.map (f 1))
  | .raiseStmt exception => .raiseStmt (exception.map (f 0))
  | .exprStmt value => .exprStmt (f 0 value)
  | .passStmt => .passStmt
  | .breakStmt => .breakStmt
  | .continueStmt => .continueStmt
  | .boolOp op values => .boolOp op (values.mapIdx f)
  | .binOp left op right => .binOp (f 0 left) op (f 1 right)
  | .unaryOp op operand => .unaryOp op (f 0 operand)
  | .lambda params defaults body =>
      .lambda params (defaults.mapIdx f) (f defaults.length body)
  | .ifExp test body orelse => .ifExp (f 0 test) (f 1 body) (f 2 orelse)
  | .dict keys values => .dict (keys.mapIdx f) (values.mapIdx fun i => f (keys.length + i))
  | .set elements => .set (elements.mapIdx f)
  | .compare left ops comparators =>
      .compare (f 0 left) ops (comparators.mapIdx fun i => f (i + 1))
  | .call function args keywords =>
      .call (f 0 function) (args.mapIdx fun i => f (i + 1))
        (keywords.mapIdx fun i keyword => (keyword.1, f (args.length + i + 1) keyword.2))
  | .constant value => .constant value
  | .attr value id ctx => .attr (f 0 value) id ctx
  | .subscript value index ctx => .subscript (f 0 value) (f 1 index) ctx
  | .name id ctx => .name id ctx
  | .list elements ctx => .list (elements.mapIdx f) ctx
  | .tuple elements ctx => .tuple (elements.mapIdx f) ctx
  | .slice lower upper step =>
      .slice (lower.map (f 0)) (upper.map (f lower.toList.length))
        (step.map (f (lower.toList.length + upper.toList.length)))

-- Sums of sizes start from the numeral, whatever other zeros are in scope.
attribute [local instance (2000)] Zero.ofOfNat0

theorem list_map_size (nodes : List Node) : (nodes.map sizeOf).sum ≤ sizeOf nodes := by
  induction nodes with
  | nil => simp
  | cons node rest ih => simp only [List.map_cons, List.sum_cons, List.cons.sizeOf_spec]; omega

theorem option_map_size (node : Option Node) : (node.toList.map sizeOf).sum < sizeOf node := by
  cases node with
  | none => simp
  | some node => simp

theorem keyword_map_size (keywords : List (String × Node)) :
    ((keywords.map (·.2)).map sizeOf).sum ≤ sizeOf keywords := by
  induction keywords with
  | nil => simp
  | cons keyword rest ih =>
      cases keyword
      simp only [List.map_cons, List.sum_cons, List.cons.sizeOf_spec, Prod.mk.sizeOf_spec]
      omega

theorem children_size (node : Node) : (node.children.map sizeOf).sum < sizeOf node := by
  cases node with
  | returnStmt value | raiseStmt value =>
      have := option_map_size value
      simp only [children, returnStmt.sizeOf_spec, raiseStmt.sizeOf_spec]
      omega
  | assertStmt test message =>
      have := option_map_size message
      simp only [children, List.map_cons, List.sum_cons, assertStmt.sizeOf_spec]
      omega
  | slice lower upper step =>
      have := option_map_size lower
      have := option_map_size upper
      have := option_map_size step
      simp only [children, List.map_append, List.sum_append, slice.sizeOf_spec]
      omega
  | call function args keywords =>
      have := list_map_size args
      have := keyword_map_size keywords
      simp only [children, List.map_cons, List.map_append, List.sum_cons, List.sum_append,
        call.sizeOf_spec]
      omega
  | program nodes | boolOp _ nodes | set nodes | list nodes _ | tuple nodes _ =>
      have := list_map_size nodes
      simp only [children, program.sizeOf_spec, boolOp.sizeOf_spec, set.sizeOf_spec,
        list.sizeOf_spec, tuple.sizeOf_spec]
      omega
  | functionDef _ _ nodes more | dict nodes more | ifStmt _ nodes more =>
      have := list_map_size nodes
      have := list_map_size more
      simp only [children, List.map_cons, List.map_append, List.sum_cons, List.sum_append,
        functionDef.sizeOf_spec, dict.sizeOf_spec, ifStmt.sizeOf_spec]
      omega
  | assign nodes _ | lambda _ nodes _ | forStmt _ _ nodes | whileStmt _ nodes | compare _ _ nodes =>
      have := list_map_size nodes
      simp only [children, List.map_cons, List.map_append, List.map_nil, List.sum_cons,
        List.sum_append, List.sum_nil, assign.sizeOf_spec, lambda.sizeOf_spec, forStmt.sizeOf_spec,
        whileStmt.sizeOf_spec, compare.sizeOf_spec]
      omega
  | _ => simp [children] <;> omega

end Node

end Mutagen
