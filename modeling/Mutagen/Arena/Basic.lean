import Mutagen.Node.Dump
import Mutagen.Node.Kind
import Mutagen.Node.Render
import Mutagen.SymbolTable

set_option autoImplicit false

namespace Mutagen

abbrev NodeId := Nat

abbrev Symbol := Nat

inductive Cell where
  | program (body : List NodeId)
  | functionDef (name : Symbol) (params : List Symbol) (defaults : List NodeId) (body : List NodeId)
  | returnStmt (value : Option NodeId)
  | assign (targets : List NodeId) (value : NodeId)
  | augAssign (target : NodeId) (op : ArithmeticOp) (value : NodeId)
  | forStmt (target : NodeId) (iterable : NodeId) (body : List NodeId)
  | whileStmt (test : NodeId) (body : List NodeId)
  | ifStmt (test : NodeId) (body : List NodeId) (orelse : List NodeId)
  | assertStmt (test : NodeId) (message : Option NodeId)
  | raiseStmt (exception : Option NodeId)
  | exprStmt (value : NodeId)
  | passStmt
  | breakStmt
  | continueStmt
  | boolOp (op : LogicalOp) (values : List NodeId)
  | binOp (left : NodeId) (op : ArithmeticOp) (right : NodeId)
  | unaryOp (op : PrefixOp) (operand : NodeId)
  | lambda (params : List Symbol) (defaults : List NodeId) (body : NodeId)
  | ifExp (test : NodeId) (body : NodeId) (orelse : NodeId)
  | dict (keys : List NodeId) (values : List NodeId)
  | set (elements : List NodeId)
  | compare (left : NodeId) (ops : List ComparisonOp) (comparators : List NodeId)
  | call (function : NodeId) (args : List NodeId) (keywords : List (Symbol × NodeId))
  | constant (value : Constant)
  | attr (value : NodeId) (name : Symbol) (ctx : Context)
  | subscript (value : NodeId) (index : NodeId) (ctx : Context)
  | name (id : Symbol) (ctx : Context)
  | list (elements : List NodeId) (ctx : Context)
  | tuple (elements : List NodeId) (ctx : Context)
  | slice (lower : Option NodeId) (upper : Option NodeId) (step : Option NodeId)

namespace Cell

def children : Cell → List NodeId
  | .program body => body
  | .functionDef _ _ defaults body => defaults ++ body
  | .returnStmt value => value.toList
  | .assign targets value => targets ++ [value]
  | .augAssign target _ value => [target, value]
  | .forStmt target iterable body => target :: iterable :: body
  | .whileStmt test body => test :: body
  | .ifStmt test body orelse => test :: (body ++ orelse)
  | .assertStmt test message => test :: message.toList
  | .raiseStmt exception => exception.toList
  | .exprStmt value => [value]
  | .passStmt | .breakStmt | .continueStmt => []
  | .boolOp _ values => values
  | .binOp left _ right => [left, right]
  | .unaryOp _ operand => [operand]
  | .lambda _ defaults body => defaults ++ [body]
  | .ifExp test body orelse => [test, body, orelse]
  | .dict keys values => keys ++ values
  | .set elements | .list elements _ | .tuple elements _ => elements
  | .compare left _ comparators => left :: comparators
  | .call function args keywords => function :: (args ++ keywords.map (·.2))
  | .constant _ | .name _ _ => []
  | .attr value _ _ => [value]
  | .subscript value index _ => [value, index]
  | .slice lower upper step => lower.toList ++ upper.toList ++ step.toList

def identifier? : Cell → Option Symbol
  | .name id _ => some id
  | _ => none

def kind? : Cell → Option Node.Kind
  | .ifExp .. => some .ifExp
  | .lambda .. => some .lambda
  | .dict .. => some .dict
  | .boolOp .. => some .boolOp
  | .binOp .. => some .binOp
  | .unaryOp .. => some .unaryOp
  | .augAssign .. => some .augAssign
  | .name .. => some .name
  | _ => none

end Cell

/-- Cells that refer to each other, with the number of the program's own cell and the table of the
identifiers. Nothing keeps cells from being shared, lost or their own descendants. -/
structure Arena where
  cells : Array Cell
  root : NodeId
  symbols : SymbolTable

namespace Arena

def new : Arena := ⟨#[.program []], 0, {}⟩

def cell? (a : Arena) (id : NodeId) : Option Cell := a.cells[id]?

def alloc (a : Arena) (cell : Cell) : NodeId × Arena :=
  (a.cells.size, { a with cells := a.cells.push cell })

def update (a : Arena) (id : NodeId) (cell : Cell) : Arena :=
  { a with cells := a.cells.setIfInBounds id cell }

def identifier? (a : Arena) (id : NodeId) : Option Symbol := (a.cell? id).bind Cell.identifier?

def kind? (a : Arena) (id : NodeId) : Option Node.Kind := (a.cell? id).bind Cell.kind?

def intern (a : Arena) (name : String) : Symbol × Arena :=
  let (symbol, symbols) := a.symbols.intern name
  (symbol, { a with symbols })

def textOf (a : Arena) (symbol : Symbol) : String := (a.symbols.name? symbol).getD ""

/-- Everything at and below the cells in the queue, breadth first. There is no result where this does
not come to an end, which sharing alone does not cause. -/
def walkFrom (a : Arena) (queue : List NodeId) : Option (List NodeId) := do
  match queue with
  | [] => return []
  | id :: rest =>
      let cell ← a.cell? id
      return id :: (← a |>.walkFrom (rest ++ cell.children))
partial_fixpoint

def walk? (a : Arena) : Option (List NodeId) := a.walkFrom [a.root]

def deepestLevel (a : Arena) (deepest : Nat) (stack : List (NodeId × Nat)) : Option Nat := do
  match stack with
  | [] => return deepest
  | (id, level) :: rest =>
      let cell ← a.cell? id
      a |>.deepestLevel (max deepest level) ((cell.children.map (·, level + 1)).reverse ++ rest)
partial_fixpoint

def depth? (a : Arena) (id : NodeId) : Option Nat := a.deepestLevel 0 [(id, 1)]

def node? (a : Arena) (id : NodeId) : Option Node := do
  match ← a.cell? id with
  | .program body => return .program (← body.mapM (a |>.node?))
  | .functionDef name params defaults body =>
      return .functionDef (← a.symbols.name? name) (← params.mapM a.symbols.name?)
        (← defaults.mapM (a |>.node?)) (← body.mapM (a |>.node?))
  | .returnStmt value => return .returnStmt (← value.toList.mapM (a |>.node?)).head?
  | .assign targets value => return .assign (← targets.mapM (a |>.node?)) (← a |>.node? value)
  | .augAssign target op value => return .augAssign (← a |>.node? target) op (← a |>.node? value)
  | .forStmt target iterable body =>
      return .forStmt (← a |>.node? target) (← a |>.node? iterable) (← body.mapM (a |>.node?))
  | .whileStmt test body => return .whileStmt (← a |>.node? test) (← body.mapM (a |>.node?))
  | .ifStmt test body orelse =>
      return .ifStmt (← a |>.node? test) (← body.mapM (a |>.node?)) (← orelse.mapM (a |>.node?))
  | .assertStmt test message =>
      return .assertStmt (← a |>.node? test) (← message.toList.mapM (a |>.node?)).head?
  | .raiseStmt exception => return .raiseStmt (← exception.toList.mapM (a |>.node?)).head?
  | .exprStmt value => return .exprStmt (← a |>.node? value)
  | .passStmt => return .passStmt
  | .breakStmt => return .breakStmt
  | .continueStmt => return .continueStmt
  | .boolOp op values => return .boolOp op (← values.mapM (a |>.node?))
  | .binOp left op right => return .binOp (← a |>.node? left) op (← a |>.node? right)
  | .unaryOp op operand => return .unaryOp op (← a |>.node? operand)
  | .lambda params defaults body =>
      return .lambda (← params.mapM a.symbols.name?) (← defaults.mapM (a |>.node?)) (← a |>.node? body)
  | .ifExp test body orelse =>
      return .ifExp (← a |>.node? test) (← a |>.node? body) (← a |>.node? orelse)
  | .dict keys values => return .dict (← keys.mapM (a |>.node?)) (← values.mapM (a |>.node?))
  | .set elements => return .set (← elements.mapM (a |>.node?))
  | .compare left ops comparators =>
      return .compare (← a |>.node? left) ops (← comparators.mapM (a |>.node?))
  | .call function args keywords =>
      return .call (← a |>.node? function) (← args.mapM (a |>.node?))
        (← keywords.mapM fun (arg, value) => do return (← a.symbols.name? arg, ← a |>.node? value))
  | .constant value => return .constant value
  | .attr value name ctx => return .attr (← a |>.node? value) (← a.symbols.name? name) ctx
  | .subscript value index ctx => return .subscript (← a |>.node? value) (← a |>.node? index) ctx
  | .name id ctx => return .name (← a.symbols.name? id) ctx
  | .list elements ctx => return .list (← elements.mapM (a |>.node?)) ctx
  | .tuple elements ctx => return .tuple (← elements.mapM (a |>.node?)) ctx
  | .slice lower upper step =>
      return .slice (← lower.toList.mapM (a |>.node?)).head? (← upper.toList.mapM (a |>.node?)).head?
        (← step.toList.mapM (a |>.node?)).head?
partial_fixpoint

-- Where a cell has no tree, there is nothing to print.
def dump (a : Arena) : String := ((a.node? a.root).map fun root => String.ofList root.dump).getD ""

def render (a : Arena) : String := ((a.node? a.root).map fun root => String.ofList root.render).getD ""

def store? (a : Arena) (id : NodeId) : Option Arena := do
  match ← a.cell? id with
  | .name symbol _ => return a.update id (.name symbol .store)
  | .attr value symbol _ => return a.update id (.attr value symbol .store)
  | .subscript value index _ => return a.update id (.subscript value index .store)
  | .tuple elements _ => elements.foldlM (· |>.store? ·) (a.update id (.tuple elements .store))
  | .list elements _ => elements.foldlM (· |>.store? ·) (a.update id (.list elements .store))
  | _ => none
partial_fixpoint

end Arena

end Mutagen
