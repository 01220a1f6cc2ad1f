import Mutagen.Node.Basic

set_option autoImplicit false

namespace Mutagen

inductive Precedence where
  | tuple
  | test
  | or
  | and
  | not
  | comparison
  | bitOr
  | bitXor
  | bitAnd
  | shift
  | arith
  | term
  | factor
  | power
  | primary
  | atom
deriving DecidableEq, Repr

namespace Precedence

def rank : Precedence → Nat
  | .tuple => 0
  | .test => 1
  | .or => 2
  | .and => 3
  | .not => 4
  | .comparison => 5
  | .bitOr => 6
  | .bitXor => 7
  | .bitAnd => 8
  | .shift => 9
  | .arith => 10
  | .term => 11
  | .factor => 12
  | .power => 13
  | .primary => 14
  | .atom => 15

def next : Precedence → Precedence
  | .tuple => .test
  | .test => .or
  | .or => .and
  | .and => .not
  | .not => .comparison
  | .comparison => .bitOr
  | .bitOr => .bitXor
  | .bitXor => .bitAnd
  | .bitAnd => .shift
  | .shift => .arith
  | .arith => .term
  | .term => .factor
  | .factor => .power
  | .power => .primary
  | .primary => .atom
  | .atom => .atom

end Precedence

def LogicalOp.precedence : LogicalOp → Precedence
  | .and => .and
  | .or => .or

def ArithmeticOp.precedence : ArithmeticOp → Precedence
  | .bitOr => .bitOr
  | .bitXor => .bitXor
  | .bitAnd => .bitAnd
  | .leftShift | .rightShift => .shift
  | .add | .sub => .arith
  | .mult | .div | .mod | .floorDiv => .term
  | .pow => .power

/-- Operands of a power are grouped from the right, those of every other operator from the left. -/
def ArithmeticOp.operands (op : ArithmeticOp) : Precedence × Precedence :=
  match op with
  | .pow => (op.precedence.next, op.precedence)
  | _ => (op.precedence, op.precedence.next)

def PrefixOp.precedence : PrefixOp → Precedence
  | .not => .not
  | .invert | .uadd | .usub => .factor

def Node.precedence : Node → Precedence
  | .lambda .. | .ifExp .. => .test
  | .boolOp op _ => op.precedence
  | .unaryOp op _ => op.precedence
  | .compare .. => .comparison
  | .binOp _ op _ => op.precedence
  | _ => .atom

end Mutagen
