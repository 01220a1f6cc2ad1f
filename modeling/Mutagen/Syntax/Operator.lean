set_option autoImplicit false

namespace Mutagen

inductive LogicalOp where
  | and
  | or
deriving DecidableEq, Repr

namespace LogicalOp

def all : List LogicalOp := [.and, .or]

def name : LogicalOp → String
  | .and => "And"
  | .or => "Or"

def symbol : LogicalOp → String
  | .and => "and"
  | .or => "or"

end LogicalOp

inductive ArithmeticOp where
  | add
  | sub
  | mult
  | div
  | mod
  | pow
  | leftShift
  | rightShift
  | bitOr
  | bitXor
  | bitAnd
  | floorDiv
deriving DecidableEq, Repr

namespace ArithmeticOp

def all : List ArithmeticOp :=
  [.add, .sub, .mult, .div, .mod, .pow, .leftShift, .rightShift, .bitOr, .bitXor, .bitAnd, .floorDiv]

def name : ArithmeticOp → String
  | .add => "Add"
  | .sub => "Sub"
  | .mult => "Mult"
  | .div => "Div"
  | .mod => "Mod"
  | .pow => "Pow"
  | .leftShift => "LShift"
  | .rightShift => "RShift"
  | .bitOr => "BitOr"
  | .bitXor => "BitXor"
  | .bitAnd => "BitAnd"
  | .floorDiv => "FloorDiv"

def symbol : ArithmeticOp → String
  | .add => "+"
  | .sub => "-"
  | .mult => "*"
  | .div => "/"
  | .mod => "%"
  | .pow => "**"
  | .leftShift => "<<"
  | .rightShift => ">>"
  | .bitOr => "|"
  | .bitXor => "^"
  | .bitAnd => "&"
  | .floorDiv => "//"

end ArithmeticOp

inductive PrefixOp where
  | invert
  | not
  | uadd
  | usub
deriving DecidableEq, Repr

namespace PrefixOp

def all : List PrefixOp := [.invert, .not, .uadd, .usub]

def name : PrefixOp → String
  | .invert => "Invert"
  | .not => "Not"
  | .uadd => "UAdd"
  | .usub => "USub"

/-- The space after `not` belongs to the symbol: the operand follows directly. -/
def symbol : PrefixOp → String
  | .invert => "~"
  | .not => "not "
  | .uadd => "+"
  | .usub => "-"

end PrefixOp

inductive ComparisonOp where
  | eq
  | notEq
  | lt
  | ltE
  | gt
  | gtE
  | is
  | isNot
  | isIn
  | notIn
deriving DecidableEq, Repr

namespace ComparisonOp

def all : List ComparisonOp := [.eq, .notEq, .lt, .ltE, .gt, .gtE, .is, .isNot, .isIn, .notIn]

def name : ComparisonOp → String
  | .eq => "Eq"
  | .notEq => "NotEq"
  | .lt => "Lt"
  | .ltE => "LtE"
  | .gt => "Gt"
  | .gtE => "GtE"
  | .is => "Is"
  | .isNot => "IsNot"
  | .isIn => "In"
  | .notIn => "NotIn"

def symbol : ComparisonOp → String
  | .eq => "=="
  | .notEq => "!="
  | .lt => "<"
  | .ltE => "<="
  | .gt => ">"
  | .gtE => ">="
  | .is => "is"
  | .isNot => "is not"
  | .isIn => "in"
  | .notIn => "not in"

end ComparisonOp

inductive Context where
  | load
  | store
deriving DecidableEq, Repr

def Context.name : Context → String
  | .load => "Load"
  | .store => "Store"

end Mutagen
