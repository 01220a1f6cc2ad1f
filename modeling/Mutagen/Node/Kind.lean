import Mutagen.Node.Basic

set_option autoImplicit false

namespace Mutagen.Node

inductive Kind where
  | ifExp
  | lambda
  | dict
  | boolOp
  | binOp
  | unaryOp
  | augAssign
  | name
deriving DecidableEq, Repr

namespace Kind

def all : List Kind := [.ifExp, .lambda, .dict, .boolOp, .binOp, .unaryOp, .augAssign, .name]

def text : Kind → String
  | .ifExp => "conditional-expression"
  | .lambda => "anonymous-function"
  | .dict => "dict-literal"
  | .boolOp => "boolean-op"
  | .binOp => "binary-op"
  | .unaryOp => "unary-op"
  | .augAssign => "augmented-assign"
  | .name => "name-reference"

end Kind

def kind? : Node → Option Kind
  | .ifExp .. => some .ifExp
  | .lambda .. => some .lambda
  | .dict .. => some .dict
  | .boolOp .. => some .boolOp
  | .binOp .. => some .binOp
  | .unaryOp .. => some .unaryOp
  | .augAssign .. => some .augAssign
  | .name .. => some .name
  | _ => none

end Mutagen.Node
