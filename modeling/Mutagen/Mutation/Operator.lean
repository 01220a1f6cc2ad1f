import Mutagen.Node.Kind
import Mutagen.Random.Words

set_option autoImplicit false

namespace Mutagen.Mutation

def pick {α : Type} (current : α) (options : List α) : Draw α := do
  return (← Draw.choose options).getD current

def swapBranches (config : Config) : Node → Draw Node
  | .ifExp test body orelse => do
      if ← Draw.coin config.pSwapBranches then return .ifExp test orelse body
      else return .ifExp test body orelse
  | node => return node

def nullifyLambda : Node → Draw Node
  | .lambda params defaults _ => return .lambda params defaults (.constant .none)
  | node => return node

def clearDict (config : Config) : Node → Draw Node
  | .dict keys values => do
      if ← Draw.coin config.pClearDict then return .dict [] [] else return .dict keys values
  | node => return node

def replaceLogical : Node → Draw Node
  | .boolOp op values => return .boolOp (← pick op LogicalOp.all) values
  | node => return node

def replaceArithmetic : Node → Draw Node
  | .binOp left op right => return .binOp left (← pick op ArithmeticOp.all) right
  | node => return node

def replacePrefix : Node → Draw Node
  | .unaryOp op operand => return .unaryOp (← pick op PrefixOp.all) operand
  | node => return node

/-- Augmented assignments draw from the operators of binary operations. -/
def replaceAugmented : Node → Draw Node
  | .augAssign target op value => return .augAssign target (← pick op ArithmeticOp.all) value
  | node => return node

def operators : List (Node.Kind × (Config → Node → Draw Node)) :=
  [(.ifExp, swapBranches), (.lambda, fun _ => nullifyLambda), (.dict, clearDict),
    (.boolOp, fun _ => replaceLogical), (.binOp, fun _ => replaceArithmetic),
    (.unaryOp, fun _ => replacePrefix), (.augAssign, fun _ => replaceAugmented)]

def operator? (kind : Node.Kind) : Option (Config → Node → Draw Node) := operators.lookup kind

end Mutagen.Mutation
