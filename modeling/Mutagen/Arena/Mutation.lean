import Mutagen.Arena.Basic
import Mutagen.Mutation.Event
import Mutagen.Mutation.Operator

set_option autoImplicit false

namespace Mutagen.Arena

open Mutation (pick)

/-- Changes a cell in place and returns its number. A cell of another form stays as it is, and nothing is
drawn for it. -/
abbrev Operator := Config → Arena → NodeId → Draw (NodeId × Arena)

def swapBranches : Operator := fun config a id => do
  match a.cell? id with
  | some (.ifExp test body orelse) =>
      if ← Draw.coin config.pSwapBranches then return (id, a.update id (.ifExp test orelse body))
      else return (id, a)
  | _ => return (id, a)

def nullifyLambda : Operator := fun _ a id => do
  match a.cell? id with
  | some (.lambda params defaults _) =>
      let (body, b) := a.alloc (.constant .none)
      return (id, b.update id (.lambda params defaults body))
  | _ => return (id, a)

def clearDict : Operator := fun config a id => do
  match a.cell? id with
  | some (.dict _ _) =>
      if ← Draw.coin config.pClearDict then return (id, a.update id (.dict [] [])) else return (id, a)
  | _ => return (id, a)

def replaceLogical : Operator := fun _ a id => do
  match a.cell? id with
  | some (.boolOp op values) => return (id, a.update id (.boolOp (← pick op LogicalOp.all) values))
  | _ => return (id, a)

def replaceArithmetic : Operator := fun _ a id => do
  match a.cell? id with
  | some (.binOp left op right) =>
      return (id, a.update id (.binOp left (← pick op ArithmeticOp.all) right))
  | _ => return (id, a)

def replacePrefix : Operator := fun _ a id => do
  match a.cell? id with
  | some (.unaryOp op operand) => return (id, a.update id (.unaryOp (← pick op PrefixOp.all) operand))
  | _ => return (id, a)

def replaceAugmented : Operator := fun _ a id => do
  match a.cell? id with
  | some (.augAssign target op value) =>
      return (id, a.update id (.augAssign target (← pick op ArithmeticOp.all) value))
  | _ => return (id, a)

def operators : List (Node.Kind × Operator) :=
  [(.ifExp, swapBranches), (.lambda, nullifyLambda), (.dict, clearDict), (.boolOp, replaceLogical),
    (.binOp, replaceArithmetic), (.unaryOp, replacePrefix), (.augAssign, replaceAugmented)]

def operator? (kind : Node.Kind) : Option Operator := operators.lookup kind

def collect (p : Cell → Bool) (a : Arena) : List NodeId :=
  (a.walk?.getD []).filter fun id => (a.cell? id).any p

def expressions (a : Arena) : List NodeId :=
  a.collect fun cell => cell.kind?.any fun kind => (operator? kind).isSome

def variableIds (a : Arena) : List NodeId :=
  a.collect fun
    | .name _ .load => true
    | _ => false

structure Mutation where
  node : NodeId
  kind : Node.Kind
deriving DecidableEq, Repr

structure Outcome where
  mutation : Option Mutation
  arena : Arena
  log : List Event

def adjustExpression (config : Config) (a : Arena) (candidates : List NodeId) : Draw Outcome := do
  match ← Draw.choose candidates with
  | none => return ⟨none, a, []⟩
  | some id =>
      match a.kind? id with
      | none => return ⟨none, a, []⟩
      | some kind =>
          match operator? kind with
          | none => return ⟨none, a, []⟩
          | some operator =>
              let (node, b) ← operator config a id
              return ⟨some ⟨node, kind⟩, b, [.mutated kind]⟩

def rename (a : Arena) (id : NodeId) (symbol : Symbol) : Arena :=
  match a.cell? id with
  | some (.name _ ctx) => a.update id (.name symbol ctx)
  | _ => a

def others (a : Arena) (candidates : List NodeId) (current : Symbol) : List NodeId :=
  candidates.filter fun id => (a.identifier? id).any (· != current)

def replaceVariable (a : Arena) (candidates : List NodeId) : Draw Outcome := do
  match ← Draw.choose candidates with
  | none => return ⟨none, a, []⟩
  | some target =>
      match a.identifier? target with
      | none => return ⟨none, a, []⟩
      | some current =>
          match ← Draw.choose (a.others candidates current) with
          | none => return ⟨none, a, [.noOtherIdentifier (a.textOf current)]⟩
          | some source =>
              match a.identifier? source with
              | none => return ⟨none, a, []⟩
              | some replacement =>
                  return ⟨some ⟨target, .name⟩, a.rename target replacement,
                    [.renamed (a.textOf current) (a.textOf replacement)]⟩

end Mutagen.Arena
