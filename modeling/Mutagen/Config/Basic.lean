import Mutagen.Binary64.Layout

set_option autoImplicit false

namespace Mutagen

structure Probability where
  value : Binary64
  in_unit : value.inUnitInterval = true
deriving DecidableEq

namespace Probability

def half : Probability := ⟨⟨0x3fe0000000000000⟩, by decide⟩

def ofFloat? (x : Binary64) : Option Probability :=
  if h : x.inUnitInterval = true then some ⟨x, h⟩ else none

end Probability

structure Config where
  /-- That a mutation renames a variable and does not adjust an expression. -/
  pVariable : Probability := .half
  pSwapBranches : Probability := .half
  pClearDict : Probability := .half
deriving DecidableEq

namespace Config

inductive Key where
  | pVariable
  | pSwapBranches
  | pClearDict
deriving DecidableEq, Repr

namespace Key

def all : List Key := [.pVariable, .pSwapBranches, .pClearDict]

def name : Key → String
  | .pVariable => "p_variable"
  | .pSwapBranches => "p_swap_branches"
  | .pClearDict => "p_clear_dict"

end Key

inductive Error where
  | malformed
  | outOfRange (key : Key) (value : Binary64)
deriving DecidableEq, Repr

def Error.message : Error → String
  | .malformed => "configuration error"
  | .outOfRange key value =>
      "configuration error: " ++ key.name ++ " must be within [0, 1], got " ++
        String.ofList (value.text .plain)

def check (key : Key) (x : Binary64) : Except Error Probability :=
  match Probability.ofFloat? x with
  | some p => .ok p
  | none => .error (.outOfRange key x)

def ofFloats (pVariable pSwapBranches pClearDict : Binary64) : Except Error Config := do
  let pVariable ← check .pVariable pVariable
  let pSwapBranches ← check .pSwapBranches pSwapBranches
  let pClearDict ← check .pClearDict pClearDict
  return ⟨pVariable, pSwapBranches, pClearDict⟩

def get (config : Config) : Key → Probability
  | .pVariable => config.pVariable
  | .pSwapBranches => config.pSwapBranches
  | .pClearDict => config.pClearDict

end Config

end Mutagen
