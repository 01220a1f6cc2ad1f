import Mutagen.Node.Kind

set_option autoImplicit false

namespace Mutagen

inductive Event where
  | collected (names : Nat) (expressions : Nat)
  | collectedExpressions (count : Nat)
  | collectedVariables (count : Nat)
  | choseVariable
  | choseExpression
  | mutated (kind : Node.Kind)
  | renamed (old : String) (new : String)
  | noOtherIdentifier (id : String)
  | noMutation
  | noExpression
  | fewVariables
  | singleVariable
deriving DecidableEq, Repr

namespace Event

/-- Counts are of interest only to someone who traces a run. -/
def level : Event → String
  | .collected .. | .collectedExpressions _ | .collectedVariables _ => "TRACE"
  | _ => "DEBUG"

def message : Event → String
  | .collected names expressions =>
      "Collected " ++ toString names ++ " variable and " ++ toString expressions ++
        " expression candidates"
  | .collectedExpressions count => "Collected " ++ toString count ++ " expression candidates"
  | .collectedVariables count => "Collected " ++ toString count ++ " variable candidates"
  | .choseVariable => "Mutating a variable"
  | .choseExpression => "Mutating an expression"
  | .mutated kind => "Mutated " ++ kind.text ++ " node"
  | .renamed old new => "Renamed '" ++ old ++ "' to '" ++ new ++ "'"
  | .noOtherIdentifier id => "No identifier other than '" ++ id ++ "' to rename to"
  | .noMutation => "No mutation applied, rendering the tree unchanged"
  | .noExpression => "No expression to mutate, returning input verbatim"
  | .fewVariables => "Fewer than two variables, returning input verbatim"
  | .singleVariable => "Single distinct variable, returning input verbatim"

def line (event : Event) : String := event.level ++ " " ++ event.message

end Event

end Mutagen
