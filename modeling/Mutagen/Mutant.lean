import Mutagen.Grammar.Program
import Mutagen.Mutation.Outcome

set_option autoImplicit false

namespace Mutagen

structure Report where
  result : Except ParseError String
  log : List Event

/-- Renames a variable or adjusts an expression. If the chosen category has nothing to mutate, the
other one is not tried. -/
def mutate (config : Config) (code : String) : Draw Report := do
  match Tree.parse code with
  | .error e => return ⟨.error e, []⟩
  | .ok tree =>
      let names := tree.root.variablePaths
      let expressions := tree.root.expressionPaths
      let forVariable ← Draw.coin config.pVariable
      let outcome ←
        if forVariable then Mutation.replaceVariable tree names
        else Mutation.adjustExpression config tree expressions
      return ⟨.ok outcome.tree.render,
        [.collected names.length expressions.length,
          if forVariable then .choseVariable else .choseExpression] ++ outcome.log ++
          (if outcome.mutation.isNone then [.noMutation] else [])⟩

def mutateExpression (config : Config) (code : String) : Draw Report := do
  match Tree.parse code with
  | .error e => return ⟨.error e, []⟩
  | .ok tree =>
      let expressions := tree.root.expressionPaths
      let outcome ← Mutation.adjustExpression config tree expressions
      let log := .collectedExpressions expressions.length :: outcome.log
      if outcome.mutation.isNone then return ⟨.ok code, log ++ [.noExpression]⟩
      else return ⟨.ok outcome.tree.render, log⟩

def mutateVariable (code : String) : Draw Report := do
  match Tree.parse code with
  | .error e => return ⟨.error e, []⟩
  | .ok tree =>
      let names := tree.root.variablePaths
      if names.length < 2 then
        return ⟨.ok code, [.collectedVariables names.length, .fewVariables]⟩
      else
        let outcome ← Mutation.replaceVariable tree names
        let log := .collectedVariables names.length :: outcome.log
        if outcome.mutation.isNone then return ⟨.ok code, log ++ [.singleVariable]⟩
        else return ⟨.ok outcome.tree.render, log⟩

/-- Whether two programs have the same tree; layout and redundant parentheses do not matter. -/
def treesEqual (a b : String) : Except ParseError Bool := do
  let first ← Tree.parse a
  let second ← Tree.parse b
  return first.dump == second.dump

end Mutagen
