import Mutagen.Arena.Mutation
import Mutagen.Arena.Program
import Mutagen.Mutant

set_option autoImplicit false

namespace Mutagen.Arena

def mutate (config : Config) (code : String) : Draw Report := do
  match parse code with
  | .error e => return ⟨.error e, []⟩
  | .ok a =>
      let names := a.variableIds
      let expressions := a.expressions
      let forVariable ← Draw.coin config.pVariable
      let outcome ←
        if forVariable then a.replaceVariable names else adjustExpression config a expressions
      return ⟨.ok outcome.arena.render,
        [.collected names.length expressions.length,
          if forVariable then .choseVariable else .choseExpression] ++ outcome.log ++
          (if outcome.mutation.isNone then [.noMutation] else [])⟩

def mutateExpression (config : Config) (code : String) : Draw Report := do
  match parse code with
  | .error e => return ⟨.error e, []⟩
  | .ok a =>
      let expressions := a.expressions
      let outcome ← adjustExpression config a expressions
      let log := .collectedExpressions expressions.length :: outcome.log
      if outcome.mutation.isNone then return ⟨.ok code, log ++ [.noExpression]⟩
      else return ⟨.ok outcome.arena.render, log⟩

def mutateVariable (code : String) : Draw Report := do
  match parse code with
  | .error e => return ⟨.error e, []⟩
  | .ok a =>
      let names := a.variableIds
      if names.length < 2 then
        return ⟨.ok code, [.collectedVariables names.length, .fewVariables]⟩
      else
        let outcome ← a.replaceVariable names
        let log := .collectedVariables names.length :: outcome.log
        if outcome.mutation.isNone then return ⟨.ok code, log ++ [.singleVariable]⟩
        else return ⟨.ok outcome.arena.render, log⟩

def treesEqual (a b : String) : Except ParseError Bool := do
  let first ← parse a
  let second ← parse b
  return first.dump == second.dump

end Mutagen.Arena
