import Mutagen.Grammar.Expression
import Mutagen.Node.Target

set_option autoImplicit false

namespace Mutagen.Grammar

open Mutagen.Parser

structure Blocks where
  suite : Parser (List Node)
  clause : Parser Node

def expressionList (inner : Nested) : Parser Node := listOf inner.test

def optionalList (inner : Nested) : Parser (Option Node) := do
  if startsExpression (← kind) then return some (← expressionList inner) else return none

def orRefuse {α : Type} (target : Option α) (cause : ParseError.Cause) (place : Span) : Parser α :=
  match target with
  | some found => pure found
  | none => failAt cause place

def assigned (inner : Nested) (first : Node) : Parser (List Node × Node) :=
  chain (linkedBy (.mark .equal)) (fun (targets, value) _ => do
    return .again (targets ++ [value], ← expressionList inner)) ([], first)

def expressionStatement (inner : Nested) : Parser Node := do
  let place ← span
  let first ← expressionList inner
  match ← kind with
  | .augAssign op =>
      let target ← orRefuse first.singleTarget? .augmentedTarget place
      skip
      return .augAssign target op (← expressionList inner)
  | .mark .equal =>
      let (targets, value) ← assigned inner first
      return .assign (← orRefuse (Node.targets? targets) .assignmentTarget place) value
  | _ => return .exprStmt first

def assertStatement (inner : Nested) : Parser Node := do
  let test ← inner.test
  if ← accept (.mark .comma) then return .assertStmt test (some (← inner.test))
  else return .assertStmt test none

def smallStatement (inner : Nested) : Parser Node := do
  match ← kind with
  | .keyword .kwPass => skip; return .passStmt
  | .keyword .kwBreak => skip; return .breakStmt
  | .keyword .kwContinue => skip; return .continueStmt
  | .keyword .kwReturn => skip; return .returnStmt (← optionalList inner)
  | .keyword .kwRaise => skip; return .raiseStmt (← optionalTest inner)
  | .keyword .kwAssert => skip; assertStatement inner
  | _ => expressionStatement inner

def simpleStatements (inner : Nested) : Parser (List Node) := do
  let first ← smallStatement inner
  let all ← chain (linkedBy (.mark .semicolon)) (fun statements _ => do
    if (← kind) = .newline then return .stop statements
    else return .again (← append (smallStatement inner) statements)) [first]
  expect .newline .newline
  return all

def functionDef (inner : Nested) (blocks : Blocks) : Parser Node := do
  skip
  let id ← expectName
  expectMark .leftParen
  let params ← parameters inner .rightParen
  expectMark .rightParen
  expectMark .colon
  return .functionDef id params.names params.defaults (← blocks.suite)

def elseBranch (blocks : Blocks) : Parser (List Node) := do
  match ← kind with
  | .keyword .kwElif => return [← blocks.clause]
  | .keyword .kwElse =>
      skip
      expectMark .colon
      blocks.suite
  | _ => return []

def ifStatement (inner : Nested) (blocks : Blocks) : Parser Node := do
  skip
  let test ← inner.test
  expectMark .colon
  let body ← blocks.suite
  return .ifStmt test body (← elseBranch blocks)

def whileStatement (inner : Nested) (blocks : Blocks) : Parser Node := do
  skip
  let test ← inner.test
  expectMark .colon
  let body ← blocks.suite
  forbid (.keyword .kwElse) .whileElse
  return .whileStmt test body

/-- The targets of a loop stop below the comparisons, which leaves the keyword `in`. -/
def forStatement (inner : Nested) (blocks : Blocks) : Parser Node := do
  skip
  let place ← span
  let items ← listOf (bitOr inner)
  let target ← orRefuse items.target? .assignmentTarget place
  expectKeyword .kwIn
  let iterable ← expressionList inner
  expectMark .colon
  let body ← blocks.suite
  forbid (.keyword .kwElse) .forElse
  return .forStmt target iterable body

def statement (inner : Nested) (blocks : Blocks) : Parser (List Node) := do
  match ← kind with
  | .keyword .kwDef => return [← functionDef inner blocks]
  | .keyword .kwIf => return [← ifStatement inner blocks]
  | .keyword .kwWhile => return [← whileStatement inner blocks]
  | .keyword .kwFor => return [← forStatement inner blocks]
  | .indent => refuse .unexpectedIndent
  | _ => simpleStatements inner

theorem strict_small_statement {inner : Nested} (h : inner.test.Strict) :
    (smallStatement inner).Strict := by
  refine strict_bind_right fun first => ?_
  split
  all_goals first
    | exact strict_bind_left strict_skip
    | exact strict_bind_right fun _ => strict_bind_left (strict_list_of h)

theorem strict_statement {inner : Nested} (blocks : Blocks) (h : inner.test.Strict) :
    (statement inner blocks).Strict := by
  refine strict_bind_right fun first => ?_
  split
  · exact strict_bind_left (strict_bind_left strict_skip)
  · exact strict_bind_left (strict_bind_left strict_skip)
  · exact strict_bind_left (strict_bind_left strict_skip)
  · exact strict_bind_left (strict_bind_left strict_skip)
  · exact strict_fail_with _
  · exact strict_bind_left (strict_small_statement h)

def blockStatement (inner : Nested) (blocks : Blocks) : Parser (List Node) := do
  if (← kind) = .eof then expected .dedent else statement inner blocks

theorem strict_block_statement {inner : Nested} (blocks : Blocks) (h : inner.test.Strict) :
    (blockStatement inner blocks).Strict :=
  strict_bind_right fun _ => strict_ite (strict_fail_with _) (strict_statement blocks h)

def block (inner : Nested) (blocks : Blocks) (h : inner.test.Strict) : Parser (List Node) := do
  if ← accept .newline then
    expect .indent .indentedBlock
    let body ← untilKind (· = .dedent) (blockStatement inner blocks) (strict_block_statement blocks h)
    skip
    return body
  else simpleStatements inner

def blocksFor (levels : Nat) : Blocks :=
  match levels with
  | 0 => ⟨refuse .nestedTooDeeply, refuse .nestedTooDeeply⟩
  | levels + 1 =>
      let blocks := blocksFor levels
      ⟨block (nested levels) blocks (strict_test levels), ifStatement (nested levels) blocks⟩

end Mutagen.Grammar
