import Mutagen.Arena.Expression
import Mutagen.Grammar.Statement

set_option autoImplicit false

namespace Mutagen.Builder

open Parser (kind span skip accept expect expectMark expectKeyword forbid refuse expected failAt
  linkedBy Step)
open Grammar (startsExpression)

structure Blocks where
  suite : Builder (List NodeId)
  clause : Builder NodeId

def expressionList (inner : Nested) : Builder NodeId := listOf inner.test

def optionalList (inner : Nested) : Builder (Option NodeId) := do
  if startsExpression (← kind) then return some (← expressionList inner) else return none

def isSingleTarget : Cell → Bool
  | .name .. | .attr .. | .subscript .. => true
  | _ => false

def assigned (inner : Nested) (first : NodeId) : Builder (List NodeId × NodeId) :=
  chain (linkedBy (.mark .equal)) (fun (targets, value) _ => do
    return .again (targets ++ [value], ← expressionList inner)) ([], first)

def expressionStatement (inner : Nested) : Builder NodeId := do
  let place ← span
  let first ← expressionList inner
  match ← kind with
  | .augAssign op =>
      skip
      if ((← get).cell? first).any isSingleTarget then
        store [first] place
        alloc (.augAssign first op (← expressionList inner))
      else failAt (α := NodeId) .augmentedTarget place
  | .mark .equal =>
      let (targets, value) ← assigned inner first
      store targets place
      alloc (.assign targets value)
  | _ => alloc (.exprStmt first)

def assertStatement (inner : Nested) : Builder NodeId := do
  let test ← inner.test
  if ← accept (.mark .comma) then alloc (.assertStmt test (some (← inner.test)))
  else alloc (.assertStmt test none)

def smallStatement (inner : Nested) : Builder NodeId := do
  match ← kind with
  | .keyword .kwPass => skip; alloc .passStmt
  | .keyword .kwBreak => skip; alloc .breakStmt
  | .keyword .kwContinue => skip; alloc .continueStmt
  | .keyword .kwReturn => skip; alloc (.returnStmt (← optionalList inner))
  | .keyword .kwRaise => skip; alloc (.raiseStmt (← optionalTest inner))
  | .keyword .kwAssert => skip; assertStatement inner
  | _ => expressionStatement inner

def simpleStatements (inner : Nested) : Builder (List NodeId) := do
  let first ← smallStatement inner
  let all ← chain (linkedBy (.mark .semicolon)) (fun statements _ => do
    if (← kind) = .newline then return .stop statements
    else return .again (← append (smallStatement inner) statements)) [first]
  expect .newline .newline
  return all

def functionDef (inner : Nested) (blocks : Blocks) : Builder NodeId := do
  skip
  let name ← expectName
  expectMark .leftParen
  let params ← parameters inner .rightParen
  expectMark .rightParen
  expectMark .colon
  alloc (.functionDef name params.names params.defaults (← blocks.suite))

def elseBranch (blocks : Blocks) : Builder (List NodeId) := do
  match ← kind with
  | .keyword .kwElif => return [← blocks.clause]
  | .keyword .kwElse =>
      skip
      expectMark .colon
      blocks.suite
  | _ => return []

def ifStatement (inner : Nested) (blocks : Blocks) : Builder NodeId := do
  skip
  let test ← inner.test
  expectMark .colon
  let body ← blocks.suite
  alloc (.ifStmt test body (← elseBranch blocks))

def whileStatement (inner : Nested) (blocks : Blocks) : Builder NodeId := do
  skip
  let test ← inner.test
  expectMark .colon
  let body ← blocks.suite
  forbid (.keyword .kwElse) .whileElse
  alloc (.whileStmt test body)

def forStatement (inner : Nested) (blocks : Blocks) : Builder NodeId := do
  skip
  let place ← span
  let target ← listOf (bitOr inner)
  store [target] place
  expectKeyword .kwIn
  let iterable ← expressionList inner
  expectMark .colon
  let body ← blocks.suite
  forbid (.keyword .kwElse) .forElse
  alloc (.forStmt target iterable body)

def statement (inner : Nested) (blocks : Blocks) : Builder (List NodeId) := do
  match ← kind with
  | .keyword .kwDef => return [← functionDef inner blocks]
  | .keyword .kwIf => return [← ifStatement inner blocks]
  | .keyword .kwWhile => return [← whileStatement inner blocks]
  | .keyword .kwFor => return [← forStatement inner blocks]
  | .indent => refuse (α := List NodeId) .unexpectedIndent
  | _ => simpleStatements inner

theorem strict_small_statement {inner : Nested} (h : Strict inner.test) :
    Strict (smallStatement inner) := by
  refine strict_bind_right fun first => ?_
  split
  all_goals first
    | exact strict_bind_left strict_skip
    | exact strict_bind_right fun _ => strict_bind_left (strict_list_of h)

theorem strict_statement {inner : Nested} (blocks : Blocks) (h : Strict inner.test) :
    Strict (statement inner blocks) := by
  refine strict_bind_right fun first => ?_
  split
  · exact strict_bind_left (strict_bind_left strict_skip)
  · exact strict_bind_left (strict_bind_left strict_skip)
  · exact strict_bind_left (strict_bind_left strict_skip)
  · exact strict_bind_left (strict_bind_left strict_skip)
  · exact strict_lift (Parser.strict_fail_with _)
  · exact strict_bind_left (strict_small_statement h)

def blockStatement (inner : Nested) (blocks : Blocks) : Builder (List NodeId) := do
  if (← kind) = .eof then expected (α := List NodeId) .dedent else statement inner blocks

theorem strict_block_statement {inner : Nested} (blocks : Blocks) (h : Strict inner.test) :
    Strict (blockStatement inner blocks) :=
  strict_bind_right fun _ => strict_ite (strict_lift (Parser.strict_fail_with _)) (strict_statement blocks h)

def block (inner : Nested) (blocks : Blocks) (h : Strict inner.test) : Builder (List NodeId) := do
  if ← accept .newline then
    expect .indent .indentedBlock
    let body ← untilKind (· = .dedent) (blockStatement inner blocks) (strict_block_statement blocks h)
    skip
    return body
  else simpleStatements inner

def blocksFor (levels : Nat) : Blocks :=
  match levels with
  | 0 => ⟨refuse (α := List NodeId) .nestedTooDeeply, refuse (α := NodeId) .nestedTooDeeply⟩
  | levels + 1 =>
      let blocks := blocksFor levels
      ⟨block (nested levels) blocks (strict_test levels), ifStatement (nested levels) blocks⟩

end Mutagen.Builder
