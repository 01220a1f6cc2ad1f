import Mutagen.Arena.Builder
import Mutagen.Grammar.Expression

set_option autoImplicit false

namespace Mutagen.Builder

open Parser (kind secondKind span skip accept expect expectMark expectKeyword forbid require refuse
  expected linkedBy Step)
open Grammar (startsExpression forbidAnnotations stringText Trailer trailer? sign? termOp? arithOp?
  shiftOp? bitAndOp? bitXorOp? bitOrOp? comparisonOp? finishComparison)

structure Nested where
  test : Builder NodeId
  negation : Builder NodeId
  factor : Builder NodeId

def listOf (item : Builder NodeId) : Builder NodeId := do
  let first ← item
  if (← kind) = .mark .comma then
    alloc (.tuple (← behindCommas (!startsExpression ·) (append item) [first]) .load)
  else return first

def optionalTest (inner : Nested) : Builder (Option NodeId) := do
  if startsExpression (← kind) then return some (← inner.test) else return none

structure Params where
  names : List Symbol := []
  defaults : List NodeId := []

def parameter (inner : Nested) (closing : Mark) (params : Params) : Builder Params := do
  forbid (.mark .star) .variadicParameters
  forbid (.mark .doubleStar) .variadicParameters
  let place ← span
  let name ← expectName
  require (!params.names.contains name) (.duplicateParameter (← text name)) place
  forbidAnnotations closing
  if ← accept (.mark .equal) then
    return ⟨params.names ++ [name], params.defaults ++ [← inner.test]⟩
  else
    require params.defaults.isEmpty .defaultMissing place
    return ⟨params.names ++ [name], params.defaults⟩

def parameters (inner : Nested) (closing : Mark) : Builder Params :=
  upTo closing (parameter inner closing) {}

structure Arguments where
  positional : List NodeId := []
  keywords : List (Symbol × NodeId) := []

def keywordArgument (inner : Nested) (arguments : Arguments) : Builder Arguments := do
  let place ← span
  let arg ← expectName
  require (!arguments.keywords.any (·.1 == arg)) (.repeatedKeyword (← text arg)) place
  skip
  return { arguments with keywords := arguments.keywords ++ [(arg, ← inner.test)] }

def positionalArgument (inner : Nested) (arguments : Arguments) : Builder Arguments := do
  require arguments.keywords.isEmpty .positionalAfterKeyword (← span)
  let value ← inner.test
  forbid (.keyword .kwFor) .generatorExpressions
  return { arguments with positional := arguments.positional ++ [value] }

def argument (inner : Nested) (arguments : Arguments) : Builder Arguments := do
  forbid (.mark .star) .argumentUnpacking
  forbid (.mark .doubleStar) .argumentUnpacking
  match ← kind, ← secondKind with
  | .name _, .mark .equal => keywordArgument inner arguments
  | _, _ => positionalArgument inner arguments

def sliceFrom (inner : Nested) (lower : Option NodeId) : Builder NodeId := do
  skip
  let upper ← optionalTest inner
  if ← accept (.mark .colon) then alloc (.slice lower upper (← optionalTest inner))
  else alloc (.slice lower upper none)

def sliceItem (inner : Nested) : Builder NodeId := do
  if (← kind) = .mark .colon then sliceFrom inner none
  else
    let lower ← inner.test
    if (← kind) = .mark .colon then sliceFrom inner (some lower) else return lower

def sliceList (inner : Nested) : Builder NodeId := do
  let first ← sliceItem inner
  if (← kind) = .mark .comma then
    alloc (.tuple (← behindCommas (· = .mark .rightBracket) (append (sliceItem inner)) [first]) .load)
  else return first

def element (inner : Nested) (comprehension : Construct) : Builder NodeId := do
  let value ← inner.test
  forbid (.keyword .kwFor) comprehension
  return value

def elements (inner : Nested) (closing : Mark) (comprehension : Construct) : Builder (List NodeId) :=
  upTo closing (append (element inner comprehension)) []

def parenthesized (inner : Nested) : Builder NodeId := do
  if ← accept (.mark .rightParen) then alloc (.tuple [] .load)
  else
    let first ← element inner .generatorExpressions
    if (← kind) = .mark .comma then
      let all ← behindCommas (· = .mark .rightParen) (append inner.test) [first]
      expectMark .rightParen
      alloc (.tuple all .load)
    else
      expectMark .rightParen
      return first

def dictEntry (inner : Nested) (entries : List (NodeId × NodeId)) :
    Builder (List (NodeId × NodeId)) := do
  forbid (.mark .doubleStar) .dictUnpacking
  let key ← inner.test
  expectMark .colon
  return entries ++ [(key, ← inner.test)]

def dictFrom (inner : Nested) (key : NodeId) : Builder NodeId := do
  skip
  let value ← element inner .dictComprehensions
  let entries ← behindCommas (· = .mark .rightBrace) (dictEntry inner) [(key, value)]
  expectMark .rightBrace
  alloc (.dict (entries.map (·.1)) (entries.map (·.2)))

def setFrom (inner : Nested) (first : NodeId) : Builder NodeId := do
  forbid (.keyword .kwFor) .setComprehensions
  if ← accept (.mark .comma) then
    let others ← elements inner .rightBrace .setComprehensions
    expectMark .rightBrace
    alloc (.set (first :: others))
  else
    expectMark .rightBrace
    alloc (.set [first])

def braced (inner : Nested) : Builder NodeId := do
  if ← accept (.mark .rightBrace) then alloc (.dict [] [])
  else
    forbid (.mark .doubleStar) .dictUnpacking
    let first ← inner.test
    if (← kind) = .mark .colon then dictFrom inner first else setFrom inner first

def atom (inner : Nested) : Builder NodeId := do
  match ← kind with
  | .name id => skip; alloc (.name (← intern id) .load)
  | .int value => skip; alloc (.constant (.int value))
  | .float value => skip; alloc (.constant (.float value))
  | .str first =>
      skip
      alloc (.constant (.str
        (← Parser.chain stringText (fun text next => pure (.again (text ++ next))) first)))
  | .keyword .kwNone => skip; alloc (.constant .none)
  | .keyword .kwTrue => skip; alloc (.constant (.bool true))
  | .keyword .kwFalse => skip; alloc (.constant (.bool false))
  | .mark .leftParen => skip; parenthesized inner
  | .mark .leftBracket =>
      skip
      let all ← elements inner .rightBracket .listComprehensions
      expectMark .rightBracket
      alloc (.list all .load)
  | .mark .leftBrace => skip; braced inner
  | _ => expected (α := NodeId) .expression

def trailer (inner : Nested) (value : NodeId) : Trailer → Builder NodeId
  | .call => do
      let arguments ← upTo .rightParen (argument inner) {}
      expectMark .rightParen
      alloc (.call value arguments.positional arguments.keywords)
  | .attr => do alloc (.attr value (← expectName) .load)
  | .index => do
      let index ← sliceList inner
      expectMark .rightBracket
      alloc (.subscript value index .load)

def primary (inner : Nested) : Builder NodeId := do
  chain trailer? (fun value next => do return .again (← trailer inner value next)) (← atom inner)

def power (inner : Nested) : Builder NodeId := do
  let left ← primary inner
  if ← accept (.mark .doubleStar) then alloc (.binOp left .pow (← inner.factor)) else return left

def factor (inner : Nested) : Builder NodeId := do
  match sign? (← kind) with
  | some op => skip; alloc (.unaryOp op (← inner.factor))
  | none => power inner

def leftGrouped (op? : Token.Kind → Option ArithmeticOp) (operand : Builder NodeId) :
    Builder NodeId := do
  chain (fun first _ => op? first) (fun left op => do
    return .again (← alloc (.binOp left op (← operand)))) (← operand)

def term (inner : Nested) : Builder NodeId := leftGrouped termOp? (factor inner)

def arith (inner : Nested) : Builder NodeId := leftGrouped arithOp? (term inner)

def shift (inner : Nested) : Builder NodeId := leftGrouped shiftOp? (arith inner)

def bitAnd (inner : Nested) : Builder NodeId := leftGrouped bitAndOp? (shift inner)

def bitXor (inner : Nested) : Builder NodeId := leftGrouped bitXorOp? (bitAnd inner)

def bitOr (inner : Nested) : Builder NodeId := leftGrouped bitOrOp? (bitXor inner)

def comparison (inner : Nested) : Builder NodeId := do
  let left ← bitOr inner
  let pairs ← chain comparisonOp? (fun pairs op => do
    finishComparison op
    return .again (pairs ++ [(op, ← bitOr inner)])) []
  if pairs.isEmpty then return left
  else alloc (.compare left (pairs.map (·.1)) (pairs.map (·.2)))

def negation (inner : Nested) : Builder NodeId := do
  if (← kind) = .keyword .kwNot then
    skip
    alloc (.unaryOp .not (← inner.negation))
  else comparison inner

def logical (op : LogicalOp) (word : Keyword) (operand : Builder NodeId) : Builder NodeId := do
  let first ← operand
  if (← kind) = .keyword word then
    alloc (.boolOp op
      (← chain (linkedBy (.keyword word)) (fun values _ => do
        return .again (← append operand values)) [first]))
  else return first

def andTest (inner : Nested) : Builder NodeId := logical .and .kwAnd (negation inner)

def orTest (inner : Nested) : Builder NodeId := logical .or .kwOr (andTest inner)

def lambda (inner : Nested) : Builder NodeId := do
  skip
  let params ← parameters inner .colon
  expectMark .colon
  alloc (.lambda params.names params.defaults (← inner.test))

def conditional (inner : Nested) : Builder NodeId := do
  if (← kind) = .keyword .kwLambda then lambda inner
  else
    let body ← orTest inner
    if ← accept (.keyword .kwIf) then
      let test ← orTest inner
      expectKeyword .kwElse
      alloc (.ifExp test body (← inner.test))
    else return body

def nested (levels : Nat) : Nested :=
  match levels with
  | 0 => ⟨refuse (α := NodeId) .nestedTooDeeply, refuse (α := NodeId) .nestedTooDeeply,
      refuse (α := NodeId) .nestedTooDeeply⟩
  | levels + 1 =>
      let inner := nested levels
      ⟨conditional inner, negation inner, factor inner⟩

theorem strict_atom (inner : Nested) : Strict (atom inner) := by
  refine strict_bind_right fun first => ?_
  split <;> first | exact strict_bind_left strict_skip | exact strict_lift (Parser.strict_fail_with _)

theorem strict_primary (inner : Nested) : Strict (primary inner) :=
  strict_bind_left (strict_atom inner)

theorem strict_power (inner : Nested) : Strict (power inner) :=
  strict_bind_left (strict_primary inner)

theorem strict_factor (inner : Nested) : Strict (factor inner) := by
  refine strict_bind_right fun first => ?_
  split
  · exact strict_bind_left strict_skip
  · exact strict_power inner

theorem strict_left_grouped {op? : Token.Kind → Option ArithmeticOp} {operand : Builder NodeId}
    (h : Strict operand) : Strict (leftGrouped op? operand) :=
  strict_bind_left h

theorem strict_bit_or (inner : Nested) : Strict (bitOr inner) :=
  strict_left_grouped <| strict_left_grouped <| strict_left_grouped <| strict_left_grouped <|
    strict_left_grouped <| strict_left_grouped (strict_factor inner)

theorem strict_comparison (inner : Nested) : Strict (comparison inner) :=
  strict_bind_left (strict_bit_or inner)

theorem strict_negation (inner : Nested) : Strict (negation inner) :=
  strict_bind_right fun _ => strict_ite (strict_bind_left strict_skip) (strict_comparison inner)

theorem strict_logical {op : LogicalOp} {word : Keyword} {operand : Builder NodeId}
    (h : Strict operand) : Strict (logical op word operand) :=
  strict_bind_left h

theorem strict_conditional (inner : Nested) : Strict (conditional inner) :=
  strict_bind_right fun _ => strict_ite (strict_bind_left strict_skip)
    (strict_bind_left (strict_logical (strict_logical (strict_negation inner))))

theorem strict_test (levels : Nat) : Strict (nested levels).test := by
  cases levels with
  | zero => exact strict_lift (Parser.strict_fail_with _)
  | succ levels => exact strict_conditional (nested levels)

theorem strict_list_of {item : Builder NodeId} (h : Strict item) : Strict (listOf item) :=
  strict_bind_left h

end Mutagen.Builder
