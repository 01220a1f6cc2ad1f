import Mutagen.Grammar.Parser
import Mutagen.Node.Basic

set_option autoImplicit false

namespace Mutagen.Grammar

open Mutagen.Parser

structure Nested where
  test : Parser Node
  negation : Parser Node
  factor : Parser Node

def startsExpression : Token.Kind → Bool
  | .name _ | .int _ | .float _ | .str _ => true
  | .keyword .kwNone | .keyword .kwTrue | .keyword .kwFalse => true
  | .keyword .kwNot | .keyword .kwLambda => true
  | .mark .leftParen | .mark .leftBracket | .mark .leftBrace => true
  | .mark .plus | .mark .minus | .mark .tilde => true
  | _ => false

def listOf (item : Parser Node) : Parser Node := do
  let first ← item
  if (← kind) = .mark .comma then
    return .tuple (← behindCommas (!startsExpression ·) (append item) [first]) .load
  else return first

def optionalTest (inner : Nested) : Parser (Option Node) := do
  if startsExpression (← kind) then return some (← inner.test) else return none

structure Params where
  names : List String := []
  defaults : List Node := []

def forbidAnnotations (closing : Mark) : Parser Unit :=
  if closing = .rightParen then forbid (.mark .colon) .parameterAnnotations else pure ()

def parameter (inner : Nested) (closing : Mark) (params : Params) : Parser Params := do
  forbid (.mark .star) .variadicParameters
  forbid (.mark .doubleStar) .variadicParameters
  let place ← span
  let id ← expectName
  require (!params.names.contains id) (.duplicateParameter id) place
  forbidAnnotations closing
  if ← accept (.mark .equal) then
    return ⟨params.names ++ [id], params.defaults ++ [← inner.test]⟩
  else
    require params.defaults.isEmpty .defaultMissing place
    return ⟨params.names ++ [id], params.defaults⟩

def parameters (inner : Nested) (closing : Mark) : Parser Params :=
  upTo closing (parameter inner closing) {}

structure Arguments where
  positional : List Node := []
  keywords : List (String × Node) := []

def keywordArgument (inner : Nested) (id : String) (arguments : Arguments) : Parser Arguments := do
  require (!(arguments.keywords.map (·.1)).contains id) (.repeatedKeyword id) (← span)
  skip
  skip
  return { arguments with keywords := arguments.keywords ++ [(id, ← inner.test)] }

def positionalArgument (inner : Nested) (arguments : Arguments) : Parser Arguments := do
  require arguments.keywords.isEmpty .positionalAfterKeyword (← span)
  let value ← inner.test
  forbid (.keyword .kwFor) .generatorExpressions
  return { arguments with positional := arguments.positional ++ [value] }

def argument (inner : Nested) (arguments : Arguments) : Parser Arguments := do
  forbid (.mark .star) .argumentUnpacking
  forbid (.mark .doubleStar) .argumentUnpacking
  match ← kind, ← secondKind with
  | .name id, .mark .equal => keywordArgument inner id arguments
  | _, _ => positionalArgument inner arguments

def sliceFrom (inner : Nested) (lower : Option Node) : Parser Node := do
  skip
  let upper ← optionalTest inner
  if ← accept (.mark .colon) then return .slice lower upper (← optionalTest inner)
  else return .slice lower upper none

def sliceItem (inner : Nested) : Parser Node := do
  if (← kind) = .mark .colon then sliceFrom inner none
  else
    let lower ← inner.test
    if (← kind) = .mark .colon then sliceFrom inner (some lower) else return lower

def sliceList (inner : Nested) : Parser Node := do
  let first ← sliceItem inner
  if (← kind) = .mark .comma then
    return .tuple (← behindCommas (· = .mark .rightBracket) (append (sliceItem inner)) [first]) .load
  else return first

def element (inner : Nested) (comprehension : Construct) : Parser Node := do
  let value ← inner.test
  forbid (.keyword .kwFor) comprehension
  return value

def elements (inner : Nested) (closing : Mark) (comprehension : Construct) : Parser (List Node) :=
  upTo closing (append (element inner comprehension)) []

def parenthesized (inner : Nested) : Parser Node := do
  if ← accept (.mark .rightParen) then return .tuple [] .load
  else
    let first ← element inner .generatorExpressions
    if (← kind) = .mark .comma then
      let all ← behindCommas (· = .mark .rightParen) (append inner.test) [first]
      expectMark .rightParen
      return .tuple all .load
    else
      expectMark .rightParen
      return first

def dictEntry (inner : Nested) (entries : List (Node × Node)) : Parser (List (Node × Node)) := do
  forbid (.mark .doubleStar) .dictUnpacking
  let key ← inner.test
  expectMark .colon
  return entries ++ [(key, ← inner.test)]

def dictFrom (inner : Nested) (key : Node) : Parser Node := do
  skip
  let value ← element inner .dictComprehensions
  let entries ← behindCommas (· = .mark .rightBrace) (dictEntry inner) [(key, value)]
  expectMark .rightBrace
  return .dict (entries.map (·.1)) (entries.map (·.2))

def setFrom (inner : Nested) (first : Node) : Parser Node := do
  forbid (.keyword .kwFor) .setComprehensions
  if ← accept (.mark .comma) then
    let others ← elements inner .rightBrace .setComprehensions
    expectMark .rightBrace
    return .set (first :: others)
  else
    expectMark .rightBrace
    return .set [first]

def braced (inner : Nested) : Parser Node := do
  if ← accept (.mark .rightBrace) then return .dict [] []
  else
    forbid (.mark .doubleStar) .dictUnpacking
    let first ← inner.test
    if (← kind) = .mark .colon then dictFrom inner first else setFrom inner first

def stringText : Token.Kind → Token.Kind → Option String
  | .str text, _ => some text
  | _, _ => none

def atom (inner : Nested) : Parser Node := do
  match ← kind with
  | .name id => skip; return .name id .load
  | .int value => skip; return .constant (.int value)
  | .float value => skip; return .constant (.float value)
  | .str first =>
      skip
      return .constant (.str (← chain stringText (fun text next => pure (.again (text ++ next))) first))
  | .keyword .kwNone => skip; return .constant .none
  | .keyword .kwTrue => skip; return .constant (.bool true)
  | .keyword .kwFalse => skip; return .constant (.bool false)
  | .mark .leftParen => skip; parenthesized inner
  | .mark .leftBracket =>
      skip
      let all ← elements inner .rightBracket .listComprehensions
      expectMark .rightBracket
      return .list all .load
  | .mark .leftBrace => skip; braced inner
  | _ => expected .expression

inductive Trailer where
  | call
  | attr
  | index

def trailer? : Token.Kind → Token.Kind → Option Trailer
  | .mark .leftParen, _ => some .call
  | .mark .dot, _ => some .attr
  | .mark .leftBracket, _ => some .index
  | _, _ => none

def trailer (inner : Nested) (value : Node) : Trailer → Parser Node
  | .call => do
      let arguments ← upTo .rightParen (argument inner) {}
      expectMark .rightParen
      return .call value arguments.positional arguments.keywords
  | .attr => do return .attr value (← expectName) .load
  | .index => do
      let index ← sliceList inner
      expectMark .rightBracket
      return .subscript value index .load

def primary (inner : Nested) : Parser Node := do
  chain trailer? (fun value next => do return .again (← trailer inner value next)) (← atom inner)

def power (inner : Nested) : Parser Node := do
  let left ← primary inner
  if ← accept (.mark .doubleStar) then return .binOp left .pow (← inner.factor) else return left

def sign? : Token.Kind → Option PrefixOp
  | .mark .plus => some .uadd
  | .mark .minus => some .usub
  | .mark .tilde => some .invert
  | _ => none

def factor (inner : Nested) : Parser Node := do
  match sign? (← kind) with
  | some op => skip; return .unaryOp op (← inner.factor)
  | none => power inner

def leftGrouped (op? : Token.Kind → Option ArithmeticOp) (operand : Parser Node) : Parser Node := do
  chain (fun first _ => op? first) (fun left op => do return .again (.binOp left op (← operand)))
    (← operand)

def termOp? : Token.Kind → Option ArithmeticOp
  | .mark .star => some .mult
  | .mark .slash => some .div
  | .mark .doubleSlash => some .floorDiv
  | .mark .percent => some .mod
  | _ => none

def arithOp? : Token.Kind → Option ArithmeticOp
  | .mark .plus => some .add
  | .mark .minus => some .sub
  | _ => none

def shiftOp? : Token.Kind → Option ArithmeticOp
  | .mark .leftShift => some .leftShift
  | .mark .rightShift => some .rightShift
  | _ => none

def bitAndOp? : Token.Kind → Option ArithmeticOp
  | .mark .ampersand => some .bitAnd
  | _ => none

def bitXorOp? : Token.Kind → Option ArithmeticOp
  | .mark .caret => some .bitXor
  | _ => none

def bitOrOp? : Token.Kind → Option ArithmeticOp
  | .mark .pipe => some .bitOr
  | _ => none

def term (inner : Nested) : Parser Node := leftGrouped termOp? (factor inner)

def arith (inner : Nested) : Parser Node := leftGrouped arithOp? (term inner)

def shift (inner : Nested) : Parser Node := leftGrouped shiftOp? (arith inner)

def bitAnd (inner : Nested) : Parser Node := leftGrouped bitAndOp? (shift inner)

def bitXor (inner : Nested) : Parser Node := leftGrouped bitXorOp? (bitAnd inner)

def bitOr (inner : Nested) : Parser Node := leftGrouped bitOrOp? (bitXor inner)

def comparisonOp? : Token.Kind → Token.Kind → Option ComparisonOp
  | .mark .equalEqual, _ => some .eq
  | .mark .notEqual, _ => some .notEq
  | .mark .less, _ => some .lt
  | .mark .lessEqual, _ => some .ltE
  | .mark .greater, _ => some .gt
  | .mark .greaterEqual, _ => some .gtE
  | .keyword .kwIn, _ => some .isIn
  | .keyword .kwNot, .keyword .kwIn => some .notIn
  | .keyword .kwIs, .keyword .kwNot => some .isNot
  | .keyword .kwIs, _ => some .is
  | _, _ => none

def finishComparison : ComparisonOp → Parser Unit
  | .notIn | .isNot => skip
  | _ => pure ()

def comparison (inner : Nested) : Parser Node := do
  let left ← bitOr inner
  let pairs ← chain comparisonOp? (fun pairs op => do
    finishComparison op
    return .again (pairs ++ [(op, ← bitOr inner)])) []
  if pairs.isEmpty then return left
  else return .compare left (pairs.map (·.1)) (pairs.map (·.2))

def negation (inner : Nested) : Parser Node := do
  if (← kind) = .keyword .kwNot then
    skip
    return .unaryOp .not (← inner.negation)
  else comparison inner

def logical (op : LogicalOp) (word : Keyword) (operand : Parser Node) : Parser Node := do
  let first ← operand
  if (← kind) = .keyword word then
    return .boolOp op
      (← chain (linkedBy (.keyword word)) (fun values _ => do
        return .again (← append operand values)) [first])
  else return first

def andTest (inner : Nested) : Parser Node := logical .and .kwAnd (negation inner)

def orTest (inner : Nested) : Parser Node := logical .or .kwOr (andTest inner)

def lambda (inner : Nested) : Parser Node := do
  skip
  let params ← parameters inner .colon
  expectMark .colon
  return .lambda params.names params.defaults (← inner.test)

def conditional (inner : Nested) : Parser Node := do
  if (← kind) = .keyword .kwLambda then lambda inner
  else
    let body ← orTest inner
    if ← accept (.keyword .kwIf) then
      let test ← orTest inner
      expectKeyword .kwElse
      return .ifExp test body (← inner.test)
    else return body

def nested (levels : Nat) : Nested :=
  match levels with
  | 0 => ⟨refuse .nestedTooDeeply, refuse .nestedTooDeeply, refuse .nestedTooDeeply⟩
  | levels + 1 =>
      let inner := nested levels
      ⟨conditional inner, negation inner, factor inner⟩

theorem strict_atom (inner : Nested) : (atom inner).Strict := by
  refine strict_bind_right fun first => ?_
  split <;> first | exact strict_bind_left strict_skip | exact strict_fail_with _

theorem strict_primary (inner : Nested) : (primary inner).Strict :=
  strict_bind_left (strict_atom inner)

theorem strict_power (inner : Nested) : (power inner).Strict :=
  strict_bind_left (strict_primary inner)

theorem strict_factor (inner : Nested) : (factor inner).Strict := by
  refine strict_bind_right fun first => ?_
  split
  · exact strict_bind_left strict_skip
  · exact strict_power inner

theorem strict_left_grouped {op? : Token.Kind → Option ArithmeticOp} {operand : Parser Node}
    (h : operand.Strict) : (leftGrouped op? operand).Strict :=
  strict_bind_left h

theorem strict_bit_or (inner : Nested) : (bitOr inner).Strict :=
  strict_left_grouped <| strict_left_grouped <| strict_left_grouped <| strict_left_grouped <|
    strict_left_grouped <| strict_left_grouped (strict_factor inner)

theorem strict_comparison (inner : Nested) : (comparison inner).Strict :=
  strict_bind_left (strict_bit_or inner)

theorem strict_negation (inner : Nested) : (negation inner).Strict :=
  strict_bind_right fun _ => strict_ite (strict_bind_left strict_skip) (strict_comparison inner)

theorem strict_logical {op : LogicalOp} {word : Keyword} {operand : Parser Node}
    (h : operand.Strict) : (logical op word operand).Strict :=
  strict_bind_left h

theorem strict_conditional (inner : Nested) : (conditional inner).Strict :=
  strict_bind_right fun _ => strict_ite (strict_bind_left strict_skip)
    (strict_bind_left (strict_logical (strict_logical (strict_negation inner))))

theorem strict_test (levels : Nat) : (nested levels).test.Strict := by
  cases levels with
  | zero => exact strict_fail_with _
  | succ levels => exact strict_conditional (nested levels)

theorem strict_list_of {item : Parser Node} (h : item.Strict) : (listOf item).Strict :=
  strict_bind_left h

end Mutagen.Grammar
