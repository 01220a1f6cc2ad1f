import Mutagen.Node.Render
import Mutagen.Proofs.Node.Shape
import Mutagen.Proofs.Token.Line

set_option autoImplicit false

namespace Mutagen

def LogicalOp.word : LogicalOp → Keyword
  | .and => .kwAnd
  | .or => .kwOr

def ArithmeticOp.mark : ArithmeticOp → Mark
  | .add => .plus
  | .sub => .minus
  | .mult => .star
  | .div => .slash
  | .mod => .percent
  | .pow => .doubleStar
  | .leftShift => .leftShift
  | .rightShift => .rightShift
  | .bitOr => .pipe
  | .bitXor => .caret
  | .bitAnd => .ampersand
  | .floorDiv => .doubleSlash

def PrefixOp.kind : PrefixOp → Token.Kind
  | .invert => .mark .tilde
  | .not => .keyword .kwNot
  | .uadd => .mark .plus
  | .usub => .mark .minus

def ComparisonOp.kinds : ComparisonOp → List Token.Kind
  | .eq => [.mark .equalEqual]
  | .notEq => [.mark .notEqual]
  | .lt => [.mark .less]
  | .ltE => [.mark .lessEqual]
  | .gt => [.mark .greater]
  | .gtE => [.mark .greaterEqual]
  | .is => [.keyword .kwIs]
  | .isNot => [.keyword .kwIs, .keyword .kwNot]
  | .isIn => [.keyword .kwIn]
  | .notIn => [.keyword .kwNot, .keyword .kwIn]

def Constant.kind : Constant → Token.Kind
  | .none => .keyword .kwNone
  | .bool true => .keyword .kwTrue
  | .bool false => .keyword .kwFalse
  | .int value => .int value
  | .float value => .float value
  | .str value => .str value

namespace Node

def joined (separator : Token.Kind) : List (List Token.Kind) → List Token.Kind
  | [] => []
  | first :: others => first ++ others.flatMap (separator :: ·)

def commaTokens (items : List (List Token.Kind)) : List Token.Kind := joined (.mark .comma) items

def enclosed (kinds : List Token.Kind) : List Token.Kind := .mark .leftParen :: kinds ++ [.mark .rightParen]

def guarded (level : Precedence) (node : Node) (kinds : List Token.Kind) : List Token.Kind :=
  if node.precedence.rank < level.rank then enclosed kinds else kinds

def paramTokens (params : List String) (defaults : List (List Token.Kind)) : List Token.Kind :=
  let required := params.length - defaults.length
  commaTokens ((params.take required).map (fun id => [.name id]) ++
    List.zipWith (fun id kinds => .name id :: .mark .equal :: kinds) (params.drop required) defaults)

def elementTokens (elements : List (List Token.Kind)) : List Token.Kind :=
  commaTokens elements ++ (if elements.length = 1 then [.mark .comma] else [])

mutual
def tokens : Node → List Token.Kind
  | .boolOp op values => joined (.keyword op.word) (tokensAll op.precedence.next values)
  | .binOp left op right =>
      guarded op.operands.1 left (tokens left) ++ .mark op.mark :: guarded op.operands.2 right (tokens right)
  | .unaryOp op operand => op.kind :: guarded op.precedence operand (tokens operand)
  | .lambda params defaults body =>
      .keyword .kwLambda :: paramTokens params (tokensAll .test defaults) ++
        .mark .colon :: guarded .test body (tokens body)
  | .ifExp test body orelse =>
      guarded .or body (tokens body) ++ .keyword .kwIf :: guarded .or test (tokens test) ++
        .keyword .kwElse :: guarded .test orelse (tokens orelse)
  | .dict keys values =>
      .mark .leftBrace :: commaTokens (List.zipWith (fun key value => key ++ .mark .colon :: value)
        (tokensAll .test keys) (tokensAll .test values)) ++ [.mark .rightBrace]
  | .set elements => .mark .leftBrace :: commaTokens (tokensAll .test elements) ++ [.mark .rightBrace]
  | .compare left ops comparators =>
      guarded .bitOr left (tokens left) ++
        (List.zipWith (fun op kinds => ComparisonOp.kinds op ++ kinds) ops (tokensAll .bitOr comparators)).flatten
  | .call function args keywords =>
      guarded .atom function (tokens function) ++
        enclosed (commaTokens (tokensAll .test args ++ tokensKeywords keywords))
  | .constant value => [value.kind]
  | .attr value id _ =>
      (if value.isNumber then enclosed (tokens value) else guarded .atom value (tokens value)) ++
        [.mark .dot, .name id]
  | .subscript value (.tuple elements _) _ =>
      guarded .atom value (tokens value) ++ .mark .leftBracket ::
        (if elements.isEmpty then enclosed [] else elementTokens (tokensAll .test elements)) ++
        [.mark .rightBracket]
  | .subscript value index _ =>
      guarded .atom value (tokens value) ++ .mark .leftBracket :: guarded .tuple index (tokens index) ++
        [.mark .rightBracket]
  | .name id _ => [.name id]
  | .list elements _ => .mark .leftBracket :: commaTokens (tokensAll .test elements) ++ [.mark .rightBracket]
  | .tuple elements _ => enclosed (elementTokens (tokensAll .test elements))
  | .slice lower upper step =>
      tokensOption [] lower ++ .mark .colon :: tokensOption [] upper ++ tokensOption [.mark .colon] step
  | .program _ | .functionDef .. | .returnStmt _ | .assign .. | .augAssign .. | .forStmt ..
  | .whileStmt .. | .ifStmt .. | .assertStmt .. | .raiseStmt _ | .exprStmt _ | .passStmt
  | .breakStmt | .continueStmt => []

def tokensAll (level : Precedence) : List Node → List (List Token.Kind)
  | [] => []
  | node :: rest => guarded level node (tokens node) :: tokensAll level rest

def tokensOption (mark : List Token.Kind) : Option Node → List Token.Kind
  | none => []
  | some node => mark ++ guarded .test node (tokens node)

def tokensKeywords : List (String × Node) → List (List Token.Kind)
  | [] => []
  | (id, value) :: rest => (.name id :: .mark .equal :: guarded .test value (tokens value)) :: tokensKeywords rest
end

def tokensAt (level : Precedence) (node : Node) : List Token.Kind := guarded level node (tokens node)

theorem tokens_all_eq (level : Precedence) (nodes : List Node) :
    tokensAll level nodes = nodes.map (tokensAt level) := by
  induction nodes with
  | nil => rfl
  | cons node rest ih => rw [tokensAll, ih, List.map_cons, tokensAt]

def indexText : Node → List Char
  | .tuple elements _ =>
      if elements.isEmpty then parenthesized [] else spellElements (spellAll .test elements)
  | index => expression .tuple index

def indexTokens : Node → List Token.Kind
  | .tuple elements _ => if elements.isEmpty then enclosed [] else elementTokens (tokensAll .test elements)
  | index => tokensAt .tuple index

theorem spell_attr (value : Node) (id : String) (ctx : Context) :
    spell (.attr value id ctx) =
      (if value.isNumber then parenthesized (spell value) else expression .atom value) ++ '.' :: id.toList := rfl

theorem tokens_attr (value : Node) (id : String) (ctx : Context) :
    tokens (.attr value id ctx) =
      (if value.isNumber then enclosed (tokens value) else tokensAt .atom value) ++ [.mark .dot, .name id] := rfl

theorem spell_subscript (value index : Node) (ctx : Context) :
    spell (.subscript value index ctx) = expression .atom value ++ '[' :: indexText index ++ [']'] := by
  cases index <;> rfl

theorem tokens_subscript (value index : Node) (ctx : Context) :
    tokens (.subscript value index ctx) =
      tokensAt .atom value ++ .mark .leftBracket :: indexTokens index ++ [.mark .rightBracket] := by
  cases index <;> rfl

end Node

end Mutagen
