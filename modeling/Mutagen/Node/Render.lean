import Mutagen.Node.Precedence

set_option autoImplicit false

namespace Mutagen.Node

def commaList (items : List (List Char)) : List Char := List.intercalate ", ".toList items

def parenthesized (text : List Char) : List Char := '(' :: text ++ [')']

def protect (level : Precedence) (node : Node) (text : List Char) : List Char :=
  if node.precedence.rank < level.rank then parenthesized text else text

def spellParams (params : List String) (defaults : List (List Char)) : List Char :=
  let required := params.length - defaults.length
  commaList ((params.take required).map String.toList ++
    List.zipWith (fun id text => id.toList ++ '=' :: text) (params.drop required) defaults)

def spellElements (elements : List (List Char)) : List Char :=
  commaList elements ++ (if elements.length = 1 then [','] else [])

def spaced (symbol : String) : List Char := ' ' :: symbol.toList ++ [' ']

def isNumber : Node → Bool
  | .constant (.int _) | .constant (.float _) => true
  | _ => false

mutual
def spell : Node → List Char
  | .boolOp op values =>
      List.intercalate (spaced op.symbol) (spellAll op.precedence.next values)
  | .binOp left op right =>
      protect op.operands.1 left (spell left) ++ spaced op.symbol ++
        protect op.operands.2 right (spell right)
  | .unaryOp op operand => op.symbol.toList ++ protect op.precedence operand (spell operand)
  | .lambda params defaults body =>
      "lambda".toList ++
        (if params.isEmpty then [] else ' ' :: spellParams params (spellAll .test defaults)) ++
        ": ".toList ++ protect .test body (spell body)
  | .ifExp test body orelse =>
      protect .or body (spell body) ++ spaced "if" ++ protect .or test (spell test) ++
        spaced "else" ++ protect .test orelse (spell orelse)
  | .dict keys values =>
      '\x7b' :: commaList (List.zipWith (fun key value => key ++ ": ".toList ++ value)
        (spellAll .test keys) (spellAll .test values)) ++ ['\x7d']
  | .set elements =>
      if elements.isEmpty then "\x7b*()\x7d".toList
      else '\x7b' :: commaList (spellAll .test elements) ++ ['\x7d']
  | .compare left ops comparators =>
      protect .bitOr left (spell left) ++
        (List.zipWith (fun op text => spaced (ComparisonOp.symbol op) ++ text) ops
          (spellAll .bitOr comparators)).flatten
  | .call function args keywords =>
      protect .atom function (spell function) ++
        parenthesized (commaList (spellAll .test args ++ spellKeywords keywords))
  | .constant value => value.spelling
  | .attr value id _ =>
      (if value.isNumber then parenthesized (spell value) else protect .atom value (spell value)) ++
        '.' :: id.toList
  | .subscript value (.tuple elements _) _ =>
      protect .atom value (spell value) ++ '[' ::
        (if elements.isEmpty then parenthesized []
          else spellElements (spellAll .test elements)) ++ [']']
  | .subscript value index _ =>
      protect .atom value (spell value) ++ '[' :: protect .tuple index (spell index) ++ [']']
  | .name id _ => id.toList
  | .list elements _ => '[' :: commaList (spellAll .test elements) ++ [']']
  | .tuple elements _ => parenthesized (spellElements (spellAll .test elements))
  | .slice lower upper step =>
      spellOption [] lower ++ ':' :: spellOption [] upper ++ spellOption [':'] step
  | .program _ | .functionDef .. | .returnStmt _ | .assign .. | .augAssign .. | .forStmt ..
  | .whileStmt .. | .ifStmt .. | .assertStmt .. | .raiseStmt _ | .exprStmt _ | .passStmt
  | .breakStmt | .continueStmt => []

def spellAll (level : Precedence) : List Node → List (List Char)
  | [] => []
  | node :: rest => protect level node (spell node) :: spellAll level rest

def spellOption (mark : List Char) : Option Node → List Char
  | none => []
  | some node => mark ++ protect .test node (spell node)

def spellKeywords : List (String × Node) → List (List Char)
  | [] => []
  | (id, value) :: rest =>
      (id.toList ++ '=' :: protect .test value (spell value)) :: spellKeywords rest
end

def expression (level : Precedence) (node : Node) : List Char := protect level node (spell node)

def indent (line : List Char) : List Char := "    ".toList ++ line

/-- The lines of a block; an empty block needs a statement in its place. -/
def block (body : List Node) (lines : List (List Char)) : List (List Char) :=
  if body.isEmpty then [indent "pass".toList] else lines.map indent

def elseBranch : List Node → List (List Char) → List (List Char)
  | [], _ => []
  | [.ifStmt ..], first :: rest => ("el".toList ++ first) :: rest
  | orelse, lines => "else:".toList :: block orelse lines

mutual
def lines : Node → List (List Char)
  | .program body => linesAll body
  | .functionDef id params defaults body =>
      ("def ".toList ++ id.toList ++
        parenthesized (spellParams params (defaults.map (expression .test))) ++ [':']) ::
        block body (linesAll body)
  | .returnStmt none => ["return".toList]
  | .returnStmt (some value) => ["return ".toList ++ expression .tuple value]
  | .assign targets value =>
      [(targets.map fun target => expression .tuple target ++ spaced "=").flatten ++
        expression .tuple value]
  | .augAssign target op value =>
      [expression .tuple target ++ spaced (op.symbol ++ "=") ++ expression .tuple value]
  | .forStmt target iterable body =>
      ("for ".toList ++ expression .tuple target ++ spaced "in" ++ expression .tuple iterable ++
        [':']) :: block body (linesAll body)
  | .whileStmt test body =>
      ("while ".toList ++ expression .test test ++ [':']) :: block body (linesAll body)
  | .ifStmt test body orelse =>
      ("if ".toList ++ expression .test test ++ [':']) :: block body (linesAll body) ++
        elseBranch orelse (linesAll orelse)
  | .assertStmt test none => ["assert ".toList ++ expression .test test]
  | .assertStmt test (some message) =>
      ["assert ".toList ++ expression .test test ++ ", ".toList ++ expression .test message]
  | .raiseStmt none => ["raise".toList]
  | .raiseStmt (some exception) => ["raise ".toList ++ expression .test exception]
  | .exprStmt value => [expression .tuple value]
  | .passStmt => ["pass".toList]
  | .breakStmt => ["break".toList]
  | .continueStmt => ["continue".toList]
  | node => [expression .tuple node]

def linesAll : List Node → List (List Char)
  | [] => []
  | node :: rest => lines node ++ linesAll rest
end

def joinLines (lines : List (List Char)) : List Char :=
  List.intercalate ['\n'] (lines.dropWhile List.isEmpty)

def render (root : Node) : List Char := joinLines (lines root)

theorem spell_all_eq (level : Precedence) (nodes : List Node) :
    spellAll level nodes = nodes.map (expression level) := by
  induction nodes with
  | nil => rfl
  | cons node rest ih => rw [spellAll, ih, List.map_cons, expression]

theorem lines_all_eq (nodes : List Node) : linesAll nodes = nodes.flatMap lines := by
  induction nodes with
  | nil => rfl
  | cons node rest ih => rw [linesAll, ih, List.flatMap_cons]

end Mutagen.Node
