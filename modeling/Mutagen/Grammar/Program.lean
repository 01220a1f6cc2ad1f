import Mutagen.Grammar.Statement
import Mutagen.Node.Walk
import Mutagen.Token.Lexer
import Mutagen.Tree

set_option autoImplicit false

namespace Mutagen.Grammar

open Mutagen.Parser

/-- The levels of nesting in a text, and the levels of a statement's tree. -/
def maxDepth : Nat := 100

def topStatement : Parser (List Node) := do
  if (← kind) = .newline then
    skip
    return []
  else
    let place ← span
    let statements ← statement (nested maxDepth) (blocksFor maxDepth)
    require (statements.all (·.depth ≤ maxDepth)) .statementTooDeep place
    return statements

theorem strict_top_statement : topStatement.Strict :=
  strict_bind_right fun _ => strict_ite (strict_bind_left strict_skip)
    (strict_bind_right fun _ =>
      strict_bind_left (strict_statement (blocksFor maxDepth) (strict_test maxDepth)))

def program : Parser (List Node) := untilKind (· = .eof) topStatement strict_top_statement

def treeOf (tokens : List Token) : Except ParseError Tree :=
  (program.run tokens).map fun (body, _) => .ofBody body

end Mutagen.Grammar

namespace Mutagen

def Tree.parse (source : String) : Except ParseError Tree := do
  Grammar.treeOf (← tokenize source)

end Mutagen
