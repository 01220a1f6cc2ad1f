import Mutagen.Arena.Statement
import Mutagen.Grammar.Program

set_option autoImplicit false

namespace Mutagen.Builder

open Parser (kind span skip require)
open Grammar (maxDepth)

def topStatement : Builder (List NodeId) := do
  if (← kind) = .newline then
    skip
    return []
  else
    let place ← span
    let statements ← statement (nested maxDepth) (blocksFor maxDepth)
    let a ← get
    require (statements.all fun id => (a.depth? id).any (· ≤ maxDepth)) .statementTooDeep place
    return statements

theorem strict_top_statement : Strict topStatement :=
  strict_bind_right fun _ => strict_ite (strict_bind_left strict_skip)
    (strict_bind_right fun _ =>
      strict_bind_left (strict_statement (blocksFor maxDepth) (strict_test maxDepth)))

/-- A program's statements are stored before the program's own cell gets to know them. -/
def program : Builder Unit := do
  let body ← untilKind (· = .eof) topStatement strict_top_statement
  update (← get).root (.program body)

def arenaOf (tokens : List Token) : Except ParseError Arena :=
  ((program .new).run tokens).map (·.1.2)

end Mutagen.Builder

namespace Mutagen

def Arena.parse (source : String) : Except ParseError Arena := do
  Builder.arenaOf (← tokenize source)

end Mutagen
