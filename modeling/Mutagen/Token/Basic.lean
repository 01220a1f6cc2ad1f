import Mutagen.Binary64.Layout
import Mutagen.Position
import Mutagen.Syntax.Operator

set_option autoImplicit false

namespace Mutagen

inductive Keyword where
  | kwFalse
  | kwNone
  | kwTrue
  | kwAnd
  | kwOr
  | kwNot
  | kwIf
  | kwElif
  | kwElse
  | kwWhile
  | kwFor
  | kwIn
  | kwIs
  | kwDef
  | kwReturn
  | kwLambda
  | kwPass
  | kwBreak
  | kwContinue
  | kwAssert
  | kwRaise
deriving DecidableEq, Repr

namespace Keyword

def all : List Keyword :=
  [.kwFalse, .kwNone, .kwTrue, .kwAnd, .kwOr, .kwNot, .kwIf, .kwElif, .kwElse, .kwWhile, .kwFor,
    .kwIn, .kwIs, .kwDef, .kwReturn, .kwLambda, .kwPass, .kwBreak, .kwContinue, .kwAssert, .kwRaise]

def spelling : Keyword → String
  | .kwFalse => "False"
  | .kwNone => "None"
  | .kwTrue => "True"
  | .kwAnd => "and"
  | .kwOr => "or"
  | .kwNot => "not"
  | .kwIf => "if"
  | .kwElif => "elif"
  | .kwElse => "else"
  | .kwWhile => "while"
  | .kwFor => "for"
  | .kwIn => "in"
  | .kwIs => "is"
  | .kwDef => "def"
  | .kwReturn => "return"
  | .kwLambda => "lambda"
  | .kwPass => "pass"
  | .kwBreak => "break"
  | .kwContinue => "continue"
  | .kwAssert => "assert"
  | .kwRaise => "raise"

def label : Keyword → String
  | .kwFalse => "False"
  | .kwNone => "None"
  | .kwTrue => "True"
  | .kwAnd => "And"
  | .kwOr => "Or"
  | .kwNot => "Not"
  | .kwIf => "If"
  | .kwElif => "Elif"
  | .kwElse => "Else"
  | .kwWhile => "While"
  | .kwFor => "For"
  | .kwIn => "In"
  | .kwIs => "Is"
  | .kwDef => "Def"
  | .kwReturn => "Return"
  | .kwLambda => "Lambda"
  | .kwPass => "Pass"
  | .kwBreak => "Break"
  | .kwContinue => "Continue"
  | .kwAssert => "Assert"
  | .kwRaise => "Raise"

end Keyword

inductive Mark where
  | plus
  | minus
  | star
  | slash
  | doubleSlash
  | percent
  | doubleStar
  | leftShift
  | rightShift
  | ampersand
  | pipe
  | caret
  | tilde
  | less
  | greater
  | lessEqual
  | greaterEqual
  | equalEqual
  | notEqual
  | equal
  | leftParen
  | rightParen
  | leftBracket
  | rightBracket
  | leftBrace
  | rightBrace
  | comma
  | colon
  | dot
  | semicolon
deriving DecidableEq, Repr

namespace Mark

def spelling : Mark → String
  | .plus => "+"
  | .minus => "-"
  | .star => "*"
  | .slash => "/"
  | .doubleSlash => "//"
  | .percent => "%"
  | .doubleStar => "**"
  | .leftShift => "<<"
  | .rightShift => ">>"
  | .ampersand => "&"
  | .pipe => "|"
  | .caret => "^"
  | .tilde => "~"
  | .less => "<"
  | .greater => ">"
  | .lessEqual => "<="
  | .greaterEqual => ">="
  | .equalEqual => "=="
  | .notEqual => "!="
  | .equal => "="
  | .leftParen => "("
  | .rightParen => ")"
  | .leftBracket => "["
  | .rightBracket => "]"
  | .leftBrace => "\x7b"
  | .rightBrace => "\x7d"
  | .comma => ","
  | .colon => ":"
  | .dot => "."
  | .semicolon => ";"

def label : Mark → String
  | .plus => "Plus"
  | .minus => "Minus"
  | .star => "Star"
  | .slash => "Slash"
  | .doubleSlash => "DoubleSlash"
  | .percent => "Percent"
  | .doubleStar => "DoubleStar"
  | .leftShift => "LeftShift"
  | .rightShift => "RightShift"
  | .ampersand => "Ampersand"
  | .pipe => "Pipe"
  | .caret => "Caret"
  | .tilde => "Tilde"
  | .less => "Less"
  | .greater => "Greater"
  | .lessEqual => "LessEqual"
  | .greaterEqual => "GreaterEqual"
  | .equalEqual => "EqEqual"
  | .notEqual => "NotEqual"
  | .equal => "Equal"
  | .leftParen => "LParen"
  | .rightParen => "RParen"
  | .leftBracket => "LBracket"
  | .rightBracket => "RBracket"
  | .leftBrace => "LBrace"
  | .rightBrace => "RBrace"
  | .comma => "Comma"
  | .colon => "Colon"
  | .dot => "Dot"
  | .semicolon => "Semicolon"

def isOpening : Mark → Bool
  | .leftParen | .leftBracket | .leftBrace => true
  | _ => false

def isClosing : Mark → Bool
  | .rightParen | .rightBracket | .rightBrace => true
  | _ => false

end Mark

namespace Token

inductive Kind where
  | name (text : String)
  | int (value : Nat)
  | float (value : Binary64)
  | str (value : String)
  | keyword (word : Keyword)
  | reserved (word : String)
  | mark (mark : Mark)
  | augAssign (op : ArithmeticOp)
  | newline
  | indent
  | dedent
  | eof
deriving DecidableEq, Repr

namespace Kind

def label : Kind → String
  | .name _ => "Name"
  | .int _ => "Int"
  | .float _ => "Float"
  | .str _ => "Str"
  | .keyword word => word.label
  | .reserved _ => "Reserved"
  | .mark m => m.label
  | .augAssign _ => "AugAssign"
  | .newline => "Newline"
  | .indent => "Indent"
  | .dedent => "Dedent"
  | .eof => "Eof"

def describe : Kind → String
  | .name text => "name '" ++ text ++ "'"
  | .int value => "integer " ++ toString value
  | .float value => "float " ++ String.ofList (value.text .plain)
  | .str _ => "string"
  | .reserved word => "'" ++ word ++ "'"
  | .augAssign op => "'" ++ op.symbol ++ "='"
  | .newline => "newline"
  | .indent => "indent"
  | .dedent => "dedent"
  | .eof => "end of input"
  | other => other.label

/-- Visible tokens stand for text of their own; the others only arrange it. -/
def isVisible : Kind → Bool
  | .newline | .indent | .dedent | .eof => false
  | _ => true

end Kind

end Token

structure Token where
  kind : Token.Kind
  span : Span
deriving DecidableEq, Repr

end Mutagen
