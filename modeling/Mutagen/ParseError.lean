import Mutagen.Token.Basic

set_option autoImplicit false

namespace Mutagen

inductive Construct where
  | word (text : String)
  | stringPrefix (text : String)
  | imaginaryLiteral
  | variadicParameters
  | parameterAnnotations
  | argumentUnpacking
  | dictUnpacking
  | generatorExpressions
  | listComprehensions
  | setComprehensions
  | dictComprehensions
  | whileElse
  | forElse
deriving DecidableEq, Repr

def Construct.describe : Construct → String
  | .word text => "'" ++ text ++ "'"
  | .stringPrefix text => "string prefix '" ++ text ++ "'"
  | .imaginaryLiteral => "imaginary literal"
  | .variadicParameters => "variadic parameters"
  | .parameterAnnotations => "parameter annotations"
  | .argumentUnpacking => "argument unpacking"
  | .dictUnpacking => "dict unpacking"
  | .generatorExpressions => "generator expressions"
  | .listComprehensions => "list comprehensions"
  | .setComprehensions => "set comprehensions"
  | .dictComprehensions => "dict comprehensions"
  | .whileElse => "'while ... else'"
  | .forElse => "'for ... else'"

inductive Expected where
  | keyword (word : Keyword)
  | mark (mark : Mark)
  | name
  | expression
  | newline
  | indentedBlock
  | dedent
deriving DecidableEq, Repr

def Expected.describe : Expected → String
  | .keyword word => "'" ++ word.spelling ++ "'"
  | .mark m => "'" ++ m.spelling ++ "'"
  | .name => "name"
  | .expression => "expression"
  | .newline => "newline"
  | .indentedBlock => "indented block"
  | .dedent => "dedent"

namespace ParseError

inductive Cause where
  | inconsistentTabs
  | unmatchedUnindent
  | invalidInteger (text : String)
  | integerTooLarge (text : String)
  | leadingZeros
  | misplacedSeparator
  | unterminatedString
  | truncatedEscape
  | invalidEscape
  | unexpectedCharacter (c : Char)
  | tooManyBrackets
  | unsupported (construct : Construct)
  | unexpected (expected : Expected) (found : Token.Kind)
  | unexpectedIndent
  | nestedTooDeeply
  | statementTooDeep
  | augmentedTarget
  | assignmentTarget
  | duplicateParameter (name : String)
  | defaultMissing
  | repeatedKeyword (name : String)
  | positionalAfterKeyword
deriving DecidableEq, Repr

def Cause.message : Cause → String
  | .inconsistentTabs => "inconsistent use of tabs and spaces in indentation"
  | .unmatchedUnindent => "unindent does not match any outer indentation level"
  | .invalidInteger text => "invalid integer literal '" ++ text ++ "'"
  | .integerTooLarge text => "integer literal '" ++ text ++ "' is too large"
  | .leadingZeros => "leading zeros in decimal integer literals are not permitted"
  | .misplacedSeparator => "invalid '_' in number literal"
  | .unterminatedString => "unterminated string literal"
  | .truncatedEscape => "truncated escape sequence"
  | .invalidEscape => "invalid escape sequence"
  | .unexpectedCharacter c => "unexpected character '" ++ c.toString ++ "'"
  | .tooManyBrackets => "too many nested parentheses"
  | .unsupported construct => "unsupported syntax: " ++ construct.describe
  | .unexpected expected found => "expected " ++ expected.describe ++ ", found " ++ found.describe
  | .unexpectedIndent => "unexpected indent"
  | .nestedTooDeeply => "too many nested expressions or blocks"
  | .statementTooDeep => "statement is nested too deeply"
  | .augmentedTarget => "illegal expression for augmented assignment"
  | .assignmentTarget => "cannot assign to expression"
  | .duplicateParameter name => "duplicate argument '" ++ name ++ "'"
  | .defaultMissing => "non-default argument follows default argument"
  | .repeatedKeyword name => "keyword argument repeated: " ++ name
  | .positionalAfterKeyword => "positional argument follows keyword argument"

end ParseError

structure ParseError where
  cause : ParseError.Cause
  line : Nat
  column : Nat
deriving DecidableEq, Repr

namespace ParseError

def atPosition (cause : Cause) (p : Position) : ParseError := ⟨cause, p.line, p.column⟩

def atSpan (cause : Cause) (span : Span) : ParseError := ⟨cause, span.line, span.column⟩

def message (e : ParseError) : String :=
  "parse error at line " ++ toString e.line ++ ", column " ++ toString e.column ++ ": " ++
    e.cause.message

end ParseError

end Mutagen
