import Mutagen.Text.Alphabet
import Mutagen.Token.Fault

set_option autoImplicit false

namespace Mutagen

def reservedWords : List String :=
  ["as", "async", "await", "class", "del", "except", "finally", "from", "global", "import",
    "nonlocal", "try", "with", "yield"]

namespace Token.Kind

def ofWord (word : String) : Kind :=
  match Keyword.all.find? (·.spelling == word) with
  | some found => .keyword found
  | none => if reservedWords.contains word then .reserved word else .name word

end Token.Kind

namespace Word

def isQuote (c : Char) : Bool := c == '\'' || c == '"'

/-- Reads a word; one that a quote follows directly would qualify a string literal. -/
def read (text : List Char) : Except Fault (Token.Kind × List Char) :=
  let word := String.ofList (text.takeWhile Text.continuesWord)
  let after := text.dropWhile Text.continuesWord
  if after.head?.any isQuote then .error ⟨.unsupported (.stringPrefix word), text⟩
  else .ok (.ofWord word, after)

theorem read_is_rest {c : Char} {rest after : List Char} {kind : Token.Kind}
    (hc : Text.continuesWord c = true) (h : read (c :: rest) = .ok (kind, after)) :
    IsRest after (c :: rest) := by
  unfold read at h
  simp only [List.dropWhile_cons_of_pos hc] at h
  split at h
  · simp at h
  · simp only [Except.ok.injEq, Prod.mk.injEq] at h
    exact h.2 ▸ is_rest_cons (List.dropWhile_suffix _)

end Word

namespace Mark

def table : List (String × Token.Kind) :=
  [("**=", .augAssign .pow), ("//=", .augAssign .floorDiv), ("<<=", .augAssign .leftShift),
    (">>=", .augAssign .rightShift), ("**", .mark .doubleStar), ("//", .mark .doubleSlash),
    ("<<", .mark .leftShift), (">>", .mark .rightShift), ("<=", .mark .lessEqual),
    (">=", .mark .greaterEqual), ("==", .mark .equalEqual), ("!=", .mark .notEqual),
    ("+=", .augAssign .add), ("-=", .augAssign .sub), ("*=", .augAssign .mult),
    ("/=", .augAssign .div), ("%=", .augAssign .mod), ("&=", .augAssign .bitAnd),
    ("|=", .augAssign .bitOr), ("^=", .augAssign .bitXor), ("+", .mark .plus),
    ("-", .mark .minus), ("*", .mark .star), ("/", .mark .slash), ("%", .mark .percent),
    ("&", .mark .ampersand), ("|", .mark .pipe), ("^", .mark .caret), ("~", .mark .tilde),
    ("<", .mark .less), (">", .mark .greater), ("=", .mark .equal), ("(", .mark .leftParen),
    (")", .mark .rightParen), ("[", .mark .leftBracket), ("]", .mark .rightBracket),
    ("\x7b", .mark .leftBrace), ("\x7d", .mark .rightBrace), (",", .mark .comma),
    (":", .mark .colon), (";", .mark .semicolon), (".", .mark .dot)]

def read (text : List Char) : Except Fault (Token.Kind × List Char) :=
  match table.find? (·.1.toList.isPrefixOf text) with
  | some (spelling, kind) => .ok (kind, text.drop spelling.length)
  | none => .error ⟨.unexpectedCharacter (text.headD '\x00'), text⟩

theorem table_spelling_ne {entry : String × Token.Kind} (h : entry ∈ table) :
    0 < entry.1.length := by
  have all : ∀ e ∈ table, 0 < e.1.length := by decide
  exact all entry h

theorem read_is_rest {text after : List Char} {kind : Token.Kind}
    (h : read text = .ok (kind, after)) : IsRest after text := by
  unfold read at h
  split at h
  · rename_i spelling k hf
    simp only [Except.ok.injEq, Prod.mk.injEq] at h
    have hp := List.find?_some hf
    have hl := table_spelling_ne (List.mem_of_find?_eq_some hf)
    have hle := (List.isPrefixOf_iff_prefix.1 hp).length_le
    simp only [String.length_toList] at hle hl
    refine h.2 ▸ ⟨List.drop_suffix _ _, ?_⟩
    simp only [List.length_drop]
    omega
  · simp at h

end Mark

end Mutagen
