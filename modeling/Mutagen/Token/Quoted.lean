import Mutagen.Token.Fault

set_option autoImplicit false

namespace Mutagen.Quoted

def quoteFor (text : List Char) : Char :=
  if text.contains '\'' && !text.contains '"' then '"' else '\''

def isControl (c : Char) : Bool := c.toNat < 0x20 || c.toNat == 0x7f

def encodeChar (quote c : Char) : List Char :=
  if c = '\\' then ['\\', '\\']
  else if c = '\n' then ['\\', 'n']
  else if c = '\r' then ['\\', 'r']
  else if c = '\t' then ['\\', 't']
  else if c = quote then ['\\', c]
  else if isControl c then ['\\', 'x', Nat.digitChar (c.toNat / 16), Nat.digitChar (c.toNat % 16)]
  else [c]

def encode (text : List Char) : List Char :=
  let quote := quoteFor text
  quote :: text.flatMap (encodeChar quote) ++ [quote]

def codePoint (places : Nat) (text : List Char) : Except Fault Char :=
  let digits := text.take places
  if digits.length = places && digits.all (isDigitOf 16) then
    if (valueOf 16 digits).isValidChar then .ok (Char.ofNat (valueOf 16 digits))
    else .error ⟨.invalidEscape, text⟩
  else .error ⟨.truncatedEscape, text⟩

/-- What the escape at the start of `text`, behind its backslash, stands for, and how many
characters it takes. An escape without a meaning stands for itself. -/
def escape (unclosed : Fault) : List Char → Except Fault (List Char × Nat)
  | [] => .error unclosed
  | c :: rest =>
      if c = '\n' then .ok ([], 1)
      else if c = 'n' then .ok (['\n'], 1)
      else if c = 't' then .ok (['\t'], 1)
      else if c = 'r' then .ok (['\r'], 1)
      else if c = 'a' then .ok (['\x07'], 1)
      else if c = 'b' then .ok (['\x08'], 1)
      else if c = 'f' then .ok (['\x0c'], 1)
      else if c = 'v' then .ok (['\x0b'], 1)
      else if c = '\\' || c = '\'' || c = '"' then .ok ([c], 1)
      else if c = 'x' then (codePoint 2 rest).map fun value => ([value], 3)
      else if c = 'u' then (codePoint 4 rest).map fun value => ([value], 5)
      else if c = 'U' then (codePoint 8 rest).map fun value => ([value], 9)
      else if isDigitOf 8 c then
        let digits := c :: (rest.take 2).takeWhile (isDigitOf 8)
        .ok ([Char.ofNat (valueOf 8 digits)], digits.length)
      else .ok (['\\', c], 1)

def readBody (unclosed : Fault) (quote : Char) (triple : Bool) (text : List Char) :
    Except Fault (List Char × List Char) :=
  match text with
  | [] => .error unclosed
  | c :: rest =>
      if c = '\\' then
        match escape unclosed rest with
        | .error fault => .error fault
        | .ok (value, used) =>
            (readBody unclosed quote triple (rest.drop used)).map fun (tail, after) =>
              (value ++ tail, after)
      else if c = '\n' && !triple then .error unclosed
      else if c = quote && !triple then .ok ([], rest)
      else if c = quote && rest.take 2 = [quote, quote] then .ok ([], rest.drop 2)
      else (readBody unclosed quote triple rest).map fun (tail, after) => (c :: tail, after)
termination_by text.length
decreasing_by all_goals simp only [List.length_drop, List.length_cons]; omega

def read (quote : Char) (text : List Char) : Except Fault (List Char × List Char) :=
  let unclosed : Fault := ⟨.unterminatedString, text⟩
  if text.take 3 = [quote, quote, quote] then readBody unclosed quote true (text.drop 3)
  else readBody unclosed quote false (text.drop 1)

theorem read_body_suffix {unclosed : Fault} {quote : Char} {triple : Bool}
    {text value after : List Char}
    (h : readBody unclosed quote triple text = .ok (value, after)) : after <:+ text := by
  fun_induction readBody unclosed quote triple text generalizing value with
  | case1 => simp at h
  | case2 => simp at h
  | case3 rest v used hu ih =>
      obtain ⟨⟨tail, r⟩, hr, he⟩ := ok_of_map h
      simp only [Prod.mk.injEq] at he
      exact ((ih (he.2 ▸ hr)).trans (List.drop_suffix used rest)).trans (List.suffix_cons _ rest)
  | case4 => simp at h
  | case5 c rest => simp at h; simp [← h.2]
  | case6 c rest => 
      simp only [Except.ok.injEq, Prod.mk.injEq] at h
      exact h.2 ▸ (List.drop_suffix 2 rest).trans (List.suffix_cons _ rest)
  | case7 c rest _ _ _ _ ih =>
      obtain ⟨⟨tail, r⟩, hr, he⟩ := ok_of_map h
      simp only [Prod.mk.injEq] at he
      exact (ih (he.2 ▸ hr)).trans (List.suffix_cons _ rest)

theorem read_is_rest {quote c : Char} {rest value after : List Char}
    (h : read quote (c :: rest) = .ok (value, after)) : IsRest after (c :: rest) := by
  unfold read at h
  split at h
  · exact is_rest_cons ((read_body_suffix h).trans (List.drop_suffix 2 rest))
  · exact is_rest_cons (read_body_suffix h)

end Mutagen.Quoted
