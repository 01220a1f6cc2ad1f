import Mutagen.Config.Basic
import Mutagen.Token.Number

set_option autoImplicit false

namespace Mutagen.Config

def splitLines : List Char → List (List Char)
  | [] => [[]]
  | '\n' :: rest => [] :: splitLines rest
  | '\r' :: '\n' :: rest => [] :: splitLines rest
  | c :: rest =>
      match splitLines rest with
      | [] => [[c]]
      | line :: lines => (c :: line) :: lines

def isSpace (c : Char) : Bool := c == ' ' || c == '\t'

def isPrintable (c : Char) : Bool := c == '\t' || 0x20 ≤ c.toNat && c.toNat != 0x7f

def isLineEnd (text : List Char) : Bool :=
  match text.dropWhile isSpace with
  | [] => true
  | '#' :: comment => comment.all isPrintable
  | _ => false

def isBareKey (c : Char) : Bool := c.isAlphanum || c == '-' || c == '_'

def stringEscape? : List Char → Option (Char × Nat)
  | 'b' :: _ => some ('\x08', 1)
  | 't' :: _ => some ('\t', 1)
  | 'n' :: _ => some ('\n', 1)
  | 'f' :: _ => some ('\x0c', 1)
  | 'r' :: _ => some ('\r', 1)
  | '"' :: _ => some ('"', 1)
  | '\\' :: _ => some ('\\', 1)
  | 'u' :: digits => scalar? (digits.take 4) 4
  | 'U' :: digits => scalar? (digits.take 8) 8
  | _ => none
where
  scalar? (digits : List Char) (places : Nat) : Option (Char × Nat) :=
    if digits.length = places && digits.all (isDigitOf 16) && (valueOf 16 digits).isValidChar then
      some (Char.ofNat (valueOf 16 digits), places + 1)
    else none

def basicString? (text : List Char) : Option (List Char × List Char) :=
  match text with
  | [] => none
  | c :: rest =>
      if c = '"' then some ([], rest)
      else if c = '\\' then
        match stringEscape? rest with
        | none => none
        | some (value, used) =>
            (basicString? (rest.drop used)).map fun (tail, after) => (value :: tail, after)
      else if isPrintable c then
        (basicString? rest).map fun (tail, after) => (c :: tail, after)
      else none
termination_by text.length
decreasing_by all_goals simp only [List.length_drop, List.length_cons]; omega

def literalString? : List Char → Option (List Char × List Char)
  | [] => none
  | c :: rest =>
      if c = '\'' then some ([], rest)
      else if isPrintable c then
        (literalString? rest).map fun (tail, after) => (c :: tail, after)
      else none

def readKey? : List Char → Option (List Char × List Char)
  | '"' :: rest => basicString? rest
  | '\'' :: rest => literalString? rest
  | text => some (text.takeWhile isBareKey, text.dropWhile isBareKey)

def digits? (isDigit : Char → Bool) (text : List Char) : Option (List Char × List Char) :=
  match Number.digitRun isDigit false text with
  | .ok (digits, after) => if digits.isEmpty then none else some (digits, after)
  | .error _ => none

def signed (negative : Bool) (magnitude : Nat) : Binary64 :=
  .ofMagnitude (if negative then 2 ^ 63 + magnitude else magnitude)

def ofInteger? (negative : Bool) (value : Nat) : Option Binary64 :=
  if value < 2 ^ 63 || negative && value = 2 ^ 63 then
    some (signed (negative && value != 0) (Binary64.nearestDecimal value 0))
  else none

def readPlaces? : List Char → Option (Option (List Char) × List Char)
  | '.' :: rest => (digits? Char.isDigit rest).map fun (digits, after) => (some digits, after)
  | text => some (none, text)

def readPower? : List Char → Option (Option Int × List Char)
  | [] => some (none, [])
  | mark :: rest =>
      if mark = 'e' || mark = 'E' then
        match rest with
        | '-' :: text => (digits? Char.isDigit text).map fun (digits, after) =>
            (some (-(valueOf 10 digits : Int)), after)
        | '+' :: text => power text
        | text => power text
      else some (none, mark :: rest)
where
  power (text : List Char) : Option (Option Int × List Char) :=
    (digits? Char.isDigit text).map fun (digits, after) => (some (valueOf 10 digits : Int), after)

def readDecimal? (negative : Bool) (text : List Char) : Option (Binary64 × List Char) := do
  let (whole, behindWhole) ← digits? Char.isDigit text
  let (places, behindPlaces) ← readPlaces? behindWhole
  let (power, after) ← readPower? behindPlaces
  if whole.head? = some '0' && 1 < whole.length then none
  else if places.isSome || power.isSome then
    let fraction := places.getD []
    let magnitude := Binary64.nearestDecimal (valueOf 10 (whole ++ fraction))
      (power.getD 0 - fraction.length)
    if magnitude = Binary64.infinite && !negative then none
    else return (signed negative magnitude, after)
  else return (← ofInteger? negative (valueOf 10 whole), after)

def readRadix? (radix : Nat) (text : List Char) : Option (Binary64 × List Char) := do
  let (digits, after) ← digits? (isDigitOf radix) text
  return (← ofInteger? false (valueOf radix digits), after)

def readUnsigned? (negative : Bool) : List Char → Option (Binary64 × List Char)
  | 'i' :: 'n' :: 'f' :: after => some (signed negative Binary64.infinite, after)
  | 'n' :: 'a' :: 'n' :: after => some (signed negative (Binary64.infinite + 2 ^ 51), after)
  | text => readDecimal? negative text

def readNumber? : List Char → Option (Binary64 × List Char)
  | '-' :: text => readUnsigned? true text
  | '+' :: text => readUnsigned? false text
  | '0' :: 'x' :: text => readRadix? 16 text
  | '0' :: 'o' :: text => readRadix? 8 text
  | '0' :: 'b' :: text => readRadix? 2 text
  | text => readUnsigned? false text

def readPair? (line : List Char) : Option (Key × Binary64) := do
  let (spelled, behindKey) ← readKey? line
  let key ← Key.all.find? (·.name.toList == spelled)
  match behindKey.dropWhile isSpace with
  | '=' :: value =>
      let (number, after) ← readNumber? (value.dropWhile isSpace)
      if isLineEnd after then return (key, number) else none
  | _ => none

def readPairs? : List (List Char) → Option (List (Key × Binary64))
  | [] => some []
  | line :: rest => do
      let pairs ← readPairs? rest
      if isLineEnd line then return pairs
      else
        let pair ← readPair? (line.dropWhile isSpace)
        if pairs.any (·.1 == pair.1) then none else return pair :: pairs

def valueOfKey (pairs : List (Key × Binary64)) (key : Key) : Binary64 :=
  (pairs.lookup key).getD Probability.half.value

def ofToml (source : String) : Except Error Config :=
  let text := match source.toList with
    | '\ufeff' :: rest => rest
    | text => text
  match readPairs? (splitLines text) with
  | none => .error .malformed
  | some pairs =>
      ofFloats (valueOfKey pairs .pVariable) (valueOfKey pairs .pSwapBranches)
        (valueOfKey pairs .pClearDict)

def toToml (config : Config) : String :=
  String.ofList (Key.all.flatMap fun key =>
    key.name.toList ++ " = ".toList ++ (config.get key).value.text .fractional ++ ['\n'])

end Mutagen.Config
