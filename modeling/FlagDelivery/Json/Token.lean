import FlagDelivery.Json.Number

/-!
# Tokens of JSON text

`Token.chars` writes a token and `Token.scan?` cuts a text into its tokens, skipping blanks between them. A
string escapes the quote, the backslash and the characters below the space, and nothing else; reading also
accepts the other escapes of the standard, a pair of surrogates standing for one character and a lone one for none.
-/

namespace FlagDelivery

/-- A token of JSON text. -/
inductive Token where
  | openArray
  | closeArray
  | openObject
  | closeObject
  | comma
  | colon
  | null
  | bool (value : Bool)
  | num (value : Number)
  | str (value : String)
  deriving DecidableEq

namespace Token

/-- The lower-case hexadecimal digit of a number below 16. -/
def hexDigit (n : Nat) : Char := if n < 10 then Char.ofNat (48 + n) else Char.ofNat (87 + n)

/-- The value of a hexadecimal digit in either case. -/
def hexValue? (c : Char) : Option Nat :=
  if '0' ≤ c ∧ c ≤ '9' then some (c.toNat - 48)
  else if 'a' ≤ c ∧ c ≤ 'f' then some (c.toNat - 87)
  else if 'A' ≤ c ∧ c ≤ 'F' then some (c.toNat - 55)
  else none

/-- The value of four hexadecimal digits. -/
def hex4? (a b c d : Char) : Option Nat := do
  return (((← hexValue? a) * 16 + (← hexValue? b)) * 16 + (← hexValue? c)) * 16 + (← hexValue? d)

/-- A character as it is written inside a string. -/
def escape (c : Char) : List Char :=
  if c = '"' then ['\\', '"']
  else if c = '\\' then ['\\', '\\']
  else if c = '\x08' then ['\\', 'b']
  else if c = '\x0c' then ['\\', 'f']
  else if c = '\n' then ['\\', 'n']
  else if c = '\r' then ['\\', 'r']
  else if c = '\t' then ['\\', 't']
  else if c < ' ' then ['\\', 'u', '0', '0', hexDigit (c.toNat / 16), hexDigit (c.toNat % 16)]
  else [c]

/-- The character that a backslash and a letter stand for, `\u` apart. -/
def shortEscape? (c : Char) : Option Char :=
  if c = '"' ∨ c = '\\' ∨ c = '/' then some c
  else if c = 'b' then some '\x08'
  else if c = 'f' then some '\x0c'
  else if c = 'n' then some '\n'
  else if c = 'r' then some '\r'
  else if c = 't' then some '\t'
  else none

/-- The codes spelled in a string up to its closing quote, and what follows the quote. Surrogates are not
paired yet. -/
def codes? : List Char → Option (List Nat × List Char)
  | '"' :: rest => some ([], rest)
  | '\\' :: 'u' :: a :: b :: c :: d :: rest => do
    let code ← hex4? a b c d
    let (codes, rest) ← codes? rest
    return (code :: codes, rest)
  | '\\' :: c :: rest => do
    let char ← shortEscape? c
    let (codes, rest) ← codes? rest
    return (char.toNat :: codes, rest)
  | c :: rest => do
    if c < ' ' ∨ c = '\\' then failure
    let (codes, rest) ← codes? rest
    return (c.toNat :: codes, rest)
  | [] => none

/-- The code is half of a pair. -/
def IsSurrogate (code : Nat) : Prop := 0xD800 ≤ code ∧ code < 0xE000

instance (code : Nat) : Decidable (IsSurrogate code) := by unfold IsSurrogate; infer_instance

/-- The character of a high and a low surrogate. -/
def ofPair? (high low : Nat) : Option Char :=
  if high < 0xDC00 ∧ 0xDC00 ≤ low ∧ low < 0xE000 then
    some (Char.ofNat (0x10000 + (high - 0xD800) * 0x400 + (low - 0xDC00)))
  else none

/-- The characters of a list of codes, a high and a low surrogate making one; a lone surrogate makes none. -/
def ofCodes? : List Nat → Option (List Char)
  | [] => some []
  | code :: rest =>
    if IsSurrogate code then
      match rest with
      | low :: rest => do return (← ofPair? code low) :: (← ofCodes? rest)
      | [] => none
    else (ofCodes? rest).map (Char.ofNat code :: ·)

/-- The text of a string up to its closing quote, and what follows the quote. -/
def stringTail? (cs : List Char) : Option (String × List Char) := do
  let (codes, rest) ← codes? cs
  return (String.ofList (← ofCodes? codes), rest)

/-- The text of a token. -/
def chars : Token → List Char
  | .openArray => ['[']
  | .closeArray => [']']
  | .openObject => ['\x7b']
  | .closeObject => ['\x7d']
  | .comma => [',']
  | .colon => [':']
  | .null => "null".toList
  | .bool true => "true".toList
  | .bool false => "false".toList
  | .num n => n.chars
  | .str s => '"' :: (s.toList.flatMap escape ++ ['"'])

/-- Space, tab, line feed and carriage return stand between tokens. -/
def isBlank (c : Char) : Bool := c = ' ' || c = '\t' || c = '\n' || c = '\r'

/-- A character that a number literal can hold. -/
def isNumeric (c : Char) : Bool := c.isDigit || c = '-' || c = '+' || c = '.' || c = 'e' || c = 'E'

/-- The tokens of one character. -/
def ofMark? (c : Char) : Option Token :=
  if c = '[' then some .openArray
  else if c = ']' then some .closeArray
  else if c = '\x7b' then some .openObject
  else if c = '\x7d' then some .closeObject
  else if c = ',' then some .comma
  else if c = ':' then some .colon
  else none

/-- The tokens spelled with letters. -/
def ofWord? (cs : List Char) : Option Token :=
  if cs = "null".toList then some .null
  else if cs = "true".toList then some (.bool true)
  else if cs = "false".toList then some (.bool false)
  else none

/-- The token at the start of a text that starts with no blank, and the rest of the text. -/
def next? (c : Char) (cs : List Char) : Option (Token × List Char) :=
  match ofMark? c with
  | some t => some (t, cs)
  | none =>
    if c = '"' then (stringTail? cs).map fun r => (.str r.1, r.2)
    else if c.isAlpha then (ofWord? (c :: cs.takeWhile Char.isAlpha)).map fun t => (t, cs.dropWhile Char.isAlpha)
    else (Number.ofChars? (c :: cs.takeWhile isNumeric)).map fun n => (.num n, cs.dropWhile isNumeric)

/-- The tokens of a text, each step using up at least one character of the `fuel`. -/
def scanFrom? : Nat → List Char → Option (List Token)
  | _, [] => some []
  | 0, _ :: _ => none
  | fuel + 1, c :: cs =>
    if isBlank c then scanFrom? fuel cs
    else do
      let (t, rest) ← next? c cs
      return t :: (← scanFrom? fuel rest)

/-- The tokens of a text, or `none` if some part of it is no token. -/
def scan? (cs : List Char) : Option (List Token) := scanFrom? cs.length cs

end Token

end FlagDelivery
