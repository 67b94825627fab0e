import FlagDelivery.Json.Token

/-!
# JSON text

`Json.text` writes a value without blanks. `Json.parse?` reads a text that holds one value and nothing else
but blanks, with a bound on how deeply arrays and objects nest; of two fields with one key the later wins.
-/

namespace FlagDelivery.Json

mutual

/-- The tokens of a value. -/
def tokens : Json → List Token
  | .null => [.null]
  | .bool b => [.bool b]
  | .num n => [.num n]
  | .str s => [.str s]
  | .arr [] => [.openArray, .closeArray]
  | .arr (v :: vs) => .openArray :: (v.tokens ++ itemTokens vs)
  | .obj [] => [.openObject, .closeObject]
  | .obj ((k, v) :: fs) => .openObject :: .str k :: .colon :: (v.tokens ++ fieldTokens fs)

/-- The tokens of the further items of an array, to its end. -/
def itemTokens : List Json → List Token
  | [] => [.closeArray]
  | v :: vs => .comma :: (v.tokens ++ itemTokens vs)

/-- The tokens of the further fields of an object, to its end. -/
def fieldTokens : List (String × Json) → List Token
  | [] => [.closeObject]
  | (k, v) :: fs => .comma :: .str k :: .colon :: (v.tokens ++ fieldTokens fs)

end

/-- The characters of a value's text. -/
def chars (v : Json) : List Char := v.tokens.flatMap Token.chars

/-- The text of a value. -/
def text (v : Json) : String := String.ofList v.chars

mutual

/-- How deeply arrays and objects nest in a value. -/
def depth : Json → Nat
  | .null | .bool _ | .num _ | .str _ => 0
  | .arr vs => depthItems vs + 1
  | .obj fs => depthFields fs + 1

/-- The deepest item. -/
def depthItems : List Json → Nat
  | [] => 0
  | v :: vs => max v.depth (depthItems vs)

/-- The deepest field. -/
def depthFields : List (String × Json) → Nat
  | [] => 0
  | (_, v) :: fs => max v.depth (depthFields fs)

end

/-- A reader of something at the start of a list of tokens, which also gives the tokens it left. -/
abbrev Reader (α : Type) := List Token → Option (α × List Token)

/-- The further items of an array after one of them, to its end. -/
def readItems (value : Reader Json) : Nat → Reader (List Json)
  | _, .closeArray :: ts => some ([], ts)
  | fuel + 1, .comma :: ts => do
    let (v, ts) ← value ts
    let (vs, ts) ← readItems value fuel ts
    return (v :: vs, ts)
  | _, _ => none

/-- One field: a key, a colon and a value. -/
def readField (value : Reader Json) : Reader (String × Json)
  | .str k :: .colon :: ts => (value ts).map fun r => ((k, r.1), r.2)
  | _ => none

/-- The further fields of an object after one of them, to its end. -/
def readFields (value : Reader Json) : Nat → Reader (List (String × Json))
  | _, .closeObject :: ts => some ([], ts)
  | fuel + 1, .comma :: ts => do
    let (f, ts) ← readField value ts
    let (fs, ts) ← readFields value fuel ts
    return (f :: fs, ts)
  | _, _ => none

/-- One value that nests no deeper than the bound. -/
def readValue : Nat → Reader Json
  | _, .null :: ts => some (.null, ts)
  | _, .bool b :: ts => some (.bool b, ts)
  | _, .num n :: ts => some (.num n, ts)
  | _, .str s :: ts => some (.str s, ts)
  | _ + 1, .openArray :: .closeArray :: ts => some (.arr [], ts)
  | bound + 1, .openArray :: ts => do
    let (v, ts) ← readValue bound ts
    let (vs, ts) ← readItems (readValue bound) ts.length ts
    return (.arr (v :: vs), ts)
  | _ + 1, .openObject :: .closeObject :: ts => some (.obj [], ts)
  | bound + 1, .openObject :: ts => do
    let (f, ts) ← readField (readValue bound) ts
    let (fs, ts) ← readFields (readValue bound) ts.length ts
    return (mkObj (f :: fs), ts)
  | _, _ => none

/-- The value that a text holds, if it nests no deeper than the bound. -/
def parseWithin? (bound : Nat) (text : String) : Option Json := do
  match ← readValue bound (← Token.scan? text.toList) with
  | (v, []) => return v
  | _ => none

/-- The deepest nesting that is read. -/
def maxDepth : Nat := 127

/-- The value that a text holds. -/
def parse? (text : String) : Option Json := parseWithin? maxDepth text

end FlagDelivery.Json
