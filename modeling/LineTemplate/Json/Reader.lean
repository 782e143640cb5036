import LineTemplate.Json.Raw

/-!
# Reading JSON

A text is cut into tokens, and the tokens are read as one document. Both steps are bounded by the
length of what they read: every token has at least one character, and every value takes at least one
token.
-/

namespace LineTemplate.Json

/-- The value of a decimal digit. -/
def digit? (c : Char) : Option Nat :=
  if '0' ≤ c ∧ c ≤ '9' then some (c.toNat - '0'.toNat) else none

/-- The value of a hexadecimal digit. -/
def hexDigit? (c : Char) : Option Nat :=
  if '0' ≤ c ∧ c ≤ '9' then some (c.toNat - '0'.toNat)
  else if 'a' ≤ c ∧ c ≤ 'f' then some (c.toNat - 'a'.toNat + 10)
  else if 'A' ≤ c ∧ c ≤ 'F' then some (c.toNat - 'A'.toNat + 10)
  else none

/-- The value of four hexadecimal digits. -/
def hexUnit? (a b c d : Char) : Option Nat := do
  return (((← hexDigit? a) * 16 + (← hexDigit? b)) * 16 + (← hexDigit? c)) * 16 + (← hexDigit? d)

/-- The character that an escape of one letter stands for. -/
def escape? : Char → Option Char
  | '"' => some '"'
  | '\\' => some '\\'
  | '/' => some '/'
  | 'b' => some '\x08'
  | 'f' => some '\x0c'
  | 'n' => some '\n'
  | 'r' => some '\r'
  | 't' => some '\t'
  | _ => none

/-- The pieces of a string up to its closing quote, and what follows. Control characters have to be
escaped. -/
def string? : List Char → Option (List Piece × List Char)
  | '"' :: rest => some ([], rest)
  | '\\' :: 'u' :: a :: b :: c :: d :: rest => do
    let n ← hexUnit? a b c d
    let (pieces, rest) ← string? rest
    return (.unit n :: pieces, rest)
  | '\\' :: letter :: rest => do
    let c ← escape? letter
    let (pieces, rest) ← string? rest
    return (.char c :: pieces, rest)
  | c :: rest =>
    if c.toNat < 0x20 then none
    else do
      let (pieces, rest) ← string? rest
      return (.char c :: pieces, rest)
  | [] => none

/-- The digits in front of a text, and what follows. -/
def digits : List Char → List Nat × List Char
  | [] => ([], [])
  | c :: cs =>
    match digit? c with
    | some digit =>
      let (more, rest) := digits cs
      (digit :: more, rest)
    | none => ([], c :: cs)

/-- The fraction of a numeral, if there is one. -/
def fraction? : List Char → Option (Option (List Nat) × List Char)
  | '.' :: cs =>
    match digits cs with
    | ([], _) => none
    | (fraction, rest) => some (some fraction, rest)
  | cs => some (none, cs)

/-- Digits as a number. -/
def ofDigits (digits : List Nat) : Nat :=
  digits.foldl (fun n digit => n * 10 + digit) 0

/-- The digits of an exponent behind its sign. -/
def exponentDigits? (negative : Bool) (cs : List Char) : Option (Option Int × List Char) :=
  match digits cs with
  | ([], _) => none
  | (exponent, rest) =>
    let n : Int := ofDigits exponent
    some (some (if negative then -n else n), rest)

/-- The exponent of a numeral, if there is one. -/
def exponent? : List Char → Option (Option Int × List Char)
  | 'e' :: '+' :: cs | 'E' :: '+' :: cs => exponentDigits? false cs
  | 'e' :: '-' :: cs | 'E' :: '-' :: cs => exponentDigits? true cs
  | 'e' :: cs | 'E' :: cs => exponentDigits? false cs
  | cs => some (none, cs)

/-- The numeral in front of a text, behind its sign. A zero in front stands alone. -/
def numeral? (negative : Bool) (cs : List Char) : Option (Numeral × List Char) := do
  let (whole, rest) := digits cs
  match whole with
  | [] => none
  | 0 :: _ :: _ => none
  | _ =>
    let (fraction, rest) ← fraction? rest
    let (exponent, rest) ← exponent? rest
    return (⟨negative, whole, fraction, exponent⟩, rest)

inductive Token where
  | leftBrace
  | rightBrace
  | leftBracket
  | rightBracket
  | colon
  | comma
  | null
  | bool (b : Bool)
  | number (numeral : Numeral)
  | string (pieces : List Piece)
deriving DecidableEq, Repr

/-- The token in front of a text, and what follows. -/
def token? : List Char → Option (Token × List Char)
  | '{' :: rest => some (.leftBrace, rest)
  | '}' :: rest => some (.rightBrace, rest)
  | '[' :: rest => some (.leftBracket, rest)
  | ']' :: rest => some (.rightBracket, rest)
  | ':' :: rest => some (.colon, rest)
  | ',' :: rest => some (.comma, rest)
  | 'n' :: 'u' :: 'l' :: 'l' :: rest => some (.null, rest)
  | 't' :: 'r' :: 'u' :: 'e' :: rest => some (.bool true, rest)
  | 'f' :: 'a' :: 'l' :: 's' :: 'e' :: rest => some (.bool false, rest)
  | '"' :: rest => (string? rest).map fun (pieces, rest) => (.string pieces, rest)
  | '-' :: rest => (numeral? true rest).map fun (numeral, rest) => (.number numeral, rest)
  | rest => (numeral? false rest).map fun (numeral, rest) => (.number numeral, rest)

/-- The four characters that may stand between tokens. -/
def isSpace (c : Char) : Bool :=
  c == ' ' || c == '\n' || c == '\t' || c == '\r'

/-- The tokens of a text of at most `bound` characters. -/
def tokens? : (bound : Nat) → List Char → Option (List Token)
  | 0, cs => if cs.isEmpty then some [] else none
  | bound + 1, cs =>
    match cs.dropWhile isSpace with
    | [] => some []
    | c :: rest => do
      let (token, rest) ← token? (c :: rest)
      let more ← tokens? bound rest
      return token :: more

namespace Raw

mutual

/-- The value in front of at most `bound` tokens, and what follows. -/
def value? : (bound : Nat) → List Token → Option (Raw × List Token)
  | bound + 1, token :: rest =>
    match token, rest with
    | .null, rest => some (.null, rest)
    | .bool b, rest => some (.bool b, rest)
    | .number numeral, rest => some (.number numeral, rest)
    | .string pieces, rest => some (.string pieces, rest)
    | .leftBracket, .rightBracket :: rest => some (.array [], rest)
    | .leftBracket, rest => (items? bound rest).map fun (items, rest) => (.array items, rest)
    | .leftBrace, .rightBrace :: rest => some (.object [], rest)
    | .leftBrace, rest => (members? bound rest).map fun (members, rest) => (.object members, rest)
    | _, _ => none
  | _, _ => none

/-- The items of an array up to its closing bracket. -/
def items? : (bound : Nat) → List Token → Option (List Raw × List Token)
  | 0, _ => none
  | bound + 1, tokens => do
    match ← value? bound tokens with
    | (item, .rightBracket :: rest) => return ([item], rest)
    | (item, .comma :: rest) =>
      let (items, rest) ← items? bound rest
      return (item :: items, rest)
    | _ => none

/-- The members of an object up to its closing brace. -/
def members? : (bound : Nat) → List Token → Option (List (List Piece × Raw) × List Token)
  | bound + 1, .string name :: .colon :: tokens => do
    match ← value? bound tokens with
    | (content, .rightBrace :: rest) => return ([(name, content)], rest)
    | (content, .comma :: rest) =>
      let (members, rest) ← members? bound rest
      return ((name, content) :: members, rest)
    | _ => none
  | _, _ => none

end

/-- The document that a text spells, if it is one. -/
def ofText? (text : String) : Option Raw := do
  let tokens ← tokens? (text.toList.length + 1) text.toList
  match ← value? tokens.length tokens with
  | (raw, []) => return raw
  | _ => none

end Raw

end LineTemplate.Json
