import Trellis.Json.Basic

/-!
# Reading JSON text

The text holds one value, with blanks around it and nothing else. Strings hold no control
characters, numbers have no leading zeros, and lists have no trailing commas. What is well formed
but has no value becomes a flawed leaf.

* `parse?`: the value of a whole text; `none` when the text is not well formed.
* `characters?`: the characters of a string; a surrogate pair stands for one character.
-/
namespace Trellis.Json

def isSpace (c : Char) : Bool := c == ' ' || c == '\t' || c == '\n' || c == '\r'

def skipSpace (cs : List Char) : List Char := cs.dropWhile isSpace

/-! ## Strings -/

def hexValue? (c : Char) : Option Nat :=
  if c.isDigit then some (c.toNat - '0'.toNat)
  else if 'a' ≤ c ∧ c ≤ 'f' then some (c.toNat - 'a'.toNat + 10)
  else if 'A' ≤ c ∧ c ≤ 'F' then some (c.toNat - 'A'.toNat + 10)
  else none

/-- What four hexadecimal digits stand for. -/
def hexUnit? (a b c d : Char) : Option Nat := do
  return (((← hexValue? a) * 16 + (← hexValue? b)) * 16 + (← hexValue? c)) * 16 + (← hexValue? d)

/-- A part of a string: a character, or a 16-bit unit written in hexadecimal. -/
inductive Piece where
  | char (c : Char)
  | unit (n : Nat)
  deriving DecidableEq, Repr

/-- The character that a backslash and `c` stand for. -/
def escape? (c : Char) : Option Char :=
  match c with
  | '"' => some '"'
  | '\\' => some '\\'
  | '/' => some '/'
  | 'b' => some '\x08'
  | 'f' => some '\x0c'
  | 'n' => some '\n'
  | 'r' => some '\r'
  | 't' => some '\t'
  | _ => none

/-- The parts of a string up to its closing quote, and what follows it. -/
def pieces? : List Char → Option (List Piece × List Char)
  | [] => none
  | '"' :: rest => some ([], rest)
  | '\\' :: 'u' :: a :: b :: c :: d :: rest => do
    let unit ← hexUnit? a b c d
    let (ps, rest) ← pieces? rest
    return (.unit unit :: ps, rest)
  | '\\' :: c :: rest => do
    let c ← escape? c
    let (ps, rest) ← pieces? rest
    return (.char c :: ps, rest)
  | c :: rest =>
    if c.toNat < 0x20 then none
    else do
      let (ps, rest) ← pieces? rest
      return (.char c :: ps, rest)

def isHighSurrogate (n : Nat) : Bool := 0xD800 ≤ n && n ≤ 0xDBFF

def isLowSurrogate (n : Nat) : Bool := 0xDC00 ≤ n && n ≤ 0xDFFF

/-- The characters that the parts stand for; `none` when half of a surrogate pair stands alone. -/
def characters? : List Piece → Option (List Char)
  | [] => some []
  | .char c :: rest => (c :: ·) <$> characters? rest
  | .unit high :: .unit low :: rest =>
    if isHighSurrogate high then
      if isLowSurrogate low then
        (Char.ofNat (0x10000 + (high - 0xD800) * 0x400 + (low - 0xDC00)) :: ·) <$>
          characters? rest
      else none
    else if isLowSurrogate high then none
    else (Char.ofNat high :: ·) <$> characters? (.unit low :: rest)
  | .unit n :: rest =>
    if isHighSurrogate n || isLowSurrogate n then none
    else (Char.ofNat n :: ·) <$> characters? rest

/-- The text after an opening quote, if it has a value, and what follows the closing quote. -/
def string? (cs : List Char) : Option (Option String × List Char) := do
  let (ps, rest) ← pieces? cs
  return ((characters? ps).map String.ofList, rest)

/-! ## Numbers -/

def digits1? (cs : List Char) : Option (List Char × List Char) :=
  let digits := cs.takeWhile Char.isDigit
  if digits.isEmpty then none else some (digits, cs.dropWhile Char.isDigit)

def whole? (cs : List Char) : Option (List Char × List Char) := do
  let (digits, rest) ← digits1? cs
  match digits with
  | '0' :: _ :: _ => none
  | _ => return (digits, rest)

def fraction? : List Char → Option (Option (List Char) × List Char)
  | '.' :: rest => do
    let (digits, rest) ← digits1? rest
    return (some digits, rest)
  | cs => some (none, cs)

def exponent? : List Char → Option (Option (Bool × List Char) × List Char)
  | c :: rest =>
    if c == 'e' || c == 'E' then do
      let (negative, rest) := Text.sign rest
      let (digits, rest) ← digits1? rest
      return (some (negative, digits), rest)
    else some (none, c :: rest)
  | [] => some (none, [])

def numeral? (cs : List Char) : Option (Numeral × List Char) := do
  let (negative, rest) :=
    match cs with
    | '-' :: rest => (true, rest)
    | cs => (false, cs)
  let (whole, rest) ← whole? rest
  let (fraction, rest) ← fraction? rest
  let (exponent, rest) ← exponent? rest
  return ({ negative, whole, fraction, exponent }, rest)

/-! ## Values -/

/-- One or more items with commas between them, up to `close`. -/
def commaSeparated {α : Type} (item : List Char → Option (α × List Char)) (close : Char) :
    Nat → List Char → Option (List α × List Char)
  | 0, _ => none
  | fuel + 1, cs => do
    let (x, rest) ← item cs
    match skipSpace rest with
    | c :: rest =>
      if c = ',' then
        let (xs, rest) ← commaSeparated item close fuel rest
        return (x :: xs, rest)
      else if c = close then return ([x], rest)
      else none
    | [] => none

/-- Zero or more items with commas between them, up to `close`. -/
def listed {α : Type} (item : List Char → Option (α × List Char)) (close : Char)
    (cs : List Char) : Option (List α × List Char) :=
  match skipSpace cs with
  | c :: rest => if c = close then some ([], rest) else commaSeparated item close cs.length cs
  | [] => none

/-- A field name, a colon and a value. -/
def field? (value : List Char → Option (Json × List Char)) (cs : List Char) :
    Option ((Option String × Json) × List Char) :=
  match skipSpace cs with
  | '"' :: rest => do
    let (name, rest) ← string? rest
    match skipSpace rest with
    | ':' :: rest =>
      let (v, rest) ← value rest
      return ((name, v), rest)
    | _ => none
  | _ => none

/-- A value at the start of the text, nested at most `depth` deep, and what follows it. -/
def value? : Nat → List Char → Option (Json × List Char)
  | 0, _ => none
  | depth + 1, cs =>
    match skipSpace cs with
    | 'n' :: 'u' :: 'l' :: 'l' :: rest => some (.null, rest)
    | 't' :: 'r' :: 'u' :: 'e' :: rest => some (.bool true, rest)
    | 'f' :: 'a' :: 'l' :: 's' :: 'e' :: rest => some (.bool false, rest)
    | '"' :: rest => do
      let (s, rest) ← string? rest
      return (s.elim .flawed .string, rest)
    | '[' :: rest => do
      let (elements, rest) ← listed (value? depth) ']' rest
      return (.array elements, rest)
    | '\x7b' :: rest => do
      let (fields, rest) ← listed (field? (value? depth)) '\x7d' rest
      return (.object fields, rest)
    | cs => do
      let (n, rest) ← numeral? cs
      return (n.value?.elim .flawed .number, rest)

/-- The value that `text` holds. Nesting is no deeper than the text is long. -/
def parse? (text : String) : Option Json := do
  let cs := text.toList
  let (j, rest) ← value? (cs.length + 1) cs
  if (skipSpace rest).isEmpty then some j else none

end Trellis.Json
