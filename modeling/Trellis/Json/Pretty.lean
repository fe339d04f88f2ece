
/-!
# Writing JSON over several lines

Documents are written with one field or element on a line, each level indented by two spaces. Only
quotes, backslashes and control characters are escaped.

* `escape_of_plain`: a character that needs no escape is written as it is.
-/
namespace Trellis.Json

/-- What a report is made of. -/
inductive Document where
  | bool (b : Bool)
  | integer (n : Int)
  | text (s : String)
  | list (elements : List Document)
  | object (fields : List (String × Document))

/-- A number below 256 in four hexadecimal digits. -/
def hex4 (n : Nat) : List Char :=
  let digits := Nat.toDigits 16 n
  List.replicate (4 - digits.length) '0' ++ digits

/-- How a character is written inside a string. -/
def escape (c : Char) : List Char :=
  match c with
  | '"' => ['\\', '"']
  | '\\' => ['\\', '\\']
  | '\x08' => ['\\', 'b']
  | '\x0c' => ['\\', 'f']
  | '\n' => ['\\', 'n']
  | '\r' => ['\\', 'r']
  | '\t' => ['\\', 't']
  | c => if c.toNat < 0x20 then '\\' :: 'u' :: hex4 c.toNat else [c]

def quoted (s : String) : String := String.ofList ('"' :: s.toList.flatMap escape ++ ['"'])

/-- The start of a line at this level. -/
def indent (level : Nat) : String := String.ofList (List.replicate (2 * level) ' ')

/-- Items one below the other between brackets. -/
def bracketed (opening closing : String) (level : Nat) (items : List String) : String :=
  if items.isEmpty then opening ++ closing
  else
    let lines := items.map fun item => indent (level + 1) ++ item
    opening ++ "\n" ++ ",\n".intercalate lines ++ "\n" ++ indent level ++ closing

mutual

/-- The text of a document that begins in a line of this level. -/
def Document.pretty (level : Nat) : Document → String
  | .bool b => if b then "true" else "false"
  | .integer n => toString n
  | .text s => quoted s
  | .list elements => bracketed "[" "]" level (prettyElements (level + 1) elements)
  | .object fields => bracketed "\x7b" "\x7d" level (prettyFields (level + 1) fields)

def prettyElements (level : Nat) : List Document → List String
  | [] => []
  | d :: rest => d.pretty level :: prettyElements level rest

def prettyFields (level : Nat) : List (String × Document) → List String
  | [] => []
  | (name, d) :: rest => (quoted name ++ ": " ++ d.pretty level) :: prettyFields level rest

end

theorem escape_of_plain {c : Char} (hq : c ≠ '"') (hb : c ≠ '\\') (h : 0x20 ≤ c.toNat) :
    escape c = [c] := by
  unfold escape
  split
  · exact absurd rfl hq
  · exact absurd rfl hb
  iterate 5 · exact absurd h (by decide)
  · exact if_neg (Nat.not_lt.2 h)

end Trellis.Json
