import Trellis.Text.Shapeless

/-!
# Quoted text

A text is shown between double quotes, with quotes and backslashes escaped, the common controls by
their letter, and every other character without a shape of its own by its code point.

* `quoteChar_ne_nil`: no character is lost.
-/
namespace Trellis.Text

/-- A code point in hexadecimal, in braces. -/
def codePoint (c : Char) : List Char :=
  "\\u\x7b".toList ++ Nat.toDigits 16 c.toNat ++ ['\x7d']

/-- How a character is shown between quotes. -/
def quoteChar (c : Char) : List Char :=
  match c with
  | '\x00' => ['\\', '0']
  | '\t' => ['\\', 't']
  | '\r' => ['\\', 'r']
  | '\n' => ['\\', 'n']
  | '"' => ['\\', '"']
  | '\\' => ['\\', '\\']
  | c => if isShapeless c then codePoint c else [c]

theorem quoteChar_ne_nil (c : Char) : quoteChar c ≠ [] := by
  unfold quoteChar
  split <;> try simp
  split <;> simp [codePoint]

def quote (s : String) : String := String.ofList ('"' :: s.toList.flatMap quoteChar ++ ['"'])

end Trellis.Text
