/-!
# Blank characters and tokens

Two sets of blanks are in use. Around a word that a configuration spells, and before a number,
every character with Unicode's `White_Space` property is blank. Between the tokens of a spacing or
an anchor expression only the five ASCII blanks separate.

* `isBlank_of_isSeparator`: every separator is blank.
* `separator_free_of_mem_tokens`: a token holds no separator.
-/
namespace Trellis.Text

/-- The 25 characters with Unicode's `White_Space` property. -/
def isBlank (c : Char) : Bool :=
  let n := c.toNat
  (9 ≤ n && n ≤ 13) || n == 0x20 || n == 0x85 || n == 0xA0 || n == 0x1680 ||
    (0x2000 ≤ n && n ≤ 0x200A) || n == 0x2028 || n == 0x2029 || n == 0x202F || n == 0x205F ||
    n == 0x3000

/-- Space, tab, line feed, form feed and carriage return. -/
def isSeparator (c : Char) : Bool :=
  c == ' ' || c == '\t' || c == '\n' || c == '\x0c' || c == '\r'

def trimStart (cs : List Char) : List Char := cs.dropWhile isBlank

/-- `cs` without the blanks around it. -/
def trim (cs : List Char) : List Char := (trimStart (trimStart cs).reverse).reverse

/-- The runs of characters between separators. -/
def tokens (cs : List Char) : List (List Char) :=
  (cs.splitBy fun a b => isSeparator a == isSeparator b).filter fun run => !run.any isSeparator

/-- ASCII letters without their case; every other character as it is. -/
def foldCase (cs : List Char) : List Char := cs.map Char.toLower

theorem isBlank_of_isSeparator {c : Char} (h : isSeparator c = true) : isBlank c = true := by
  simp only [isSeparator, Bool.or_eq_true, beq_iff_eq] at h
  rcases h with (((rfl | rfl) | rfl) | rfl) | rfl <;> decide

theorem separator_free_of_mem_tokens {cs t : List Char} (h : t ∈ tokens cs) :
    ∀ c ∈ t, isSeparator c = false := by
  intro c hc
  simp only [tokens, List.mem_filter, Bool.not_eq_true', List.any_eq_false] at h
  simpa using h.2 c hc

end Trellis.Text
