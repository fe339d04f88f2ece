import Mathlib.Data.List.SplitBy
import Trellis.Proofs.Margins
import Trellis.Proofs.Text.Numbers

/-!
# Lengths in a spacing are read back

A spacing that is written as text comes apart into words at its separators, and each word gives the
number that its digits spell. So whatever separates the lengths, whatever unit follows them and
whatever comes after the fourth, a text of one to four lengths stands for the sides that its lengths
stand for.

* `Text.tokens_gap_append`, `Text.tokens_word_append`: separators before a word are passed over, and
  the word up to the next separator is the next token.
* `Spacing.tokens_spell`: the tokens of a text of lengths are the lengths as they are written.
* `Spacing.sidesOfText_written`: the sides of a text of one to four lengths.
-/
namespace Trellis

namespace Text

/-! ## Words -/

/-- Nothing but separators. -/
def Blank (cs : List Char) : Prop := ∀ c ∈ cs, isSeparator c = true

/-- No word that ends before `cs` goes on in `cs`. -/
def Breaks (cs : List Char) : Prop := ∀ c ∈ cs.head?, isSeparator c = true

instance (cs : List Char) : Decidable (Blank cs) :=
  decidable_of_iff (cs.all isSeparator = true) List.all_eq_true

instance (cs : List Char) : Decidable (Breaks cs) :=
  decidable_of_iff (cs.head?.all isSeparator = true) (Option.all_eq_true _ _)

theorem Blank.breaks {cs : List Char} (h : Blank cs) : Breaks cs :=
  fun c hc => h c (List.mem_of_mem_head? hc)

theorem Blank.breaks_append {gap : List Char} (h : Blank gap) (hne : gap ≠ []) (cs : List Char) :
    Breaks (gap ++ cs) := by
  unfold Breaks
  rw [List.head?_append_of_ne_nil _ hne]
  exact h.breaks

/-- Characters of one kind are one run. -/
theorem splitBy_of_uniform {cs : List Char} {kind : Bool} (hne : cs ≠ [])
    (h : ∀ c ∈ cs, isSeparator c = kind) :
    cs.splitBy (fun a b => isSeparator a == isSeparator b) = [cs] := by
  refine List.splitBy_of_isChain hne ((List.pairwise_of_forall_mem_list fun a ha b hb => ?_).isChain)
  simp [h a ha, h b hb]

/-- Text comes apart into the same tokens on both sides of a place where its kind of character
changes. -/
theorem tokens_append {cs ds : List Char}
    (h : ∀ c ∈ cs.getLast?, ∀ d ∈ ds.head?, isSeparator c ≠ isSeparator d) :
    tokens (cs ++ ds) = tokens cs ++ tokens ds := by
  unfold tokens
  rw [List.splitBy_append (by simpa using h), List.filter_append]

theorem tokens_blank {gap : List Char} (h : Blank gap) : tokens gap = [] := by
  rcases eq_or_ne gap [] with rfl | hne
  · rfl
  · unfold tokens
    rw [splitBy_of_uniform hne h]
    obtain ⟨c, hc⟩ := List.exists_mem_of_ne_nil gap hne
    have hany : gap.any isSeparator = true := List.any_eq_true.2 ⟨c, hc, h c hc⟩
    simp [hany]

/-- Separators in front give no token. They may run on into separators of the text behind them, so
the text is taken apart where its first word begins. -/
theorem tokens_gap_append {gap : List Char} (h : Blank gap) (cs : List Char) :
    tokens (gap ++ cs) = tokens cs := by
  have hdrop : ∀ {lead : List Char}, Blank lead →
      tokens (lead ++ cs.dropWhile isSeparator) = tokens (cs.dropWhile isSeparator) := by
    intro lead hlead
    rw [tokens_append, tokens_blank hlead, List.nil_append]
    intro c hc d hd
    have hword : isSeparator d = false := by
      have hfirst := List.head?_dropWhile_not isSeparator cs
      rw [Option.mem_def.1 hd] at hfirst
      exact hfirst
    simp [hlead c (List.mem_of_mem_getLast? hc), hword]
  have hspaces : Blank (cs.takeWhile isSeparator) := fun c hc => by
    simpa using (List.all_eq_true.1 (List.all_takeWhile (p := isSeparator) (l := cs))) c hc
  have hall : Blank (gap ++ cs.takeWhile isSeparator) := by
    intro c hc
    rcases List.mem_append.1 hc with hc | hc
    · exact h c hc
    · exact hspaces c hc
  calc tokens (gap ++ cs)
      = tokens ((gap ++ cs.takeWhile isSeparator) ++ cs.dropWhile isSeparator) := by
        rw [List.append_assoc, List.takeWhile_append_dropWhile]
    _ = tokens (cs.takeWhile isSeparator ++ cs.dropWhile isSeparator) := by
        rw [hdrop hall, hdrop hspaces]
    _ = tokens cs := by rw [List.takeWhile_append_dropWhile]

theorem tokens_word_append {word rest : List Char} (hne : word ≠ [])
    (hword : ∀ c ∈ word, isSeparator c = false) (hrest : Breaks rest) :
    tokens (word ++ rest) = word :: tokens rest := by
  have hone : tokens word = [word] := by
    unfold tokens
    rw [splitBy_of_uniform hne hword]
    have hany : word.any isSeparator = false := by simpa [List.any_eq_false] using hword
    simp [hany]
  rw [tokens_append, hone, List.singleton_append]
  intro c hc d hd
  simp [hword c (List.mem_of_mem_getLast? hc), hrest d hd]

end Text

namespace Spacing

open Text (Blank Breaks tokens)

/-- A length as it is written: its decimal digits and a suffix such as a unit. -/
structure Written where
  length : Nat
  suffix : List Char
  fits : (length : Int) ≤ Length.greatest
  unbroken : ∀ c ∈ suffix, Text.isSeparator c = false
  ends : ∀ c ∈ suffix.head?, c.isDigit = false

/-- What stands between two words. -/
structure Gap where
  chars : List Char
  blank : Blank chars
  ne_nil : chars ≠ []

namespace Written

def chars (w : Written) : List Char := Nat.toDigits 10 w.length ++ w.suffix

theorem chars_ne_nil (w : Written) : w.chars ≠ [] :=
  List.append_ne_nil_of_left_ne_nil Nat.toDigits_ne_nil _

theorem unbroken_chars (w : Written) : ∀ c ∈ w.chars, Text.isSeparator c = false := by
  intro c hc
  rcases List.mem_append.1 hc with hc | hc
  · exact Text.isSeparator_of_isDigit (Nat.isDigit_of_mem_toDigits (by decide) (by decide) hc)
  · exact w.unbroken c hc

/-- A length is read back, without its suffix and without a notice. -/
theorem sideOfToken_chars (w : Written) : sideOfToken w.chars = pure (w.length : Int) := by
  have hread : Text.leadingInt? w.chars = some (w.length : Int) := by
    have hnumber := Text.leadingInt?_decimal .none 0 w.length w.ends
    rwa [if_neg Bool.false_ne_true, Int.min_eq_left w.fits] at hnumber
  simp [sideOfToken, hread]

end Written

/-- `first`, then the lengths of `more`, each after its gap. -/
def spell (first : Written) (more : List (Gap × Written)) : List Char :=
  first.chars ++ more.flatMap fun next => next.1.chars ++ next.2.chars

/-- The tokens of a text of lengths are the lengths as they are written, and then whatever tokens
come after them. -/
theorem tokens_spell (first : Written) (more : List (Gap × Written)) {rest : List Char}
    (hrest : Breaks rest) :
    tokens (spell first more ++ rest) =
      first.chars :: (more.map fun next => next.2.chars) ++ tokens rest := by
  induction more generalizing first with
  | nil =>
    simp only [spell, List.flatMap_nil, List.append_nil, List.map_nil]
    exact Text.tokens_word_append first.chars_ne_nil first.unbroken_chars hrest
  | cons next more ih =>
    obtain ⟨gap, w⟩ := next
    have hspell : spell first ((gap, w) :: more) ++ rest =
        first.chars ++ (gap.chars ++ (spell w more ++ rest)) := by simp [spell]
    rw [hspell, Text.tokens_word_append first.chars_ne_nil first.unbroken_chars
      (gap.blank.breaks_append gap.ne_nil _), Text.tokens_gap_append gap.blank, ih w]
    rfl

/-- Lengths in a text, after separators and before anything that no token before it runs into:
the first four are read, and tokens behind them count only while there are fewer. -/
theorem value_sidesOfText_spell (first : Written) (more : List (Gap × Written))
    {before rest : List Char} (hbefore : Blank before) (hrest : Breaks rest) :
    (sidesOfText (before ++ spell first more ++ rest)).value =
      expand ((((first.length : Int) :: more.map fun next => (next.2.length : Int)) ++
        (tokens rest).map fun token => (sideOfToken token).value).take 4) := by
  show expand (((tokens (before ++ spell first more ++ rest)).take 4).mapM sideOfToken).value = _
  rw [List.append_assoc, Text.tokens_gap_append hbefore, tokens_spell first more hrest,
    Noted.value_mapM, List.map_take]
  simp [Written.sideOfToken_chars, Function.comp_def]

theorem nonneg_sidesOfText (cs : List Char) : (sidesOfText cs).value.Nonneg := by
  simpa [sides] using nonneg_sides (.text (String.ofList cs))

/-- Every text stands for sides that are not negative. One to four lengths stand for the sides that
the shorthand says, whatever separates and surrounds them and whatever suffixes they have; behind
the fourth there may be anything that a separator keeps apart from it. -/
theorem sidesOfText_written (a b c d : Written) (g h k : Gap) {before after tail : List Char}
    (hbefore : Blank before) (hafter : Blank after) (htail : Breaks tail) :
    (∀ cs, (sidesOfText cs).value.Nonneg) ∧
      (sidesOfText (before ++ spell a [(g, b), (h, c), (k, d)] ++ tail)).value =
        ⟨a.length, b.length, c.length, d.length⟩ ∧
      (sidesOfText (before ++ spell a [] ++ after)).value =
        ⟨a.length, a.length, a.length, a.length⟩ ∧
      (sidesOfText (before ++ spell a [(g, b)] ++ after)).value =
        ⟨a.length, b.length, a.length, b.length⟩ ∧
      (sidesOfText (before ++ spell a [(g, b), (h, c)] ++ after)).value =
        ⟨a.length, b.length, c.length, b.length⟩ := by
  have hfew : ∀ more : List (Gap × Written),
      (sidesOfText (before ++ spell a more ++ after)).value =
        expand (((a.length : Int) :: more.map fun next => (next.2.length : Int)).take 4) := by
    intro more
    rw [value_sidesOfText_spell a more hbefore hafter.breaks, Text.tokens_blank hafter]
    simp
  refine ⟨nonneg_sidesOfText, ?_, hfew [], hfew [(g, b)], hfew [(g, b), (h, c)]⟩
  rw [value_sidesOfText_spell a _ hbefore htail]
  rfl

/-- Four lengths with units between tabs and line feeds, and more text behind them. -/
theorem four_lengths_with_units :
    (Text.Blank ['\t', ' '] ∧ Text.Blank [' '] ∧ Text.Breaks " auto 7".toList) ∧
      (sidesOfText "\t 10px 20% \n2147483647.5 0 auto 7".toList).value = ⟨10, 20, 2147483647, 0⟩ := by
  have hbefore : Text.Blank ['\t', ' '] := by decide
  have hafter : Text.Blank [' '] := by decide
  have htail : Text.Breaks " auto 7".toList := by decide
  let a : Written := ⟨10, "px".toList, by decide, by simp [Text.isSeparator], by simp⟩
  let b : Written := ⟨20, ['%'], by decide, by simp [Text.isSeparator], by simp⟩
  let c : Written := ⟨2147483647, ".5".toList, by decide, by simp [Text.isSeparator], by simp⟩
  let d : Written := ⟨0, [], by decide, by simp, by simp⟩
  let space : Gap := ⟨[' '], by decide, by decide⟩
  let line : Gap := ⟨[' ', '\n'], by decide, by decide⟩
  have htext : "\t 10px 20% \n2147483647.5 0 auto 7".toList =
      ['\t', ' '] ++ spell a [(space, b), (line, c), (space, d)] ++ " auto 7".toList := by
    decide +kernel
  refine ⟨⟨hbefore, hafter, htail⟩, ?_⟩
  rw [htext]
  exact (sidesOfText_written a b c d space line space hbefore hafter htail).2.1

end Spacing

end Trellis
