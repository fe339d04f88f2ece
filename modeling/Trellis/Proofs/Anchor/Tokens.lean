import Trellis.Anchor
import Trellis.Proofs.Text.Bytes

/-!
# Which tokens are anchors

A token stands for an anchor by what is left of it without the blanks around it: a side word, a text
with a percent sign that begins with a decimal number, or a text without one that begins with a
whole number. Sides and percentages need lengths to refer to as well.

* `Text.stripped_trim`: what `trim` takes off.
* `Anchor.build_accepts`: each kind of anchor is built exactly for the tokens of its form.
* `Anchor.offset_of_written`: an offset that is written in decimal digits.
-/
namespace Trellis

namespace Text

/-- `word` is `cs` without the blanks around it. -/
structure Stripped (cs word : List Char) : Prop where
  blanks : ∃ before after, cs = before ++ (word ++ after) ∧
    (∀ c ∈ before, isBlank c = true) ∧ ∀ c ∈ after, isBlank c = true
  first : ∀ c ∈ word.head?, isBlank c = false
  last : ∀ c ∈ word.getLast?, isBlank c = false

theorem trimStart_eq (cs : List Char) :
    ∃ before, (∀ c ∈ before, isBlank c = true) ∧ cs = before ++ trimStart cs :=
  ⟨cs.takeWhile isBlank, List.all_eq_true.1 List.all_takeWhile,
    List.takeWhile_append_dropWhile.symm⟩

theorem isBlank_head_trimStart (cs : List Char) :
    ∀ c ∈ (trimStart cs).head?, isBlank c = false := by
  intro c hc
  have hfirst := List.head?_dropWhile_not isBlank cs
  rw [← trimStart, Option.mem_def.1 hc] at hfirst
  exact hfirst

theorem stripped_trim (cs : List Char) : Stripped cs (trim cs) := by
  obtain ⟨before, hbefore, hfront⟩ := trimStart_eq cs
  obtain ⟨after, hafter, hback⟩ := trimStart_eq (trimStart cs).reverse
  have hword : trimStart cs = trim cs ++ after.reverse := by
    rw [trim, ← List.reverse_append, ← hback, List.reverse_reverse]
  refine ⟨⟨before, after.reverse, by rw [← hword]; exact hfront, hbefore, ?_⟩, ?_, ?_⟩
  · intro c hc
    exact hafter c (List.mem_reverse.1 hc)
  · intro c hc
    refine isBlank_head_trimStart cs c ?_
    rw [hword, List.head?_append, Option.mem_def.1 hc]
    rfl
  · intro c hc
    rw [trim, List.getLast?_reverse] at hc
    exact isBlank_head_trimStart _ c hc

theorem Stripped.trimStart_eq_self {cs word : List Char} (h : Stripped cs word) :
    trimStart word = word :=
  trimStart_of_head h.first

/-- A text that is its own word. -/
theorem trim_of_unblank {cs : List Char} (h : ∀ c ∈ cs, isBlank c = false) : trim cs = cs := by
  have hstart : ∀ {ds : List Char}, (∀ d ∈ ds, isBlank d = false) → trimStart ds = ds :=
    fun hds => trimStart_of_head fun d hd => hds d (List.mem_of_mem_head? hd)
  rw [trim, hstart h, hstart fun c hc => h c (List.mem_reverse.1 hc), List.reverse_reverse]

/-! ## Words without digits -/

/-- Neither digits nor percent signs. -/
def Plain (cs : List Char) : Prop := ∀ c ∈ cs, c.isDigit = false ∧ c ≠ '%'

instance (cs : List Char) : Decidable (Plain cs) :=
  decidable_of_iff (cs.all (fun c => !c.isDigit && c != '%') = true) (by simp [Plain])

theorem toLower_of_isDigit {c : Char} (h : c.isDigit = true) : c.toLower = c := by
  have hrange := Char.isDigit_iff_toNat.1 h
  simp only [show '9'.toNat = 57 from rfl] at hrange
  refine dif_neg fun hupper => ?_
  have hfirst := UInt32.le_iff_toNat_le.1 hupper.1
  have hletter : 65 ≤ c.toNat := hfirst
  omega

/-- Folding the case takes no digit and no percent sign away. -/
theorem plain_of_plain_foldCase {cs : List Char} (h : Plain (foldCase cs)) : Plain cs := by
  intro c hc
  have hfolded := h _ (List.mem_map_of_mem hc)
  refine ⟨?_, ?_⟩
  · rw [← Bool.not_eq_true]
    intro hdigit
    rw [toLower_of_isDigit hdigit, hdigit] at hfolded
    cases hfolded.1
  · rintro rfl
    exact hfolded.2 rfl

theorem Plain.not_beginsWhole {cs : List Char} (h : Plain cs) : ¬ BeginsWhole cs := by
  rintro ⟨_, mark, digit, rest, -, hdigit, rfl⟩
  have hplain := h digit (by simp)
  rw [hdigit] at hplain
  cases hplain.1

theorem Plain.not_mem {cs : List Char} (h : Plain cs) : '%' ∉ cs := fun hmem => (h _ hmem).2 rfl

end Text

namespace AnchorFormula

/-- The three ways in which an anchor is written. -/
inductive Kind where
  | percent
  | offset
  | side
  deriving DecidableEq, Repr

def kind : AnchorFormula → Kind
  | .percent _ => .percent
  | .offset _ => .offset
  | .side _ => .side

end AnchorFormula

namespace Anchor

open AnchorFormula (Kind)

/-- `word` is written as an anchor of this kind, and the lengths that it refers to are there. -/
inductive Asks (word : List Char) (initial reference : Option Int) : Kind → Prop
  | side : String.ofList (Text.foldCase word) ∈ sideWords → initial.isSome → reference.isSome →
      Asks word initial reference .side
  | percent : '%' ∈ word → reference.isSome → Text.BeginsDecimal word →
      Asks word initial reference .percent
  | offset : '%' ∉ word → Text.BeginsWhole word → Asks word initial reference .offset

/-- The words that stand for no number. -/
theorem plain_of_mem {word : List Char}
    (h : String.ofList (Text.foldCase word) ∈ "none" :: sideWords) : Text.Plain word := by
  refine Text.plain_of_plain_foldCase ?_
  rw [← String.toList_ofList (l := Text.foldCase word)]
  revert h
  generalize String.ofList (Text.foldCase word) = lowered
  intro h
  simp only [sideWords, List.mem_cons, List.not_mem_nil, or_false] at h
  rcases h with rfl | rfl | rfl | rfl | rfl <;> decide

variable {word : List Char} {initial reference : Option Int}

/-- What a side word asks for. -/
theorem asks_iff_of_side (hside : String.ofList (Text.foldCase word) ∈ sideWords) (kind : Kind) :
    Asks word initial reference kind ↔ kind = .side ∧ initial.isSome ∧ reference.isSome := by
  have hplain := plain_of_mem (List.mem_cons_of_mem _ hside)
  constructor
  · intro h
    cases h with
    | side _ hinitial hreference => exact ⟨rfl, hinitial, hreference⟩
    | percent hpercent _ _ => exact absurd hpercent hplain.not_mem
    | offset _ hwhole => exact absurd hwhole hplain.not_beginsWhole
  · rintro ⟨rfl, hinitial, hreference⟩
    exact .side hside hinitial hreference

/-- What any other word with a percent sign asks for. -/
theorem asks_iff_of_percent (hside : String.ofList (Text.foldCase word) ∉ sideWords)
    (hpercent : '%' ∈ word) (kind : Kind) :
    Asks word initial reference kind ↔
      kind = .percent ∧ reference.isSome ∧ Text.BeginsDecimal word := by
  constructor
  · intro h
    cases h with
    | side hword _ _ => exact absurd hword hside
    | percent _ hreference hdecimal => exact ⟨rfl, hreference, hdecimal⟩
    | offset hout _ => exact absurd hpercent hout
  · rintro ⟨rfl, hreference, hdecimal⟩
    exact .percent hpercent hreference hdecimal

/-- What any other word without a percent sign asks for. -/
theorem asks_iff_of_no_percent (hside : String.ofList (Text.foldCase word) ∉ sideWords)
    (hpercent : '%' ∉ word) (kind : Kind) :
    Asks word initial reference kind ↔ kind = .offset ∧ Text.BeginsWhole word := by
  constructor
  · intro h
    cases h with
    | side hword _ _ => exact absurd hword hside
    | percent hin _ _ => exact absurd hin hpercent
    | offset _ hwhole => exact ⟨rfl, hwhole⟩
  · rintro ⟨rfl, hwhole⟩
    exact .offset hpercent hwhole

/-- Nothing, and the word for nothing, ask for no anchor. -/
theorem not_asks_of_none (h : word = [] ∨ String.ofList (Text.foldCase word) = "none")
    (kind : Kind) : ¬ Asks word initial reference kind := by
  rcases h with rfl | hnone
  · rw [asks_iff_of_no_percent (by decide) (by decide)]
    exact fun h => Text.Plain.not_beginsWhole (by decide) h.2
  · have hplain : Text.Plain word := plain_of_mem (by simp [hnone])
    rw [asks_iff_of_no_percent (by rw [hnone]; decide) hplain.not_mem]
    exact fun h => hplain.not_beginsWhole h.2

/-- The formula of a token is of the kind that its word asks for, if it asks for any. The cases are
those of the definition, in its order. -/
theorem kind_formulaOfToken (token : List Char)
    (hfits : ∀ r ∈ reference, ∀ i ∈ initial, Length.Fits (r - i)) :
    ∃ formula, (formulaOfToken token initial reference).run.value = .ok formula ∧
      ∀ kind, formula.map AnchorFormula.kind = some kind ↔
        Asks (Text.trim token) initial reference kind := by
  have hstart := (Text.stripped_trim token).trimStart_eq_self
  unfold formulaOfToken
  generalize Text.trim token = word at hstart ⊢
  simp only
  split
  · next hnone =>
    simp only [Bool.or_eq_true, List.isEmpty_iff, beq_iff_eq] at hnone
    exact ⟨none, rfl, fun kind => by simpa using not_asks_of_none hnone kind⟩
  · split
    · next hside =>
      have hasks : ∀ kind, Asks word initial reference kind ↔ _ :=
        asks_iff_of_side (by simpa using hside)
      split
      · next r i =>
        have hgap : Length.sub r i = .ok (r - i) := Length.sub_eq_ok.2 ⟨rfl, hfits r rfl i rfl⟩
        refine ⟨some (.side (r - i)), by rw [hgap]; rfl, fun kind => ?_⟩
        simp [hasks, AnchorFormula.kind, eq_comm]
      · next hlengths =>
        refine ⟨none, rfl, fun kind => ?_⟩
        simp only [Option.map_none, reduceCtorEq, hasks, false_iff]
        intro ⟨_, hinitial, hreference⟩
        obtain ⟨i, rfl⟩ := Option.isSome_iff_exists.1 hinitial
        obtain ⟨r, rfl⟩ := Option.isSome_iff_exists.1 hreference
        exact hlengths r i rfl rfl
    · next hside =>
      replace hside : String.ofList (Text.foldCase word) ∉ sideWords := by simpa using hside
      split
      · next hpercent =>
        have hasks : ∀ kind, Asks word initial reference kind ↔ _ :=
          asks_iff_of_percent hside (by simpa using hpercent)
        have hreads := Text.isSome_leadingDecimal?_iff word
        rw [hstart] at hreads
        split
        · next hread => exact ⟨none, rfl, fun kind => by simp [hasks, ← hreads, hread]⟩
        · next p hread =>
          refine ⟨reference.map fun _ => .percent p.toFloat, rfl, fun kind => ?_⟩
          cases reference with
          | none => simp [hasks]
          | some r => simp [hasks, ← hreads, hread, AnchorFormula.kind, eq_comm]
      · next hpercent =>
        have hasks : ∀ kind, Asks word initial reference kind ↔ _ :=
          asks_iff_of_no_percent hside (by simpa using hpercent)
        have hreads := Text.isSome_leadingInt?_iff word
        rw [hstart] at hreads
        split
        · next n hread =>
          refine ⟨some (.offset n), rfl, fun kind => ?_⟩
          simp [hasks, ← hreads, hread, AnchorFormula.kind, eq_comm]
        · next hread => exact ⟨none, rfl, fun kind => by simp [hasks, ← hreads, hread]⟩

/-- An anchor is built of the kind that the token asks for without the blanks around it, and there
is none if it asks for no kind. No character of the token is ever cut. -/
theorem build_accepts (token : String) (initial reference : Option Int)
    (hfits : ∀ r ∈ reference, ∀ i ∈ initial, Length.Fits (r - i)) :
    Text.Stripped token.toList (Text.trim token.toList) ∧
      Text.CutBetweenCharacters (Text.trim token.toList) ∧
      ∃ built, (build token initial reference).run.value = .ok built ∧
        (∀ kind, built.map (fun a => a.formula.kind) = some kind ↔
          Asks (Text.trim token.toList) initial reference kind) ∧
        (built = none ↔ ∀ kind, ¬ Asks (Text.trim token.toList) initial reference kind) ∧
        (Text.trim token.toList = [] ∨
          String.ofList (Text.foldCase (Text.trim token.toList)) = "none" → built = none) := by
  have hstripped := Text.stripped_trim token.toList
  refine ⟨hstripped, Text.cutBetweenCharacters hstripped.trimStart_eq_self, ?_⟩
  obtain ⟨formula, hformula, hkind⟩ := kind_formulaOfToken token.toList hfits
  have hbuild : (build token initial reference).run.value = .ok (formula.map fresh) := by
    rw [build, ExceptT.run_bind, Noted.value_bind, hformula]
    rfl
  have hnone : formula.map fresh = none ↔
      ∀ kind, ¬ Asks (Text.trim token.toList) initial reference kind := by
    rw [Option.map_eq_none_iff]
    constructor
    · intro hempty kind
      rw [← hkind, hempty]
      simp
    · intro hasks
      cases formula with
      | none => rfl
      | some f => exact absurd ((hkind f.kind).1 rfl) (hasks _)
  refine ⟨formula.map fresh, hbuild, fun kind => ?_, hnone, fun h => hnone.2 (not_asks_of_none h)⟩
  rw [← hkind, Option.map_map]
  rfl

/-- A minus, a point and a digit before the percent sign, between blanks, with a letter behind it
that takes two bytes. -/
theorem percent_between_blanks :
    (∀ r ∈ some (100 : Int), ∀ i ∈ (none : Option Int), Length.Fits (r - i)) ∧
      ∃ built, (build "\t -.5%é\n" none (some 100)).run.value = .ok built ∧
        built.map (fun a => a.formula.kind) = some .percent := by
  have hfits : ∀ r ∈ some (100 : Int), ∀ i ∈ (none : Option Int), Length.Fits (r - i) := by simp
  obtain ⟨-, -, built, hbuilt, hkind, -⟩ := build_accepts "\t -.5%é\n" none (some 100) hfits
  refine ⟨hfits, built, hbuilt, (hkind .percent).2 ?_⟩
  have hword : Text.trim "\t -.5%é\n".toList = ['-', '.', '5', '%', 'é'] := by decide
  rw [hword]
  exact .percent (by decide) rfl
    ⟨true, ['-'], ['.', '5'], ['%', 'é'], .minus, .fraction (by decide) (by decide), rfl⟩

/-! ## Offsets -/

/-- `text` is the number `n`, written in decimal digits, perhaps with zeros in front of them: with a
minus if it is negative and perhaps with a plus if it is not. -/
inductive Spells (n : Int) : (text : List Char) → Prop
  | nonneg {mark : List Char} (zeros : Nat) : 0 ≤ n → Text.IsSign false mark →
      Spells n (mark ++ Text.decimal zeros n.natAbs)
  | negative {mark : List Char} (zeros : Nat) : n < 0 → Text.IsSign true mark →
      Spells n (mark ++ Text.decimal zeros n.natAbs)

theorem formulaOfToken_of_whole {token : List Char} {n : Int}
    (hblank : ∀ c ∈ token, Text.isBlank c = false) (hpercent : '%' ∉ token)
    (hread : Text.leadingInt? token = some n) :
    formulaOfToken token initial reference = pure (some (.offset n)) := by
  have hword := Text.trim_of_unblank hblank
  have hstart := (hword ▸ Text.stripped_trim token).trimStart_eq_self
  have hwhole : Text.BeginsWhole token := by
    rw [← hstart, ← Text.isSome_leadingInt?_iff, hread]
    rfl
  have hplain : ¬ Text.Plain token := fun h => h.not_beginsWhole hwhole
  have hnone : String.ofList (Text.foldCase token) ≠ "none" :=
    fun h => hplain (plain_of_mem (by simp [h]))
  have hside : String.ofList (Text.foldCase token) ∉ sideWords :=
    fun h => hplain (plain_of_mem (List.mem_cons_of_mem _ h))
  have hne : token ≠ [] := by
    rintro rfl
    cases hread
  simp [formulaOfToken, hword, hne, hnone, hside, hpercent, hread]

variable {n : Int} {text suffix : List Char}

/-- A number that is read is the one that is written, as long as its magnitude is a length. -/
theorem leadingInt?_of_spells (htext : Spells n text) (hends : Text.EndsDigits suffix) :
    Text.leadingInt? (text ++ suffix) =
      some (max (-Length.greatest) (min n Length.greatest)) := by
  have hpositive : 0 ≤ Length.greatest := by decide
  cases htext with
  | nonneg zeros hn hmark =>
    rw [Text.leadingInt?_decimal hmark zeros n.natAbs hends, if_neg Bool.false_ne_true]
    congr 1
    omega
  | negative zeros hn hmark =>
    rw [Text.leadingInt?_decimal hmark zeros n.natAbs hends, if_pos rfl]
    congr 1
    omega

theorem Spells.mem (htext : Spells n text) :
    ∀ c ∈ text, c.isDigit = true ∨ c = '-' ∨ c = '+' := by
  intro c hc
  cases htext with
  | nonneg zeros _ hmark | negative zeros _ hmark =>
    rcases List.mem_append.1 hc with hc | hc
    · cases hmark <;> simp_all
    · exact .inl (Text.allDigits_decimal zeros n.natAbs c hc)

/-- A number in front of any suffix gives an offset: exactly the number if it is greater than the
least length and no greater than the greatest, and the greatest length from there on. The least
length, and every number below it, give the length that comes after the least one. -/
theorem offset_of_written (htext : Spells n text) (hends : Text.EndsDigits suffix)
    (hblank : ∀ c ∈ suffix, Text.isBlank c = false) (hpercent : '%' ∉ suffix)
    (initial reference : Option Int) :
    ∃ m, build (String.ofList (text ++ suffix)) initial reference =
        pure (some (fresh (.offset m))) ∧
      (Length.least < n → m = Length.saturate n) ∧ (n ≤ Length.least → m = Length.least + 1) := by
  refine ⟨max (-Length.greatest) (min n Length.greatest), ?_, ?_, ?_⟩
  · have hmarks := htext.mem
    have hunblank : ∀ c ∈ text ++ suffix, Text.isBlank c = false := by
      intro c hc
      rcases List.mem_append.1 hc with hc | hc
      · rcases hmarks c hc with hdigit | rfl | rfl
        · exact Text.isBlank_of_isDigit hdigit
        · rfl
        · rfl
      · exact hblank c hc
    have hno : '%' ∉ text ++ suffix := by
      intro hmem
      rcases List.mem_append.1 hmem with hmem | hmem
      · exact absurd (hmarks '%' hmem) (by decide)
      · exact hpercent hmem
    rw [build, String.toList_ofList,
      formulaOfToken_of_whole hunblank hno (leadingInt?_of_spells htext hends)]
    rfl
  · unfold Length.saturate Length.least Length.greatest
    omega
  · unfold Length.least Length.greatest
    omega

/-- The least length, with a unit behind it, is read as the length after it. -/
theorem offset_of_least :
    Spells Length.least "-2147483648".toList ∧ Text.EndsDigits ['p', 'x'] ∧
      (∀ c ∈ ['p', 'x'], Text.isBlank c = false) ∧ '%' ∉ ['p', 'x'] ∧
      build "-2147483648px" none none = pure (some (fresh (.offset (-2147483647)))) := by
  have htext : Spells Length.least "-2147483648".toList := .negative 0 (by decide) .minus
  have hends : Text.EndsDigits ['p', 'x'] := by decide
  have hblank : ∀ c ∈ ['p', 'x'], Text.isBlank c = false := by
    rw [List.forall_mem_cons, List.forall_mem_singleton]
    decide
  have hpercent : '%' ∉ ['p', 'x'] := by decide
  refine ⟨htext, hends, hblank, hpercent, ?_⟩
  obtain ⟨m, hbuild, -, hleast⟩ := offset_of_written htext hends hblank hpercent none none
  rw [hleast (Int.le_refl _)] at hbuild
  exact hbuild

end Anchor

end Trellis
