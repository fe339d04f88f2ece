import Mathlib.Data.List.Basic
import Mathlib.Data.List.Induction
import Trellis.Text.Leading

/-!
# Which texts begin with a number

A whole number is a sign, if there is one, and digits. A decimal number may have a point among its
digits, before them or behind them, but is never a point alone. Reading stops where the number ends,
so that a text is read as a number exactly if it begins with one.

* `naturalUpTo_eq`: holding a number to a bound after every digit is holding it to the bound once.
* `leadingInt?_numeral`, `leadingInt?_decimal`: digits after a sign are read as the number that they
  spell, up to the greatest length.
* `isSome_leadingInt?_iff`, `isSome_leadingDecimal?_iff`: which texts begin with a number.
-/
namespace Trellis.Text

/-! ## Characters -/

theorem isBlank_of_isDigit {c : Char} (h : c.isDigit = true) : isBlank c = false := by
  have hrange := Char.isDigit_iff_toNat.1 h
  simp only [show '0'.toNat = 48 from rfl, show '9'.toNat = 57 from rfl] at hrange
  simp [isBlank]
  omega

theorem isSeparator_of_isDigit {c : Char} (h : c.isDigit = true) : isSeparator c = false := by
  have hblank := isBlank_of_isDigit h
  rw [← Bool.not_eq_true]
  intro hc
  simp [isBlank_of_isSeparator hc] at hblank

/-- Every character is a digit. -/
def AllDigits (cs : List Char) : Prop := ∀ c ∈ cs, c.isDigit = true

/-- No number that ends before `cs` goes on in `cs`. -/
def EndsDigits (cs : List Char) : Prop := ∀ c ∈ cs.head?, c.isDigit = false

instance (cs : List Char) : Decidable (AllDigits cs) :=
  decidable_of_iff (cs.all Char.isDigit = true) List.all_eq_true

instance : (cs : List Char) → Decidable (EndsDigits cs)
  | [] => .isTrue (by simp [EndsDigits])
  | c :: _ => decidable_of_iff (c.isDigit = false) (by simp [EndsDigits])

theorem allDigits_takeWhile (cs : List Char) : AllDigits (cs.takeWhile Char.isDigit) :=
  List.all_eq_true.1 List.all_takeWhile

theorem endsDigits_dropWhile (cs : List Char) : EndsDigits (cs.dropWhile Char.isDigit) := by
  intro c hc
  have hfirst := List.head?_dropWhile_not Char.isDigit cs
  rw [Option.mem_def.1 hc] at hfirst
  exact hfirst

theorem takeWhile_of_endsDigits {cs : List Char} (h : EndsDigits cs) :
    cs.takeWhile Char.isDigit = [] := by
  cases cs with
  | nil => rfl
  | cons c cs => exact List.takeWhile_cons_of_neg (by simp [h c rfl])

theorem takeWhile_digits_append {digits rest : List Char} (hdigits : AllDigits digits)
    (hrest : EndsDigits rest) : (digits ++ rest).takeWhile Char.isDigit = digits := by
  rw [List.takeWhile_append_of_pos hdigits, takeWhile_of_endsDigits hrest, List.append_nil]

theorem dropWhile_digits_append {digits rest : List Char} (hdigits : AllDigits digits)
    (hrest : EndsDigits rest) : (digits ++ rest).dropWhile Char.isDigit = rest := by
  rw [List.dropWhile_append_of_pos hdigits]
  cases rest with
  | nil => rfl
  | cons c rest => exact List.dropWhile_cons_of_neg (by simp [hrest c rfl])

/-! ## The number that digits spell -/

theorem naturalOf_eq_ofDigitChars (digits : List Char) :
    naturalOf digits = Nat.ofDigitChars 10 digits 0 := by
  simp only [naturalOf, digitValue, Nat.ofDigitChars_eq_foldl, Nat.mul_comm]

/-- A number past the bound stays past it with every further digit. -/
theorem naturalUpTo_eq (most : Nat) (digits : List Char) :
    naturalUpTo most digits = min (naturalOf digits) most := by
  induction digits using List.reverseRecOn with
  | nil => simp [naturalUpTo, naturalOf]
  | append_singleton digits c ih =>
    have hstep : naturalOf (digits ++ [c]) = naturalOf digits * 10 + digitValue c := by
      simp [naturalOf]
    have hheld : naturalUpTo most (digits ++ [c]) =
        min (naturalUpTo most digits * 10 + digitValue c) most := by
      simp [naturalUpTo]
    rw [hheld, ih, hstep]
    omega

theorem naturalUpTo_greatest (digits : List Char) :
    (naturalUpTo Length.greatest.toNat digits : Int) =
      min (naturalOf digits : Int) Length.greatest := by
  have hgreatest : (Length.greatest.toNat : Int) = Length.greatest := by decide
  rw [naturalUpTo_eq]
  omega

/-- The decimal digits of `n`, after some zeros. -/
def decimal (zeros n : Nat) : List Char := List.replicate zeros '0' ++ Nat.toDigits 10 n

theorem decimal_ne_nil (zeros n : Nat) : decimal zeros n ≠ [] :=
  List.append_ne_nil_of_right_ne_nil _ Nat.toDigits_ne_nil

theorem allDigits_decimal (zeros n : Nat) : AllDigits (decimal zeros n) := by
  intro c hc
  rcases List.mem_append.1 hc with hzero | hdigit
  · rw [List.eq_of_mem_replicate hzero]
    rfl
  · exact Nat.isDigit_of_mem_toDigits (by decide) (by decide) hdigit

theorem naturalOf_decimal (zeros n : Nat) : naturalOf (decimal zeros n) = n := by
  have hzeros : naturalOf (List.replicate zeros '0') = 0 := by
    induction zeros with
    | zero => rfl
    | succ zeros ih => exact ih
  have hdigits : (Nat.toDigits 10 n).foldl (fun n c => n * 10 + digitValue c) 0 = n := by
    rw [← naturalOf, naturalOf_eq_ofDigitChars, Nat.ofDigitChars_ten_toDigits]
  rw [decimal, naturalOf, List.foldl_append, ← naturalOf, hzeros, hdigits]

/-! ## Signs -/

/-- A sign, or nothing; a minus makes the number behind it negative. -/
inductive IsSign : (negative : Bool) → List Char → Prop
  | none : IsSign false []
  | plus : IsSign false ['+']
  | minus : IsSign true ['-']

/-- No sign stands at the beginning of `cs`. -/
def Unsigned (cs : List Char) : Prop := ∀ c ∈ cs.head?, c ≠ '-' ∧ c ≠ '+'

variable {negative : Bool} {mark digits rest cs : List Char}

theorem sign_of_unsigned (h : Unsigned cs) : sign cs = (false, cs) := by
  unfold sign
  split
  · exact absurd rfl (h _ rfl).1
  · exact absurd rfl (h _ rfl).2
  · rfl

theorem sign_append (hmark : IsSign negative mark) (hrest : mark = [] → Unsigned rest) :
    sign (mark ++ rest) = (negative, rest) := by
  cases hmark with
  | none => exact sign_of_unsigned (hrest rfl)
  | plus => rfl
  | minus => rfl

/-- What `sign` passes over is a sign, if the text begins with one. -/
theorem exists_mark (cs : List Char) :
    ∃ mark, IsSign (sign cs).1 mark ∧ (mark = [] → Unsigned (sign cs).2) ∧
      cs = mark ++ (sign cs).2 := by
  unfold sign
  split
  · exact ⟨_, .minus, by simp, rfl⟩
  · exact ⟨_, .plus, by simp, rfl⟩
  · next hminus hplus =>
    refine ⟨_, .none, fun _ c hc => ⟨?_, ?_⟩, rfl⟩
    · rintro rfl
      obtain ⟨rest, hrest⟩ := List.head?_eq_some_iff.1 hc
      exact hminus rest hrest
    · rintro rfl
      obtain ⟨rest, hrest⟩ := List.head?_eq_some_iff.1 hc
      exact hplus rest hrest

theorem unsigned_of_isDigit {c : Char} (h : c.isDigit = true) (cs : List Char) :
    Unsigned (c :: cs) := by
  intro d hd
  cases hd
  refine ⟨?_, ?_⟩ <;> rintro rfl <;> cases h

theorem unsigned_digits (hdigits : AllDigits digits) (hne : digits ≠ []) (rest : List Char) :
    Unsigned (digits ++ rest) := by
  obtain ⟨c, others, rfl⟩ := List.exists_cons_of_ne_nil hne
  exact unsigned_of_isDigit (hdigits c (by simp)) _

theorem Unsigned.of_append (h : Unsigned (cs ++ rest)) : Unsigned cs := by
  intro c hc
  exact h c (by simp [Option.mem_def.1 hc])

theorem IsSign.isBlank (h : IsSign negative mark) : ∀ c ∈ mark, isBlank c = false := by
  intro c hc
  cases h with
  | none => cases hc
  | plus | minus =>
    obtain rfl := List.mem_singleton.1 hc
    rfl

/-- Text that does not begin with a blank has none in front. -/
theorem trimStart_of_head (h : ∀ c ∈ cs.head?, isBlank c = false) : trimStart cs = cs := by
  cases cs with
  | nil => rfl
  | cons c cs => exact List.dropWhile_cons_of_neg (by simp [h c rfl])

/-- No blank stands in front of the first part of a text if none stands in front of the text. -/
theorem trimStart_of_append (h : trimStart (cs ++ rest) = cs ++ rest) : trimStart cs = cs := by
  refine trimStart_of_head fun c hc => ?_
  have hfirst := List.head?_dropWhile_not isBlank (cs ++ rest)
  rw [← trimStart, h, List.head?_append, Option.mem_def.1 hc] at hfirst
  exact hfirst

/-! ## Whole numbers -/

/-- A sign, if there is one, and a digit. -/
def BeginsWhole (cs : List Char) : Prop :=
  ∃ negative mark digit rest, IsSign negative mark ∧ digit.isDigit = true ∧
    cs = mark ++ digit :: rest

/-- Digits after a sign are read as the number that they spell, up to the greatest length. -/
theorem leadingInt?_numeral (hmark : IsSign negative mark) (hdigits : AllDigits digits)
    (hne : digits ≠ []) (hrest : EndsDigits rest) :
    leadingInt? (mark ++ digits ++ rest) =
      some (if negative then -min (naturalOf digits : Int) Length.greatest
        else min (naturalOf digits : Int) Length.greatest) := by
  have hstart : trimStart (mark ++ (digits ++ rest)) = mark ++ (digits ++ rest) := by
    refine trimStart_of_head fun c hc => ?_
    rw [← List.append_assoc, List.head?_append_of_ne_nil _ (by simp [hne])] at hc
    rcases List.mem_append.1 (List.mem_of_mem_head? hc) with hc | hc
    · exact hmark.isBlank c hc
    · exact isBlank_of_isDigit (hdigits c hc)
  unfold leadingInt?
  rw [List.append_assoc, hstart, sign_append hmark fun _ => unsigned_digits hdigits hne rest]
  simp [takeWhile_digits_append hdigits hrest, hne, naturalUpTo_greatest]

/-- The decimal digits of `n` after a sign, zeros in front of them or not. -/
theorem leadingInt?_decimal (hmark : IsSign negative mark) (zeros n : Nat)
    (hrest : EndsDigits rest) :
    leadingInt? (mark ++ decimal zeros n ++ rest) =
      some (if negative then -min (n : Int) Length.greatest
        else min (n : Int) Length.greatest) := by
  rw [leadingInt?_numeral hmark (allDigits_decimal zeros n) (decimal_ne_nil zeros n) hrest,
    naturalOf_decimal]

theorem isSome_leadingInt?_iff (cs : List Char) :
    (leadingInt? cs).isSome ↔ BeginsWhole (trimStart cs) := by
  constructor
  · intro hsome
    obtain ⟨mark, hmark, -, hsplit⟩ := exists_mark (trimStart cs)
    have hne : (sign (trimStart cs)).2.takeWhile Char.isDigit ≠ [] := by
      intro hnone
      simp [leadingInt?, hnone] at hsome
    obtain ⟨digit, digits, heq⟩ := List.exists_cons_of_ne_nil hne
    have hdigit : digit.isDigit = true :=
      allDigits_takeWhile (sign (trimStart cs)).2 digit (by rw [heq]; simp)
    refine ⟨_, mark, digit, digits ++ (sign (trimStart cs)).2.dropWhile Char.isDigit, hmark, hdigit,
      ?_⟩
    rw [← List.cons_append, ← heq, List.takeWhile_append_dropWhile, ← hsplit]
  · rintro ⟨negative, mark, digit, rest, hmark, hdigit, heq⟩
    have hsign := sign_append hmark fun _ => unsigned_of_isDigit hdigit rest
    simp [leadingInt?, heq, hsign, hdigit]

/-! ## Decimal numbers -/

/-- Digits, digits with a point and perhaps more digits behind it, or a point and digits. -/
inductive Numeral : List Char → Prop
  | whole {digits : List Char} : AllDigits digits → digits ≠ [] → Numeral digits
  | pointed {digits fraction : List Char} : AllDigits digits → digits ≠ [] →
      AllDigits fraction → Numeral (digits ++ '.' :: fraction)
  | fraction {digits : List Char} : AllDigits digits → digits ≠ [] → Numeral ('.' :: digits)

/-- A sign, if there is one, and a numeral. -/
def BeginsDecimal (cs : List Char) : Prop :=
  ∃ negative mark numeral rest, IsSign negative mark ∧ Numeral numeral ∧
    cs = mark ++ numeral ++ rest

/-- What comes behind whole digits: decimal digits behind a point, or no decimal part at all. -/
inductive DecimalPart : (text fraction rest : List Char) → Prop
  | none {rest : List Char} : EndsDigits rest → (∀ c ∈ rest.head?, c ≠ '.') → DecimalPart [] [] rest
  | some {fraction rest : List Char} : AllDigits fraction → EndsDigits rest →
      DecimalPart ('.' :: fraction) fraction rest

variable {whole text fraction : List Char}

theorem DecimalPart.endsDigits (h : DecimalPart text fraction rest) :
    EndsDigits (text ++ rest) := by
  cases h with
  | none hends _ => exact hends
  | some _ _ =>
    intro c hc
    cases hc
    rfl

theorem DecimalPart.alone (h : DecimalPart text fraction rest) : DecimalPart text fraction [] := by
  cases h with
  | none _ _ => exact .none (by simp [EndsDigits]) (by simp)
  | some hdigits _ => exact .some hdigits (by simp [EndsDigits])

theorem exists_decimalPart (h : EndsDigits cs) :
    ∃ text fraction rest, DecimalPart text fraction rest ∧ cs = text ++ rest := by
  by_cases hpoint : ∃ tail, cs = '.' :: tail
  · obtain ⟨tail, rfl⟩ := hpoint
    refine ⟨_, tail.takeWhile Char.isDigit, tail.dropWhile Char.isDigit,
      .some (allDigits_takeWhile tail) (endsDigits_dropWhile tail), ?_⟩
    rw [List.cons_append, List.takeWhile_append_dropWhile]
  · refine ⟨[], [], cs, .none h fun c hc heq => ?_, rfl⟩
    obtain ⟨tail, rfl⟩ := List.head?_eq_some_iff.1 hc
    exact hpoint ⟨tail, by rw [heq]⟩

/-- Every text comes apart into a sign, whole digits, a decimal part and the rest, the parts of
which may all be empty. -/
theorem exists_parts (cs : List Char) :
    ∃ mark whole text fraction rest, IsSign (sign cs).1 mark ∧
      (mark = [] → Unsigned (whole ++ (text ++ rest))) ∧ AllDigits whole ∧
      DecimalPart text fraction rest ∧ (sign cs).2 = whole ++ (text ++ rest) ∧
      cs = mark ++ (whole ++ (text ++ rest)) := by
  obtain ⟨mark, hmark, hunsigned, hsplit⟩ := exists_mark cs
  obtain ⟨text, fraction, rest, hpart, hrest⟩ :=
    exists_decimalPart (endsDigits_dropWhile (sign cs).2)
  have hdigits : (sign cs).2 = (sign cs).2.takeWhile Char.isDigit ++ (text ++ rest) := by
    rw [← hrest, List.takeWhile_append_dropWhile]
  refine ⟨mark, _, text, fraction, rest, hmark, ?_, allDigits_takeWhile _, hpart, hdigits, ?_⟩
  · rw [← hdigits]
    exact hunsigned
  · rw [← hdigits]
    exact hsplit

/-- A decimal is read off its parts; there has to be a digit before or behind the point. -/
theorem leadingDecimal?_of_parts
    (hsign : sign (trimStart cs) = (negative, whole ++ (text ++ rest))) (hwhole : AllDigits whole)
    (hpart : DecimalPart text fraction rest) :
    leadingDecimal? cs =
      if whole.isEmpty && fraction.isEmpty then none else some ⟨negative, whole, fraction⟩ := by
  have htake := takeWhile_digits_append hwhole hpart.endsDigits
  have hdrop := dropWhile_digits_append hwhole hpart.endsDigits
  unfold leadingDecimal?
  simp only [hsign, htake, hdrop]
  cases hpart with
  | none _ hpoint =>
    split
    · next tail heq =>
      rw [List.nil_append] at heq
      exact absurd rfl (hpoint '.' (by simp [heq]))
    · rfl
  | some hdigits hends => simp [takeWhile_digits_append hdigits hends]

theorem isSome_leadingDecimal?_iff (cs : List Char) :
    (leadingDecimal? cs).isSome ↔ BeginsDecimal (trimStart cs) := by
  constructor
  · intro hsome
    obtain ⟨mark, whole, text, fraction, rest, hmark, -, hwhole, hpart, hsign, hsplit⟩ :=
      exists_parts (trimStart cs)
    have hread := leadingDecimal?_of_parts (Prod.ext rfl hsign) hwhole hpart
    by_cases hnone : whole = []
    · subst hnone
      cases hpart with
      | none _ _ => simp [hread] at hsome
      | some hdigits _ =>
        refine ⟨_, mark, _, rest, hmark, .fraction hdigits ?_, ?_⟩
        · rintro rfl
          simp [hread] at hsome
        · rw [List.append_assoc]
          exact hsplit
    · refine ⟨_, mark, whole, text ++ rest, hmark, .whole hwhole hnone, ?_⟩
      rw [List.append_assoc]
      exact hsplit
  · rintro ⟨negative, mark, numeral, rest, hmark, hnumeral, heq⟩
    have hunsigned : Unsigned (numeral ++ rest) := by
      cases hnumeral with
      | whole hdigits hne => exact unsigned_digits hdigits hne rest
      | pointed hdigits hne _ =>
        rw [List.append_assoc]
        exact unsigned_digits hdigits hne _
      | fraction _ _ =>
        intro c hc
        cases hc
        decide
    have hsign : sign (trimStart cs) = (negative, numeral ++ rest) := by
      rw [heq, List.append_assoc, sign_append hmark fun _ => hunsigned]
    cases hnumeral with
    | @whole digits hdigits hne | @pointed digits _ hdigits hne _ =>
      obtain ⟨digit, digits, rfl⟩ := List.exists_cons_of_ne_nil hne
      have hdigit := hdigits digit (by simp)
      simp [leadingDecimal?, hsign, hdigit]
    | @fraction digits hdigits hne =>
      obtain ⟨digit, digits, rfl⟩ := List.exists_cons_of_ne_nil hne
      have hdigit := hdigits digit (by simp)
      have hpoint : '.'.isDigit = false := rfl
      simp [leadingDecimal?, hsign, hdigit, hpoint]

end Trellis.Text
