import Trellis.Proofs.Text.Numbers

/-!
# Numbers end between characters

Texts are stored in UTF-8, and the end of the number that a text begins with can be looked for byte
by byte: signs, digits and the point are single bytes below 128, and every other character begins
with some other byte. So a text that is cut at the places that are found is never cut inside a
character, and what is cut off is the number.

* `utf8EncodeChar_cases`: the first byte of a character is below 128 only if it is the whole
  character.
* `takeWhile_bytes`: bytes are passed over exactly as far as characters are.
* `cutBetweenCharacters`: the places behind the sign and behind the number.
-/
namespace Trellis.Text

/-! ## Bytes of a text -/

/-- A text in UTF-8. -/
def bytes (cs : List Char) : List UInt8 := cs.flatMap String.utf8EncodeChar

@[simp] theorem bytes_append (cs ds : List Char) : bytes (cs ++ ds) = bytes cs ++ bytes ds :=
  List.flatMap_append

/-- No character has bytes both before and behind the first `n` bytes. -/
def IsBoundary (cs : List Char) (n : Nat) : Prop :=
  String.Pos.Raw.IsValid (String.ofList cs) ⟨n⟩

theorem isBoundary_append (front back : List Char) :
    IsBoundary (front ++ back) (bytes front).length := by
  refine String.Pos.Raw.isValid_iff_exists_append.2
    ⟨String.ofList front, String.ofList back, String.ofList_append, ?_⟩
  simp [bytes, String.rawEndPos, String.utf8ByteSize, List.utf8Encode]

/-- The first byte of a character is below 128 only if it is the whole character. -/
theorem utf8EncodeChar_cases (c : Char) :
    (c.toNat < 128 ∧ String.utf8EncodeChar c = [UInt8.ofNat c.toNat]) ∨
      ∃ b tail, 128 ≤ c.toNat ∧ 128 ≤ b.toNat ∧ String.utf8EncodeChar c = b :: tail := by
  have hvalue : c.val.toNat = c.toNat := rfl
  simp only [String.utf8EncodeChar, hvalue]
  split
  · exact .inl ⟨by omega, rfl⟩
  · right
    split
    · refine ⟨_, _, by omega, ?_, rfl⟩
      rw [UInt8.toNat_ofNat']
      omega
    · split
      · refine ⟨_, _, by omega, ?_, rfl⟩
        rw [UInt8.toNat_ofNat']
        omega
      · refine ⟨_, _, by omega, ?_, rfl⟩
        rw [UInt8.toNat_ofNat']
        omega

/-- Whether `q` holds of a character is seen from its first byte, and it holds of characters of one
byte only. -/
structure Tells (p : UInt8 → Bool) (q : Char → Bool) : Prop where
  ascii : ∀ n < 128, p (UInt8.ofNat n) = q (Char.ofNat n)
  char : ∀ c, q c = true → c.toNat < 128
  byte : ∀ b, p b = true → b.toNat < 128

variable {p : UInt8 → Bool} {q : Char → Bool}

namespace Tells

theorem eq_of_lt (h : Tells p q) {c : Char} (hc : c.toNat < 128) :
    p (UInt8.ofNat c.toNat) = q c := by
  rw [h.ascii _ hc, Char.ofNat_toNat]

theorem char_of_le (h : Tells p q) {c : Char} (hc : 128 ≤ c.toNat) : q c = false := by
  rw [← Bool.not_eq_true]
  intro hq
  exact absurd (h.char c hq) (by omega)

theorem byte_of_le (h : Tells p q) {b : UInt8} (hb : 128 ≤ b.toNat) : p b = false := by
  rw [← Bool.not_eq_true]
  intro hp
  exact absurd (h.byte b hp) (by omega)

theorem head?_bytes (h : Tells p q) (cs : List Char) :
    (bytes cs).head?.any p = cs.head?.any q := by
  cases cs with
  | nil => rfl
  | cons c cs =>
    rcases utf8EncodeChar_cases c with ⟨hc, henc⟩ | ⟨b, tail, hc, hb, henc⟩
    · simp [bytes, henc, h.eq_of_lt hc]
    · simp [bytes, henc, h.char_of_le hc, h.byte_of_le hb]

/-- Bytes are passed over exactly as far as characters are. -/
theorem takeWhile_bytes (h : Tells p q) (cs : List Char) :
    (bytes cs).takeWhile p = bytes (cs.takeWhile q) := by
  induction cs with
  | nil => rfl
  | cons c cs ih =>
    rcases utf8EncodeChar_cases c with ⟨hc, henc⟩ | ⟨b, tail, hc, hb, henc⟩
    · have hbytes : bytes (c :: cs) = UInt8.ofNat c.toNat :: bytes cs := by simp [bytes, henc]
      rw [hbytes, List.takeWhile_cons, List.takeWhile_cons, h.eq_of_lt hc, ih]
      split
      · simp [bytes, henc]
      · rfl
    · have hbytes : bytes (c :: cs) = b :: (tail ++ bytes cs) := by simp [bytes, henc]
      rw [hbytes, List.takeWhile_cons_of_neg (by simp [h.byte_of_le hb]),
        List.takeWhile_cons_of_neg (by simp [h.char_of_le hc])]
      rfl

end Tells

/-! ## Looking for the end of a number -/

def isSignByte (b : UInt8) : Bool := b == 0x2D || b == 0x2B

def isDigitByte (b : UInt8) : Bool := 0x30 ≤ b && b ≤ 0x39

def isPointByte (b : UInt8) : Bool := b == 0x2E

/-- The place behind a sign, if there is one. -/
def signEnd (bs : List UInt8) : Nat := if bs.head?.any isSignByte then 1 else 0

/-- The place behind the digits. -/
def digitsEnd (bs : List UInt8) : Nat := (bs.takeWhile isDigitByte).length

/-- The place behind a point and the digits that follow it, if there is a point. -/
def pointEnd (bs : List UInt8) : Nat :=
  if bs.head?.any isPointByte then 1 + digitsEnd (bs.drop 1) else 0

/-- The place behind a sign, digits and a decimal part, each if there is one. -/
def numberEnd (bs : List UInt8) : Nat :=
  let whole := signEnd bs + digitsEnd (bs.drop (signEnd bs))
  whole + pointEnd (bs.drop whole)

theorem tells_sign : Tells isSignByte fun c => c == '-' || c == '+' where
  ascii := by decide
  char := by simp
  byte := by simp [isSignByte]

theorem tells_digit : Tells isDigitByte Char.isDigit where
  ascii := by decide
  char c hc := by
    have hrange := Char.isDigit_iff_toNat.1 hc
    simp only [show '9'.toNat = 57 from rfl] at hrange
    omega
  byte b hb := by
    simp only [isDigitByte, Bool.and_eq_true, decide_eq_true_eq, UInt8.le_iff_toNat_le] at hb
    exact Nat.lt_of_le_of_lt hb.2 (by decide)

theorem tells_point : Tells isPointByte (· == '.') where
  ascii := by decide
  char := by simp
  byte := by simp [isPointByte]

variable {negative : Bool} {mark whole text fraction rest cs : List Char}

theorem signEnd_bytes (hmark : IsSign negative mark) (hrest : mark = [] → Unsigned rest) :
    signEnd (bytes (mark ++ rest)) = (bytes mark).length := by
  unfold signEnd
  rw [tells_sign.head?_bytes]
  cases hmark with
  | none =>
    rw [if_neg]
    · rfl
    · intro hany
      obtain ⟨c, hc, hsign⟩ := Option.any_eq_true _ _ |>.1 hany
      have hunsigned := hrest rfl c hc
      simp [hunsigned] at hsign
  | plus | minus => rfl

theorem digitsEnd_bytes (hwhole : AllDigits whole) (hrest : EndsDigits rest) :
    digitsEnd (bytes (whole ++ rest)) = (bytes whole).length := by
  rw [digitsEnd, tells_digit.takeWhile_bytes, takeWhile_digits_append hwhole hrest]

theorem pointEnd_bytes (hpart : DecimalPart text fraction rest) :
    pointEnd (bytes (text ++ rest)) = (bytes text).length := by
  unfold pointEnd
  rw [tells_point.head?_bytes]
  cases hpart with
  | none _ hpoint =>
    rw [if_neg]
    · rfl
    · intro hany
      obtain ⟨c, hc, heq⟩ := Option.any_eq_true _ _ |>.1 hany
      exact hpoint c hc (by simpa using heq)
  | some hdigits hends =>
    have hdrop : (bytes ('.' :: fraction ++ rest)).drop 1 = bytes (fraction ++ rest) := rfl
    rw [if_pos (by rfl), hdrop, digitsEnd_bytes hdigits hends, Nat.add_comm]
    rfl

/-- The places behind the parts of a text, looked for byte by byte. -/
theorem numberEnd_bytes (hmark : IsSign negative mark)
    (hunsigned : mark = [] → Unsigned (whole ++ (text ++ rest))) (hwhole : AllDigits whole)
    (hpart : DecimalPart text fraction rest) :
    numberEnd (bytes (mark ++ (whole ++ (text ++ rest)))) =
      (bytes (mark ++ (whole ++ text))).length := by
  have hsign := signEnd_bytes hmark hunsigned
  have hbehindSign : (bytes (mark ++ (whole ++ (text ++ rest)))).drop (bytes mark).length =
      bytes (whole ++ (text ++ rest)) := by
    rw [bytes_append, List.drop_left]
  have hdigits := digitsEnd_bytes hwhole hpart.endsDigits
  have hbehindDigits : (bytes (mark ++ (whole ++ (text ++ rest)))).drop
      ((bytes mark).length + (bytes whole).length) = bytes (text ++ rest) := by
    rw [← List.drop_drop, hbehindSign, bytes_append, List.drop_left]
  simp only [numberEnd, hsign, hbehindSign, hdigits, hbehindDigits, pointEnd_bytes hpart]
  simp only [bytes_append, List.length_append, Nat.add_assoc]

/-- Where a text is cut to read the number it begins with: behind a sign and behind the number, both
between two characters. What `sign` leaves is the text behind the first place, and a decimal is
read from the text before the second. -/
structure CutBetweenCharacters (cs : List Char) : Prop where
  sign_boundary : IsBoundary cs (signEnd (bytes cs))
  number_boundary : IsBoundary cs (numberEnd (bytes cs))
  parts : ∃ mark number rest, cs = mark ++ (number ++ rest) ∧
    bytes mark = (bytes cs).take (signEnd (bytes cs)) ∧
    bytes (mark ++ number) = (bytes cs).take (numberEnd (bytes cs)) ∧
    (sign cs).2 = number ++ rest ∧ leadingDecimal? cs = leadingDecimal? (mark ++ number)

/-- A text without blanks in front is cut between characters. -/
theorem cutBetweenCharacters {cs : List Char} (h : trimStart cs = cs) :
    CutBetweenCharacters cs := by
  obtain ⟨mark, whole, text, fraction, rest, hmark, hunsigned, hwhole, hpart, hbehind, hsplit⟩ :=
    exists_parts cs
  have hsign : signEnd (bytes cs) = (bytes mark).length := by
    rw [hsplit]
    exact signEnd_bytes hmark hunsigned
  have hnumber : numberEnd (bytes cs) = (bytes (mark ++ (whole ++ text))).length := by
    rw [hsplit]
    exact numberEnd_bytes hmark hunsigned hwhole hpart
  have hfront : cs = (mark ++ (whole ++ text)) ++ rest := by
    rw [hsplit]
    simp only [List.append_assoc]
  have hread : leadingDecimal? cs = leadingDecimal? (mark ++ (whole ++ text)) := by
    have hsignFront : sign (mark ++ (whole ++ text)) = ((sign cs).1, whole ++ (text ++ [])) := by
      rw [List.append_nil]
      refine sign_append hmark fun hnone => ?_
      have hall := hunsigned hnone
      rw [← List.append_assoc] at hall
      exact hall.of_append
    rw [leadingDecimal?_of_parts (by rw [h]; exact Prod.ext rfl hbehind) hwhole hpart,
      leadingDecimal?_of_parts (by rw [trimStart_of_append (hfront ▸ h)]; exact hsignFront) hwhole
        hpart.alone]
  refine ⟨?_, ?_, mark, whole ++ text, rest, by rw [hsplit, List.append_assoc], ?_, ?_, ?_, hread⟩
  · rw [hsign, hsplit]
    exact isBoundary_append mark _
  · rw [hnumber, hfront]
    exact isBoundary_append _ rest
  · rw [hsign, hsplit, bytes_append, List.take_left]
  · rw [hnumber, hfront, bytes_append _ rest, List.take_left]
  · rw [hbehind, List.append_assoc]

end Trellis.Text
