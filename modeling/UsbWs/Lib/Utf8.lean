import Mathlib.Tactic.Common

/-!
# Texts as bytes

`utf8` is the encoding of a text, `fromUtf8` the strict decoder, which fails
on bytes that encode no text, and `fromUtf8Lossy` the one that never fails: it
puts U+FFFD in the place of each ill-formed sequence, where a sequence is the
longest that could have begun a character, as Rust's `from_utf8_lossy` does.
Both decoders return the text of an encoded text.
-/

namespace Text

/-- `str::as_bytes`. -/
def utf8 (t : List Char) : List UInt8 := t.flatMap String.utf8EncodeChar

/-- `String::from_utf8`. -/
def fromUtf8 (b : List UInt8) : Option (List Char) :=
  b.toByteArray.utf8Decode?.map Array.toList

theorem utf8_append (t u : List Char) : utf8 (t ++ u) = utf8 t ++ utf8 u := List.flatMap_append

/-- In an ASCII text a character is a byte. -/
theorem take_utf8 {t : List Char} (h : ∀ c ∈ t, c.toNat < 128) (n : Nat) :
    (utf8 t).take n = utf8 (t.take n) := by
  induction t generalizing n with
  | nil => simp [utf8]
  | cons c t ih =>
      cases n with
      | zero => rfl
      | succ n =>
          have hsize : (String.utf8EncodeChar c).length = 1 := by
            rw [String.length_utf8EncodeChar, Char.utf8Size_eq_one_iff, UInt32.le_iff_toNat_le]
            have hc := h c (by simp)
            exact Nat.le_of_lt_succ hc
          obtain ⟨b, hb⟩ := List.length_eq_one_iff.1 hsize
          have hcons : ∀ u, utf8 (c :: u) = b :: utf8 u := fun u => by
            rw [utf8, List.flatMap_cons, hb]
            rfl
          rw [hcons, List.take_succ_cons, List.take_succ_cons, hcons,
            ih fun d hd => h d (by simp [hd])]

theorem toByteArray_utf8 (t : List Char) : (utf8 t).toByteArray = t.utf8Encode := rfl

@[simp] theorem fromUtf8_utf8 (t : List Char) : fromUtf8 (utf8 t) = some t := by
  rw [fromUtf8, toByteArray_utf8, List.utf8Decode?_utf8Encode]
  rfl

theorem eq_utf8_of_fromUtf8 {b : List UInt8} {t : List Char} (h : fromUtf8 b = some t) :
    b = utf8 t := by
  obtain ⟨a, ha, rfl⟩ := Option.map_eq_some_iff.1 h
  have hsome : b.toByteArray.utf8Decode?.isSome = true := by rw [ha]; rfl
  have hback := ByteArray.utf8Encode_get_utf8Decode? (h := hsome)
  simp only [ha, Option.get_some] at hback
  have hdata := congrArg (fun a => a.data.toList) hback
  simpa [List.utf8Encode, utf8] using hdata.symm

/-- The first character, where the bytes begin with one. -/
def decodeChar (b : List UInt8) : Option Char := b.toByteArray.utf8DecodeChar? 0

/-- The second byte may continue a character of more than two bytes that begins
with the first. -/
def mayFollow (b₀ b₁ : UInt8) : Bool :=
  if b₀ = 0xE0 then 0xA0 ≤ b₁ && b₁ ≤ 0xBF
  else if b₀ = 0xED then 0x80 ≤ b₁ && b₁ ≤ 0x9F
  else if b₀ = 0xF0 then 0x90 ≤ b₁ && b₁ ≤ 0xBF
  else if b₀ = 0xF4 then 0x80 ≤ b₁ && b₁ ≤ 0x8F
  else 0xE1 ≤ b₀ && b₀ ≤ 0xF3 && 0x80 ≤ b₁ && b₁ ≤ 0xBF

def isCont (b : UInt8) : Bool := 0x80 ≤ b && b ≤ 0xBF

/-- The length of the ill-formed sequence that bytes begin with, when they
begin with no character; bytes past the end count as zero. -/
def illFormed (b₀ : UInt8) (rest : List UInt8) : Nat :=
  if 0xE0 ≤ b₀ ∧ b₀ ≤ 0xEF ∧ mayFollow b₀ (rest.getD 0 0) then 2
  else if 0xF0 ≤ b₀ ∧ b₀ ≤ 0xF4 ∧ mayFollow b₀ (rest.getD 0 0) then
    if isCont (rest.getD 1 0) then 3 else 2
  else 1

theorem illFormed_pos (b₀ : UInt8) (rest : List UInt8) : 0 < illFormed b₀ rest := by
  unfold illFormed
  split
  · exact Nat.succ_pos _
  · split
    · split <;> exact Nat.succ_pos _
    · exact Nat.succ_pos _

/-- `String::from_utf8_lossy`. -/
def fromUtf8Lossy : List UInt8 → List Char
  | [] => []
  | b₀ :: rest =>
      match decodeChar (b₀ :: rest) with
      | some c => c :: fromUtf8Lossy ((b₀ :: rest).drop c.utf8Size)
      | none => Char.ofNat 0xFFFD :: fromUtf8Lossy ((b₀ :: rest).drop (illFormed b₀ rest))
termination_by b => b.length
decreasing_by
  · have := c.utf8Size_pos
    simp only [List.length_drop, List.length_cons]
    omega
  · have := illFormed_pos b₀ rest
    simp only [List.length_drop, List.length_cons]
    omega

/-- The lossy decoder takes an encoded character off the front. -/
theorem fromUtf8Lossy_encodeChar (c : Char) (b : List UInt8) :
    fromUtf8Lossy (String.utf8EncodeChar c ++ b) = c :: fromUtf8Lossy b := by
  have hlen : (String.utf8EncodeChar c).length = c.utf8Size := String.length_utf8EncodeChar c
  have hdec : decodeChar (String.utf8EncodeChar c ++ b) = some c := by
    rw [decodeChar, List.toByteArray_append]
    exact ByteArray.utf8DecodeChar?_utf8EncodeChar_append
  cases hb : String.utf8EncodeChar c ++ b with
  | nil =>
      have hpos := c.utf8Size_pos
      have hzero := congrArg List.length hb
      simp only [List.length_append, List.length_nil] at hzero
      omega
  | cons b₀ rest =>
      rw [fromUtf8Lossy, ← hb, hdec]
      simp only [List.drop_left' hlen]

theorem fromUtf8Lossy_utf8 (t : List Char) : fromUtf8Lossy (utf8 t) = t := by
  induction t with
  | nil => simp [utf8, fromUtf8Lossy]
  | cons c t ih =>
      have hcons : utf8 (c :: t) = String.utf8EncodeChar c ++ utf8 t := List.flatMap_cons
      rw [hcons, fromUtf8Lossy_encodeChar, ih]

end Text
