import UsbWs.Lib.Text

/-!
# Hexadecimal text

`HexCodec` is the interface of a hex library: what it decodes are digits of
either case, two for each byte, and it decodes what it encodes. A development
takes a codec as a parameter and relies on these three laws alone. `ascii` is
such a codec, the one that writes lower case.
-/

namespace Text

def isHexDigit (c : Char) : Bool :=
  ('0' ≤ c && c ≤ '9') || ('a' ≤ c && c ≤ 'f') || ('A' ≤ c && c ≤ 'F')

structure HexCodec where
  encode : List UInt8 → List Char
  decode : List Char → Option (List UInt8)
  decode_encode : ∀ v, decode (encode v) = some v
  digit_of_decode : ∀ {s v}, decode s = some v → ∀ c ∈ s, isHexDigit c = true
  length_of_decode : ∀ {s v}, decode s = some v → s.length = 2 * v.length

theorem isHexDigit_bounds {c : Char} (h : isHexDigit c = true) :
    0x30 ≤ c.toNat ∧ c.toNat ≤ 0x66 := by
  simp only [isHexDigit, Bool.or_eq_true, Bool.and_eq_true, decide_eq_true_eq, Char.le_def,
    UInt32.le_iff_toNat_le] at h
  rcases h with (⟨h₁, h₂⟩ | ⟨h₁, h₂⟩) | ⟨h₁, h₂⟩
  · exact ⟨h₁, Nat.le_trans h₂ (by decide)⟩
  · exact ⟨Nat.le_trans (by decide) h₁, h₂⟩
  · exact ⟨Nat.le_trans (by decide) h₁, Nat.le_trans h₂ (by decide)⟩

theorem isWhitespace_of_hexDigit {c : Char} (h : isHexDigit c = true) :
    isWhitespace c = false := by
  obtain ⟨h₁, h₂⟩ := isHexDigit_bounds h
  simp [isWhitespace]
  omega

theorem ne_of_hexDigit {c d : Char} (h : isHexDigit c = true) (hd : d.toNat < 0x30) : c ≠ d := by
  rintro rfl
  have := (isHexDigit_bounds h).1
  omega

namespace HexCodec

variable (H : HexCodec) (v : List UInt8)

theorem digit_of_encode : ∀ c ∈ H.encode v, isHexDigit c = true :=
  H.digit_of_decode (H.decode_encode v)

variable {H v} in
theorem not_whitespace_of_decode {s : List Char} (h : H.decode s = some v) :
    ∀ c ∈ s, isWhitespace c = false :=
  fun c hc => isWhitespace_of_hexDigit (H.digit_of_decode h c hc)

theorem not_whitespace_of_encode : ∀ c ∈ H.encode v, isWhitespace c = false :=
  not_whitespace_of_decode (H.decode_encode v)

theorem newline_not_mem_encode : '\n' ∉ H.encode v := fun hm => by
  have hw := H.not_whitespace_of_encode v _ hm
  cases hw

theorem length_encode : (H.encode v).length = 2 * v.length :=
  H.length_of_decode (H.decode_encode v)

/-! ## Lower case digits -/

def digit (n : Nat) : Char := if n < 10 then Char.ofNat (0x30 + n) else Char.ofNat (0x57 + n)

def digitValue (c : Char) : Option Nat :=
  if '0' ≤ c ∧ c ≤ '9' then some (c.toNat - 0x30)
  else if 'a' ≤ c ∧ c ≤ 'f' then some (c.toNat - 0x57)
  else if 'A' ≤ c ∧ c ≤ 'F' then some (c.toNat - 0x37)
  else none

theorem digitValue_digit : ∀ n : Fin 16, digitValue (digit n) = some n.val := by decide

theorem isHexDigit_of_value {c : Char} {n : Nat} (h : digitValue c = some n) :
    isHexDigit c = true := by
  unfold digitValue at h
  unfold isHexDigit
  split at h
  · next hdec => simp [hdec]
  · split at h
    · next hlow => simp [hlow]
    · split at h
      · next hup => simp [hup]
      · cases h

def asciiEncode (v : List UInt8) : List Char :=
  v.flatMap fun b => [digit (b.toNat / 16), digit (b.toNat % 16)]

def asciiDecode : List Char → Option (List UInt8)
  | [] => some []
  | [_] => none
  | c :: d :: s =>
      match digitValue c, digitValue d, asciiDecode s with
      | some m, some n, some v => some (UInt8.ofNat (16 * m + n) :: v)
      | _, _, _ => none

theorem asciiDecode_some {s : List Char} {v : List UInt8} (h : asciiDecode s = some v) :
    (∀ c ∈ s, isHexDigit c = true) ∧ s.length = 2 * v.length := by
  fun_induction asciiDecode s generalizing v with
  | case1 =>
      cases h
      simp
  | case2 => cases h
  | case3 c d s m n w hw hn hm ih =>
      cases h
      obtain ⟨hdig, hlen⟩ := ih hw
      refine ⟨?_, by simp only [List.length_cons, hlen]; omega⟩
      simp only [List.mem_cons, forall_eq_or_imp]
      exact ⟨isHexDigit_of_value hm, isHexDigit_of_value hn, hdig⟩
  | case4 => cases h

theorem asciiDecode_asciiEncode (v : List UInt8) : asciiDecode (asciiEncode v) = some v := by
  induction v with
  | nil => rfl
  | cons b v ih =>
      have hlt := b.toNat_lt
      have hhigh := digitValue_digit ⟨b.toNat / 16, by omega⟩
      have hlow := digitValue_digit ⟨b.toNat % 16, by omega⟩
      have hcons : asciiEncode (b :: v) =
          digit (b.toNat / 16) :: digit (b.toNat % 16) :: asciiEncode v := rfl
      have hbyte : 16 * (b.toNat / 16) + b.toNat % 16 = b.toNat := Nat.div_add_mod _ _
      simp only [hcons, asciiDecode, hhigh, hlow, ih, hbyte, UInt8.ofNat_toNat]

def ascii : HexCodec where
  encode := asciiEncode
  decode := asciiDecode
  decode_encode := asciiDecode_asciiEncode
  digit_of_decode := fun h => (asciiDecode_some h).1
  length_of_decode := fun h => (asciiDecode_some h).2

end HexCodec

end Text
