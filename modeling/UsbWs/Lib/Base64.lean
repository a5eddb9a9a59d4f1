import UsbWs.Lib.Text

/-!
# Base64

`Base64Codec` is the interface of a base64 library: it decodes what it encodes,
and it writes no white space. A development takes a codec as a parameter and
relies on these two laws alone. `urlSafeNoPad` is such a codec, the one with
the URL alphabet and without padding.
-/

namespace Text

structure Base64Codec where
  encode : List UInt8 → List Char
  decode : List Char → Option (List UInt8)
  decode_encode : ∀ v, decode (encode v) = some v
  not_whitespace : ∀ v, ∀ c ∈ encode v, isWhitespace c = false

namespace Base64Codec

/-! ## The URL alphabet -/

def symbol (n : Nat) : Char :=
  if n < 26 then Char.ofNat (0x41 + n)
  else if n < 52 then Char.ofNat (0x47 + n)
  else if n < 62 then Char.ofNat (n - 4)
  else if n = 62 then '-' else '_'

def symbolValue (c : Char) : Option Nat :=
  if 'A' ≤ c ∧ c ≤ 'Z' then some (c.toNat - 0x41)
  else if 'a' ≤ c ∧ c ≤ 'z' then some (c.toNat - 0x47)
  else if '0' ≤ c ∧ c ≤ '9' then some (c.toNat + 4)
  else if c = '-' then some 62
  else if c = '_' then some 63
  else none

theorem symbolValue_symbol : ∀ n : Fin 64, symbolValue (symbol n) = some n.val := by decide

theorem isWhitespace_symbol : ∀ n : Fin 64, isWhitespace (symbol n) = false := by decide

/-! ## Three bytes in four symbols -/

def urlEncode : List UInt8 → List Char
  | [] => []
  | [a] => [symbol (a.toNat / 4), symbol (a.toNat % 4 * 16)]
  | [a, b] =>
      [symbol (a.toNat / 4), symbol (a.toNat % 4 * 16 + b.toNat / 16),
        symbol (b.toNat % 16 * 4)]
  | a :: b :: c :: v =>
      symbol (a.toNat / 4) :: symbol (a.toNat % 4 * 16 + b.toNat / 16) ::
        symbol (b.toNat % 16 * 4 + c.toNat / 64) :: symbol (c.toNat % 64) :: urlEncode v

/-- The bits that fill up the last symbol are zero. -/
def urlDecode : List Char → Option (List UInt8)
  | [] => some []
  | [_] => none
  | [c, d] =>
      match symbolValue c, symbolValue d with
      | some w, some x => if x % 16 = 0 then some [UInt8.ofNat (w * 4 + x / 16)] else none
      | _, _ => none
  | [c, d, e] =>
      match symbolValue c, symbolValue d, symbolValue e with
      | some w, some x, some y =>
          if y % 4 = 0 then
            some [UInt8.ofNat (w * 4 + x / 16), UInt8.ofNat (x % 16 * 16 + y / 4)]
          else none
      | _, _, _ => none
  | c :: d :: e :: f :: s =>
      match symbolValue c, symbolValue d, symbolValue e, symbolValue f, urlDecode s with
      | some w, some x, some y, some z, some v =>
          some (UInt8.ofNat (w * 4 + x / 16) :: UInt8.ofNat (x % 16 * 16 + y / 4) ::
            UInt8.ofNat (y % 4 * 64 + z) :: v)
      | _, _, _, _, _ => none

theorem symbolValue_of_lt {n : Nat} (h : n < 64) : symbolValue (symbol n) = some n :=
  symbolValue_symbol ⟨n, h⟩

theorem urlDecode_urlEncode (v : List UInt8) : urlDecode (urlEncode v) = some v := by
  fun_induction urlEncode v with
  | case1 => rfl
  | case2 a =>
      have ha := a.toNat_lt
      have hbyte : a.toNat / 4 * 4 + a.toNat % 4 * 16 / 16 = a.toNat := by omega
      rw [urlDecode, symbolValue_of_lt (by omega), symbolValue_of_lt (by omega)]
      simp only [hbyte, UInt8.ofNat_toNat]
      rw [if_pos (by omega)]
  | case3 a b =>
      have ha := a.toNat_lt
      have hb := b.toNat_lt
      have hfirst : a.toNat / 4 * 4 + (a.toNat % 4 * 16 + b.toNat / 16) / 16 = a.toNat := by omega
      have hsecond : (a.toNat % 4 * 16 + b.toNat / 16) % 16 * 16 + b.toNat % 16 * 4 / 4 =
          b.toNat := by omega
      rw [urlDecode, symbolValue_of_lt (by omega), symbolValue_of_lt (by omega),
        symbolValue_of_lt (by omega)]
      simp only [hfirst, hsecond, UInt8.ofNat_toNat]
      rw [if_pos (by omega)]
  | case4 a b c v ih =>
      have ha := a.toNat_lt
      have hb := b.toNat_lt
      have hc := c.toNat_lt
      have hfirst : a.toNat / 4 * 4 + (a.toNat % 4 * 16 + b.toNat / 16) / 16 = a.toNat := by omega
      have hsecond : (a.toNat % 4 * 16 + b.toNat / 16) % 16 * 16 +
          (b.toNat % 16 * 4 + c.toNat / 64) / 4 = b.toNat := by omega
      have hthird : (b.toNat % 16 * 4 + c.toNat / 64) % 4 * 64 + c.toNat % 64 = c.toNat := by omega
      rw [urlDecode, symbolValue_of_lt (by omega), symbolValue_of_lt (by omega),
        symbolValue_of_lt (by omega), symbolValue_of_lt (by omega), ih]
      simp only [hfirst, hsecond, hthird, UInt8.ofNat_toNat]

theorem isWhitespace_of_lt {n : Nat} (h : n < 64) : isWhitespace (symbol n) = false :=
  isWhitespace_symbol ⟨n, h⟩

theorem not_whitespace_urlEncode (v : List UInt8) : ∀ c ∈ urlEncode v, isWhitespace c = false := by
  fun_induction urlEncode v with
  | case1 => simp
  | case2 a =>
      have ha := a.toNat_lt
      simp only [List.forall_mem_cons]
      refine ⟨isWhitespace_of_lt (by omega), isWhitespace_of_lt (by omega), by simp⟩
  | case3 a b =>
      have ha := a.toNat_lt
      have hb := b.toNat_lt
      simp only [List.forall_mem_cons]
      exact ⟨isWhitespace_of_lt (by omega), isWhitespace_of_lt (by omega),
        isWhitespace_of_lt (by omega), by simp⟩
  | case4 a b c v ih =>
      have ha := a.toNat_lt
      have hb := b.toNat_lt
      have hc := c.toNat_lt
      simp only [List.forall_mem_cons]
      exact ⟨isWhitespace_of_lt (by omega), isWhitespace_of_lt (by omega),
        isWhitespace_of_lt (by omega), isWhitespace_of_lt (by omega), ih⟩

def urlSafeNoPad : Base64Codec where
  encode := urlEncode
  decode := urlDecode
  decode_encode := urlDecode_urlEncode
  not_whitespace := not_whitespace_urlEncode

end Base64Codec

end Text
