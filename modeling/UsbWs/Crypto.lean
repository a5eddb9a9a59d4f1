import UsbWs.Frame
import UsbWs.Invite

/-!
# What the crypto crates provide

The primitives are the parameters of everything that is encrypted or signed.
They are functions: X25519, Ed25519, XChaCha20-Poly1305 and the keystream of
ChaCha20, of which only the eight bytes over a header are ever used.
`Crypto.Lawful` says what the round trips rely on. The decoders are safe
without it, for whatever a signature check or a decryption may return.
-/

namespace UsbWs

/-- `[0u8; n]`. -/
def U8Array.zero (n : Nat) : U8Array n := ⟨List.replicate n 0, List.length_replicate⟩

/-- `[b; n]`. -/
def U8Array.fill (n : Nat) (b : UInt8) : U8Array n := ⟨List.replicate n b, List.length_replicate⟩

/-- What `apply_keystream` does to a buffer. -/
def U8Array.xor {n : Nat} (a b : U8Array n) : U8Array n :=
  ⟨List.zipWith (· ^^^ ·) a.val b.val,
    by rw [List.length_zipWith, a.property, b.property, min_self]⟩

theorem zipWith_xor_cancel : ∀ {a b : List UInt8}, a.length = b.length →
    List.zipWith (· ^^^ ·) (List.zipWith (· ^^^ ·) a b) b = a
  | [], _, _ => rfl
  | x :: a, y :: b, h => by
      simp only [List.length_cons, Nat.add_right_cancel_iff] at h
      simp only [List.zipWith_cons_cons, zipWith_xor_cancel h, UInt8.xor_assoc, UInt8.xor_self,
        UInt8.xor_zero]

/-- A keystream applied twice leaves the buffer as it was. -/
@[simp] theorem U8Array.xor_xor {n : Nat} (a b : U8Array n) : (a.xor b).xor b = a :=
  Subtype.ext (zipWith_xor_cancel (by rw [a.property, b.property]))

structure Crypto (SK VK : Type) where
  x25519 : U8Array 32 → U8Array 32 → U8Array 32
  basepoint : U8Array 32
  signingKey : U8Array 32 → SK
  verifyingKey : SK → VK
  sign : SK → Bytes → U8Array 64
  verify : VK → Bytes → U8Array 64 → Bool
  encrypt : U8Array 32 → U8Array 24 → Bytes → Bytes
  decrypt : U8Array 32 → U8Array 24 → Bytes → Option Bytes
  keystream : U8Array 32 → U8Array 12 → U8Array 8

namespace Crypto

variable {SK VK : Type}

/-- Agreement is symmetric, a signature verifies under the public key of the
key that made it, and decryption inverts encryption, which adds 16 bytes. -/
structure Lawful (C : Crypto SK VK) : Prop where
  agree : ∀ a b, C.x25519 a (C.x25519 b C.basepoint) = C.x25519 b (C.x25519 a C.basepoint)
  verify_sign : ∀ key message, C.verify (C.verifyingKey key) message (C.sign key message) = true
  decrypt_encrypt : ∀ key nonce plain, C.decrypt key nonce (C.encrypt key nonce plain) = some plain
  length_encrypt : ∀ key nonce plain, (C.encrypt key nonce plain).length = plain.length + 16

/-- Primitives without secrets, under which the laws hold. -/
def transparent : Crypto (U8Array 32) (U8Array 32) where
  x25519 := U8Array.xor
  basepoint := .zero 32
  signingKey := id
  verifyingKey := id
  sign := fun key _ => ⟨key.val ++ key.val, by rw [List.length_append, key.property]⟩
  verify := fun key _ signature => signature.val = key.val ++ key.val
  encrypt := fun _ _ plain => plain ++ List.replicate 16 0
  decrypt := fun _ _ ct => if ct.length < 16 then none else some (ct.take (ct.length - 16))
  keystream := fun key _ => ⟨key.val.take 8, by rw [List.length_take, key.property]; rfl⟩

theorem xor_comm {n : Nat} (a b : U8Array n) : a.xor b = b.xor a :=
  Subtype.ext (List.zipWith_comm_of_comm UInt8.xor_comm)

theorem zipWith_xor_assoc : ∀ a b c : List UInt8,
    List.zipWith (· ^^^ ·) a (List.zipWith (· ^^^ ·) b c) =
      List.zipWith (· ^^^ ·) b (List.zipWith (· ^^^ ·) a c)
  | [], b, _ => by cases b <;> simp
  | _ :: _, [], _ => by simp
  | _ :: _, _ :: _, [] => by simp
  | x :: a, y :: b, z :: c => by
      simp only [List.zipWith_cons_cons, zipWith_xor_assoc a b c, ← UInt8.xor_assoc,
        UInt8.xor_comm x y]

theorem transparent_lawful : transparent.Lawful where
  agree := fun a b => Subtype.ext (zipWith_xor_assoc a.val b.val _)
  verify_sign := fun key message => decide_eq_true rfl
  decrypt_encrypt := fun key nonce plain => by simp [transparent]
  length_encrypt := fun key nonce plain => by simp [transparent]

/-- As `transparent`, but a ciphertext shows its key, and decrypts under no key
that shows otherwise. -/
def keyed : Crypto (U8Array 32) (U8Array 32) where
  __ := transparent
  encrypt := fun key _ plain => plain ++ key.val.take 16
  decrypt := fun key _ ct =>
    if ct.drop (ct.length - 16) = key.val.take 16 then some (ct.take (ct.length - 16)) else none

theorem keyed_decrypt (key key' : U8Array 32) (nonce : U8Array 24) (plain : Bytes) :
    keyed.decrypt key nonce (keyed.encrypt key' nonce plain) =
      if key'.val.take 16 = key.val.take 16 then some plain else none := by
  have hlen : (plain ++ key'.val.take 16).length - 16 = plain.length := by
    rw [List.length_append, List.length_take, key'.property]
    rfl
  simp only [keyed, hlen, List.drop_left, List.take_left]

theorem keyed_lawful : keyed.Lawful where
  agree := transparent_lawful.agree
  verify_sign := transparent_lawful.verify_sign
  decrypt_encrypt := fun key nonce plain => by rw [keyed_decrypt, if_pos rfl]
  length_encrypt := fun key nonce plain => by simp [keyed, key.property]

end Crypto

end UsbWs
