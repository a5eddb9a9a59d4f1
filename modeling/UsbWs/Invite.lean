import UsbWs.Lib.Utf8

/-!
# The keys and the nick of a peer

A `Peer` comes out of an invite or out of a CMD_INTRO_FROM body. The keys are
the first 64 bytes; whatever follows is the nick, of any length and content.
The public key type is the one of the signature library, and so is the check
that 32 bytes are a public key; both are parameters.
-/

namespace UsbWs

open Text

/-- `[u8; n]`. -/
abbrev U8Array (n : Nat) := { v : List UInt8 // v.length = n }

/-- `<[u8; n]>::try_from`. -/
def U8Array.tryFrom {n : Nat} (v : List UInt8) : Option (U8Array n) :=
  if h : v.length = n then some ⟨v, h⟩ else none

theorem U8Array.tryFrom_val {n : Nat} (x : U8Array n) : tryFrom x.val = some x :=
  dif_pos x.property

theorem U8Array.eq_val_of_tryFrom {n : Nat} {v : List UInt8} {x : U8Array n}
    (h : tryFrom v = some x) : v = x.val := by
  rw [tryFrom] at h
  split at h <;> cases h
  rfl

structure Peer (K : Type) where
  xPub : U8Array 32
  edPub : K
  id : U8Array 8
  nick : List Char
  deriving DecidableEq

inductive IntroError where
  | tooShort
  | badKey
  deriving DecidableEq

/-- Build a `Peer` from a CMD_INTRO_FROM body: [x_pub:32][ed_pub:32][nick...]. -/
def decodeIntroFrom {K : Type} (fromBytes : U8Array 32 → Option K) (body : List UInt8) :
    Except IntroError (Peer K) :=
  if h : body.length < 64 then .error .tooShort
  else
    let xPub : U8Array 32 := ⟨body.take 32, by simp only [List.length_take]; omega⟩
    match fromBytes ⟨(body.take 64).drop 32,
        by simp only [List.length_drop, List.length_take]; omega⟩ with
    | none => .error .badKey
    | some edPub =>
        .ok {
          xPub, edPub,
          id := ⟨xPub.val.take 8, by simp only [List.length_take, xPub.property]; omega⟩
          nick := fromUtf8Lossy (body.drop 64) }

/-- Every text is the nick of some body. -/
theorem exists_decodeIntroFrom {K : Type} {fromBytes : U8Array 32 → Option K} {ed : U8Array 32}
    {edPub : K} (hed : fromBytes ed = some edPub) (x : U8Array 32) (nick : List Char) :
    ∃ peer, decodeIntroFrom fromBytes (x.val ++ ed.val ++ utf8 nick) = .ok peer ∧
      peer.xPub = x ∧ peer.edPub = edPub ∧ peer.nick = nick := by
  have hlen : (x.val ++ ed.val).length = 64 := by rw [List.length_append, x.property, ed.property]
  have hx : (x.val ++ ed.val ++ utf8 nick).take 32 = x.val := by
    rw [List.append_assoc, List.take_left' x.property]
  have hed' : ((x.val ++ ed.val ++ utf8 nick).take 64).drop 32 = ed.val := by
    rw [List.take_left' hlen, List.drop_left' x.property]
  have hnick : (x.val ++ ed.val ++ utf8 nick).drop 64 = utf8 nick := List.drop_left' hlen
  have hlong : ¬ (x.val ++ ed.val ++ utf8 nick).length < 64 := by
    rw [List.length_append, hlen]
    omega
  have hkey : fromBytes ⟨((x.val ++ ed.val ++ utf8 nick).take 64).drop 32,
      by rw [hed', ed.property]⟩ = some edPub := by
    simp only [hed']
    exact hed
  simp only [decodeIntroFrom, dif_neg hlong, hkey]
  refine ⟨_, rfl, Subtype.ext hx, rfl, ?_⟩
  rw [hnick, fromUtf8Lossy_utf8]

end UsbWs
