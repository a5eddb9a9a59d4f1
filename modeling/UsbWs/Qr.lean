import UsbWs.Envelope
import UsbWs.Lib.Base64

/-!
# Invites

An invite is the text `K0` and the base64 of what a CMD_INTRO_FROM body holds.
`decodeQr` takes it apart by cuts of its own; that it learns the same peer as
`decodeIntroFrom` from the same bytes, or fails with it, is
`decodeQr_eq_decodeIntroFrom`.
-/

namespace UsbWs

open Text

variable {SK VK K : Type} {C : Crypto SK VK}

def qrPrefix : List Char := ['K', '0']

inductive QrError where
  | badPrefix
  | badBase64
  | tooShort
  | badKey
  deriving DecidableEq

/-! The lengths of the parts. -/

theorem length_xPub {raw : List UInt8} (h : ¬ raw.length < 64) : (raw.take 32).length = 32 := by
  simp only [List.length_take]
  omega

theorem length_edPub {raw : List UInt8} (h : ¬ raw.length < 64) :
    ((raw.take 64).drop 32).length = 32 := by
  simp only [List.length_drop, List.length_take]
  omega

theorem length_peerId (xPub : U8Array 32) : (xPub.val.take 8).length = 8 := by
  simp only [List.length_take, xPub.property]
  omega

/-- Decode an invite "K0<base64url(x_pub || ed_pub || nick)>". -/
def decodeQr (B : Base64Codec) (fromBytes : U8Array 32 → Option K) (qr : List Char) :
    Except QrError (Peer K) :=
  match stripPrefix qrPrefix (trim qr) with
  | none => .error .badPrefix
  | some body =>
      match B.decode body with
      | none => .error .badBase64
      | some raw =>
          if h : raw.length < 64 then .error .tooShort
          else
            let xPub : U8Array 32 := ⟨raw.take 32, length_xPub h⟩
            match fromBytes ⟨(raw.take 64).drop 32, length_edPub h⟩ with
            | none => .error .badKey
            | some edPub =>
                .ok {
                  xPub, edPub,
                  id := ⟨xPub.val.take 8, length_peerId xPub⟩
                  nick := fromUtf8Lossy (raw.drop 64) }

/-- Encode our invite. -/
def makeQr (B : Base64Codec) (asBytes : VK → U8Array 32) (me : Identity C) (nick : List Char) :
    List Char :=
  qrPrefix ++ B.encode (me.xPub.val ++ (asBytes me.edPub).val ++ utf8 nick)

variable {fromBytes : U8Array 32 → Option K}

/-- White space around an invite is dropped, and nothing else. -/
theorem trim_invite (B : Base64Codec) (raw : List UInt8) {before after : List Char}
    (hbefore : Blank before) (hafter : Blank after) :
    trim (before ++ (qrPrefix ++ B.encode raw) ++ after) = qrPrefix ++ B.encode raw := by
  have hfixed : ∀ c ∈ qrPrefix, isWhitespace c = false := by simp [qrPrefix, isWhitespace]
  rw [trim_append_blank hafter, trim_blank_append hbefore, trim_of_forall]
  intro c hc
  rcases List.mem_append.1 hc with hc | hc
  · exact hfixed c hc
  · exact B.not_whitespace raw c hc

/-- An invite and an introduction of the same bytes name the same peer. -/
theorem decodeQr_encode (B : Base64Codec) (fromBytes : U8Array 32 → Option K) (raw : List UInt8)
    {before after : List Char} (hbefore : Blank before) (hafter : Blank after) :
    (decodeQr B fromBytes (before ++ (qrPrefix ++ B.encode raw) ++ after)).toOption =
      (decodeIntroFrom fromBytes raw).toOption := by
  rw [decodeQr, trim_invite B raw hbefore hafter, stripPrefix_append]
  simp only [B.decode_encode]
  rw [decodeIntroFrom]
  split
  · rfl
  · next h =>
      cases hkey : fromBytes ⟨(raw.take 64).drop 32, length_edPub h⟩ with
      | none => simp only; rfl
      | some edPub => simp only; rfl

/-- The id of a peer is the beginning of its key. -/
theorem id_of_decodeIntroFrom {body : List UInt8} {peer : Peer K}
    (h : decodeIntroFrom fromBytes body = .ok peer) : peer.id.val = peer.xPub.val.take 8 := by
  rw [decodeIntroFrom] at h
  split at h
  · cases h
  · simp only at h
    split at h <;> cases h
    rfl

/-- The peer of an introduction with the keys and the nick of an identity. -/
theorem decodeIntroFrom_identity {fromBytes : U8Array 32 → Option VK} {asBytes : VK → U8Array 32}
    (hkey : ∀ key, fromBytes (asBytes key) = some key) (me : Identity C) (nick : List Char) :
    decodeIntroFrom fromBytes (me.xPub.val ++ (asBytes me.edPub).val ++ utf8 nick) =
      .ok ⟨me.xPub, me.edPub, me.id, nick⟩ := by
  obtain ⟨peer, hpeer, hx, hed, hnick⟩ := exists_decodeIntroFrom (hkey me.edPub) me.xPub nick
  have hid : peer.id = me.id := Subtype.ext (by rw [id_of_decodeIntroFrom hpeer, hx, me.id_eq])
  rw [hpeer]
  cases peer
  cases hx
  cases hed
  cases hid
  cases hnick
  rfl

theorem eq_ok_of_toOption {ε α : Type} {r : Except ε α} {a : α} (h : r.toOption = some a) :
    r = .ok a := by
  cases r with
  | error e => cases h
  | ok b => cases h; rfl

theorem decodeQr_makeQr (B : Base64Codec) {fromBytes : U8Array 32 → Option VK}
    {asBytes : VK → U8Array 32} (hkey : ∀ key, fromBytes (asBytes key) = some key)
    (me : Identity C) (nick : List Char) {before after : List Char} (hbefore : Blank before)
    (hafter : Blank after) :
    decodeQr B fromBytes (before ++ makeQr B asBytes me nick ++ after) =
      .ok ⟨me.xPub, me.edPub, me.id, nick⟩ := by
  have hqr := decodeQr_encode B fromBytes
    (me.xPub.val ++ (asBytes me.edPub).val ++ utf8 nick) hbefore hafter
  rw [decodeIntroFrom_identity hkey] at hqr
  exact eq_ok_of_toOption hqr

/-- An invite names the identity that made it, whatever white space is around
it; and for any bytes the invite of them and the introduction of them either
both fail or name the same peer. -/
theorem invite_codec (B : Base64Codec) (fromBytes : U8Array 32 → Option VK)
    (asBytes : VK → U8Array 32) (hkey : ∀ key, fromBytes (asBytes key) = some key) :
    (∀ (me : Identity C) (nick before after : List Char), Blank before → Blank after →
      decodeQr B fromBytes (before ++ makeQr B asBytes me nick ++ after) =
        .ok ⟨me.xPub, me.edPub, me.id, nick⟩) ∧
    (∀ raw : List UInt8,
      (decodeQr B fromBytes (qrPrefix ++ B.encode raw)).toOption =
        (decodeIntroFrom fromBytes raw).toOption) := by
  constructor
  · intro me nick before after hbefore hafter
    exact decodeQr_makeQr B hkey me nick hbefore hafter
  · intro raw
    have hblank : Blank [] := fun c hc => absurd hc List.not_mem_nil
    have hqr := decodeQr_encode B fromBytes raw hblank hblank
    rwa [List.nil_append, List.append_nil] at hqr

theorem invite_codec_alice :
    decodeQr .urlSafeNoPad some
        ([' ', '\n'] ++ makeQr .urlSafeNoPad id alice ['l', 'a', 'b'] ++ ['\t']) =
      .ok ⟨alice.xPub, alice.edPub, alice.id, ['l', 'a', 'b']⟩ :=
  (invite_codec .urlSafeNoPad some id fun _ => rfl).1 alice ['l', 'a', 'b'] _ _ (by decide)
    (by decide)

end UsbWs
