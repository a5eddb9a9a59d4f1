import UsbWs.Lib.Checked
import UsbWs.Crypto

/-!
# The frames of the relay

A frame on the websocket is a header of 8 bytes and a packet: a nonce of 24
bytes, a ciphertext with its tag of 16, and a signature of 64 over both. The
header holds an id under the mask that a session key and the nonce determine;
the relay takes it off, and puts another one on for the receiver.

The builders and decoders below are those of the source, cuts and unwraps
included. A byte string that the length guard lets through is a `RelayFrame`
(`exists_relayFrame`), and what each decoder makes of a `RelayFrame` is said
once (`decodeIncoming_bytes`, `decodeServerFrame_bytes`). That they never
panic, and that they recover what was built, is read off from there.
-/

namespace UsbWs

open Checked

variable {SK VK : Type}

/-! ## Keys and nonces -/

structure Identity (C : Crypto SK VK) where
  xPriv : U8Array 32
  xPub : U8Array 32
  ed : SK
  edPub : VK
  id : U8Array 8
  xPub_eq : xPub = C.x25519 xPriv C.basepoint
  edPub_eq : edPub = C.verifyingKey ed
  id_eq : id.val = xPub.val.take 8

/-- Set the bits of a scalar. -/
def clamp (seed : U8Array 32) : U8Array 32 :=
  ⟨(seed.val.modify 0 (· &&& 248)).modify 31 fun b => b &&& 127 ||| 64,
    by rw [List.length_modify, List.length_modify, seed.property]⟩

def Identity.fromSeeds (C : Crypto SK VK) (xSeed edSeed : U8Array 32) : Identity C where
  xPriv := clamp xSeed
  xPub := C.x25519 (clamp xSeed) C.basepoint
  ed := C.signingKey edSeed
  edPub := C.verifyingKey (C.signingKey edSeed)
  id := ⟨(C.x25519 (clamp xSeed) C.basepoint).val.take 8, by
    rw [List.length_take, (C.x25519 _ _).property]; rfl⟩
  xPub_eq := rfl
  edPub_eq := rfl
  id_eq := rfl

/-! ## The builders and the decoders -/

variable (C : Crypto SK VK)

def xorHeader (key : U8Array 32) (nonce24 : U8Array 24) (h : U8Array 8) :
    Checked (U8Array 8) := do
  let nonce12 ← unwrap (U8Array.tryFrom (n := 12) (← sliceTo nonce24.val 12))
  return h.xor (C.keystream key nonce12)

/-- The nonce is fresh for each packet. -/
def encryptAndSign (nonce : U8Array 24) (plain : Bytes) (myXPriv : U8Array 32) (myEd : SK)
    (theirXPub : U8Array 32) : Bytes :=
  let shared := C.x25519 myXPriv theirXPub
  let ct := C.encrypt shared nonce plain
  let packet := nonce.val ++ ct
  packet ++ (C.sign myEd packet).val

def verifyAndDecrypt (packet : Bytes) (myXPriv theirXPub : U8Array 32) (theirEdPub : VK) :
    Checked (Option Bytes) :=
  if packet.length < 24 + 16 + 64 then .ok none
  else do
    let (nc, sig) ← splitAt packet (← sub packet.length 64)
    match U8Array.tryFrom (n := 64) sig with
    | none => return none
    | some sig =>
        if C.verify theirEdPub nc sig = false then return none
        else
          match U8Array.tryFrom (n := 24) (← sliceTo nc 24) with
          | none => return none
          | some nonce =>
              let ct ← sliceFrom nc 24
              let shared := C.x25519 myXPriv theirXPub
              return C.decrypt shared nonce ct

/-- The two builders: a packet behind a header under the mask of its nonce. -/
def buildFrame (nonce : U8Array 24) (me : Identity C) (theirXPub : U8Array 32)
    (header : U8Array 8) (key : U8Array 32) (inner : Bytes) : Checked Bytes := do
  let packet := encryptAndSign C nonce inner me.xPriv me.ed theirXPub
  let nonce24 ← unwrap (U8Array.tryFrom (n := 24) (← sliceTo packet 24))
  let header ← xorHeader C key nonce24 header
  return header.val ++ packet

def buildPeerFrame (nonce : U8Array 24) (me : Identity C) (peerXPub : U8Array 32)
    (peerId : U8Array 8) (kC2s : U8Array 32) (inner : Bytes) : Checked Bytes :=
  buildFrame C nonce me peerXPub peerId kC2s inner

def buildServerBound (nonce : U8Array 24) (me : Identity C) (serverXPub kC2s : U8Array 32)
    (inner : Bytes) : Checked Bytes :=
  buildFrame C nonce me serverXPub (.zero 8) kC2s inner

/-- The header of a frame without its mask. -/
def unmask (key : U8Array 32) (frame : Bytes) : Checked (U8Array 8) := do
  let nonce24 ← unwrap (U8Array.tryFrom (n := 24) (← slice frame 8 32))
  let header ← unwrap (U8Array.tryFrom (n := 8) (← sliceTo frame 8))
  xorHeader C key nonce24 header

def decodeServerFrame (frame : Bytes) (kS2c myXPriv serverXPub : U8Array 32) (serverEd : VK) :
    Checked (Option Bytes) :=
  if frame.length < 8 + 24 + 16 + 64 then .ok none
  else do
    match U8Array.tryFrom (n := 24) (← slice frame 8 32) with
    | none => return none
    | some nonce24 =>
        match U8Array.tryFrom (n := 8) (← sliceTo frame 8) with
        | none => return none
        | some header =>
            let header ← xorHeader C kS2c nonce24 header
            if header ≠ .zero 8 then return none
            else verifyAndDecrypt C (← sliceFrom frame 8) myXPriv serverXPub serverEd

/-- What `handle_incoming` of the tunnel and of the serial bridge begin with:
the command and the body of a frame from the peer. -/
def decodeIncoming (frame : Bytes) (kS2c myXPriv peerXPub : U8Array 32) (peerEdPub : VK) :
    Checked (Option (UInt8 × Bytes)) :=
  if frame.length < 8 + 24 + 16 + 64 then .ok none
  else do
    let header ← unmask C kS2c frame
    if header = .zero 8 then return none
    else
      match ← verifyAndDecrypt C (← sliceFrom frame 8) myXPriv peerXPub peerEdPub with
      | none => return none
      | some inner =>
          if inner.length < 3 then return none
          else return some (← index inner 2, ← sliceFrom inner 3)

/-! ## Frames that pass the length guard -/

/-- A frame by its parts. -/
structure RelayFrame where
  header : U8Array 8
  nonce : U8Array 24
  ct : Bytes
  sig : U8Array 64
  tagged : 16 ≤ ct.length

namespace RelayFrame

variable (f : RelayFrame)

/-- The packet. -/
def packet : Bytes := f.nonce.val ++ (f.ct ++ f.sig.val)

def bytes : Bytes := f.header.val ++ f.packet

theorem length_packet : f.packet.length = 24 + f.ct.length + 64 := by
  rw [packet, List.length_append, List.length_append, f.nonce.property, f.sig.property]
  omega

theorem length_bytes : f.bytes.length = 8 + (24 + f.ct.length + 64) := by
  rw [bytes, List.length_append, f.header.property, length_packet]

theorem sliceTo_bytes : sliceTo f.bytes 8 = .ok f.header.val := sliceTo_append f.header.property

theorem slice_bytes : slice f.bytes 8 32 = .ok f.nonce.val :=
  slice_append f.header.property (by rw [f.nonce.property])

theorem sliceFrom_bytes : sliceFrom f.bytes 8 = .ok f.packet :=
  sliceFrom_append f.header.property

/-- The same packet behind another header. -/
def withHeader (header : U8Array 8) : RelayFrame := { f with header }

theorem withHeader_packet (header : U8Array 8) : (f.withHeader header).packet = f.packet := rfl

end RelayFrame

/-- What is long enough has all parts. -/
theorem exists_relayFrame {b : Bytes} (h : 8 + 24 + 16 + 64 ≤ b.length) :
    ∃ f : RelayFrame, f.bytes = b := by
  have hsig : b.length - 64 + 64 = b.length := by omega
  refine ⟨{
    header := ⟨b.take 8, by rw [List.length_take]; omega⟩
    nonce := ⟨(b.drop 8).take 24, by rw [List.length_take, List.length_drop]; omega⟩
    ct := (b.drop 32).take (b.length - 96)
    sig := ⟨b.drop (b.length - 64), by rw [List.length_drop]; omega⟩
    tagged := by rw [List.length_take, List.length_drop]; omega }, ?_⟩
  have htail : (b.drop 32).drop (b.length - 96) = b.drop (b.length - 64) := by
    rw [List.drop_drop]
    congr 1
    omega
  have hbody : (b.drop 32).take (b.length - 96) ++ b.drop (b.length - 64) = b.drop 32 := by
    rw [← htail, List.take_append_drop]
  have hnonce : (b.drop 8).take 24 ++ b.drop 32 = b.drop 8 := by
    have hdrop : b.drop 32 = (b.drop 8).drop 24 := by rw [List.drop_drop]
    rw [hdrop, List.take_append_drop]
  simp only [RelayFrame.bytes, RelayFrame.packet, hbody, hnonce, List.take_append_drop]

/-- The mask over a header. -/
def mask (key : U8Array 32) (nonce : U8Array 24) : U8Array 8 :=
  C.keystream key ⟨nonce.val.take 12, by rw [List.length_take, nonce.property]; rfl⟩

/-- The plaintext of a packet, if its signature verifies. -/
def RelayFrame.opened (f : RelayFrame) (myXPriv theirXPub : U8Array 32) (theirEdPub : VK) :
    Option Bytes :=
  if C.verify theirEdPub (f.nonce.val ++ f.ct) f.sig = false then none
  else C.decrypt (C.x25519 myXPriv theirXPub) f.nonce f.ct

/-- The command and the body of a plaintext. -/
def splitInner (inner : Bytes) : Option (UInt8 × Bytes) :=
  if inner.length < 3 then none else some (inner.getD 2 0, inner.drop 3)

theorem splitInner_packInner (messageId : UInt16) (cmd : UInt8) (body : Bytes) :
    splitInner (packInner messageId cmd body) = some (cmd, body) := by
  rw [splitInner, if_neg (by simp [packInner])]
  rfl

variable {C}

theorem xorHeader_eq (key : U8Array 32) (nonce : U8Array 24) (h : U8Array 8) :
    xorHeader C key nonce h = .ok (h.xor (mask C key nonce)) := by
  have hlen : 12 ≤ nonce.val.length := by rw [nonce.property]; omega
  have htake : (nonce.val.take 12).length = 12 := by rw [List.length_take]; omega
  rw [xorHeader, sliceTo_of_le hlen, ok_bind, U8Array.tryFrom, dif_pos htake, unwrap_some, ok_bind]
  rfl

/-- What a packet is decrypted to. -/
theorem verifyAndDecrypt_packet (f : RelayFrame) (myXPriv theirXPub : U8Array 32)
    (theirEdPub : VK) :
    verifyAndDecrypt C f.packet myXPriv theirXPub theirEdPub =
      .ok (f.opened C myXPriv theirXPub theirEdPub) := by
  have hlen := f.length_packet
  have htagged := f.tagged
  have hsplit : splitAt f.packet (f.packet.length - 64) =
      .ok (f.nonce.val ++ f.ct, f.sig.val) := by
    rw [RelayFrame.packet, ← List.append_assoc]
    refine splitAt_append ?_
    have htotal : (f.nonce.val ++ f.ct ++ f.sig.val).length =
        (f.nonce.val ++ f.ct).length + f.sig.val.length := List.length_append
    rw [htotal, f.sig.property]
    omega
  rw [verifyAndDecrypt, if_neg (by omega), sub_of_le (by omega), ok_bind, hsplit, ok_bind]
  simp only [U8Array.tryFrom_val, RelayFrame.opened]
  split
  · rfl
  · rw [sliceTo_append f.nonce.property, ok_bind, U8Array.tryFrom_val]
    simp only [sliceFrom_append f.nonce.property, ok_bind]
    rfl

theorem unmask_bytes (f : RelayFrame) (key : U8Array 32) :
    unmask C key f.bytes = .ok (f.header.xor (mask C key f.nonce)) := by
  rw [unmask, f.slice_bytes, ok_bind, U8Array.tryFrom_val, unwrap_some, ok_bind,
    f.sliceTo_bytes, ok_bind, U8Array.tryFrom_val, unwrap_some, ok_bind, xorHeader_eq]

/-- What a decoder of the server's frames makes of a frame. -/
theorem decodeServerFrame_bytes (f : RelayFrame) (kS2c myXPriv serverXPub : U8Array 32)
    (serverEd : VK) :
    decodeServerFrame C f.bytes kS2c myXPriv serverXPub serverEd =
      .ok (if f.header.xor (mask C kS2c f.nonce) ≠ .zero 8 then none
        else f.opened C myXPriv serverXPub serverEd) := by
  have hlen := f.length_bytes
  have htagged := f.tagged
  rw [decodeServerFrame, if_neg (by omega), f.slice_bytes, ok_bind, U8Array.tryFrom_val]
  simp only [f.sliceTo_bytes, ok_bind, U8Array.tryFrom_val, xorHeader_eq, f.sliceFrom_bytes,
    verifyAndDecrypt_packet]
  split <;> rfl

/-- What the receive path makes of a frame. -/
theorem decodeIncoming_bytes (f : RelayFrame) (kS2c myXPriv peerXPub : U8Array 32)
    (peerEdPub : VK) :
    decodeIncoming C f.bytes kS2c myXPriv peerXPub peerEdPub =
      .ok (if f.header.xor (mask C kS2c f.nonce) = .zero 8 then none
        else (f.opened C myXPriv peerXPub peerEdPub).bind splitInner) := by
  have hlen := f.length_bytes
  have htagged := f.tagged
  rw [decodeIncoming, if_neg (by omega), unmask_bytes, ok_bind]
  split
  · rfl
  · rw [f.sliceFrom_bytes, ok_bind, verifyAndDecrypt_packet, ok_bind]
    cases f.opened C myXPriv peerXPub peerEdPub with
    | none => rfl
    | some inner =>
        simp only [Option.bind_some, splitInner]
        split
        · rfl
        · next hinner =>
            have hlt : 2 < inner.length := by omega
            have hget : inner[2] = inner.getD 2 0 := by
              rw [List.getD_eq_getElem?_getD, List.getElem?_eq_getElem hlt, Option.getD_some]
            rw [index_of_lt (by omega), ok_bind, sliceFrom_of_le (by omega), ok_bind, hget]
            rfl

/-! ## What is built is recovered -/

theorem Identity.agree (hC : C.Lawful) (a b : Identity C) :
    C.x25519 a.xPriv b.xPub = C.x25519 b.xPriv a.xPub := by
  rw [a.xPub_eq, b.xPub_eq, hC.agree]

/-- The frame that both builders build. -/
def sealedFrame (hC : C.Lawful) (nonce : U8Array 24) (me : Identity C) (theirXPub : U8Array 32)
    (header : U8Array 8) (key : U8Array 32) (inner : Bytes) : RelayFrame :=
  let ct := C.encrypt (C.x25519 me.xPriv theirXPub) nonce inner
  { header := header.xor (mask C key nonce)
    nonce
    ct
    sig := C.sign me.ed (nonce.val ++ ct)
    tagged := by rw [hC.length_encrypt]; omega }

section Sealed

variable (hC : C.Lawful) (nonce : U8Array 24) (header : U8Array 8) (key : U8Array 32)
  (inner : Bytes)

theorem buildFrame_eq (me : Identity C) (theirXPub : U8Array 32) :
    buildFrame C nonce me theirXPub header key inner =
      .ok (sealedFrame hC nonce me theirXPub header key inner).bytes := by
  have hpacket : encryptAndSign C nonce inner me.xPriv me.ed theirXPub =
      (sealedFrame hC nonce me theirXPub header key inner).packet := by
    simp only [encryptAndSign, RelayFrame.packet, sealedFrame, List.append_assoc]
  have hnonce : sliceTo (sealedFrame hC nonce me theirXPub header key inner).packet 24 =
      .ok nonce.val := sliceTo_append nonce.property
  simp only [buildFrame, hpacket, hnonce, ok_bind, U8Array.tryFrom_val, unwrap_some, xorHeader_eq]
  rfl

/-- The peer opens what was sealed for it. -/
theorem opened_sealedFrame (a b : Identity C) :
    (sealedFrame hC nonce a b.xPub header key inner).opened C b.xPriv a.xPub a.edPub =
      some inner := by
  have hverify : C.verify a.edPub (nonce.val ++ C.encrypt (C.x25519 a.xPriv b.xPub) nonce inner)
      (C.sign a.ed (nonce.val ++ C.encrypt (C.x25519 a.xPriv b.xPub) nonce inner)) = true := by
    rw [a.edPub_eq, hC.verify_sign]
  simp only [RelayFrame.opened, sealedFrame, hverify]
  rw [if_neg (by simp), ← Identity.agree hC a b, hC.decrypt_encrypt]

/-- The owner of the session key takes the mask off. -/
theorem unmask_sealedFrame (me : Identity C) (theirXPub : U8Array 32) :
    unmask C key (sealedFrame hC nonce me theirXPub header key inner).bytes = .ok header := by
  rw [unmask_bytes]
  simp only [sealedFrame, U8Array.xor_xor]

end Sealed

/-- What the relay sends on: the packet behind a header for the receiver. -/
def readdress (C : Crypto SK VK) (key : U8Array 32) (id : U8Array 8) (frame : Bytes) :
    Checked Bytes := do
  let nonce24 ← unwrap (U8Array.tryFrom (n := 24) (← slice frame 8 32))
  let header ← xorHeader C key nonce24 id
  return header.val ++ (← sliceFrom frame 8)

theorem readdress_bytes (f : RelayFrame) (key : U8Array 32) (id : U8Array 8) :
    readdress C key id f.bytes = .ok (f.withHeader (id.xor (mask C key f.nonce))).bytes := by
  rw [readdress, f.slice_bytes, ok_bind, U8Array.tryFrom_val, unwrap_some, ok_bind,
    xorHeader_eq, ok_bind, f.sliceFrom_bytes, ok_bind]
  rfl

/-- What the receiver makes of a frame that the relay sent on. -/
theorem decodeIncoming_withHeader (f : RelayFrame) (id : U8Array 8)
    (kS2c myXPriv peerXPub : U8Array 32) (peerEdPub : VK) :
    decodeIncoming C (f.withHeader (id.xor (mask C kS2c f.nonce))).bytes kS2c myXPriv peerXPub
        peerEdPub =
      .ok (if id = .zero 8 then none
        else (f.opened C myXPriv peerXPub peerEdPub).bind splitInner) := by
  rw [decodeIncoming_bytes]
  simp only [RelayFrame.withHeader, U8Array.xor_xor]
  rfl

/-- A frame is routed by its header and recovered by its receiver, whatever
the nonce, the command and the body; a receiver ignores it when the sender's
id cannot be told from the mark of the server. -/
theorem frame_codec (hC : C.Lawful) (a b server : Identity C) (nonce : U8Array 24)
    (kC2s kS2c : U8Array 32) (messageId : UInt16) (cmd : UInt8) (body : Bytes) :
    (∃ frame relayed,
      buildPeerFrame C nonce a b.xPub b.id kC2s (packInner messageId cmd body) = .ok frame ∧
      unmask C kC2s frame = .ok b.id ∧
      readdress C kS2c a.id frame = .ok relayed ∧
      decodeIncoming C relayed kS2c b.xPriv a.xPub a.edPub =
        .ok (if a.id = .zero 8 then none else some (cmd, body))) ∧
    (∃ frame,
      buildServerBound C nonce a server.xPub kC2s (packInner messageId cmd body) = .ok frame ∧
      unmask C kC2s frame = .ok (.zero 8)) ∧
    (∃ frame,
      buildServerBound C nonce server a.xPub kS2c (packInner messageId cmd body) = .ok frame ∧
      decodeServerFrame C frame kS2c a.xPriv server.xPub server.edPub =
        .ok (some (packInner messageId cmd body))) := by
  refine ⟨⟨_, _, buildFrame_eq hC .., unmask_sealedFrame hC .., readdress_bytes .., ?_⟩,
    ⟨_, buildFrame_eq hC .., unmask_sealedFrame hC ..⟩, ⟨_, buildFrame_eq hC .., ?_⟩⟩
  · rw [decodeIncoming_withHeader, opened_sealedFrame, Option.bind_some, splitInner_packInner]
  · rw [decodeServerFrame_bytes, opened_sealedFrame, if_neg]
    simp only [sealedFrame, U8Array.xor_xor]
    exact fun h => h rfl

def alice : Identity Crypto.transparent :=
  .fromSeeds .transparent ⟨List.replicate 32 8, rfl⟩ (.zero 32)

def bob : Identity Crypto.transparent :=
  .fromSeeds .transparent ⟨List.replicate 32 16, rfl⟩ (.zero 32)

/-- Three bytes of the serial bridge on their way from one to the other. -/
theorem frame_codec_alice_bob :
    ∃ frame relayed,
      buildPeerFrame .transparent (.zero 24) alice bob.xPub bob.id alice.xPub
        (packInner 0 cmdSerialData [1, 2, 3]) = .ok frame ∧
      readdress .transparent bob.xPub alice.id frame = .ok relayed ∧
      decodeIncoming .transparent relayed bob.xPub bob.xPriv alice.xPub alice.edPub =
        .ok (some (cmdSerialData, [1, 2, 3])) := by
  obtain ⟨⟨frame, relayed, hbuild, -, hrelay, hdecode⟩, -, -⟩ :=
    frame_codec Crypto.transparent_lawful alice bob alice (.zero 24) alice.xPub bob.xPub 0
      cmdSerialData [1, 2, 3]
  have hid : alice.id ≠ .zero 8 := by decide
  rw [if_neg hid] at hdecode
  exact ⟨frame, relayed, hbuild, hrelay, hdecode⟩

end UsbWs
