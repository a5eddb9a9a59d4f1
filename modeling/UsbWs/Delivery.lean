import UsbWs.Endpoint
import UsbWs.Envelope
import UsbWs.Lib.Inbox

/-!
# What the relay delivers

The relay may deliver any bytes, and nothing is assumed of the primitives
here. `incomingFrame` is the decoding half of the tunnel's `handle_incoming`:
what it hands on to the rest is a TCP command, and everything else it ignores.

An endpoint with the byte strings to come as its inbox is an `Inbox` machine.
So what it does depends on the commands that the strings decode to, whatever
is delivered in between, and a header makes no difference as long as it does
not mark the frame as the server's.
-/

namespace UsbWs

open Checked

variable {SK VK : Type}

/-! ## Decoding never panics -/

section Decode

variable (C : Crypto SK VK) (me : Identity C) (peer : Peer VK) (kS2c : U8Array 32)

/-- The TCP command that `handle_incoming` acts on. -/
def incomingFrame (frame : Bytes) : Checked (Option Frame) := do
  match ← decodeIncoming C frame kS2c me.xPriv peer.xPub peer.edPub with
  | none => return none
  | some (cmd, body) =>
      if body = [] then return none
      else
        let connId ← index body 0
        if cmd = cmdTcpOpen then return some (.tcpOpen connId)
        else if cmd = cmdTcpData then return some (.tcpData connId (← sliceFrom body 1))
        else if cmd = cmdTcpClose then return some (.tcpClose connId)
        else return none

/-- `decode_intro_from`, cuts and unwraps included. -/
def decodeIntroFromChecked {K : Type} (fromBytes : U8Array 32 → Option K) (body : Bytes) :
    Checked (Except IntroError (Peer K)) :=
  if body.length < 64 then .ok (.error .tooShort)
  else do
    let xPub ← unwrap (U8Array.tryFrom (n := 32) (← sliceTo body 32))
    match fromBytes (← unwrap (U8Array.tryFrom (n := 32) (← slice body 32 64))) with
    | none => return .error .badKey
    | some edPub =>
        let id ← unwrap (U8Array.tryFrom (n := 8) (← sliceTo xPub.val 8))
        let nick := Text.fromUtf8Lossy (← sliceFrom body 64)
        return .ok { xPub, edPub, id, nick }

/-- A plaintext is one of the TCP commands, with its conn id. -/
def IsTcpCommand (inner : Bytes) : Prop :=
  4 ≤ inner.length ∧ inner.getD 2 0 ∈ [cmdTcpOpen, cmdTcpData, cmdTcpClose]

/-- A byte string that is ignored, and why. -/
inductive Ignored (b : Bytes) : Prop where
  | tooShort (h : b.length < 8 + 24 + 16 + 64)
  | serverBound {f : RelayFrame} (hf : f.bytes = b)
      (h : f.header.xor (mask C kS2c f.nonce) = .zero 8)
  | unverified {f : RelayFrame} (hf : f.bytes = b)
      (h : C.verify peer.edPub (f.nonce.val ++ f.ct) f.sig = false)
  | undecrypted {f : RelayFrame} (hf : f.bytes = b)
      (h : C.decrypt (C.x25519 me.xPriv peer.xPub) f.nonce f.ct = none)
  | notTcp {f : RelayFrame} {inner : Bytes} (hf : f.bytes = b)
      (hinner : C.decrypt (C.x25519 me.xPriv peer.xPub) f.nonce f.ct = some inner)
      (h : ¬ IsTcpCommand inner)

theorem ofInner_eq_none_iff {inner : Bytes} :
    Frame.ofInner inner = none ↔ ¬ IsTcpCommand inner := by
  rw [Frame.ofInner, IsTcpCommand]
  split
  · next hlen => exact iff_of_true rfl fun h => by omega
  · cases hbody : inner.drop 3 with
    | nil =>
        have hlen := congrArg List.length hbody
        simp only [List.length_drop, List.length_nil] at hlen
        exact iff_of_true rfl fun h => by omega
    | cons k payload =>
        have hlen := congrArg List.length hbody
        simp only [List.length_drop, List.length_cons] at hlen
        have hlong : 4 ≤ inner.length := by omega
        generalize inner.getD 2 0 = cmd
        simp only [hlong, true_and, List.mem_cons, List.not_mem_nil, or_false]
        by_cases h₁ : cmd = cmdTcpOpen
        · rw [if_pos h₁]
          simp [h₁]
        · rw [if_neg h₁]
          by_cases h₂ : cmd = cmdTcpData
          · rw [if_pos h₂]
            simp [h₂]
          · rw [if_neg h₂]
            by_cases h₃ : cmd = cmdTcpClose
            · rw [if_pos h₃]
              simp [h₃]
            · simp [h₁, h₂, h₃]

variable {C me peer kS2c}

theorem verifyAndDecrypt_ok (packet : Bytes) (myXPriv theirXPub : U8Array 32) (theirEdPub : VK) :
    ∃ r, verifyAndDecrypt C packet myXPriv theirXPub theirEdPub = .ok r := by
  by_cases h : packet.length < 24 + 16 + 64
  · exact ⟨none, if_pos h⟩
  · obtain ⟨f, hf⟩ := exists_relayFrame (b := (U8Array.zero 8).val ++ packet) (by
      rw [List.length_append, (U8Array.zero 8).property]; omega)
    have hpacket : f.packet = packet := by
      rw [RelayFrame.bytes] at hf
      exact (List.append_inj hf (by rw [f.header.property, (U8Array.zero 8).property])).2
    exact ⟨_, hpacket ▸ verifyAndDecrypt_packet f myXPriv theirXPub theirEdPub⟩

theorem decodeServerFrame_ok (frame : Bytes) (kS2c myXPriv serverXPub : U8Array 32)
    (serverEd : VK) :
    ∃ r, decodeServerFrame C frame kS2c myXPriv serverXPub serverEd = .ok r := by
  by_cases h : frame.length < 8 + 24 + 16 + 64
  · exact ⟨none, if_pos h⟩
  · obtain ⟨f, rfl⟩ := exists_relayFrame (Nat.not_lt.1 h)
    exact ⟨_, decodeServerFrame_bytes f kS2c myXPriv serverXPub serverEd⟩

/-- With its cuts in range, it is `decodeIntroFrom`. -/
theorem decodeIntroFromChecked_eq {K : Type} (fromBytes : U8Array 32 → Option K) (body : Bytes) :
    decodeIntroFromChecked fromBytes body = .ok (decodeIntroFrom fromBytes body) := by
  rw [decodeIntroFromChecked, decodeIntroFrom]
  split
  · rfl
  · next h =>
      have hx : (body.take 32).length = 32 := by rw [List.length_take]; omega
      have hed : ((body.take 64).drop 32).length = 32 := by
        rw [List.length_drop, List.length_take]; omega
      have hid : ((body.take 32).take 8).length = 8 := by rw [List.length_take]; omega
      rw [sliceTo_of_le (by omega), ok_bind, U8Array.tryFrom, dif_pos hx, unwrap_some, ok_bind,
        slice_of_le (by omega) (by omega), ok_bind, U8Array.tryFrom, dif_pos hed, unwrap_some,
        ok_bind]
      cases fromBytes ⟨(body.take 64).drop 32, hed⟩ with
      | none => rfl
      | some edPub =>
          simp only [sliceTo_of_le (show 8 ≤ (body.take 32).length by omega), ok_bind,
            U8Array.tryFrom, dif_pos hid, unwrap_some,
            sliceFrom_of_le (show 64 ≤ body.length by omega)]
          rfl

theorem incomingFrame_of_short {b : Bytes} (h : b.length < 8 + 24 + 16 + 64) :
    incomingFrame C me peer kS2c b = .ok none := by
  rw [incomingFrame, decodeIncoming, if_pos h, ok_bind]
  rfl

theorem incomingFrame_bytes (f : RelayFrame) :
    incomingFrame C me peer kS2c f.bytes =
      .ok (if f.header.xor (mask C kS2c f.nonce) = .zero 8 then none
        else (f.opened C me.xPriv peer.xPub peer.edPub).bind Frame.ofInner) := by
  rw [incomingFrame, decodeIncoming_bytes, ok_bind]
  by_cases hzero : f.header.xor (mask C kS2c f.nonce) = .zero 8
  · rw [if_pos hzero, if_pos hzero]
    rfl
  · rw [if_neg hzero, if_neg hzero]
    cases f.opened C me.xPriv peer.xPub peer.edPub with
    | none => rfl
    | some inner =>
        rw [Option.bind_some, Option.bind_some, splitInner, Frame.ofInner]
        by_cases hlen : inner.length < 3
        · rw [if_pos hlen, if_pos hlen]
          rfl
        · rw [if_neg hlen, if_neg hlen]
          cases inner.drop 3 with
          | nil => rfl
          | cons k payload =>
              have hk : index (k :: payload) 0 = .ok k := rfl
              have hpayload : sliceFrom (k :: payload) 1 = .ok payload := rfl
              simp only [reduceCtorEq, if_false, hk, hpayload, ok_bind]
              split
              · rfl
              · split
                · rfl
                · split <;> rfl

/-! ## Which strings are ignored -/

variable (C me peer kS2c) in
/-- What an endpoint gets out of a byte string. -/
def decodedFrame (b : Bytes) : Option Frame := (incomingFrame C me peer kS2c b).toOption.join

theorem incomingFrame_ok (b : Bytes) :
    incomingFrame C me peer kS2c b = .ok (decodedFrame C me peer kS2c b) := by
  rw [decodedFrame]
  by_cases h : b.length < 8 + 24 + 16 + 64
  · rw [incomingFrame_of_short h]
    rfl
  · obtain ⟨f, rfl⟩ := exists_relayFrame (Nat.not_lt.1 h)
    rw [incomingFrame_bytes]
    rfl

theorem decodedFrame_of_short {b : Bytes} (h : b.length < 8 + 24 + 16 + 64) :
    decodedFrame C me peer kS2c b = none := by
  rw [decodedFrame, incomingFrame_of_short h]
  rfl

theorem decodedFrame_bytes (f : RelayFrame) :
    decodedFrame C me peer kS2c f.bytes =
      if f.header.xor (mask C kS2c f.nonce) = .zero 8 then none
      else (f.opened C me.xPriv peer.xPub peer.edPub).bind Frame.ofInner := by
  rw [decodedFrame, incomingFrame_bytes]
  rfl

/-- What decodes to no command is ignored for one of the five reasons. -/
theorem decodedFrame_eq_none_iff {b : Bytes} :
    decodedFrame C me peer kS2c b = none ↔ Ignored C me peer kS2c b := by
  constructor
  · intro h
    by_cases hlen : b.length < 8 + 24 + 16 + 64
    · exact .tooShort hlen
    · obtain ⟨f, rfl⟩ := exists_relayFrame (Nat.not_lt.1 hlen)
      rw [decodedFrame_bytes] at h
      split at h
      · next hzero => exact .serverBound rfl hzero
      · rw [RelayFrame.opened] at h
        split at h
        · next hverify => exact .unverified rfl hverify
        · cases hinner : C.decrypt (C.x25519 me.xPriv peer.xPub) f.nonce f.ct with
          | none => exact .undecrypted rfl hinner
          | some inner =>
              rw [hinner, Option.bind_some] at h
              exact .notTcp rfl hinner (ofInner_eq_none_iff.1 h)
  · intro h
    cases h with
    | tooShort h => exact decodedFrame_of_short h
    | serverBound hf h =>
        rw [← hf, decodedFrame_bytes, if_pos h]
    | unverified hf h =>
        rw [← hf, decodedFrame_bytes, RelayFrame.opened, if_pos h]
        split <;> rfl
    | undecrypted hf h =>
        rw [← hf, decodedFrame_bytes, RelayFrame.opened, h]
        split
        · rfl
        · split <;> rfl
    | notTcp hf hinner h =>
        rw [← hf, decodedFrame_bytes, RelayFrame.opened, hinner]
        split
        · rfl
        · split
          · rfl
          · exact ofInner_eq_none_iff.2 h

instance (b : Bytes) : Decidable (Ignored C me peer kS2c b) :=
  decidable_of_iff _ decodedFrame_eq_none_iff

/-- Two strings with the same packet, behind headers that do not mark it as the
server's. -/
def SamePacket (C : Crypto SK VK) (kS2c : U8Array 32) (b b' : Bytes) : Prop :=
  ∃ header header' : U8Array 8, ∃ packet, b = header.val ++ packet ∧ b' = header'.val ++ packet ∧
    unmask C kS2c b ≠ .ok (.zero 8) ∧ unmask C kS2c b' ≠ .ok (.zero 8)

theorem SamePacket.decodedFrame_eq {b b' : Bytes} (h : SamePacket C kS2c b b') :
    decodedFrame C me peer kS2c b = decodedFrame C me peer kS2c b' := by
  obtain ⟨header, header', packet, rfl, rfl, hunmask, hunmask'⟩ := h
  have hlen : (header.val ++ packet).length = (header'.val ++ packet).length := by
    rw [List.length_append, List.length_append, header.property, header'.property]
  by_cases hshort : (header.val ++ packet).length < 8 + 24 + 16 + 64
  · rw [decodedFrame_of_short hshort, decodedFrame_of_short (hlen ▸ hshort)]
  · obtain ⟨f, hf⟩ := exists_relayFrame (Nat.not_lt.1 hshort)
    have hpacket : f.packet = packet := by
      rw [RelayFrame.bytes] at hf
      exact (List.append_inj hf (by rw [f.header.property, header.property])).2
    have hf' : (f.withHeader header').bytes = header'.val ++ packet := by
      rw [RelayFrame.bytes, f.withHeader_packet, hpacket]
      rfl
    rw [← hf, unmask_bytes, Ne, Except.ok.injEq] at hunmask
    rw [← hf', unmask_bytes, Ne, Except.ok.injEq] at hunmask'
    rw [← hf, ← hf', decodedFrame_bytes, decodedFrame_bytes, if_neg hunmask, if_neg hunmask']
    rfl

end Decode

/-! ## An endpoint and what it is sent -/

/-- The frame an act receives, if it receives one. -/
def Act.frame : Act → Option Frame
  | .recv f => some f
  | _ => none

/-- An endpoint takes what the websocket brings where its loop waits in the
`select!`. -/
def receiver (side : Side) : Inbox.Machine Endpoint Act Frame where
  step := fun e a => e.step side a
  recv := .recv
  msg := Act.frame
  msg_recv := fun _ => rfl
  eq_recv := fun {a m} h => by
    cases a with
    | recv f => cases h; rfl
    | _ => cases h
  ready := fun e => e.loop.pc = .select
  ready_of_recv := fun h => by
    cases Endpoint.trans_of_step h with
    | recv hpc => exact decide_eq_true hpc
    | wait hsends => cases hsends

/-- What an endpoint does with byte strings to come, from a state on. -/
abbrev Delivered (C : Crypto SK VK) (me : Identity C) (peer : Peer VK) (kS2c : U8Array 32)
    (side : Side) : List Bytes → Endpoint → List Act → Endpoint → Prop :=
  Inbox.Effect (receiver side) (decodedFrame C me peer kS2c)

/-- Dropping what is ignored leaves the commands. -/
theorem filterMap_filter_not_ignored {C : Crypto SK VK} {me : Identity C} {peer : Peer VK}
    {kS2c : U8Array 32} (bs : List Bytes) :
    (bs.filter fun b => ¬ Ignored C me peer kS2c b).filterMap (decodedFrame C me peer kS2c) =
      bs.filterMap (decodedFrame C me peer kS2c) := by
  rw [List.filterMap_filter]
  refine List.filterMap_congr fun b _ => ?_
  split
  · rfl
  · next h =>
      have hig : Ignored C me peer kS2c b := by simpa using h
      exact (decodedFrame_eq_none_iff.2 hig).symm

/-- Whatever the relay delivers, and whatever a signature check or a decryption
returns: no decoder panics; what an endpoint does, and all of its state after
it, is as if the strings it ignores had not been delivered; and it is the same
for other headers, as long as none marks a frame as the server's. -/
theorem relay_noninterference (C : Crypto SK VK) (me : Identity C) (peer : Peer VK)
    (kS2c : U8Array 32) (side : Side) :
    (∀ b, ∃ r, incomingFrame C me peer kS2c b = .ok r) ∧
    (∀ packet myXPriv theirXPub theirEdPub,
      ∃ r, verifyAndDecrypt C packet myXPriv theirXPub theirEdPub = .ok r) ∧
    (∀ frame key myXPriv serverXPub serverEd,
      ∃ r, decodeServerFrame C frame key myXPriv serverXPub serverEd = .ok r) ∧
    (∀ (fromBytes : U8Array 32 → Option VK) body,
      ∃ r, decodeIntroFromChecked fromBytes body = .ok r) ∧
    (∀ bs e acts e', Delivered C me peer kS2c side bs e acts e' ↔
      Delivered C me peer kS2c side (bs.filter fun b => ¬ Ignored C me peer kS2c b) e acts e') ∧
    (∀ bs bs', List.Forall₂ (SamePacket C kS2c) bs bs' → ∀ e acts e',
      Delivered C me peer kS2c side bs e acts e' ↔
        Delivered C me peer kS2c side bs' e acts e') := by
  refine ⟨fun b => ⟨_, incomingFrame_ok b⟩, verifyAndDecrypt_ok, decodeServerFrame_ok,
    fun fromBytes body => ⟨_, decodeIntroFromChecked_eq fromBytes body⟩,
    fun bs => Inbox.effect_congr (filterMap_filter_not_ignored bs).symm, fun bs bs' h => ?_⟩
  refine Inbox.effect_congr ?_
  induction h with
  | nil => rfl
  | cons hb _ ih => rw [List.filterMap_cons, List.filterMap_cons, hb.decodedFrame_eq, ih]

end UsbWs
