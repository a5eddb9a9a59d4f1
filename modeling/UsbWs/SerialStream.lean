import UsbWs.Lib.Fifo
import UsbWs.Serial

/-!
# Two bridges, joined by the relay

`share` bridges a serial port, `attach` a pseudo-terminal; the two run the same
code. The relay session carries the frames of each to the other, in order and
without loss, with the header changed for the receiver: the next frame to
arrive is the one that the other side has built, under some nonce, for the
plaintext after those that have arrived. An action is one stretch of one task
of one side, or an arrival.

In each direction the bytes go through six places: the reader thread, its
queue, the websocket, `handle_incoming`, the queue of the writer thread and the
writer thread. `Outward` and `Inward` say what the two ends keep; the relay
joins them (`Link`).
-/

namespace UsbWs

open Runs Checked

inductive Mode where
  | share
  | attach
  deriving DecidableEq

def Mode.other : Mode → Mode
  | share => attach
  | attach => share

@[simp] theorem Mode.other_other (m : Mode) : m.other.other = m := by cases m <;> rfl

theorem Mode.eq_or_eq_other (r m : Mode) : r = m ∨ r = m.other := by
  cases r <;> cases m <;> simp [other]

theorem Mode.other_ne (m : Mode) : m.other ≠ m := by cases m <;> simp [other]

variable {SK VK : Type} {C : Crypto SK VK}

/-- The identities of the two sides and their session keys with the relay. -/
structure BridgeKeys (C : Crypto SK VK) where
  me : Mode → Identity C
  kC2s : Mode → U8Array 32
  kS2c : Mode → U8Array 32

namespace BridgeKeys

variable (k : BridgeKeys C) (m : Mode)

/-- The `handle_incoming` of a side. -/
def incoming : Bytes → Checked (Option Bytes) :=
  incomingBody C (k.kS2c m) (k.me m).xPriv (k.me m.other).xPub (k.me m.other).edPub

/-- The frame of a plaintext, as it arrives. -/
def arriving (nonce : U8Array 24) (inner : Bytes) : Checked Bytes := do
  let frame ← buildPeerFrame C nonce (k.me m.other) (k.me m).xPub (k.me m).id (k.kC2s m.other) inner
  readdress C (k.kS2c m) (k.me m.other).id frame

/-- What arrives of a chunk is the chunk, unless the sender's id is the mark of
the server. -/
def arrivingBody (inner : Bytes) : Bytes :=
  if (k.me m.other).id = .zero 8 then [] else inner.drop 3

theorem arriving_pack (hC : C.Lawful) (nonce : U8Array 24) (chunk : Bytes) :
    ∃ frame, k.arriving m nonce (Serial.pack chunk) = .ok frame ∧
      Serial.bodyOf (k.incoming m) frame = k.arrivingBody m (Serial.pack chunk) := by
  have hdrop : (Serial.pack chunk).drop 3 = chunk := rfl
  refine ⟨_, by rw [arriving, buildPeerFrame, buildFrame_eq hC, ok_bind, readdress_bytes], ?_⟩
  rw [Serial.bodyOf, incoming, incomingBody, decodeIncoming_withHeader, opened_sealedFrame,
    Option.bind_some, splitInner_packInner, ok_bind, arrivingBody, hdrop]
  by_cases hid : (k.me m.other).id = .zero 8
  · rw [if_pos hid, if_pos hid]
    rfl
  · rw [if_neg hid, if_neg hid]
    by_cases hchunk : chunk = []
    · simp [hchunk]
      rfl
    · simp [hchunk]
      rfl

end BridgeKeys

structure Bridges where
  ends : Mode → Serial

inductive BridgesAct where
  | own (m : Mode) (a : SerialAct)
  | deliver (m : Mode) (nonce : U8Array 24)

namespace Bridges

def init : Bridges := ⟨fun _ => .init⟩

def put (t : Bridges) (m : Mode) (s : Serial) : Bridges := ⟨Function.update t.ends m s⟩

variable (k : BridgeKeys C)

/-- One stretch of one task of one side, or the arrival of the next frame. -/
def step (t : Bridges) : BridgesAct → Option Bridges
  | .own m a =>
      match a with
      | .recv _ => none
      | a => ((t.ends m).step (k.incoming m) a).map (t.put m)
  | .deliver m nonce =>
      match (t.ends m.other).loop.sent[(t.ends m).rcvd.length]? with
      | none => none
      | some inner =>
          match k.arriving m nonce inner with
          | .error _ => none
          | .ok frame => ((t.ends m).step (k.incoming m) (.recv frame)).map (t.put m)

/-- The relay session goes on: no websocket closes, no send fails. -/
def oneSession (_ : Bridges) : BridgesAct → Bool
  | .own _ a => Serial.oneSession a
  | .deliver _ _ => true

variable {k} {t t' : Bridges} {m : Mode}

@[simp] theorem put_ends_self (t : Bridges) (m : Mode) (s : Serial) : (t.put m s).ends m = s :=
  Function.update_self ..

theorem put_ends_other (t : Bridges) (m : Mode) (s : Serial) :
    (t.put m s).ends m.other = t.ends m.other := Function.update_of_ne m.other_ne ..

/-- What holds of both ends and of the one put in holds of both ends. -/
theorem forall_put {I : Mode → Serial → Prop} {s : Serial} (hall : ∀ r, I r (t.ends r))
    (hs : I m s) : ∀ r, I r ((t.put m s).ends r) := by
  intro r
  rcases r.eq_or_eq_other m with rfl | rfl
  · rw [put_ends_self]
    exact hs
  · rw [put_ends_other]
    exact hall _

/-- A step is one of a side; a frame is only received when it arrives. -/
theorem serial_step_of_step {a : BridgesAct} (h : t.step k a = some t') :
    ∃ m b s, (t.ends m).step (k.incoming m) b = some s ∧ t' = t.put m s ∧
      ((∀ frame, b ≠ .recv frame) ∧ a = .own m b ∨
        ∃ nonce inner frame, b = .recv frame ∧ a = .deliver m nonce ∧
          (t.ends m.other).loop.sent[(t.ends m).rcvd.length]? = some inner ∧
          k.arriving m nonce inner = .ok frame) := by
  cases a with
  | own m b =>
      simp only [step] at h
      split at h
      · cases h
      · next hne =>
          obtain ⟨s, hs, rfl⟩ := Option.map_eq_some_iff.1 h
          exact ⟨m, _, s, hs, rfl, Or.inl ⟨hne, rfl⟩⟩
  | deliver m nonce =>
      simp only [step] at h
      split at h
      · cases h
      · next inner hinner =>
          split at h
          · cases h
          · next frame hframe =>
              obtain ⟨s, hs, rfl⟩ := Option.map_eq_some_iff.1 h
              exact ⟨m, _, s, hs, rfl, Or.inr ⟨nonce, inner, frame, rfl, rfl, hinner, hframe⟩⟩

theorem trans_of_step {a : BridgesAct} (h : t.step k a = some t') :
    ∃ m b s, Serial.Trans (k.incoming m) (t.ends m) b s ∧ t' = t.put m s ∧
      ((∀ frame, b ≠ .recv frame) ∧ a = .own m b ∨
        ∃ nonce inner frame, b = .recv frame ∧ a = .deliver m nonce ∧
          (t.ends m.other).loop.sent[(t.ends m).rcvd.length]? = some inner ∧
          k.arriving m nonce inner = .ok frame) := by
  obtain ⟨m, b, s, hs, ht', hb⟩ := serial_step_of_step h
  exact ⟨m, b, s, Serial.trans_of_step hs, ht', hb⟩

/-- What has arrived at a side is the beginning of what the other has sent. -/
def Link (k : BridgeKeys C) (t : Bridges) (m : Mode) : Prop :=
  (t.ends m).rcvd.map (Serial.bodyOf (k.incoming m)) <+:
    (t.ends m.other).loop.sent.map (k.arrivingBody m)

/-- What a run of one relay session keeps, of both sides. -/
structure Streams (k : BridgeKeys C) (t : Bridges) : Prop where
  outward : ∀ m, Serial.Outward (t.ends m)
  inward : ∀ m, Serial.Inward (k.incoming m) (t.ends m)
  link : ∀ m, Link k t m

theorem Streams.init : Streams k init where
  outward := fun _ => .init
  inward := fun _ => .init
  link := fun _ => List.prefix_rfl

theorem Streams.step (hC : C.Lawful) (h : Streams k t) {a : BridgesAct}
    (ha : oneSession t a = true) (hs : t.step k a = some t') : Streams k t' := by
  obtain ⟨m, b, s, htr, rfl, hb⟩ := trans_of_step hs
  have hsession : Serial.oneSession b = true := by
    rcases hb with ⟨-, rfl⟩ | ⟨_, _, _, rfl, -⟩
    · exact ha
    · rfl
  refine ⟨?_, ?_, ?_⟩
  · exact forall_put (I := fun _ s => Serial.Outward s) h.outward ((h.outward m).step htr hsession)
  · exact forall_put (I := fun m s => Serial.Inward (k.incoming m) s) h.inward
      ((h.inward m).step htr)
  · intro r
    rcases r.eq_or_eq_other m with rfl | rfl
    · rw [Link, put_ends_self, put_ends_other]
      rcases hb with ⟨hne, -⟩ | ⟨nonce, inner, frame, rfl, -, hinner, hframe⟩
      · -- nothing arrives at this side
        rcases htr.rcvd_eq with heq | ⟨frame, rfl, -⟩
        · rw [heq]
          exact h.link r
        · exact absurd rfl (hne frame)
      · obtain ⟨chunk, rfl⟩ := (h.outward r.other).exists_chunk (List.mem_of_getElem? hinner)
        obtain ⟨frame', hframe', hbody⟩ := k.arriving_pack r hC nonce chunk
        obtain rfl : frame = frame' := Except.ok.inj (hframe.symm.trans hframe')
        rw [htr.rcvd_recv, List.map_append, List.map_singleton, hbody]
        exact Fifo.prefix_snoc (h.link r) (by rw [List.length_map, List.getElem?_map, hinner]; rfl)
    · rw [Link, put_ends_other, Mode.other_other, put_ends_self]
      have hlink := h.link m.other
      rw [Link, Mode.other_other] at hlink
      exact hlink.trans (htr.prefix_sent.map _)

/-- What a side has written to its device is the beginning of what the other
side has read from its own. -/
theorem Streams.written_prefix (h : Streams k t) (m : Mode) :
    (t.ends m).written <+: (t.ends m.other).read := by
  have harrived : (t.ends m).rcvd.flatMap (Serial.bodyOf (k.incoming m)) <+:
      (t.ends m.other).loop.sent.flatMap (k.arrivingBody m) := (h.link m).flatten
  refine ((h.inward m).written.trans harrived).trans ?_
  by_cases hid : (k.me m.other).id = .zero 8
  · -- every frame was ignored
    have hnil : (t.ends m.other).loop.sent.flatMap (k.arrivingBody m) = [] := by
      simp [BridgeKeys.arrivingBody, hid]
    rw [hnil]
    exact List.nil_prefix
  · have hbody : k.arrivingBody m = List.drop 3 := by
      funext inner
      rw [BridgeKeys.arrivingBody, if_neg hid]
    rw [hbody]
    exact (h.outward m.other).sent_isPrefix

end Bridges

/-- In every state that two bridges reach in one relay session, what was
written to either device is a prefix of what was read from the other; and
when a bridge has left because its device was closed, all that it read is on
the websocket, in order. -/
theorem serial_stream_integrity (hC : C.Lawful) (k : BridgeKeys C) (t : Bridges)
    (h : Reaches (Bridges.step k) (fun t a => Bridges.oneSession t a = true) Bridges.init t)
    (m : Mode) :
    (t.ends m).written <+: (t.ends m.other).read ∧
    ((t.ends m).deviceClosed = true →
      ∃ chunks : List Bytes, (t.ends m).loop.sent = chunks.map (packInner 0 cmdSerialData) ∧
        chunks.flatten = (t.ends m).read) := by
  have hstreams : Bridges.Streams k t :=
    h.invariant Bridges.Streams.init fun ha hs hu => hu.step hC ha hs
  refine ⟨hstreams.written_prefix m, fun hclosed => ?_⟩
  obtain ⟨-, -, hsent, hread⟩ := (hstreams.outward m).closed hclosed
  exact ⟨_, hsent, hread⟩

def keysOfBoth : BridgeKeys Crypto.transparent where
  me
    | .share => alice
    | .attach => bob
  kC2s := fun _ => .zero 32
  kS2c := fun _ => bob.xPub

/-- Three bytes go from one device to the other, in two writes; then the first
device is closed. -/
def threeBytes : List BridgesAct :=
  [.own .attach (.loop .relayUp), .own .share (.loop .relayUp),
    .own .attach (.read (.chunk ⟨[1, 2, 3], by decide⟩)), .own .attach .sendChunk,
    .own .attach (.loop .dequeue), .own .attach (.loop .sendOk), .deliver .share (.zero 24),
    .own .share .forward, .own .share .take, .own .share (.write 2), .own .share (.write 1),
    .own .attach (.read .eof), .own .attach (.loop .outClosed)]

theorem serial_stream_integrity_threeBytes :
    ∃ t : Bridges, (t.ends .share).written = [1, 2, 3] ∧ (t.ends .attach).deviceClosed = true ∧
      (t.ends .share).written <+: (t.ends .attach).read ∧
      ∃ chunks : List Bytes,
        (t.ends .attach).loop.sent = chunks.map (packInner 0 cmdSerialData) ∧
          chunks.flatten = (t.ends .attach).read := by
  have hrun : (run (guarded (Bridges.step keysOfBoth) fun t a => Bridges.oneSession t a = true)
      Bridges.init threeBytes).any (fun t =>
        (t.ends .share).written = [1, 2, 3] ∧ (t.ends .attach).deviceClosed = true) = true := by
    decide +kernel
  obtain ⟨t, hreach, ht⟩ := exists_of_run_any hrun
  obtain ⟨hwritten, hclosed⟩ := of_decide_eq_true ht
  exact ⟨t, hwritten, hclosed,
    (serial_stream_integrity Crypto.transparent_lawful keysOfBoth t hreach .share).1,
    (serial_stream_integrity Crypto.transparent_lawful keysOfBoth t hreach .attach).2 hclosed⟩

end UsbWs
