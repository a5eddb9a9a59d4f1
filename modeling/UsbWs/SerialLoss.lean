import UsbWs.Lib.Simulation
import UsbWs.SerialStream

/-!
# Bridges over a relay that loses frames

A bridge outlives its websocket: it connects again and goes on with the next
chunk. The chunk whose send failed is gone, and so is what the relay had not
passed on. In `Relayed` the websockets of two bridges break, fail and come back
at any time, and the relay drops frames as it likes; what it passes on it passes
on in order.

The device then sees a stream with holes, but the holes are whole chunks. What
arrives at a side are chunks that the other reader thread has forwarded, each
complete, in order and none twice. And they are accounted for: a chunk that was
forwarded has arrived, is under way, or was lost by a failed send or a dropped
frame of its own.
-/

namespace UsbWs

open Runs Checked

/-! ## One side, whatever its websocket does -/

def SerialAct.failsSend : SerialAct → Bool
  | .loop .sendErr => true
  | _ => false

namespace Serial

variable {incoming : Bytes → Checked (Option Bytes)} {s s' : Serial} {a : SerialAct}

/-- What was read is on the queue or with the reader thread, which drops a
chunk only to end. -/
structure Forwarded (s : Serial) : Prop where
  isPrefix : s.loop.enqueued.flatten ++ s.reader.pending <+: s.read
  eq : s.reader ≠ .done → s.loop.enqueued.flatten ++ s.reader.pending = s.read

theorem Forwarded.init : Forwarded init where
  isPrefix := List.prefix_rfl
  eq := fun _ => rfl

theorem Forwarded.step (h : Forwarded s) (ht : Trans incoming s a s') : Forwarded s' := by
  cases ht with
  | event hev hl =>
      have henq := (Loop.event_frame hl).2.2.2
      exact ⟨by rw [henq]; exact h.isPrefix, by rw [henq]; exact h.eq⟩
  | close | ignore | accept | forward | drop | take | wrote | wrotePart | writeErr
  | netClosed | readAgain => exact ⟨h.isPrefix, h.eq⟩
  | readEnd hr =>
      have hpre := h.isPrefix
      rw [hr] at hpre
      exact ⟨hpre, fun hne => absurd rfl hne⟩
  | @readChunk bytes hr =>
      have heq := h.eq (by simp [hr])
      rw [hr, DevReader.pending_reading, List.append_nil] at heq
      refine ⟨?_, fun _ => ?_⟩
      · rw [DevReader.pending_sending, heq]
      · rw [DevReader.pending_sending, heq]
  | @sendChunk chunk hr hpc hroom =>
      have heq := h.eq (by simp [hr])
      rw [hr, DevReader.pending_sending] at heq
      have henq : (Loop.enqueued { s.loop with queue := s.loop.queue ++ [chunk] }).flatten =
          s.read := by
        rw [← heq, Loop.enqueued, ← List.append_assoc, List.flatten_append,
          List.flatten_singleton]
        rfl
      refine ⟨?_, fun _ => ?_⟩
      · rw [henq, DevReader.pending_reading, List.append_nil]
      · rw [henq, DevReader.pending_reading, List.append_nil]
  | sendGone hr hpc =>
      have hpre : s.loop.enqueued.flatten <+: s.read :=
        (List.prefix_append _ _).trans h.isPrefix
      exact ⟨(List.append_nil _).symm ▸ hpre, fun hne => absurd rfl hne⟩

/-- What was sent and what is being sent are some of the chunks taken from the
queue. -/
def SendsSome (s : Serial) : Prop :=
  (s.loop.sent ++ s.loop.pending.map pack).Sublist (s.loop.dequeued.map pack)

theorem SendsSome.step (h : SendsSome s) (ht : Trans incoming s a s') : SendsSome s' := by
  have hgoto : ∀ {pc : LoopPc Bytes Bytes}, Loop.pending { s.loop with pc := pc } = [] →
      (s.loop.sent ++ (Loop.pending { s.loop with pc := pc }).map pack).Sublist
        (s.loop.dequeued.map pack) := fun hp => by
    rw [hp, List.map_nil, List.append_nil]
    exact (List.sublist_append_left _ _).trans h
  cases ht with
  | event hev hl => exact Loop.event_sublist hl h
  | close | accept | forward | drop => exact hgoto rfl
  | _ => exact h

/-- A chunk taken from the queue is sent, being sent, or the one of a failed
send. -/
theorem Trans.count (ht : Trans incoming s a s') :
    s'.loop.sent.length + s'.loop.pending.length + s.loop.dequeued.length +
        (if a.failsSend = true then 1 else 0) =
      s.loop.sent.length + s.loop.pending.length + s'.loop.dequeued.length := by
  cases ht with
  | @event ev l hev hl =>
      have hrecord := (Loop.event_record hl).2
      cases ev <;> simpa [SerialAct.failsSend] using hrecord
  | close hr hpc | accept hpc | forward hpc | drop hpc =>
      simp [SerialAct.failsSend, Loop.sent, Loop.pending, hpc]
  | _ => simp [SerialAct.failsSend, Loop.sent, Loop.pending]

end Serial

/-! ## The relay -/

structure Relayed where
  bridges : Bridges
  /-- How many of the frames for a side the relay is done with. -/
  taken : Mode → Nat

inductive RelayedAct where
  | own (m : Mode) (a : SerialAct)
  | deliver (m : Mode) (nonce : U8Array 24)
  | lose (m : Mode)

namespace Relayed

variable {SK VK : Type} {C : Crypto SK VK} {k : BridgeKeys C}

def init : Relayed := ⟨.init, fun _ => 0⟩

/-- What a side has put on its websockets. -/
abbrev sent (t : Relayed) (m : Mode) : List Bytes := (t.bridges.ends m).loop.sent

/-- The relay is done with the next frame for a side. -/
def pass (t : Relayed) (m : Mode) : Relayed :=
  { t with taken := Function.update t.taken m (t.taken m + 1) }

/-- One stretch of one task of one side, the arrival of the next frame, or its
loss. -/
def step (k : BridgeKeys C) (t : Relayed) : RelayedAct → Option Relayed
  | .own m a => (t.bridges.step k (.own m a)).map fun b => { t with bridges := b }
  | .deliver m nonce =>
      match (t.sent m.other)[t.taken m]? with
      | none => none
      | some inner =>
          match k.arriving m nonce inner with
          | .error _ => none
          | .ok frame =>
              ((t.bridges.ends m).step (k.incoming m) (.recv frame)).map fun s =>
                { t.pass m with bridges := t.bridges.put m s }
  | .lose m => if t.taken m < (t.sent m.other).length then some (t.pass m) else none

variable {t t' : Relayed} {m r : Mode} {a : RelayedAct}

@[simp] theorem pass_bridges (t : Relayed) (m : Mode) : (t.pass m).bridges = t.bridges := rfl

@[simp] theorem pass_taken_self (t : Relayed) (m : Mode) :
    (t.pass m).taken m = t.taken m + 1 := Function.update_self ..

@[simp] theorem pass_taken_other (t : Relayed) (m : Mode) :
    (t.pass m).taken m.other = t.taken m.other := Function.update_of_ne m.other_ne ..

inductive Trans (k : BridgeKeys C) (t : Relayed) : RelayedAct → Relayed → Prop where
  | own {m : Mode} {b : SerialAct} {s : Serial}
      (ht : Serial.Trans (k.incoming m) (t.bridges.ends m) b s)
      (hne : ∀ frame, b ≠ .recv frame) :
      Trans k t (.own m b) { t with bridges := t.bridges.put m s }
  | deliver {m : Mode} {nonce : U8Array 24} {inner frame : Bytes} {s : Serial}
      (hinner : (t.sent m.other)[t.taken m]? = some inner)
      (hframe : k.arriving m nonce inner = .ok frame)
      (ht : Serial.Trans (k.incoming m) (t.bridges.ends m) (.recv frame) s) :
      Trans k t (.deliver m nonce) { t.pass m with bridges := t.bridges.put m s }
  | lose {m : Mode} (hlt : t.taken m < (t.sent m.other).length) :
      Trans k t (.lose m) (t.pass m)

theorem trans_of_step (h : t.step k a = some t') : Trans k t a t' := by
  cases a with
  | own m b =>
      simp only [step] at h
      obtain ⟨u, hu, rfl⟩ := Option.map_eq_some_iff.1 h
      obtain ⟨m', b', s, htr, rfl, hb⟩ := Bridges.trans_of_step hu
      rcases hb with ⟨hne, heq⟩ | ⟨_, _, _, _, heq, -⟩
      · cases heq
        exact .own htr hne
      · cases heq
  | deliver m nonce =>
      simp only [step] at h
      split at h
      · cases h
      · next inner hinner =>
          split at h
          · cases h
          · next frame hframe =>
              obtain ⟨s, hs, rfl⟩ := Option.map_eq_some_iff.1 h
              exact .deliver hinner hframe (Serial.trans_of_step hs)
  | lose m =>
      simp only [step] at h
      split at h <;> cases h
      next hlt => exact .lose hlt

/-- What two bridges do over a relay that carries every frame, they do over
this one while it drops none. -/
theorem simulates_bridges : Simulation (Bridges.step k) Free (step k)
    (fun _ a => ∀ m, a ≠ .lose m)
    (fun u t => t.bridges = u ∧ ∀ m, t.taken m = (u.ends m).rcvd.length) := by
  rintro u a u' t - hs ⟨rfl, htaken⟩
  obtain ⟨m, b, s, htr, rfl, hb⟩ := Bridges.trans_of_step hs
  rcases hb with ⟨hne, rfl⟩ | ⟨nonce, inner, frame, rfl, rfl, hinner, hframe⟩
  · have hstep : t.step k (.own m b) = some { t with bridges := t.bridges.put m s } := by
      rw [step, hs, Option.map_some]
    refine ⟨_, Reaches.single (fun _ => by simp) hstep, rfl, ?_⟩
    exact Bridges.forall_put (I := fun r s => t.taken r = s.rcvd.length) htaken
      (by rw [htr.rcvd_of_ne hne]; exact htaken m)
  · have hrecv : (t.bridges.ends m).step (k.incoming m) (.recv frame) = some s := by
      simp only [Bridges.step, hinner, hframe] at hs
      obtain ⟨s', hs', hput⟩ := Option.map_eq_some_iff.1 hs
      have heq := congrArg (fun u : Bridges => u.ends m) hput
      simp only [Bridges.put_ends_self] at heq
      rw [← heq]
      exact hs'
    have hstep : t.step k (.deliver m nonce) =
        some { t.pass m with bridges := t.bridges.put m s } := by
      simp only [step, htaken m, hinner, hframe, hrecv, Option.map_some]
    refine ⟨_, Reaches.single (fun _ => by simp) hstep, rfl, fun r => ?_⟩
    rcases r.eq_or_eq_other m with rfl | rfl
    · rw [Bridges.put_ends_self, htr.rcvd_recv, List.length_append, ← htaken r]
      exact pass_taken_self t r
    · rw [Bridges.put_ends_other, ← htaken m.other]
      exact pass_taken_other t m

/-! ## What arrives are whole chunks -/

/-- What has arrived at a side are some of the frames that the relay is done
with. -/
def Link (k : BridgeKeys C) (t : Relayed) (m : Mode) : Prop :=
  ((t.bridges.ends m).rcvd.map (Serial.bodyOf (k.incoming m))).Sublist
    (((t.sent m.other).take (t.taken m)).map (k.arrivingBody m))

/-- What any run keeps, of both sides. -/
structure Whole (k : BridgeKeys C) (t : Relayed) : Prop where
  forwarded : ∀ m, Serial.Forwarded (t.bridges.ends m)
  sends : ∀ m, Serial.SendsSome (t.bridges.ends m)
  inward : ∀ m, Serial.Inward (k.incoming m) (t.bridges.ends m)
  taken : ∀ m, t.taken m ≤ (t.sent m.other).length
  link : ∀ m, Link k t m

theorem Whole.init : Whole k init where
  forwarded := fun _ => .init
  sends := fun _ => List.Sublist.refl _
  inward := fun _ => .init
  taken := fun _ => Nat.le_refl _
  link := fun _ => List.Sublist.refl _

/-- The relay may always drop the next frame. -/
theorem Link.drop (h : Link k t m) : Link k (t.pass m) m := by
  rw [Link, pass_taken_self]
  refine h.trans (List.Sublist.map _ ?_)
  exact (List.take_prefix_take_left (Nat.le_succ _)).sublist

/-- What a side puts on its websocket more is behind what the relay is done
with. -/
theorem Link.sent {b : Bridges} (h : Link k t r) (hrcvd : (b.ends r).rcvd = (t.bridges.ends r).rcvd)
    (hsent : t.sent r.other <+: (b.ends r.other).loop.sent) :
    Link k { t with bridges := b } r := by
  rw [Link, hrcvd]
  exact h.trans ((hsent.take _).map _).sublist

/-- What is on a websocket is a packed chunk. -/
theorem Whole.exists_chunk (h : Whole k t) {inner : Bytes} (hmem : inner ∈ t.sent m) :
    ∃ chunk, inner = Serial.pack chunk := by
  have hmem' := (h.sends m).subset (List.mem_append_left _ hmem)
  obtain ⟨chunk, -, rfl⟩ := List.mem_map.1 hmem'
  exact ⟨chunk, rfl⟩

/-- The next frame arrives. -/
theorem Link.snoc {b : Bridges} {inner frame : Bytes} (h : Link k t m)
    (hinner : (t.sent m.other)[t.taken m]? = some inner)
    (hbody : Serial.bodyOf (k.incoming m) frame = k.arrivingBody m inner)
    (hrcvd : (b.ends m).rcvd = (t.bridges.ends m).rcvd ++ [frame])
    (hsent : (b.ends m.other).loop.sent = t.sent m.other) :
    Link k { t.pass m with bridges := b } m := by
  have htake : (t.sent m.other).take (t.taken m + 1) =
      (t.sent m.other).take (t.taken m) ++ [inner] := by
    rw [List.take_add_one, hinner]
    rfl
  have hnew : (t.pass m).taken m = t.taken m + 1 := pass_taken_self t m
  rw [Link, hrcvd, Relayed.sent, hsent, hnew, htake, List.map_append, List.map_append,
    List.map_singleton, List.map_singleton, hbody]
  exact h.append (List.Sublist.refl _)

theorem Whole.step (hC : C.Lawful) (h : Whole k t) (hs : t.step k a = some t') : Whole k t' := by
  have hends : ∀ {m b s}, Serial.Trans (k.incoming m) (t.bridges.ends m) b s →
      (∀ r, Serial.Forwarded ((t.bridges.put m s).ends r)) ∧
      (∀ r, Serial.SendsSome ((t.bridges.put m s).ends r)) ∧
      ∀ r, Serial.Inward (k.incoming r) ((t.bridges.put m s).ends r) := fun {m b s} htr =>
    ⟨Bridges.forall_put (I := fun _ s => Serial.Forwarded s) h.forwarded
        ((h.forwarded m).step htr),
      Bridges.forall_put (I := fun _ s => Serial.SendsSome s) h.sends ((h.sends m).step htr),
      Bridges.forall_put (I := fun m s => Serial.Inward (k.incoming m) s) h.inward
        ((h.inward m).step htr)⟩
  cases trans_of_step hs with
  | @own m b s htr hne =>
      obtain ⟨hforwarded, hsends, hinward⟩ := hends htr
      have hsent : ∀ r, t.sent r <+: ((t.bridges.put m s).ends r).loop.sent :=
        Bridges.forall_put (I := fun r s => t.sent r <+: s.loop.sent)
          (fun _ => List.prefix_rfl) htr.prefix_sent
      have hrcvds : ∀ r, ((t.bridges.put m s).ends r).rcvd = (t.bridges.ends r).rcvd :=
        Bridges.forall_put (I := fun r s => s.rcvd = (t.bridges.ends r).rcvd)
          (fun _ => rfl) (htr.rcvd_of_ne hne)
      exact ⟨hforwarded, hsends, hinward, fun r => (h.taken r).trans (hsent _).length_le,
        fun r => (h.link r).sent (hrcvds r) (hsent _)⟩
  | @deliver m nonce inner frame s hinner hframe htr =>
      obtain ⟨hforwarded, hsends, hinward⟩ := hends htr
      obtain ⟨chunk, rfl⟩ := h.exists_chunk (List.mem_of_getElem? hinner)
      obtain ⟨frame', hframe', hbody⟩ := k.arriving_pack m hC nonce chunk
      obtain rfl : frame = frame' := Except.ok.inj (hframe.symm.trans hframe')
      have hlt := (List.getElem?_eq_some_iff.1 hinner).1
      have hsents : ∀ r, ((t.bridges.put m s).ends r).loop.sent = t.sent r :=
        Bridges.forall_put (I := fun r s => s.loop.sent = t.sent r) (fun _ => rfl)
          (by cases htr <;> rfl)
      have hself := Bridges.put_ends_self t.bridges m s
      have hother := Bridges.put_ends_other t.bridges m s
      refine ⟨hforwarded, hsends, hinward, fun r => ?_, fun r => ?_⟩
      · rw [Relayed.sent, hsents]
        rcases r.eq_or_eq_other m with rfl | rfl
        · exact (pass_taken_self t r).trans_le hlt
        · exact (pass_taken_other t m).trans_le (h.taken _)
      · rcases r.eq_or_eq_other m with rfl | rfl
        · exact (h.link r).snoc hinner hbody (by rw [hself, htr.rcvd_recv]) (hsents _)
        · have hlink : Link k (t.pass m) m.other := by
            rw [Link, pass_taken_other]
            exact h.link m.other
          refine hlink.sent (by rw [hother]; rfl) ?_
          rw [hsents]
          exact List.prefix_rfl
  | @lose m hlt =>
      refine ⟨h.forwarded, h.sends, h.inward, fun r => ?_, fun r => ?_⟩
      · rcases r.eq_or_eq_other m with rfl | rfl
        · rw [pass_taken_self]
          exact hlt
        · rw [pass_taken_other]
          exact h.taken _
      · rcases r.eq_or_eq_other m with rfl | rfl
        · exact (h.link r).drop
        · have hlink := h.link m.other
          rwa [Link, ← pass_taken_other] at hlink

/-! ## Every chunk is accounted for -/

/-- The loss of a frame for a side. -/
def losesFor (m : Mode) : RelayedAct → Bool
  | .lose r => decide (r = m)
  | _ => false

/-- A send of a side fails. -/
def failsAt (m : Mode) : RelayedAct → Bool
  | .own r a => decide (r = m) && a.failsSend
  | _ => false

theorem Trans.count (h : Trans k t a t') (m : Mode) :
    (t'.sent m).length + (t'.bridges.ends m).loop.pending.length +
        (t.bridges.ends m).loop.dequeued.length + (if failsAt m a = true then 1 else 0) =
      (t.sent m).length + (t.bridges.ends m).loop.pending.length +
        (t'.bridges.ends m).loop.dequeued.length ∧
    (t'.bridges.ends m).rcvd.length + t.taken m + (if losesFor m a = true then 1 else 0) =
      (t.bridges.ends m).rcvd.length + t'.taken m := by
  cases h with
  | @own r b s ht hne =>
      have hrcvd := ht.rcvd_of_ne hne
      rcases m.eq_or_eq_other r with rfl | rfl
      · have hcount := ht.count
        simp only [Relayed.sent, Bridges.put_ends_self, failsAt, losesFor, decide_true,
          Bool.true_and, hrcvd]
        exact ⟨hcount, by simp⟩
      · have hother := Bridges.put_ends_other t.bridges r s
        simp [Relayed.sent, hother, failsAt, losesFor, Ne.symm r.other_ne]
  | @deliver r nonce inner frame s hinner hframe ht =>
      have hloop : s.loop.sent = t.sent r ∧ s.loop.pending.length =
          (t.bridges.ends r).loop.pending.length ∧
          s.loop.dequeued = (t.bridges.ends r).loop.dequeued := by
        cases ht with
        | ignore => exact ⟨rfl, rfl, rfl⟩
        | accept hpc => exact ⟨rfl, by simp [Loop.pending, hpc], rfl⟩
      rcases m.eq_or_eq_other r with rfl | rfl
      · simp only [Relayed.sent, Bridges.put_ends_self, hloop, ht.rcvd_recv, failsAt, losesFor,
          List.length_append, List.length_singleton, Relayed.pass, Function.update_self]
        exact ⟨by simp, by simp; omega⟩
      · have hother := Bridges.put_ends_other t.bridges r s
        simp [Relayed.sent, hother, failsAt, losesFor, Relayed.pass,
          Function.update_of_ne r.other_ne]
  | @lose r hlt =>
      refine ⟨by simp [Relayed.sent, failsAt], ?_⟩
      rcases m.eq_or_eq_other r with rfl | rfl
      · simp [losesFor]
        omega
      · simp [losesFor, Ne.symm r.other_ne]

theorem run_count {as : List RelayedAct} :
    ∀ {t : Relayed}, run (step k) init as = some t → ∀ m,
      (t.sent m).length + (t.bridges.ends m).loop.pending.length + as.countP (failsAt m) =
        (t.bridges.ends m).loop.dequeued.length ∧
      (t.bridges.ends m).rcvd.length + as.countP (losesFor m) = t.taken m := by
  induction as using List.reverseRecOn with
  | nil =>
      intro t h m
      cases h
      exact ⟨rfl, rfl⟩
  | append_singleton as a ih =>
      intro t h m
      rw [run_snoc, Option.bind_eq_some_iff] at h
      obtain ⟨t₀, hrun, hstep⟩ := h
      obtain ⟨hsent, htaken⟩ := (trans_of_step hstep).count m
      obtain ⟨hsent₀, htaken₀⟩ := ih hrun m
      rw [List.countP_append, List.countP_append, List.countP_singleton, List.countP_singleton]
      omega

/-- The frames for a side that the relay still has. -/
def flying (t : Relayed) (m : Mode) : List Bytes := (t.sent m.other).drop (t.taken m)

/-- The bodies that have arrived at a side are chunks that were forwarded. -/
theorem Whole.arrived (h : Whole k t) (hid : (k.me m.other).id ≠ .zero 8) :
    ((t.bridges.ends m).rcvd.map (Serial.bodyOf (k.incoming m))).Sublist
      (t.bridges.ends m.other).loop.enqueued := by
  have hbody : k.arrivingBody m = List.drop 3 := by
    funext inner
    rw [BridgeKeys.arrivingBody, if_neg hid]
  have hlink := h.link m
  rw [Link, hbody] at hlink
  have htaken : ((t.sent m.other).take (t.taken m)).Sublist
      ((t.bridges.ends m.other).loop.dequeued.map Serial.pack) :=
    (List.take_sublist _ _).trans
      ((List.sublist_append_left _ _).trans (h.sends m.other))
  have hchunks := hlink.trans (htaken.map (List.drop 3))
  rw [List.map_map] at hchunks
  have hunpack : List.drop 3 ∘ Serial.pack = id := rfl
  rw [hunpack, List.map_id] at hchunks
  exact hchunks.trans (List.sublist_append_left _ _)

end Relayed

/-- However the websockets of two bridges break and whatever the relay drops,
what has arrived at a side are chunks that the other reader thread has
forwarded, whole, in order and none twice. What was written to the device
begins them, and until the writer thread ends all of them are in its side's
hands. A chunk that was forwarded and has not arrived is one that the relay
dropped, one whose send failed, or one that is still under way. -/
theorem serial_loses_whole_chunks {SK VK : Type} {C : Crypto SK VK} (hC : C.Lawful)
    (k : BridgeKeys C) (as : List RelayedAct) (t : Relayed)
    (h : run (Relayed.step k) .init as = some t) (m : Mode)
    (hid : (k.me m.other).id ≠ .zero 8) :
    let receiver := t.bridges.ends m
    let sender := t.bridges.ends m.other
    (∃ kept : List Bytes, kept.Sublist sender.loop.enqueued ∧
      kept.length = receiver.rcvd.length ∧ receiver.written <+: kept.flatten ∧
      (receiver.writer ≠ .done →
        receiver.written ++ receiver.writer.pending ++ receiver.netQueue.flatten ++
          receiver.handled = kept.flatten)) ∧
    sender.loop.enqueued.flatten <+: sender.read ∧
    receiver.rcvd.length + as.countP (Relayed.losesFor m) + (t.flying m).length +
        as.countP (Relayed.failsAt m.other) + sender.loop.pending.length +
        sender.loop.queue.length = sender.loop.enqueued.length := by
  have hwhole : Relayed.Whole k t :=
    (Reaches.of_run h).invariant Relayed.Whole.init fun _ hs hw => hw.step hC hs
  refine ⟨⟨_, hwhole.arrived hid, List.length_map .., ?_, fun hw => ?_⟩, ?_, ?_⟩
  · exact (hwhole.inward m).written
  · exact (hwhole.inward m).complete hw
  · exact (List.prefix_append _ _).trans (hwhole.forwarded m.other).isPrefix
  · have htaken := hwhole.taken m
    have hsent := (Relayed.run_count h m.other).1
    have hrcvd := (Relayed.run_count h m).2
    rw [Relayed.flying, List.length_drop, Loop.enqueued, List.length_append]
    omega

def oneByte (b : UInt8) : DeviceChunk := ⟨[b], Nat.le_refl 1, Nat.le_of_ble_eq_true rfl⟩

/-- Of four chunks the first is lost with a websocket, the third by the relay. -/
def twoHoles : List RelayedAct :=
  let dequeued (b : UInt8) : List RelayedAct :=
    [.own .attach (.read (.chunk (oneByte b))), .own .attach .sendChunk,
      .own .attach (.loop .dequeue)]
  let arrives : List RelayedAct :=
    [.own .attach (.loop .sendOk), .deliver .share (.zero 24), .own .share .forward,
      .own .share .take, .own .share (.write 1)]
  [.own .attach (.loop .relayUp), .own .share (.loop .relayUp)] ++
    dequeued 1 ++ [.own .attach (.loop .sendErr), .own .attach (.loop .relayUp)] ++
    dequeued 2 ++ arrives ++
    dequeued 3 ++ [.own .attach (.loop .sendOk), .lose .share] ++
    dequeued 4 ++ arrives

theorem serial_loses_whole_chunks_twoHoles :
    ∃ t : Relayed, run (Relayed.step keysOfBoth) .init twoHoles = some t ∧
      (t.bridges.ends .share).written = [2, 4] ∧ (t.bridges.ends .attach).read = [1, 2, 3, 4] ∧
      ∃ kept : List Bytes, kept.Sublist [[1], [2], [3], [4]] ∧ kept.length = 2 ∧
        [2, 4] <+: kept.flatten := by
  have hrun : (run (Relayed.step keysOfBoth) .init twoHoles).any (fun t =>
      ((t.bridges.ends .share).written = [2, 4] ∧
        (t.bridges.ends .attach).read = [1, 2, 3, 4]) ∧
      (t.bridges.ends .attach).loop.enqueued = [[1], [2], [3], [4]] ∧
        (t.bridges.ends .share).rcvd.length = 2) = true := by
    decide +kernel
  obtain ⟨t, ht, hends⟩ := (Option.any_eq_true ..).1 hrun
  obtain ⟨⟨hwritten, hread⟩, henq, hrcvd⟩ := of_decide_eq_true hends
  have hid : (keysOfBoth.me Mode.share.other).id ≠ .zero 8 := by decide
  obtain ⟨⟨kept, hkept, hlen, hprefix, -⟩, -, -⟩ :=
    serial_loses_whole_chunks Crypto.transparent_lawful keysOfBoth twoHoles t ht .share hid
  rw [Mode.other, henq] at hkept
  rw [hrcvd] at hlen
  rw [hwritten] at hprefix
  exact ⟨t, ht, hwritten, hread, kept, hkept, hlen, hprefix⟩

end UsbWs
