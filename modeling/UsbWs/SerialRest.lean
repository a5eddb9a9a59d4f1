import Mathlib.Algebra.BigOperators.Group.Finset.Basic
import UsbWs.Lib.Budget
import UsbWs.SerialStream

/-!
# The serial bridge delivers

What a device has brought in makes work for six tasks and the relay, and each
stage of a chunk's way is priced by the steps that are left: `Serial.load` and
`Bridges.load`. A device that takes `n` bytes at once is `n` steps of work.
Every step but a read lowers the load (`Bridges.paid`), so while the devices
bring nothing more the bridges come to an end, however they are scheduled.

Unlike the session tasks of the tunnel those of the bridge wait for nobody but
their own device. So where nothing goes on, nothing is on its way
(`Bridges.written_eq_read`): all that was read at one end has been written at
the other.
-/

namespace UsbWs

open Runs Checked

/-! ## Prices -/

def DevReader.load : DevReader → Nat
  | .sending chunk => chunk.length + 6
  | .reading | .done => 0

def DevWriter.load : DevWriter → Nat
  | .writing rest => rest.length
  | .recv | .done => 0

namespace Serial

def pcLoad : LoopPc Bytes Bytes → Nat
  | .sending chunk => chunk.length + 4
  | .handling body => body.length + 2
  | .connecting | .select | .exited => 0

/-- Chunks that have so many steps to go before the first of their bytes. -/
def chunksLoad (steps : Nat) (chunks : List Bytes) : Nat :=
  (chunks.map fun b => b.length + steps).sum

@[simp] theorem chunksLoad_nil (n : Nat) : chunksLoad n [] = 0 := rfl

@[simp] theorem chunksLoad_cons (n : Nat) (b : Bytes) (bs : List Bytes) :
    chunksLoad n (b :: bs) = b.length + n + chunksLoad n bs := by simp [chunksLoad]

@[simp] theorem chunksLoad_append (n : Nat) (bs cs : List Bytes) :
    chunksLoad n (bs ++ cs) = chunksLoad n bs + chunksLoad n cs := by simp [chunksLoad]

def load (s : Serial) : Nat :=
  s.reader.load + chunksLoad 5 s.loop.queue + pcLoad s.loop.pc + chunksLoad 1 s.netQueue +
    s.writer.load

end Serial

/-- What the device brings in. -/
def SerialAct.cost : SerialAct → Nat
  | .read (.chunk bytes) => bytes.val.length + 6
  | _ => 0

/-- Steps that bring nothing in; the ups and downs of the websocket, errors of
the device and the end of a task are not counted. -/
def SerialAct.work : SerialAct → Nat
  | .loop .dequeue | .loop .sendOk | .recv _ | .forward | .sendChunk | .take => 1
  | .write n => n
  | _ => 0

namespace Serial

variable {incoming : Bytes → Checked (Option Bytes)} {s s' : Serial} {a : SerialAct}

/-- A device takes no more than it is given, and when it has taken all of it
the writer thread goes back to its queue. -/
theorem write_le {n : Nat} (h : step incoming s (.write n) = some s') {rest : Bytes}
    (hw : s.writer = .writing rest) :
    n ≤ rest.length ∧ (n = rest.length → s'.writer = .recv) := by
  simp only [step, hw] at h
  split at h
  · cases h
  · split at h
    · cases h
      exact ⟨by omega, fun _ => rfl⟩
    · next hne =>
        refine ⟨by omega, fun heq => ?_⟩
        exact absurd heq.symm hne

theorem event_pays {ev : LoopEvent} {l : Loop Bytes Bytes Bytes}
    (h : s.loop.event pack ev = some l) :
    pcLoad l.pc + chunksLoad 5 l.queue + chunksLoad 0 l.sent + (SerialAct.loop ev).work ≤
      pcLoad s.loop.pc + chunksLoad 5 s.loop.queue + chunksLoad 0 s.loop.sent := by
  cases ev with
  | dequeue =>
      simp only [Loop.event] at h
      split at h <;> cases h
      next item rest hpc hq =>
        rw [hpc, hq]
        simp only [Loop.sent, pcLoad, chunksLoad_cons, SerialAct.work]
        omega
  | sendOk =>
      simp only [Loop.event] at h
      split at h <;> cases h
      next item hpc =>
        rw [Loop.sent_wire_append, hpc, chunksLoad_append]
        simp only [pcLoad, chunksLoad_cons, chunksLoad_nil, SerialAct.work, pack, packInner,
          List.length_append, List.length_cons, List.length_nil]
        omega
  | wsClosed | sendErr =>
      simp only [Loop.event] at h
      split at h <;> cases h
      rw [Loop.sent_disconnect]
      simp only [Loop.disconnect, pcLoad, SerialAct.work]
      omega
  | relayUp | relayDown | outClosed | ctrlC =>
      simp only [Loop.event] at h
      split at h <;> cases h <;>
        first
          | exact Nat.le_refl _
          | (next hpc => simp [hpc, pcLoad, SerialAct.work, Loop.sent])

/-- A step pays, for what it sends too. -/
theorem Trans.pays (h : Trans incoming s a s') (hrecv : ∀ frame, a ≠ .recv frame)
    (hwrite : ∀ n, a = .write n → ∀ rest, s.writer = .writing rest → n ≤ rest.length) :
    s'.load + chunksLoad 0 s'.loop.sent + a.work ≤ s.load + chunksLoad 0 s.loop.sent + a.cost := by
  cases h with
  | event hev hl =>
      have hpay := event_pays hl
      simp only [load, SerialAct.cost]
      omega
  | ignore | accept => exact absurd rfl (hrecv _)
  | close hr hpc hq =>
      simp only [load, Loop.sent, hpc, pcLoad, SerialAct.work, SerialAct.cost]
      omega
  | forward hpc hw hroom =>
      simp only [load, Loop.sent, hpc, pcLoad, chunksLoad_append, chunksLoad_cons,
        chunksLoad_nil, SerialAct.work, SerialAct.cost]
      omega
  | drop hpc hw =>
      simp only [load, Loop.sent, hpc, pcLoad, SerialAct.work, SerialAct.cost]
      omega
  | readEnd hr =>
      simp only [load, hr, DevReader.load, SerialAct.work]
      omega
  | readChunk hr =>
      simp only [load, hr, DevReader.load, SerialAct.work, SerialAct.cost]
      omega
  | readAgain hr =>
      simp only [SerialAct.work]
      omega
  | sendChunk hr hpc hroom =>
      simp only [load, Loop.sent, hr, DevReader.load, chunksLoad_append, chunksLoad_cons,
        chunksLoad_nil, SerialAct.work, SerialAct.cost]
      omega
  | sendGone hr hpc =>
      simp only [load, hr, DevReader.load, SerialAct.work, SerialAct.cost]
      omega
  | take hw hq =>
      simp only [load, hw, hq, DevWriter.load, chunksLoad_cons, SerialAct.work, SerialAct.cost]
      omega
  | wrote hw =>
      simp only [load, hw, DevWriter.load, SerialAct.work, SerialAct.cost]
      omega
  | @wrotePart rest n hw =>
      have hle := hwrite n rfl rest hw
      simp only [load, hw, DevWriter.load, List.length_drop, SerialAct.work, SerialAct.cost]
      omega
  | writeErr hw | netClosed hw =>
      simp only [load, hw, DevWriter.load, SerialAct.work, SerialAct.cost]
      omega

/-- A receive pays out of the frame. -/
theorem Trans.recv_pays {frame : Bytes} (h : Trans incoming s (.recv frame) s') :
    s'.load + 1 ≤ s.load + (bodyOf incoming frame).length + 3 ∧ s'.loop.sent = s.loop.sent := by
  cases h with
  | ignore hpc hin => exact ⟨by simp only [load]; omega, rfl⟩
  | accept hpc hin =>
      refine ⟨?_, rfl⟩
      simp only [load, hpc, pcLoad, bodyOf, hin]
      omega

/-! ## What the tasks have in their hands -/

/-- Only packed chunks are put on the websocket. -/
theorem Trans.packed (h : Trans incoming s a s')
    (hpacked : ∀ inner ∈ s.loop.sent, ∃ chunk, inner = pack chunk) :
    ∀ inner ∈ s'.loop.sent, ∃ chunk, inner = pack chunk := by
  cases h with
  | @event ev l hev hl =>
      cases ev with
      | sendOk =>
          simp only [Loop.event] at hl
          split at hl <;> cases hl
          next item hpc =>
            intro inner hmem
            rw [Loop.sent_wire_append, List.mem_append, List.mem_singleton] at hmem
            rcases hmem with hmem | rfl
            · exact hpacked inner hmem
            · exact ⟨item, rfl⟩
      | wsClosed | sendErr =>
          simp only [Loop.event] at hl
          split at hl <;> cases hl
          rwa [Loop.sent_disconnect]
      | relayUp | relayDown | dequeue | outClosed | ctrlC =>
          simp only [Loop.event] at hl
          split at hl <;> cases hl <;> exact hpacked
  | _ => exact hpacked

/-- No task has an empty chunk for the device in its hands. -/
structure Full (s : Serial) : Prop where
  queue : [] ∉ s.netQueue
  handled : ∀ body, s.loop.pc = .handling body → body ≠ []
  writing : ∀ rest, s.writer = .writing rest → rest ≠ []

theorem Full.init : Full init where
  queue := List.not_mem_nil
  handled := fun _ h => by cases h
  writing := fun _ h => by cases h

theorem Full.step (hin : ∀ frame body, incoming frame = .ok (some body) → body ≠ [])
    (h : Full s) (hs : Serial.step incoming s a = some s') : Full s' := by
  cases trans_of_step hs with
  | event hev hl =>
      exact ⟨h.queue, fun body hpc => absurd hpc ((Loop.event_frame hl).2.1 body), h.writing⟩
  | close | drop => exact ⟨h.queue, fun _ hpc => (by cases hpc), h.writing⟩
  | ignore | readEnd | readChunk | readAgain | sendChunk | sendGone =>
      exact ⟨h.queue, h.handled, h.writing⟩
  | accept hpc hok =>
      refine ⟨h.queue, fun body hpc' => ?_, h.writing⟩
      cases hpc'
      exact hin _ _ hok
  | @forward body hpc hw hroom =>
      refine ⟨fun hmem => ?_, fun _ hpc' => (by cases hpc'), h.writing⟩
      rw [List.mem_append, List.mem_singleton] at hmem
      rcases hmem with hmem | hmem
      · exact h.queue hmem
      · exact h.handled body hpc hmem.symm
  | @take bytes rest hw hq =>
      have hqueue := h.queue
      rw [hq, List.mem_cons, not_or] at hqueue
      refine ⟨hqueue.2, h.handled, fun bytes' hw' => ?_⟩
      cases hw'
      exact Ne.symm hqueue.1
  | wrote | writeErr | netClosed => exact ⟨h.queue, h.handled, fun _ hw => (by cases hw)⟩
  | @wrotePart rest n hw =>
      refine ⟨h.queue, h.handled, fun rest' hw' hnil => ?_⟩
      obtain ⟨hle, hend⟩ := write_le hs hw
      cases hw'
      have hdone := hend (le_antisymm hle (List.drop_eq_nil_iff.1 hnil))
      cases hdone

/-! ## Where the bytes go on -/

/-- The websocket is open and the writer thread has not ended. -/
structure Up (s : Serial) : Prop where
  connected : s.loop.pc ≠ .connecting
  running : s.loop.pc ≠ .exited
  writer : s.writer ≠ .done

/-- Work and arrivals bring nothing down, and nothing new is read. -/
theorem Trans.up (h : Trans incoming s a s') (hwork : 0 < a.work) (hup : Up s) :
    Up s' ∧ s'.read = s.read := by
  have hsame : s'.loop.pc = s.loop.pc → s'.writer ≠ .done → s'.read = s.read →
      Up s' ∧ s'.read = s.read := fun hpc hw hread =>
    ⟨⟨hpc ▸ hup.connected, hpc ▸ hup.running, hw⟩, hread⟩
  cases h with
  | @event ev l hev hl =>
      cases ev with
      | dequeue | sendOk =>
          simp only [Loop.event] at hl
          split at hl <;> cases hl
          exact ⟨⟨by simp, by simp, hup.writer⟩, rfl⟩
      | _ => exact absurd hwork (Nat.lt_irrefl 0)
  | ignore => exact hsame rfl hup.writer rfl
  | accept | forward | drop => exact ⟨⟨by simp, by simp, hup.writer⟩, rfl⟩
  | sendChunk => exact hsame rfl hup.writer rfl
  | sendGone hr hpc => exact absurd hpc hup.running
  | take | wrote | wrotePart => exact hsame rfl (by simp) rfl
  | close | writeErr | netClosed => exact absurd hwork (Nat.lt_irrefl 0)
  | @readEnd result | @readAgain result => cases result <;> exact absurd hwork (Nat.lt_irrefl 0)
  | readChunk => exact absurd hwork (Nat.lt_irrefl 0)

/-- A side whose tasks have come to an end has handed everything on: what it
read is on the websocket, what it received at the device. -/
structure Idle (s : Serial) : Prop where
  select : s.loop.pc = .select
  queue : s.loop.queue = []
  reader : s.reader.pending = []
  netQueue : s.netQueue = []
  writer : s.writer = .recv

/-- None of its tasks can work. -/
theorem Up.idle (hup : Up s) (hfull : Full s)
    (hrest : ∀ a, 0 < a.work → (∀ frame, a ≠ .recv frame) → step incoming s a = none) :
    Idle s := by
  have hwriter : s.writer = .recv := by
    cases hw : s.writer with
    | recv => rfl
    | done => exact absurd hw hup.writer
    | writing rest =>
        have hpos := List.length_pos_of_ne_nil (hfull.writing rest hw)
        have hwrite := hrest (.write rest.length) hpos (by simp)
        simp [step, hw] at hwrite
  have hnet : s.netQueue = [] := by
    cases hq : s.netQueue with
    | nil => rfl
    | cons bytes rest =>
        have htake := hrest .take Nat.zero_lt_one (by simp)
        simp [step, hwriter, hq] at htake
  have hselect : s.loop.pc = .select := by
    cases hpc : s.loop.pc with
    | select => rfl
    | connecting => exact absurd hpc hup.connected
    | exited => exact absurd hpc hup.running
    | sending item =>
        have hsend := hrest (.loop .sendOk) Nat.zero_lt_one (by simp)
        simp [step, bridge, Loop.step, Loop.event, hpc] at hsend
    | handling body =>
        have hforward := hrest .forward Nat.zero_lt_one (by simp)
        simp [step, bridge, Loop.step, hpc, hwriter, hnet, devQueue] at hforward
  have hqueue : s.loop.queue = [] := by
    cases hq : s.loop.queue with
    | nil => rfl
    | cons item rest =>
        have hdequeue := hrest (.loop .dequeue) Nat.zero_lt_one (by simp)
        simp [step, bridge, Loop.step, Loop.event, hselect, hq] at hdequeue
  refine ⟨hselect, hqueue, ?_, hnet, hwriter⟩
  cases hr : s.reader with
  | reading | done => rfl
  | sending chunk =>
      have hsend := hrest .sendChunk Nat.zero_lt_one (by simp)
      simp [step, bridge, Loop.step, hr, hselect, hqueue, devQueue] at hsend

theorem Idle.sent_eq (h : Idle s) (hout : Outward s) :
    s.loop.sent.flatMap (List.drop 3) = s.read := by
  have hread := hout.complete fun hexit => by rw [h.select] at hexit; cases hexit
  have hlossless := hout.lossless
  rw [h.reader, List.append_nil, Loop.enqueued, h.queue, List.append_nil] at hread
  rw [Loop.pending, h.select, List.map_nil, List.append_nil] at hlossless
  rw [hlossless, ← hread, List.flatMap_map]
  exact List.flatMap_id

theorem Idle.written_eq (h : Idle s) (hin : Inward incoming s) :
    s.written = s.rcvd.flatMap (bodyOf incoming) := by
  have hcomplete := hin.complete (by rw [h.writer]; simp)
  rw [h.writer, h.netQueue, DevWriter.pending_recv,
    handled_of_ne (by simp [h.select])] at hcomplete
  simpa using hcomplete

end Serial

/-! ## What the relay carries -/

variable {SK VK : Type} {C : Crypto SK VK} {k : BridgeKeys C}

/-- `handle_incoming` of the bridge never panics, and forwards no empty body. -/
theorem incomingBody_ok (kS2c myXPriv peerXPub : U8Array 32) (peerEdPub : VK) (frame : Bytes) :
    ∃ o, incomingBody C kS2c myXPriv peerXPub peerEdPub frame = .ok o ∧ o ≠ some [] := by
  have hdecoded : ∃ p, decodeIncoming C frame kS2c myXPriv peerXPub peerEdPub = .ok p := by
    by_cases hlen : frame.length < 8 + 24 + 16 + 64
    · exact ⟨none, by rw [decodeIncoming, if_pos hlen]⟩
    · obtain ⟨f, rfl⟩ := exists_relayFrame (Nat.not_lt.1 hlen)
      exact ⟨_, decodeIncoming_bytes ..⟩
  obtain ⟨p, hp⟩ := hdecoded
  rw [incomingBody, hp, ok_bind]
  cases p with
  | none => exact ⟨none, rfl, by simp⟩
  | some cb =>
      obtain ⟨cmd, body⟩ := cb
      by_cases hb : cmd = cmdSerialData ∧ body ≠ []
      · exact ⟨some body, if_pos hb, by simpa using hb.2⟩
      · exact ⟨none, if_neg hb, by simp⟩

theorem BridgeKeys.incoming_ok (k : BridgeKeys C) (m : Mode) (frame : Bytes) :
    ∃ o, k.incoming m frame = .ok o ∧ o ≠ some [] := incomingBody_ok ..

theorem BridgeKeys.incoming_ne_nil {m : Mode} {frame body : Bytes}
    (h : k.incoming m frame = .ok (some body)) : body ≠ [] := by
  rintro rfl
  obtain ⟨o, ho, hne⟩ := k.incoming_ok m frame
  exact hne (Except.ok.inj (ho.symm.trans h))

def BridgesAct.cost : BridgesAct → Nat
  | .own _ a => a.cost
  | .deliver _ _ => 0

def BridgesAct.work : BridgesAct → Nat
  | .own _ a => a.work
  | .deliver _ _ => 1

namespace Bridges

variable {t t' u : Bridges} {m : Mode} {a : BridgesAct}

/-- The plaintexts on their way to a side. -/
def flying (t : Bridges) (m : Mode) : List Bytes :=
  (t.ends m.other).loop.sent.drop (t.ends m).rcvd.length

def sideLoad (t : Bridges) (m : Mode) : Nat :=
  (t.ends m).load + Serial.chunksLoad 0 (t.flying m)

def load (t : Bridges) : Nat := t.sideLoad .share + t.sideLoad .attach

theorem load_eq (t : Bridges) (m : Mode) : t.load = t.sideLoad m + t.sideLoad m.other := by
  cases m with
  | share => rfl
  | attach => exact Nat.add_comm _ _

/-- What both sides keep in any run: packed chunks on the websockets, of which
no more arrive than were sent, and no empty chunk for a device. -/
structure Packed (t : Bridges) : Prop where
  packed : ∀ m, ∀ inner ∈ (t.ends m).loop.sent, ∃ chunk, inner = Serial.pack chunk
  arrived : ∀ m, (t.ends m).rcvd.length ≤ (t.ends m.other).loop.sent.length
  full : ∀ m, Serial.Full (t.ends m)

theorem Packed.init : Packed init where
  packed := fun _ _ h => by cases h
  arrived := fun _ => Nat.le_refl _
  full := fun _ => .init

theorem Packed.step (h : Packed t) (hs : t.step k a = some t') : Packed t' := by
  obtain ⟨m, b, s, hstep, rfl, hb⟩ := serial_step_of_step hs
  have htr := Serial.trans_of_step hstep
  refine ⟨?_, ?_, ?_⟩
  · exact forall_put (I := fun _ s => ∀ inner ∈ s.loop.sent, ∃ chunk, inner = Serial.pack chunk)
      h.packed (htr.packed (h.packed m))
  · intro r
    rcases r.eq_or_eq_other m with rfl | rfl
    · rw [put_ends_self, put_ends_other]
      rcases hb with ⟨hne, -⟩ | ⟨nonce, inner, frame, rfl, -, hinner, -⟩
      · rw [htr.rcvd_of_ne hne]
        exact h.arrived r
      · rw [htr.rcvd_recv, List.length_append, List.length_singleton]
        exact (List.getElem?_eq_some_iff.1 hinner).1
    · have hle := h.arrived m.other
      rw [Mode.other_other] at hle
      rw [put_ends_other, Mode.other_other, put_ends_self]
      exact hle.trans htr.prefix_sent.length_le
  · exact forall_put (I := fun _ s => Serial.Full s) h.full
      ((h.full m).step (fun _ _ hok => k.incoming_ne_nil hok) hstep)

/-- What was added on the websocket flies. -/
theorem chunksLoad_drop {sent sent' : List Bytes} {n : Nat} (h : sent <+: sent')
    (hn : n ≤ sent.length) :
    Serial.chunksLoad 0 (sent'.drop n) + Serial.chunksLoad 0 sent =
      Serial.chunksLoad 0 (sent.drop n) + Serial.chunksLoad 0 sent' := by
  obtain ⟨more, rfl⟩ := h
  rw [List.drop_append_of_le_length hn, Serial.chunksLoad_append, Serial.chunksLoad_append]
  omega

/-- Every step pays for its work. -/
theorem paid (hC : C.Lawful) :
    Paid (step k) Packed load BridgesAct.cost BridgesAct.work where
  keeps := fun hs h => h.step hs
  pays := by
    intro t a t' hs h
    obtain ⟨m, b, s, hstep, rfl, hb⟩ := serial_step_of_step hs
    have htr := Serial.trans_of_step hstep
    have hother : (t.put m s).flying m.other = s.loop.sent.drop (t.ends m.other).rcvd.length := by
      rw [flying, Mode.other_other, put_ends_self, put_ends_other]
    have hself : (t.put m s).flying m = (t.ends m.other).loop.sent.drop s.rcvd.length := by
      rw [flying, put_ends_self, put_ends_other]
    have hle := h.arrived m.other
    rw [Mode.other_other] at hle
    rw [load_eq _ m, load_eq t m]
    simp only [sideLoad, put_ends_self, put_ends_other, hother, hself]
    rw [show t.flying m.other = (t.ends m).loop.sent.drop (t.ends m.other).rcvd.length by
      rw [flying, Mode.other_other]]
    rcases hb with ⟨hne, rfl⟩ | ⟨nonce, inner, frame, rfl, rfl, hinner, hframe⟩
    · have hrcvd : s.rcvd = (t.ends m).rcvd := by
        rcases htr.rcvd_eq with heq | ⟨frame, rfl, -⟩
        · exact heq
        · exact absurd rfl (hne frame)
      have hpays := htr.pays hne fun n hn rest hw => by
        subst hn
        exact (Serial.write_le hstep hw).1
      have hfly := chunksLoad_drop htr.prefix_sent hle
      rw [hrcvd]
      simp only [flying, BridgesAct.cost, BridgesAct.work]
      omega
    · obtain ⟨hlt, hget⟩ := List.getElem?_eq_some_iff.1 hinner
      obtain ⟨chunk, rfl⟩ := h.packed m.other inner (List.mem_of_getElem? hinner)
      obtain ⟨frame', hframe', hbody⟩ := k.arriving_pack m hC nonce chunk
      obtain rfl : frame = frame' := Except.ok.inj (hframe.symm.trans hframe')
      obtain ⟨hpays, hsent⟩ := htr.recv_pays
      have hshort : (k.arrivingBody m (Serial.pack chunk)).length ≤ chunk.length := by
        rw [BridgeKeys.arrivingBody]
        split
        · exact Nat.zero_le _
        · exact Nat.le_refl _
      have hfly : t.flying m = Serial.pack chunk ::
          (t.ends m.other).loop.sent.drop ((t.ends m).rcvd.length + 1) := by
        rw [flying, List.drop_eq_getElem_cons hlt, hget]
      have hlen : (Serial.pack chunk).length = chunk.length + 3 := by simp [packInner]
      rw [hbody] at hpays
      rw [htr.rcvd_recv, List.length_append, List.length_singleton, hsent, hfly,
        Serial.chunksLoad_cons, hlen]
      simp only [BridgesAct.cost, BridgesAct.work]
      omega

/-! ## Where nothing goes on -/

/-- A chunk goes one stage on. -/
def goesOn (_ : Bridges) (a : BridgesAct) : Prop := 0 < a.work

instance (t : Bridges) (a : BridgesAct) : Decidable (goesOn t a) :=
  inferInstanceAs (Decidable (0 < a.work))

def Up (t : Bridges) : Prop := ∀ m, Serial.Up (t.ends m)

theorem Up.step (hup : Up t) (ha : goesOn t a) (hs : t.step k a = some t') :
    Up t' ∧ ∀ m, (t'.ends m).read = (t.ends m).read := by
  obtain ⟨m, b, s, htr, rfl, hb⟩ := trans_of_step hs
  have hwork : 0 < b.work := by
    rcases hb with ⟨-, rfl⟩ | ⟨_, _, _, rfl, -⟩
    · exact ha
    · exact Nat.zero_lt_one
  obtain ⟨hs, hread⟩ := htr.up hwork (hup m)
  exact ⟨forall_put (I := fun _ s => Serial.Up s) hup hs,
    forall_put (I := fun m s => s.read = (t.ends m).read) (fun _ => rfl) hread⟩

theorem oneSession_of_goesOn (ha : goesOn t a) : oneSession t a = true := by
  cases a with
  | own m b =>
      cases b with
      | loop ev => cases ev <;> first | rfl | exact absurd ha (Nat.lt_irrefl 0)
      | _ => rfl
  | deliver m nonce => rfl

/-- Where nothing goes on, what was read from a device has been written to the
other; unless the reader's id is the mark of the server, and nothing ever was. -/
theorem written_eq (hC : C.Lawful) (hst : Streams k t) (hpk : Packed t) (hup : Up t)
    (hset : Settled (step k) goesOn t) (m : Mode) :
    (t.ends m).written = if (k.me m.other).id = .zero 8 then [] else (t.ends m.other).read := by
  have hidle : ∀ r, Serial.Idle (t.ends r) := fun r =>
    (hup r).idle (hpk.full r) fun b hb hne => by
      have hnone := hset (.own r b) hb
      simp only [step] at hnone
      exact Option.map_eq_none_iff.1 hnone
  have harrived : (t.ends m).rcvd.length = (t.ends m.other).loop.sent.length := by
    by_contra hne
    have hlt : (t.ends m).rcvd.length < (t.ends m.other).loop.sent.length :=
      lt_of_le_of_ne (hpk.arrived m) hne
    obtain ⟨chunk, hchunk⟩ := hpk.packed m.other _ (List.getElem_mem hlt)
    obtain ⟨frame, hframe, -⟩ := k.arriving_pack m hC (.zero 24) chunk
    obtain ⟨o, ho, -⟩ := k.incoming_ok m frame
    have hdeliver := hset (.deliver m (.zero 24)) Nat.zero_lt_one
    simp only [step, List.getElem?_eq_getElem hlt, hchunk, hframe, Serial.step,
      (hidle m).select, ho] at hdeliver
    cases o <;> simp [bridge, Loop.step, (hidle m).select] at hdeliver
  have hall : (t.ends m).rcvd.map (Serial.bodyOf (k.incoming m)) =
      (t.ends m.other).loop.sent.map (k.arrivingBody m) :=
    (hst.link m).eq_of_length (by rw [List.length_map, List.length_map, harrived])
  have hwritten : (t.ends m).written = (t.ends m.other).loop.sent.flatMap (k.arrivingBody m) := by
    rw [(hidle m).written_eq (hst.inward m), List.flatMap, hall, List.flatMap]
  rw [hwritten]
  split
  · next hid =>
      have hbody : k.arrivingBody m = fun _ => [] := by
        funext inner
        rw [BridgeKeys.arrivingBody, if_pos hid]
      rw [hbody]
      simp
  · next hid =>
      have hbody : k.arrivingBody m = List.drop 3 := by
        funext inner
        rw [BridgeKeys.arrivingBody, if_neg hid]
      rw [hbody]
      exact (hidle m.other).sent_eq (hst.outward m.other)

end Bridges

/-- In whatever way two bridges and the relay are scheduled, their steps are
bounded by what the devices bring in. From a state of one relay session in
which both are connected and neither device has refused a write, they come to
an end if the devices bring nothing more, and at any end all that was read
from either device has been written to the other; only a side whose id is the
mark of the server is never heard. -/
theorem serial_delivers (hC : C.Lawful) (k : BridgeKeys C) (t : Bridges)
    (h : Reaches (Bridges.step k) (fun t a => Bridges.oneSession t a = true) Bridges.init t) :
    (∀ as u, run (Bridges.step k) t as = some u →
      (as.map BridgesAct.work).sum ≤ t.load + (as.map BridgesAct.cost).sum) ∧
    (t.Up →
      (∃ u, Reaches (Bridges.step k) Bridges.goesOn t u ∧
        Settled (Bridges.step k) Bridges.goesOn u) ∧
      ∀ u, Reaches (Bridges.step k) Bridges.goesOn t u →
        Settled (Bridges.step k) Bridges.goesOn u → ∀ m, (u.ends m).written =
          if (k.me m.other).id = .zero 8 then [] else (t.ends m.other).read) := by
  have hpacked : Bridges.Packed t :=
    h.invariant Bridges.Packed.init fun _ hs hp => hp.step hs
  have hpaid := Bridges.paid (k := k) hC
  refine ⟨fun as u hrun => ?_, fun hup => ⟨?_, fun u hu hset m => ?_⟩⟩
  · have hwork := hpaid.run_work hpacked hrun
    omega
  · refine hpaid.exists_settled (fun {s a} ha => ?_) hpacked
    cases a with
    | own m b =>
        cases b with
        | read result => exact absurd ha (Nat.lt_irrefl 0)
        | _ => exact ha
    | deliver m nonce => exact Nat.zero_lt_one
  · have hstreams : Bridges.Streams k u := by
      refine (h.trans (hu.weaken fun _ _ ha => Bridges.oneSession_of_goesOn ha)).invariant
        Bridges.Streams.init fun ha hs hst => hst.step hC ha hs
    obtain ⟨hpu, huu, hread⟩ :
        Bridges.Packed u ∧ u.Up ∧ ∀ m, (u.ends m).read = (t.ends m).read := by
      refine hu.invariant (I := fun u => Bridges.Packed u ∧ u.Up ∧
        ∀ m, (u.ends m).read = (t.ends m).read) ⟨hpacked, hup, fun _ => rfl⟩ ?_
      rintro u a v ha hs ⟨hpu, huu, hread⟩
      obtain ⟨huv, hsame⟩ := huu.step ha hs
      exact ⟨hpu.step hs, huv, fun m => (hsame m).trans (hread m)⟩
    rw [Bridges.written_eq hC hstreams hpu huu hset m, hread]

/-- Both sides are connected; each has read from its device, and one of them
has its chunk on the websocket. -/
def bothRead : List BridgesAct :=
  [.own .attach (.loop .relayUp), .own .share (.loop .relayUp),
    .own .attach (.read (.chunk ⟨[6, 7, 8], by decide⟩)), .own .attach .sendChunk,
    .own .share (.read (.chunk ⟨[4], by decide⟩)), .own .attach (.loop .dequeue),
    .own .attach (.loop .sendOk), .own .attach (.read (.chunk ⟨[9], by decide⟩))]

theorem serial_delivers_bothRead :
    ∃ t u : Bridges, Reaches (Bridges.step keysOfBoth) Bridges.goesOn t u ∧
      (t.ends .share).written = [] ∧ (t.ends .attach).written = [] ∧
      (u.ends .share).written = [6, 7, 8, 9] ∧ (u.ends .attach).written = [4] := by
  have hrun : (run (guarded (Bridges.step keysOfBoth) fun t a => Bridges.oneSession t a = true)
      Bridges.init bothRead).any (fun t =>
        ((t.ends .share).written = [] ∧ (t.ends .attach).written = [] ∧
          (t.ends .share).read = [4] ∧ (t.ends .attach).read = [6, 7, 8, 9]) ∧
        ((t.ends .share).loop.pc = .select ∧ (t.ends .share).writer = .recv) ∧
          (t.ends .attach).loop.pc = .select ∧ (t.ends .attach).writer = .recv) = true := by
    decide +kernel
  obtain ⟨t, hreach, ht⟩ := exists_of_run_any hrun
  obtain ⟨⟨hshare, hattach, hread, hread'⟩, ⟨hpc, hw⟩, hpc', hw'⟩ := of_decide_eq_true ht
  have hup : t.Up := fun m => by
    cases m
    · exact ⟨by simp [hpc], by simp [hpc], by simp [hw]⟩
    · exact ⟨by simp [hpc'], by simp [hpc'], by simp [hw']⟩
  obtain ⟨⟨u, hu, hset⟩, hend⟩ :=
    (serial_delivers Crypto.transparent_lawful keysOfBoth t hreach).2 hup
  have hids : ∀ m, (keysOfBoth.me m).id ≠ .zero 8 := fun m => by cases m <;> decide
  refine ⟨t, u, hu, hshare, hattach, ?_, ?_⟩
  · rw [hend u hu hset .share, if_neg (hids _)]
    exact hread'
  · rw [hend u hu hset .attach, if_neg (hids _)]
    exact hread

end UsbWs
