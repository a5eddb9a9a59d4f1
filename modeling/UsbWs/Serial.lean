import UsbWs.Envelope
import UsbWs.Loop

/-!
# One process of the serial bridge

The process has three tasks. The reader thread blocks on the device and
forwards what it reads; the session loop is the `bridge` of `Loop`; the writer
thread drains what the loop forwards to it and writes it to the device. Two
bounded queues connect them, and a task that has ended has dropped its end of
each of its queues.

`Serial.step` is one stretch of one of the three. What the websocket brings is
a frame, as bytes. The records say what was read from the device (`read`), the
frames that were received (`rcvd`) and what the device accepted (`written`).
-/

namespace UsbWs

open Runs Checked

/-- What one read puts in the buffer. -/
abbrev DeviceChunk := { v : Bytes // 1 ≤ v.length ∧ v.length ≤ 4096 }

/-- What a read of the device returns. -/
inductive ReadResult where
  | eof
  | chunk (bytes : DeviceChunk)
  | timedOut
  | interrupted
  | eio
  | fatal

/-- The reader thread: in `reader.read`, in `dev_tx.blocking_send`, returned. -/
inductive DevReader where
  | reading
  | sending (chunk : Bytes)
  | done
  deriving DecidableEq

/-- The writer thread: in `net_rx.blocking_recv`, in `writer.write_all` with the
bytes still to go, returned. -/
inductive DevWriter where
  | recv
  | writing (rest : Bytes)
  | done
  deriving DecidableEq

/-- What the reader thread has read and not sent. -/
def DevReader.pending : DevReader → Bytes
  | .sending chunk => chunk
  | _ => []

/-- What the writer thread has taken and not written. -/
def DevWriter.pending : DevWriter → Bytes
  | .writing rest => rest
  | _ => []

@[simp] theorem DevReader.pending_reading : reading.pending = [] := rfl
@[simp] theorem DevReader.pending_sending (chunk : Bytes) : (sending chunk).pending = chunk := rfl
@[simp] theorem DevReader.pending_done : done.pending = [] := rfl
@[simp] theorem DevWriter.pending_recv : recv.pending = [] := rfl
@[simp] theorem DevWriter.pending_writing (rest : Bytes) : (writing rest).pending = rest := rfl

structure Serial where
  loop : Loop Bytes Bytes Bytes
  reader : DevReader
  writer : DevWriter
  netQueue : List Bytes
  /-- The loop has left because the device was closed. -/
  deviceClosed : Bool
  read : Bytes
  rcvd : List Bytes
  written : Bytes

inductive SerialAct where
  | loop (ev : LoopEvent)
  | recv (frame : Bytes)
  | forward
  | read (result : ReadResult)
  | sendChunk
  | take
  | write (n : Nat)
  | writeErr
  | netClosed

section Incoming

variable {SK VK : Type} (C : Crypto SK VK) (kS2c myXPriv peerXPub : U8Array 32) (peerEdPub : VK)

/-- What `handle_incoming` forwards to the device writer. -/
def incomingBody (frame : Bytes) : Checked (Option Bytes) := do
  match ← decodeIncoming C frame kS2c myXPriv peerXPub peerEdPub with
  | none => return none
  | some (cmd, body) => if cmd = cmdSerialData ∧ body ≠ [] then return some body else return none

end Incoming

namespace Serial

def init : Serial :=
  { loop := .init, reader := .reading, writer := .recv, netQueue := [], deviceClosed := false,
    read := [], rcvd := [], written := [] }

variable (incoming : Bytes → Checked (Option Bytes)) (s : Serial)

/-- What the reader thread does with the result of a read. -/
def onRead : ReadResult → Serial
  | .eof | .fatal => { s with reader := .done }
  | .chunk bytes => { s with reader := .sending bytes.val, read := s.read ++ bytes.val }
  | .timedOut | .interrupted | .eio => s

def step : SerialAct → Option Serial
  | .loop ev =>
      match ev, s.reader with
      | .outClosed, .done =>
          (bridge s.loop (.event .outClosed)).map fun l =>
            { s with loop := l, deviceClosed := true }
      | .outClosed, _ => none
      | ev, _ => (bridge s.loop (.event ev)).map fun l => { s with loop := l }
  | .recv frame =>
      match s.loop.pc, incoming frame with
      | .select, .ok none => some { s with rcvd := s.rcvd ++ [frame] }
      | .select, .ok (some body) =>
          (bridge s.loop (.recv body)).map fun l =>
            { s with loop := l, rcvd := s.rcvd ++ [frame] }
      | _, _ => none
  | .forward =>
      match s.loop.pc with
      | .handling body =>
          (bridge s.loop .handled).bind fun l =>
            if s.writer = .done then some { s with loop := l }
            else if s.netQueue.length < devQueue then
              some { s with loop := l, netQueue := s.netQueue ++ [body] }
            else none
      | _ => none
  | .read result =>
      match s.reader with
      | .reading => some (s.onRead result)
      | _ => none
  | .sendChunk =>
      match s.reader with
      | .sending chunk =>
          if s.loop.pc = .exited then some { s with reader := .done }
          else
            (bridge s.loop (.push chunk)).map fun l => { s with loop := l, reader := .reading }
      | _ => none
  | .take =>
      match s.writer, s.netQueue with
      | .recv, bytes :: rest => some { s with writer := .writing bytes, netQueue := rest }
      | _, _ => none
  | .write n =>
      match s.writer with
      | .writing rest =>
          if rest.length < n then none
          else if rest.length = n then
            some { s with writer := .recv, written := s.written ++ rest }
          else some { s with writer := .writing (rest.drop n), written := s.written ++ rest.take n }
      | _ => none
  | .writeErr =>
      match s.writer with
      | .writing _ => some { s with writer := .done }
      | _ => none
  | .netClosed =>
      match s.writer, s.netQueue with
      | .recv, [] => if s.loop.pc = .exited then some { s with writer := .done } else none
      | _, _ => none

/-! ## The steps, inverted -/

/-- What the session loop puts on the websocket for a chunk. -/
abbrev pack : Bytes → Bytes := packInner 0 cmdSerialData

inductive Trans : SerialAct → Serial → Prop where
  | event {ev : LoopEvent} {l : Loop Bytes Bytes Bytes} (hev : ev ≠ .outClosed)
      (hl : s.loop.event pack ev = some l) : Trans (.loop ev) { s with loop := l }
  | close (hr : s.reader = .done) (hpc : s.loop.pc = .select) (hq : s.loop.queue = []) :
      Trans (.loop .outClosed)
        { s with loop := { s.loop with pc := .exited }, deviceClosed := true }
  | ignore {frame : Bytes} (hpc : s.loop.pc = .select) (hin : incoming frame = .ok none) :
      Trans (.recv frame) { s with rcvd := s.rcvd ++ [frame] }
  | accept {frame body : Bytes} (hpc : s.loop.pc = .select)
      (hin : incoming frame = .ok (some body)) :
      Trans (.recv frame)
        { s with loop := { s.loop with pc := .handling body }, rcvd := s.rcvd ++ [frame] }
  | forward {body : Bytes} (hpc : s.loop.pc = .handling body) (hw : s.writer ≠ .done)
      (hroom : s.netQueue.length < devQueue) :
      Trans .forward
        { s with loop := { s.loop with pc := .select }, netQueue := s.netQueue ++ [body] }
  | drop {body : Bytes} (hpc : s.loop.pc = .handling body) (hw : s.writer = .done) :
      Trans .forward { s with loop := { s.loop with pc := .select } }
  | readEnd {result : ReadResult} (hr : s.reader = .reading) :
      Trans (.read result) { s with reader := .done }
  | readChunk {bytes : DeviceChunk} (hr : s.reader = .reading) :
      Trans (.read (.chunk bytes))
        { s with reader := .sending bytes.val, read := s.read ++ bytes.val }
  | readAgain {result : ReadResult} (hr : s.reader = .reading) : Trans (.read result) s
  | sendChunk {chunk : Bytes} (hr : s.reader = .sending chunk) (hpc : s.loop.pc ≠ .exited)
      (hroom : s.loop.queue.length < devQueue) :
      Trans .sendChunk
        { s with loop := { s.loop with queue := s.loop.queue ++ [chunk] }, reader := .reading }
  | sendGone {chunk : Bytes} (hr : s.reader = .sending chunk) (hpc : s.loop.pc = .exited) :
      Trans .sendChunk { s with reader := .done }
  | take {bytes : Bytes} {rest : List Bytes} (hw : s.writer = .recv)
      (hq : s.netQueue = bytes :: rest) :
      Trans .take { s with writer := .writing bytes, netQueue := rest }
  | wrote {rest : Bytes} (hw : s.writer = .writing rest) :
      Trans (.write rest.length) { s with writer := .recv, written := s.written ++ rest }
  | wrotePart {rest : Bytes} {n : Nat} (hw : s.writer = .writing rest) :
      Trans (.write n)
        { s with writer := .writing (rest.drop n), written := s.written ++ rest.take n }
  | writeErr {rest : Bytes} (hw : s.writer = .writing rest) :
      Trans .writeErr { s with writer := .done }
  | netClosed (hw : s.writer = .recv) (hq : s.netQueue = []) (hpc : s.loop.pc = .exited) :
      Trans .netClosed { s with writer := .done }

variable {incoming s} {s' : Serial} {a : SerialAct}

theorem trans_of_step (h : step incoming s a = some s') : Trans incoming s a s' := by
  cases a with
  | loop ev =>
      simp only [step] at h
      split at h
      · next hr =>
          obtain ⟨l, hl, rfl⟩ := Option.map_eq_some_iff.1 h
          simp only [bridge, Loop.step, Loop.event] at hl
          split at hl <;> cases hl
          next hpc hq => exact .close hr hpc hq
      · cases h
      · next hev _ =>
          obtain ⟨l, hl, rfl⟩ := Option.map_eq_some_iff.1 h
          exact .event hev hl
  | recv frame =>
      simp only [step] at h
      split at h
      · next hpc hin =>
          cases h
          exact .ignore hpc hin
      · next body hpc hin =>
          obtain ⟨l, hl, rfl⟩ := Option.map_eq_some_iff.1 h
          simp only [bridge, Loop.step, hpc, Option.some.injEq] at hl
          subst hl
          exact .accept hpc hin
      · cases h
  | forward =>
      simp only [step] at h
      split at h
      · next body hpc =>
          simp only [bridge, Loop.step, hpc, Option.bind_some] at h
          split at h
          · next hw => cases h; exact .drop hpc hw
          · next hw =>
              split at h <;> cases h
              next hroom => exact .forward hpc hw hroom
      · cases h
  | read result =>
      simp only [step] at h
      split at h <;> cases h
      next hr =>
        cases result with
        | eof | fatal => exact .readEnd hr
        | chunk bytes => exact .readChunk hr
        | timedOut | interrupted | eio => exact .readAgain hr
  | sendChunk =>
      simp only [step] at h
      split at h
      · next chunk hr =>
          split at h
          · next hpc => cases h; exact .sendGone hr hpc
          · next hpc =>
              obtain ⟨l, hl, rfl⟩ := Option.map_eq_some_iff.1 h
              simp only [bridge, Loop.step] at hl
              split at hl <;> cases hl
              next hroom => exact .sendChunk hr hpc hroom
      · cases h
  | take =>
      simp only [step] at h
      split at h <;> cases h
      next hw hq => exact .take hw hq
  | write n =>
      simp only [step] at h
      split at h
      · next rest hw =>
          split at h
          · cases h
          · split at h
            · next hn => cases h; subst hn; exact .wrote hw
            · cases h
              exact .wrotePart hw
      · cases h
  | writeErr =>
      simp only [step] at h
      split at h <;> cases h
      next hw => exact .writeErr hw
  | netClosed =>
      simp only [step] at h
      split at h
      · next hw hq =>
          split at h <;> cases h
          next hpc => exact .netClosed hw hq hpc
      · cases h

/-- Only a receive adds to the record of what was received. -/
theorem Trans.rcvd_eq (h : Trans incoming s a s') :
    s'.rcvd = s.rcvd ∨ ∃ frame, a = .recv frame ∧ s'.rcvd = s.rcvd ++ [frame] := by
  cases h with
  | ignore hpc hin | accept hpc hin => exact Or.inr ⟨_, rfl, rfl⟩
  | _ => exact Or.inl rfl

/-- A receive adds to it. -/
theorem Trans.rcvd_recv {frame : Bytes} (h : Trans incoming s (.recv frame) s') :
    s'.rcvd = s.rcvd ++ [frame] := by
  cases h <;> rfl

theorem Trans.rcvd_of_ne (h : Trans incoming s a s') (hne : ∀ frame, a ≠ .recv frame) :
    s'.rcvd = s.rcvd := by
  rcases h.rcvd_eq with heq | ⟨frame, rfl, -⟩
  · exact heq
  · exact absurd rfl (hne frame)

/-- What was sent stays sent. -/
theorem Trans.prefix_sent (h : Trans incoming s a s') : s.loop.sent <+: s'.loop.sent := by
  cases h with
  | event hev hl => exact Loop.prefix_event_sent hl
  | _ => exact List.prefix_rfl

/-! ## From the device to the websocket -/

/-- Every byte read was put on the queue or is with the reader thread; only a
thread that finds the loop gone drops a chunk, and ends. When the loop has left
because the device was closed, every byte is on the websocket. -/
structure Outward (s : Serial) : Prop where
  forwarded : s.loop.enqueued.flatten <+: s.read
  complete : (s.loop.pc = .exited → s.reader ≠ .done) →
    s.loop.enqueued.flatten ++ s.reader.pending = s.read
  lossless : s.loop.sent ++ s.loop.pending.map pack = s.loop.dequeued.map pack
  closed : s.deviceClosed = true →
    s.loop.pc = .exited ∧ s.reader = .done ∧ s.loop.sent = s.loop.enqueued.map pack ∧
      s.loop.enqueued.flatten = s.read

theorem Outward.init : Outward init where
  forwarded := List.prefix_rfl
  complete := fun _ => rfl
  lossless := rfl
  closed := fun h => by cases h

/-- One relay session: the websocket does not close and no send fails. -/
def oneSession : SerialAct → Bool
  | .loop .wsClosed | .loop .sendErr => false
  | _ => true

/-- What is on the websocket are packed chunks. -/
theorem Outward.exists_chunk (h : Outward s) {inner : Bytes} (hi : inner ∈ s.loop.sent) :
    ∃ chunk, inner = pack chunk := by
  have hmem : inner ∈ s.loop.dequeued.map pack := by
    rw [← h.lossless]
    exact List.mem_append_left _ hi
  obtain ⟨chunk, -, rfl⟩ := List.mem_map.1 hmem
  exact ⟨chunk, rfl⟩

/-- The chunks on the websocket are the beginning of what was read. -/
theorem Outward.sent_isPrefix (h : Outward s) :
    s.loop.sent.flatMap (List.drop 3) <+: s.read := by
  have hsent : s.loop.sent <+: s.loop.dequeued.map pack := by
    rw [← h.lossless]
    exact List.prefix_append _ _
  have hdequeued : (s.loop.dequeued.map pack).flatMap (List.drop 3) = s.loop.dequeued.flatten := by
    rw [List.flatMap_map]
    exact List.flatMap_id
  have henq : s.loop.dequeued.flatten <+: s.loop.enqueued.flatten :=
    (List.prefix_append _ _).flatten
  exact ((hsent.flatMap _).trans (hdequeued ▸ henq)).trans h.forwarded

/-- Around `handle_incoming` nothing of this direction moves. -/
theorem Outward.goto (h : Outward s) {pc : LoopPc Bytes Bytes} (hlive : s.loop.pc ≠ .exited)
    (hpend : s.loop.pending = [])
    (hpend' : Loop.pending { s.loop with pc := pc } = [])
    (hloop : s'.loop = { s.loop with pc := pc }) (hreader : s'.reader = s.reader)
    (hread : s'.read = s.read) (hclosed : s'.deviceClosed = s.deviceClosed) : Outward s' := by
  have henq : s'.loop.enqueued = s.loop.enqueued := by rw [hloop]; rfl
  have hlossless := h.lossless
  rw [hpend] at hlossless
  refine ⟨?_, fun _ => ?_, ?_, fun hc => ?_⟩
  · rw [henq, hread]
    exact h.forwarded
  · rw [henq, hread, hreader]
    exact h.complete fun hexit => absurd hexit hlive
  · rw [hloop, hpend']
    exact hlossless
  · rw [hclosed] at hc
    exact absurd (h.closed hc).1 hlive

theorem Outward.step (h : Outward s) (ht : Trans incoming s a s') (ha : oneSession a = true) :
    Outward s' := by
  cases ht with
  | @event ev l hev hl =>
      obtain ⟨-, -, hlive, henq⟩ := Loop.event_frame hl
      have hne : ev ≠ .sendErr := by
        rintro rfl
        cases ha
      refine ⟨?_, fun _ => ?_, (Loop.event_record hl).1 hne h.lossless, fun hc => ?_⟩
      · rw [henq]
        exact h.forwarded
      · rw [henq]
        exact h.complete fun hpc => absurd hpc hlive
      · exact absurd (h.closed hc).1 hlive
  | close hr hpc hq =>
      have hread := h.complete fun hexit => by rw [hpc] at hexit; cases hexit
      have hlossless := h.lossless
      rw [hr, DevReader.pending_done, List.append_nil] at hread
      simp only [Loop.pending, hpc] at hlossless
      refine ⟨h.forwarded, fun hexit => absurd hr (hexit rfl), hlossless, fun _ =>
        ⟨rfl, hr, ?_, hread⟩⟩
      rw [List.map_nil, List.append_nil] at hlossless
      rw [Loop.enqueued, hq, List.append_nil]
      exact hlossless
  | ignore hpc hin => exact ⟨h.forwarded, h.complete, h.lossless, h.closed⟩
  | accept hpc hin =>
      exact h.goto (by simp [hpc]) (by simp [Loop.pending, hpc]) rfl rfl rfl rfl rfl
  | forward hpc hw hroom =>
      exact h.goto (by simp [hpc]) (by simp [Loop.pending, hpc]) rfl rfl rfl rfl rfl
  | drop hpc hw =>
      exact h.goto (by simp [hpc]) (by simp [Loop.pending, hpc]) rfl rfl rfl rfl rfl
  | readEnd hr =>
      have hread := h.complete fun _ => by simp [hr]
      rw [hr, DevReader.pending_reading] at hread
      refine ⟨h.forwarded, fun _ => hread, h.lossless, fun hc => ?_⟩
      exact absurd (h.closed hc).2.1 (by simp [hr])
  | @readChunk bytes hr =>
      have hread := h.complete fun _ => by simp [hr]
      rw [hr, DevReader.pending_reading, List.append_nil] at hread
      refine ⟨?_, fun _ => ?_, h.lossless, fun hc => ?_⟩
      · exact h.forwarded.trans (List.prefix_append _ _)
      · rw [DevReader.pending_sending, hread]
      · exact absurd (h.closed hc).2.1 (by simp [hr])
  | readAgain hr => exact h
  | @sendChunk chunk hr hpc hroom =>
      have hread := h.complete fun _ => by simp [hr]
      rw [hr, DevReader.pending_sending] at hread
      have henq : Loop.enqueued { s.loop with queue := s.loop.queue ++ [chunk] } =
          s.loop.enqueued ++ [chunk] := (List.append_assoc ..).symm
      have hflat : (s.loop.enqueued ++ [chunk]).flatten = s.read := by
        rw [List.flatten_append, List.flatten_singleton, hread]
      refine ⟨?_, fun _ => ?_, h.lossless, fun hc => ?_⟩
      · rw [henq, hflat]
      · rw [henq, hflat, DevReader.pending_reading, List.append_nil]
      · exact absurd (h.closed hc).2.1 (by simp [hr])
  | sendGone hr hpc =>
      refine ⟨h.forwarded, fun hexit => absurd rfl (hexit hpc), h.lossless, fun hc => ?_⟩
      exact absurd (h.closed hc).2.1 (by simp [hr])
  | take hw hq => exact ⟨h.forwarded, h.complete, h.lossless, h.closed⟩
  | wrote hw => exact ⟨h.forwarded, h.complete, h.lossless, h.closed⟩
  | wrotePart hw => exact ⟨h.forwarded, h.complete, h.lossless, h.closed⟩
  | writeErr hw => exact ⟨h.forwarded, h.complete, h.lossless, h.closed⟩
  | netClosed hw hq hpc => exact ⟨h.forwarded, h.complete, h.lossless, h.closed⟩

/-! ## From the websocket to the device -/

/-- The bytes of a frame that go to the device. -/
def bodyOf (incoming : Bytes → Checked (Option Bytes)) (frame : Bytes) : Bytes :=
  match incoming frame with
  | .ok (some body) => body
  | _ => []

/-- What `handle_incoming` is about to forward. -/
def handled (s : Serial) : Bytes :=
  match s.loop.pc with
  | .handling body => body
  | _ => []

theorem handled_of_ne (h : ∀ body, s.loop.pc ≠ .handling body) : s.handled = [] := by
  rw [handled]
  split
  · next body hpc => exact absurd hpc (h body)
  · rfl

/-- Every byte received is where it can be, until the writer thread has ended;
what was written to the device is the beginning of it. -/
structure Inward (incoming : Bytes → Checked (Option Bytes)) (s : Serial) : Prop where
  complete : s.writer ≠ .done →
    s.written ++ s.writer.pending ++ s.netQueue.flatten ++ s.handled =
      s.rcvd.flatMap (bodyOf incoming)
  written : s.written <+: s.rcvd.flatMap (bodyOf incoming)

theorem Inward.init : Inward incoming init where
  complete := fun _ => rfl
  written := List.prefix_rfl

theorem Inward.step (h : Inward incoming s) (ht : Trans incoming s a s') :
    Inward incoming s' := by
  cases ht with
  | @event ev l hev hl =>
      obtain ⟨hno, hno', -, -⟩ := Loop.event_frame hl
      refine ⟨fun hw => ?_, h.written⟩
      have hc := h.complete hw
      rw [handled_of_ne hno] at hc
      rw [← hc, handled_of_ne hno']
  | close hr hpc hq =>
      refine ⟨fun hw => ?_, h.written⟩
      have hc := h.complete hw
      simp only [handled, hpc] at hc
      exact hc
  | @ignore frame hpc hin =>
      have hbody : bodyOf incoming frame = [] := by simp only [bodyOf, hin]
      refine ⟨fun hw => ?_, ?_⟩
      · rw [List.flatMap_append, List.flatMap_singleton, hbody, List.append_nil]
        exact h.complete hw
      · rw [List.flatMap_append, List.flatMap_singleton, hbody, List.append_nil]
        exact h.written
  | @accept frame body hpc hin =>
      have hbody : bodyOf incoming frame = body := by simp only [bodyOf, hin]
      refine ⟨fun hw => ?_, ?_⟩
      · have hc := h.complete hw
        simp only [handled, hpc, List.append_nil] at hc
        rw [List.flatMap_append, List.flatMap_singleton, hbody, ← hc]
        rfl
      · rw [List.flatMap_append]
        exact h.written.trans (List.prefix_append _ _)
  | @forward body hpc hw hroom =>
      refine ⟨fun hw => ?_, h.written⟩
      have hc := h.complete hw
      simp only [handled, hpc] at hc
      rw [← hc]
      simp [handled]
  | drop hpc hw => exact ⟨fun hne => absurd hw hne, h.written⟩
  | readEnd hr => exact ⟨h.complete, h.written⟩
  | readChunk hr => exact ⟨h.complete, h.written⟩
  | readAgain hr => exact h
  | sendChunk hr hpc hroom => exact ⟨h.complete, h.written⟩
  | sendGone hr hpc => exact ⟨h.complete, h.written⟩
  | take hw hq =>
      refine ⟨fun _ => ?_, h.written⟩
      have hc := h.complete (by simp [hw])
      rw [hw, hq] at hc
      rw [← hc]
      simp [handled]
  | @wrote rest hw =>
      have hc := h.complete (by simp [hw])
      rw [hw, DevWriter.pending_writing] at hc
      refine ⟨fun _ => ?_, ?_⟩
      · rw [← hc]
        simp [handled]
      · rw [← hc, List.append_assoc]
        exact List.prefix_append _ _
  | @wrotePart rest n hw =>
      have hc := h.complete (by simp [hw])
      rw [hw, DevWriter.pending_writing] at hc
      refine ⟨fun _ => ?_, ?_⟩
      · rw [← hc]
        simp [handled]
      · rw [← hc, List.append_assoc, List.append_assoc, List.prefix_append_right_inj]
        have hpre : rest.take n <+: rest := List.take_prefix n rest
        exact hpre.trans (List.prefix_append _ _)
  | writeErr hw => exact ⟨fun hne => absurd rfl hne, h.written⟩
  | netClosed hw hq hpc => exact ⟨fun hne => absurd rfl hne, h.written⟩

end Serial

end UsbWs
