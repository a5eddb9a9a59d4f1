import Mathlib.Algebra.Order.BigOperators.Group.Finset
import UsbWs.Completion

/-!
# What a process holds in memory

Every queue of the tunnel is bounded, so that a slow consumer stalls its
producer and memory does not grow. `Endpoint.buffered` counts the payload bytes
that a process holds: on the outbound queue, with the session task, and for each
connection with its reader, on its queue and with its writer. Each payload is
counted once, whatever copies of it a task makes while it packs or unpacks a
frame. A task that has ended has given its own back.

Whatever the sockets and the network do, with an honest relay the bytes held stay
within what the capacities allow for the connections that are open
(`memory_bounded`). The bound needs the peer and a relay that adds nothing: what
goes on the queue of a writer was read, in one chunk, at the other end.
-/

namespace UsbWs

open Runs

/-- A bounded number of bounded summands. -/
theorem sum_map_le {α : Type} {f : α → Nat} {xs : List α} {n b : Nat} (hlen : xs.length ≤ n)
    (hf : ∀ x ∈ xs, f x ≤ b) : (xs.map f).sum ≤ n * b := by
  have hsum : (xs.map f).sum ≤ (xs.map f).length • b := by
    refine List.sum_le_card_nsmul _ _ fun m hm => ?_
    obtain ⟨x, hx, rfl⟩ := List.mem_map.1 hm
    exact hf x hx
  rw [List.length_map] at hsum
  exact hsum.trans (Nat.mul_le_mul_right _ hlen)

def Frame.size : Frame → Nat
  | .tcpData _ payload => payload.length
  | .tcpOpen _ | .tcpClose _ => 0

theorem Frame.length_msg {f : Frame} {m : WrMsg} (h : f.msg = some m) :
    m.bytes.length ≤ f.size := by
  cases f with
  | tcpOpen k => cases h
  | tcpClose k =>
      cases h
      exact Nat.zero_le _
  | tcpData k payload =>
      rw [msg] at h
      split at h <;> cases h
      exact Nat.le_refl _

def Reader.size : Reader → Nat
  | .sending chunk => chunk.length
  | .unspawned | .reading | .closing | .done => 0

def Writer.size : Writer → Nat
  | .writing rest => rest.length
  | .unspawned | .recv | .exiting | .shut | .done => 0

namespace Conn

/-- A task of the connection has not ended. -/
def isOpen (c : Conn) : Bool := c.reader.alive || c.writer.alive

/-- The queue goes with the writer that receives from it. -/
def buffered (c : Conn) : Nat :=
  c.reader.size + c.writer.size +
    if c.writer.alive then (c.queue.map fun m => m.bytes.length).sum else 0

/-- Each chunk and each message is one read of a socket. -/
structure Slim (c : Conn) : Prop where
  reads : ∀ chunk ∈ c.reads, chunk.length ≤ readChunk
  puts : ∀ m ∈ c.puts, m.bytes.length ≤ readChunk
  writer : c.writer.size ≤ readChunk
  queue : c.queue.length ≤ connQueue

variable {c c' : Conn} {a : ConnAct}

theorem slim_fresh (k : ConnId) : (fresh k).Slim where
  reads := fun _ h => by cases h
  puts := fun _ h => by cases h
  writer := Nat.zero_le _
  queue := Nat.zero_le _

theorem Slim.spawn (h : c.Slim) : c.spawn.Slim :=
  ⟨h.reads, h.puts, Nat.zero_le _, h.queue⟩

theorem Slim.put (h : c.Slim) {m : WrMsg} (hm : m.bytes.length ≤ readChunk)
    (hroom : c.queue.length < connQueue) : (c.put m).Slim where
  reads := h.reads
  puts := by
    intro m' hm'
    rw [put_puts, List.mem_append, List.mem_singleton] at hm'
    rcases hm' with hm' | rfl
    · exact h.puts m' hm'
    · exact hm
  writer := h.writer
  queue := by
    rw [Conn.put, List.length_append, List.length_singleton]
    exact hroom

theorem put_ne (c : Conn) (m : WrMsg) : c ≠ c.put m := fun heq => by
  have hlen := congrArg (fun v : Conn => v.queue.length) heq
  simp [Conn.put] at hlen

theorem Slim.step (h : c.Slim) (hs : c.step a = some c') : c'.Slim := by
  have hputs : ∀ m ∈ c'.puts, m.bytes.length ≤ readChunk := by
    rw [(step_frame hs).2.2.2.2.1]
    exact h.puts
  cases a with
  | read chunk =>
      simp only [Conn.step] at hs
      split at hs
      · split at hs <;> cases hs
        next hlen =>
          refine ⟨fun b hb => ?_, hputs, h.writer, h.queue⟩
          rw [List.mem_append, List.mem_singleton] at hb
          rcases hb with hb | rfl
          · exact h.reads b hb
          · exact hlen.2
      · cases hs
  | readEnd =>
      simp only [Conn.step] at hs
      split at hs <;> cases hs
      exact ⟨h.reads, hputs, h.writer, h.queue⟩
  | pop =>
      have hqueue := h.queue
      simp only [Conn.step] at hs
      split at hs <;> cases hs
      · next bytes rest hw hq =>
          rw [hq, List.length_cons] at hqueue
          exact ⟨h.reads, hputs, hputs (.data bytes) (by simp [Conn.puts]),
            Nat.le_of_succ_le hqueue⟩
      · next rest hw hq =>
          rw [hq, List.length_cons] at hqueue
          exact ⟨h.reads, hputs, Nat.zero_le _, Nat.le_of_succ_le hqueue⟩
  | write n =>
      simp only [Conn.step] at hs
      split at hs
      · next rest hw =>
          split at hs <;> cases hs
          have hwriter := h.writer
          rw [hw] at hwriter
          refine ⟨h.reads, hputs, ?_, h.queue⟩
          simp only [Writer.size, List.length_drop] at hwriter ⊢
          omega
      · cases hs
  | wrote | writeErr | shutdown =>
      simp only [Conn.step] at hs
      split at hs <;> cases hs
      exact ⟨h.reads, hputs, Nat.zero_le _, h.queue⟩

/-- What the capacities allow one connection: a chunk in each task, a full
queue between. -/
theorem Slim.buffered_le (h : c.Slim) (hr : c.reader.size ≤ readChunk) :
    c.buffered ≤ if c.isOpen then (connQueue + 2) * readChunk else 0 := by
  have hqueue : (c.queue.map fun m => m.bytes.length).sum ≤ connQueue * readChunk :=
    sum_map_le h.queue fun m hm => h.puts m (List.mem_append_right _ hm)
  have hw := h.writer
  have hmul : (connQueue + 2) * readChunk = connQueue * readChunk + 2 * readChunk :=
    Nat.add_mul ..
  by_cases hopen : c.isOpen = true
  · rw [if_pos hopen, buffered, hmul]
    split <;> omega
  · rw [isOpen, Bool.or_eq_true, not_or] at hopen
    have hreader : c.reader.size = 0 := by
      cases hrd : c.reader <;> simp [hrd, Reader.alive, Reader.size] at hopen ⊢
    have hwriter : c.writer.size = 0 := by
      cases hwr : c.writer <;> simp [hwr, Writer.alive, Writer.size] at hopen ⊢
    rw [buffered, hreader, hwriter, if_neg hopen.2]
    exact Nat.zero_le _

end Conn

namespace Endpoint

variable {side : Side} {e e' : Endpoint} {a : Act}

/-- The payload bytes that the session task has. -/
def sessionSize (e : Endpoint) : Nat :=
  match e.loop.pc with
  | .sending f => f.size
  | .handling h => h.frame.size
  | .connecting | .select | .exited => 0

/-- The payload bytes that the process holds in memory. -/
def buffered (e : Endpoint) : Nat :=
  (e.loop.queue.map Frame.size).sum + e.sessionSize + e.total Conn.buffered

/-- The connections with a task that has not ended. -/
def openConns (e : Endpoint) : Finset Nat :=
  (Finset.range e.numConns).filter fun c => (e.conns c).isOpen = true

/-- No queue is over its capacity, and what was put on the websocket was taken
off the queue. -/
structure Slim (e : Endpoint) : Prop where
  conns : ∀ c, (e.conns c).Slim
  queue : e.loop.queue.length ≤ outQueue
  sends : (e.loop.sent ++ e.loop.pending).Sublist e.loop.dequeued

theorem slim_init (side : Side) : (init side).Slim := by
  constructor
  · intro c
    cases side <;> exact Conn.slim_fresh 0
  · cases side <;> exact Nat.zero_le _
  · cases side <;> exact List.Sublist.refl _

/-- Only a slot that is free is taken. -/
theorem Trans.queue_le (h : Trans side e a e') (hq : e.loop.queue.length ≤ outQueue) :
    e'.loop.queue.length ≤ outQueue := by
  have henqueue : ∀ (p : Sender) (f : Frame), e.outRoom p = true →
      (e.enqueue p f).loop.queue.length ≤ outQueue := fun p f hroom => by
    rw [outRoom_eq_true, Line.Served] at hroom
    rw [enqueue_queue, List.length_append, List.length_singleton]
    omega
  cases h with
  | @loop ev l hev hl =>
      cases ev <;> simp only [Loop.event] at hl <;> split at hl <;> cases hl <;>
        first
          | exact hq
          | (next hpc hqueue =>
              rw [hqueue, List.length_cons] at hq
              exact Nat.le_of_succ_le hq)
  | sendOpen hacc hgone hroom => exact henqueue _ _ hroom
  | sendData hr hgone hroom => exact henqueue _ _ hroom
  | sendEnd hr hgone hroom => exact henqueue _ _ hroom
  | sendClose hpc hroom => exact henqueue _ _ hroom
  | _ => exact hq

/-- Only the loop itself takes frames off the queue and sends them. -/
theorem Trans.session_eq (h : Trans side e a e') (hloop : ∀ ev, a ≠ .loop ev) :
    e'.loop.sent = e.loop.sent ∧ e'.loop.dequeued = e.loop.dequeued ∧
      e'.loop.pending = e.loop.pending := by
  have hhandling : ∀ {p}, e.loop.pc = .handling p → e.loop.pending = [] := fun hpc => by
    simp [Loop.pending, hpc]
  cases h with
  | loop hev hl => exact absurd rfl (hloop _)
  | @dispatch f hpc =>
      rw [hhandling hpc]
      refine ⟨rfl, rfl, ?_⟩
      rcases dispatchPc_cases side e.map f with ⟨hd, _⟩ | ⟨hd, _⟩ | ⟨c, m, hd, _⟩ <;>
        simp [Loop.pending, hd]
  | recv hpc =>
      refine ⟨rfl, rfl, ?_⟩
      simp [Loop.pending, hpc]
  | dialOk hpc | dialErr hpc | deliver hpc | deliverGone hpc | shutdownGone hpc
  | removeGone hpc | sendClose hpc =>
      rw [hhandling hpc]
      exact ⟨rfl, rfl, rfl⟩
  | _ => exact ⟨rfl, rfl, rfl⟩

theorem Slim.step (hw : e.Wf side) (hrcvd : ∀ f ∈ e.rcvd, f.size ≤ readChunk) (h : e.Slim)
    (ht : Trans side e a e') : e'.Slim where
  conns := by
    intro c
    have hc := h.conns c
    cases ht.connChange c with
    | same hc' => exact hc' ▸ hc
    | accepted _ _ _ hc' => exact hc' ▸ Conn.slim_fresh _
    | dialled _ _ _ hc' => exact hc' ▸ (Conn.slim_fresh _).spawn
    | registered _ _ hc' => exact hc' ▸ hc.spawn
    | @put f m hpc hc' =>
        obtain ⟨-, -, -, hmsg⟩ := hw.deliver f c m hpc
        obtain ⟨r, hr⟩ := hw.handling _ hpc
        have hsize := hrcvd f (hr ▸ List.mem_append_right r (List.mem_singleton_self f))
        have hm : m.bytes.length ≤ readChunk := (Frame.length_msg hmsg).trans hsize
        cases ht with
        | deliver hpc' hdone hroom =>
            cases hpc.symm.trans hpc'
            rw [hc']
            exact hc.put hm hroom
        | deliverGone | shutdownGone => exact absurd hc' ((e.conns c).put_ne m)
        | wait hsends => cases hsends
    | own hv => exact hc.step hv
    | sent _ _ hc' | dropped _ _ hc' | finished _ hc' =>
        rw [hc']
        exact ⟨hc.reads, hc.puts, hc.writer, hc.queue⟩
    | closed _ _ hc' | removed _ _ hc' =>
        rw [hc']
        exact ⟨hc.reads, hc.puts, Nat.zero_le _, hc.queue⟩
  queue := ht.queue_le h.queue
  sends := by
    have hold := h.sends
    cases a with
    | loop ev =>
        cases ht with
        | loop hev hl =>
            have hevent := Loop.event_sublist hl (by rwa [List.map_id, List.map_id])
            rwa [List.map_id, List.map_id] at hevent
        | wait hsends => cases hsends
    | _ =>
        obtain ⟨hsent, hdequeued, hpending⟩ := ht.session_eq (by simp)
        rw [hsent, hdequeued, hpending]
        exact hold

/-- Every frame that was ever enqueued carries at most one read of a socket. -/
theorem Slim.enq (h : e.Slim) (hs : Sourced e) : ∀ f ∈ e.enq, f.size ≤ readChunk := by
  intro f hf
  cases f with
  | tcpOpen k | tcpClose k => exact Nat.zero_le _
  | tcpData k payload =>
      obtain ⟨c, -, -, hread⟩ := hs.data k payload hf
      exact (h.conns c).reads payload hread

theorem Slim.mem_enq (h : e.Slim) {f : Frame} (hf : f ∈ e.loop.sent ++ e.loop.pending) :
    f ∈ e.enq :=
  List.mem_append_left _ (h.sends.subset hf)

theorem Slim.sessionSize_le (h : e.Slim) (hs : Sourced e) (hw : e.Wf side)
    (hrcvd : ∀ f ∈ e.rcvd, f.size ≤ readChunk) : e.sessionSize ≤ readChunk := by
  rw [sessionSize]
  split
  · next f hpc =>
      have hpend : f ∈ e.loop.pending := by simp [Loop.pending, hpc]
      exact h.enq hs f (h.mem_enq (List.mem_append_right _ hpend))
  · next p hpc =>
      obtain ⟨r, hr⟩ := hw.handling p hpc
      exact hrcvd _ (hr ▸ List.mem_append_right r (List.mem_singleton_self _))
  all_goals exact Nat.zero_le _

theorem Slim.buffered_le (h : e.Slim) (hs : Sourced e) (hw : e.Wf side)
    (hrcvd : ∀ f ∈ e.rcvd, f.size ≤ readChunk) :
    e.buffered ≤ (outQueue + 1) * readChunk +
      e.openConns.card * ((connQueue + 2) * readChunk) := by
  have hqueue : (e.loop.queue.map Frame.size).sum ≤ outQueue * readChunk :=
    sum_map_le h.queue fun f hf => h.enq hs f (List.mem_append_right _ hf)
  have hsession := h.sessionSize_le hs hw hrcvd
  have hconns : e.total Conn.buffered ≤ e.openConns.card * ((connQueue + 2) * readChunk) := by
    calc ∑ c ∈ Finset.range e.numConns, (e.conns c).buffered
        ≤ ∑ c ∈ Finset.range e.numConns,
            if (e.conns c).isOpen then (connQueue + 2) * readChunk else 0 := by
          refine Finset.sum_le_sum fun c _ => (h.conns c).buffered_le ?_
          cases hr : (e.conns c).reader with
          | sending chunk => exact (h.conns c).reads chunk (hs.sending c chunk hr)
          | _ => exact Nat.zero_le _
      _ = e.openConns.card * ((connQueue + 2) * readChunk) := by
          rw [← Finset.sum_filter, Finset.sum_const]
          rfl
  have hmul : (outQueue + 1) * readChunk = outQueue * readChunk + readChunk := Nat.succ_mul ..
  rw [buffered]
  omega

end Endpoint

namespace Tunnel

open Endpoint

variable {C : Tunnel → Side × Act → Prop} {t : Tunnel}

/-- What a side has received was enqueued by its peer. -/
theorem rcvd_size (h : Reaches step C init t) (hslim : ∀ s, (t.ends s).Slim) (s : Side) :
    ∀ f ∈ (t.ends s).rcvd, f.size ≤ readChunk := by
  intro f hf
  have hsent := (rcvd_prefix_sent h s).subset hf
  exact (hslim s.peer).enq (sourced h s.peer) f
    ((hslim s.peer).mem_enq (List.mem_append_left _ hsent))

theorem slim (h : Reaches step C init t) : ∀ s, (t.ends s).Slim := by
  refine h.invariant_of (P := fun _ => True) (I := fun t => ∀ s, (t.ends s).Slim)
    (fun _ _ => trivial) (fun _ => slim_init) ?_ trivial
  rintro t ⟨s, a⟩ t' hreach - hs - hslim
  obtain ⟨e, htr, rfl, -⟩ := trans_of_step hs
  have hwf : (t.ends s).Wf s := ends_invariant wf_init (fun hw h => hw.step h) hreach s
  exact forall_put (I := fun _ e => e.Slim) hslim
    ((hslim s).step hwf (rcvd_size hreach hslim s) htr)

/-- In every run, whatever the sockets and the network do, with a relay that
passes on in order what it is given and nothing else: a plaintext is at most a
header, a conn id and one read long, no queue is over its capacity, and a process
holds no more payload bytes, each counted once, than one read for each slot of
the outbound queue and for the session task, and for each connection that is open
one for each slot of its queue and for its two tasks. -/
theorem memory_bounded (h : Reaches step Free init t) (s : Side) :
    (∀ f ∈ (t.ends s).enq, (packInner 0 f.cmd f.body).length ≤ 3 + 1 + readChunk) ∧
    (t.ends s).loop.queue.length ≤ outQueue ∧
    (∀ c, ((t.ends s).conns c).queue.length ≤ connQueue) ∧
    (t.ends s).buffered ≤ (outQueue + 1) * readChunk +
      (t.ends s).openConns.card * ((connQueue + 2) * readChunk) := by
  have hslim := slim h s
  have hwf : (t.ends s).Wf s := ends_invariant wf_init (fun hw h => hw.step h) h s
  refine ⟨fun f hf => ?_, hslim.queue, fun c => (hslim.conns c).queue,
    hslim.buffered_le (sourced h s) hwf (rcvd_size h (slim h) s)⟩
  have hsize := hslim.enq (sourced h s) f hf
  cases f with
  | tcpOpen k | tcpClose k => simp [packInner, Frame.body]
  | tcpData k payload =>
      simp only [Frame.size] at hsize
      simp only [packInner, Frame.body, List.length_append, List.length_cons, List.length_nil]
      omega

/-- Two connections are accepted; one chunk is on its way to the queue, another
is on it. -/
def twoChunks : List (Side × Act) :=
  [.loop .relayUp, .accept, .sendOpen, .register, .accept, .sendOpen, .register,
    .conn 0 (.read [1, 2, 3]), .conn 1 (.read [4, 5]), .sendData 0].map (Prod.mk .listen)

theorem memory_bounded_twoChunks : ∃ t : Tunnel, (t.ends .listen).buffered = 5 ∧
    (t.ends .listen).openConns.card = 2 ∧ (t.ends .listen).loop.queue.length ≤ outQueue ∧
    5 ≤ (outQueue + 1) * readChunk + 2 * ((connQueue + 2) * readChunk) := by
  have hrun : (run (guarded step Free) init twoChunks).any (fun t =>
      (t.ends .listen).buffered = 5 ∧ (t.ends .listen).openConns.card = 2) = true := by
    decide +kernel
  obtain ⟨t, hreach, ht⟩ := exists_of_run_any hrun
  obtain ⟨hbuffered, hopen⟩ := of_decide_eq_true ht
  obtain ⟨-, hqueue, -, hle⟩ := memory_bounded hreach .listen
  rw [hbuffered, hopen] at hle
  exact ⟨t, hbuffered, hopen, hqueue, hle⟩

end Tunnel

end UsbWs
