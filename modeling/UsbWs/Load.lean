import Mathlib.Algebra.Order.BigOperators.Group.Finset
import UsbWs.Lib.Budget
import UsbWs.Tunnel

/-!
# What there is left to do

A byte that a reader has read, a CLOSE that is due, a connection that was
accepted: each makes work for the tasks of both sides and for the relay, and
one frame may answer another. `Tunnel.load` prices what is under way by the
steps it can still cause.

A frame pays one step at a time on its way: `Frame.load` where
`handle_incoming` looks at it, one more while it flies, one more during its
send, one more in the queue. The prices at the receiver come from the back. A
writer costs three steps to end, a message on its queue one more than the
bytes it carries and the receive. A CLOSE then costs its lookup, its delivery
and its receive. A DATA frame or an OPEN may find no taker, and is answered
with a CLOSE; since a CLOSE is answered by nothing, that is where it ends.

A send to the outbound queue may take two steps, one into the line and one out
of it, and is priced at both; who is in line has made the first, so the line
is taken off what the sends cost (`load`).

Every step but those that bring something in lowers the load (`Trans.pays`,
`paid`). So the steps of a run are bounded by what was accepted and read
(`work_le`), whatever fails, and however often an id is used or the websocket
breaks; and when nothing more comes in, there is an end to them.
-/

namespace UsbWs

open Runs

/-! ## Prices -/

def WrMsg.load : WrMsg → Nat
  | .data bytes => bytes.length + 2
  | .shutdown => 1

def Writer.load : Writer → Nat
  | .recv => 3
  | .writing rest => rest.length + 4
  | .exiting => 2
  | .shut => 1
  | .unspawned | .done => 0

def Reader.load : Reader → Nat
  | .sending chunk => chunk.length + 16
  | .closing => 8
  | .unspawned | .reading | .done => 0

def Conn.load (c : Conn) : Nat :=
  c.reader.load + c.writer.load + (c.queue.map WrMsg.load).sum

/-- A frame that `handle_incoming` is about to look at. -/
def Frame.load : Frame → Nat
  | .tcpOpen _ => 10
  | .tcpData _ payload => payload.length + 11
  | .tcpClose _ => 3

def Handling.load (h : Handling) : Nat :=
  match h.point with
  | .start => h.frame.load
  | .dialing | .writerGone => 9
  | .deliver _ (.data bytes) => bytes.length + 10
  | .deliver _ .shutdown => 2
  | .sendClose => 8

def pcLoad : LoopPc Frame Handling → Nat
  | .sending f => f.load + 2
  | .handling h => h.load
  | .connecting | .select | .exited => 0

def Acceptor.load : Acceptor → Nat
  | .opening _ => 19
  | .registering _ => 4
  | .accepting | .gone => 0

/-- Frames on the outbound queue. -/
def queueLoad (fs : List Frame) : Nat := (fs.map fun f => f.load + 3).sum

/-- Frames that fly. -/
def flyingLoad (fs : List Frame) : Nat := (fs.map fun f => f.load + 1).sum

@[simp] theorem queueLoad_nil : queueLoad [] = 0 := rfl

@[simp] theorem queueLoad_cons (f : Frame) (fs : List Frame) :
    queueLoad (f :: fs) = f.load + 3 + queueLoad fs := by simp [queueLoad]

@[simp] theorem queueLoad_append (fs gs : List Frame) :
    queueLoad (fs ++ gs) = queueLoad fs + queueLoad gs := by simp [queueLoad]

@[simp] theorem flyingLoad_nil : flyingLoad [] = 0 := rfl

@[simp] theorem flyingLoad_cons (f : Frame) (fs : List Frame) :
    flyingLoad (f :: fs) = f.load + 1 + flyingLoad fs := by simp [flyingLoad]

@[simp] theorem flyingLoad_append (fs gs : List Frame) :
    flyingLoad (fs ++ gs) = flyingLoad fs + flyingLoad gs := by simp [flyingLoad]

/-! ## What comes in, and what is work -/

/-- What the socket brings in. -/
def ConnAct.cost : ConnAct → Nat
  | .read chunk => chunk.length + 16
  | .readEnd => 8
  | _ => 0

def ConnAct.work : ConnAct → Nat
  | .read _ | .readEnd => 0
  | _ => 1

def Act.cost : Act → Nat
  | .accept => 19
  | .conn _ a => a.cost
  | _ => 0

/-- Steps that bring nothing in; the ups and downs of the websocket and the
user's Ctrl-C are not counted. -/
def Act.work : Act → Nat
  | .accept => 0
  | .conn _ a => a.work
  | .loop .dequeue | .loop .sendOk => 1
  | .loop _ => 0
  | _ => 1

/-- A step of a connection itself pays. -/
theorem Conn.step_pays {c c' : Conn} {a : ConnAct} (h : c.step a = some c') :
    c'.load + a.work ≤ c.load + a.cost := by
  cases a with
  | read chunk =>
      simp only [Conn.step] at h
      split at h
      · next hr =>
          split at h <;> cases h
          simp only [Conn.load, hr, Reader.load, ConnAct.work, ConnAct.cost]
          omega
      · cases h
  | readEnd =>
      simp only [Conn.step] at h
      split at h <;> cases h
      next hr =>
        simp only [Conn.load, hr, Reader.load, ConnAct.work, ConnAct.cost]
        omega
  | pop =>
      simp only [Conn.step] at h
      split at h <;> cases h <;>
      · next hw hq =>
          simp only [Conn.load, hw, hq, Writer.load, WrMsg.load, List.map_cons, List.sum_cons,
            ConnAct.work, ConnAct.cost]
          omega
  | write n =>
      simp only [Conn.step] at h
      split at h
      · next rest hw =>
          split at h <;> cases h
          next hn =>
            simp only [Conn.load, hw, Writer.load, List.length_drop, ConnAct.work, ConnAct.cost]
            omega
      · cases h
  | wrote | writeErr | shutdown =>
      simp only [Conn.step] at h
      split at h <;> cases h
      next hw =>
        simp only [Conn.load, hw, Writer.load, ConnAct.work, ConnAct.cost]
        omega

namespace Endpoint

variable {side : Side} {e e' : Endpoint} {a : Act}

/-! ## The load of an endpoint -/

/-- A measure of all connections together. -/
def total (g : Conn → Nat) (e : Endpoint) : Nat := ∑ c ∈ Finset.range e.numConns, g (e.conns c)

theorem total_setConn (g : Conn → Nat) (e : Endpoint) {c : Nat} (hc : c < e.numConns) (v : Conn) :
    (e.setConn c v).total g + g (e.conns c) = e.total g + g v := by
  have hmem : c ∈ Finset.range e.numConns := Finset.mem_range.2 hc
  have hothers : ∑ d ∈ (Finset.range e.numConns).erase c, g ((e.setConn c v).conns d) =
      ∑ d ∈ (Finset.range e.numConns).erase c, g (e.conns d) := by
    refine Finset.sum_congr rfl fun d hd => ?_
    rw [setConn_conns, if_neg (Finset.ne_of_mem_erase hd)]
  rw [total, total, setConn_numConns, ← Finset.add_sum_erase _ _ hmem, hothers,
    ← Finset.add_sum_erase _ (fun d => g (e.conns d)) hmem, setConn_conns, if_pos rfl]
  omega

theorem total_newConn {g : Conn → Nat} (e : Endpoint) {k : ConnId} (hfresh : g (.fresh k) = 0) :
    (e.newConn k).total g = e.total g := by
  have hold : ∑ c ∈ Finset.range e.numConns, g ((e.newConn k).conns c) =
      ∑ c ∈ Finset.range e.numConns, g (e.conns c) := by
    refine Finset.sum_congr rfl fun c hc => ?_
    rw [newConn_conns, if_neg (Nat.ne_of_lt (Finset.mem_range.1 hc))]
  rw [total, newConn_numConns, Finset.sum_range_succ, hold, newConn_conns, if_pos rfl, hfresh]
  rfl

def connsLoad (e : Endpoint) : Nat := e.total Conn.load

/-- What is under way, as if every task at a send had yet to get in line. -/
def gross (e : Endpoint) : Nat :=
  e.acceptor.load + pcLoad e.loop.pc + queueLoad e.loop.queue + e.connsLoad

def load (e : Endpoint) : Nat := e.gross - e.waiting.length

section Writes

variable (e : Endpoint)

@[simp] theorem gross_setNextId (next : ConnId) : (e.setNextId next).gross = e.gross := rfl
@[simp] theorem gross_receive (f : Frame) : (e.receive f).gross = e.gross := rfl
@[simp] theorem gross_insert (k : ConnId) (c : Nat) : (e.insert k c).gross = e.gross := rfl
@[simp] theorem gross_unmap (k : ConnId) : (e.unmap k).gross = e.gross := rfl
@[simp] theorem gross_leave (p : Sender) : (e.leave p).gross = e.gross := rfl
@[simp] theorem gross_wait (p : Sender) : (e.wait p).gross = e.gross := rfl

theorem gross_goto (pc : LoopPc Frame Handling) :
    (e.goto pc).gross + pcLoad e.loop.pc = e.gross + pcLoad pc := by
  have hgross : (e.goto pc).gross =
      e.acceptor.load + pcLoad pc + queueLoad e.loop.queue + e.connsLoad := rfl
  rw [hgross, gross]
  omega

@[simp] theorem gross_enqueue (p : Sender) (f : Frame) :
    (e.enqueue p f).gross = e.gross + (f.load + 3) := by
  have hgross : (e.enqueue p f).gross =
      e.acceptor.load + pcLoad e.loop.pc + queueLoad (e.loop.queue ++ [f]) + e.connsLoad := rfl
  rw [hgross, gross, queueLoad_append, queueLoad_cons, queueLoad_nil]
  omega

theorem gross_setAcceptor (a : Acceptor) :
    (e.setAcceptor a).gross + e.acceptor.load = e.gross + a.load := by
  have hgross : (e.setAcceptor a).gross =
      a.load + pcLoad e.loop.pc + queueLoad e.loop.queue + e.connsLoad := rfl
  rw [hgross, gross]
  omega

theorem gross_setConn {c : Nat} (hc : c < e.numConns) (v : Conn) :
    (e.setConn c v).gross + (e.conns c).load = e.gross + v.load := by
  have hconns : (e.setConn c v).connsLoad + (e.conns c).load = e.connsLoad + v.load :=
    total_setConn Conn.load e hc v
  have hgross : (e.setConn c v).gross =
      e.acceptor.load + pcLoad e.loop.pc + queueLoad e.loop.queue + (e.setConn c v).connsLoad := rfl
  rw [hgross, gross]
  omega

@[simp] theorem gross_newConn (k : ConnId) : (e.newConn k).gross = e.gross := by
  have hconns : (e.newConn k).connsLoad = e.connsLoad := total_newConn e rfl
  rw [gross, hconns]
  rfl

/-- Starting the two tasks of a connection costs as much as ending its writer. -/
theorem gross_spawnConnection {c : Nat} (hc : c < e.numConns)
    (hr : (e.conns c).reader = .unspawned) (hw : (e.conns c).writer = .unspawned) :
    (e.spawnConnection c).gross = e.gross + 3 := by
  have hspawn : (e.conns c).spawn.load = (e.conns c).load + 3 := by
    simp only [Conn.load, Conn.spawn, hr, hw, Reader.load, Writer.load]
    omega
  have hset : (e.spawnConnection c).gross + (e.conns c).load =
      e.gross + (e.conns c).spawn.load :=
    gross_setConn (e.insert (e.conns c).id c) hc _
  omega

end Writes

/-- The tasks that send to the outbound queue. -/
def senders (e : Endpoint) : Finset Sender :=
  {.acceptor, .session} ∪ (Finset.range e.numConns).image .reader

/-- What a task at a send has under way. -/
def sendLoad (e : Endpoint) : Sender → Nat
  | .acceptor => e.acceptor.load
  | .session => pcLoad e.loop.pc
  | .reader c => (e.conns c).reader.load

theorem sum_sendLoad_le (e : Endpoint) : ∑ p ∈ e.senders, e.sendLoad p ≤ e.gross := by
  have hread : ∑ c ∈ Finset.range e.numConns, (e.conns c).reader.load ≤ e.connsLoad := by
    refine Finset.sum_le_sum fun c _ => ?_
    simp only [Conn.load]
    omega
  have hdisj : Disjoint {Sender.acceptor, .session}
      ((Finset.range e.numConns).image Sender.reader) := by
    simp [Finset.disjoint_left]
  rw [senders, Finset.sum_union hdisj, Finset.sum_pair (by simp),
    Finset.sum_image fun _ _ _ _ h => Sender.reader.inj h, gross]
  simp only [sendLoad]
  omega

theorem Sends.sendLoad_pos {p : Sender} (h : Sends e a p) : 1 ≤ e.sendLoad p := by
  cases h with
  | sendOpen hacc => simp [sendLoad, hacc, Acceptor.load]
  | sendClose hpc => simp [sendLoad, hpc, pcLoad, Handling.load]
  | sendData hr | sendEnd hr => simp [sendLoad, hr, Reader.load]

/-- A connection whose tasks have started is one of those that are summed up. -/
theorem Wf.lt_of_started (hw : e.Wf side) (c : Nat)
    (hstart : (e.conns c).reader ≠ .unspawned ∨ (e.conns c).writer ≠ .unspawned) :
    c < e.numConns := by
  by_contra hge
  obtain ⟨hr, hwr⟩ := hw.beyond c (by omega)
  rcases hstart with hne | hne
  · exact hne hr
  · exact hne hwr

theorem Wf.mem_senders (hw : e.Wf side) {p : Sender} (h : Sends e a p) : p ∈ e.senders := by
  cases h with
  | sendOpen | sendClose => simp [senders]
  | @sendData c _ hr | @sendEnd c hr =>
      simpa [senders] using hw.lt_of_started c (Or.inl (by simp [hr]))

/-- Everybody in line is at a send, and in line once. -/
theorem Wf.waiting_le (hw : e.Wf side) : e.waiting.length ≤ e.gross := by
  have hsends : ∀ p ∈ e.waiting.toFinset, ∃ b, Sends e b p := fun p hp =>
    hw.lined.sends p (List.mem_toFinset.1 hp)
  calc
    e.waiting.length = e.waiting.toFinset.card :=
        (List.toFinset_card_of_nodup hw.lined.nodup).symm
    _ = ∑ _p ∈ e.waiting.toFinset, 1 := Finset.card_eq_sum_ones _
    _ ≤ ∑ p ∈ e.waiting.toFinset, e.sendLoad p :=
        Finset.sum_le_sum fun p hp => (hsends p hp).elim fun _ hb => hb.sendLoad_pos
    _ ≤ ∑ p ∈ e.senders, e.sendLoad p :=
        Finset.sum_le_sum_of_subset fun p hp => (hsends p hp).elim fun _ hb => hw.mem_senders hb
    _ ≤ e.gross := sum_sendLoad_le e

/-- The loop pays for a frame it takes and for a frame it sends. -/
theorem event_pays {l l' : Loop Frame Frame Handling} {ev : LoopEvent}
    (h : l.event id ev = some l') :
    pcLoad l'.pc + queueLoad l'.queue + flyingLoad l'.sent + (Act.loop ev).work ≤
      pcLoad l.pc + queueLoad l.queue + flyingLoad l.sent := by
  cases ev with
  | relayUp | relayDown | ctrlC | outClosed =>
      simp only [Loop.event] at h
      split at h <;> cases h <;> simp_all [pcLoad, Loop.sent, Act.work]
  | wsClosed | sendErr =>
      simp only [Loop.event] at h
      split at h <;> cases h
      next hpc =>
        rw [Loop.sent_disconnect]
        simp [Loop.disconnect, hpc, pcLoad, Act.work]
  | dequeue =>
      simp only [Loop.event] at h
      split at h <;> cases h
      next hpc hq =>
        simp only [hpc, hq, pcLoad, queueLoad_cons, Loop.sent, Act.work]
        omega
  | sendOk =>
      simp only [Loop.event] at h
      split at h <;> cases h
      next hpc =>
        rw [Loop.sent_wire_append]
        simp only [hpc, pcLoad, flyingLoad_append, flyingLoad_cons, flyingLoad_nil, id_eq, Act.work]
        omega

/-- Looking at a frame leaves one step less. -/
theorem dispatch_load (side : Side) (map : ConnId → Option Nat) (f : Frame) :
    pcLoad (dispatchPc side map f) + 1 ≤ f.load := by
  cases f with
  | tcpOpen k =>
      cases side with
      | listen => simp [dispatchPc, pcLoad, Frame.load]
      | connect => simp [dispatchPc, pcLoad, Handling.load, Frame.load]
  | tcpData k payload =>
      simp only [dispatchPc]
      split
      · simp [pcLoad, Frame.load]
      · split <;> simp [pcLoad, Handling.load, Frame.load]
  | tcpClose k =>
      simp only [dispatchPc]
      split <;> simp [pcLoad, Handling.load, Frame.load]

/-- The connection that takes a step of its own has started. -/
theorem Wf.lt_of_step (hw : e.Wf side) {c : Nat} {b : ConnAct} {v : Conn}
    (hv : (e.conns c).step b = some v) : c < e.numConns := by
  refine hw.lt_of_started c ?_
  by_contra hnot
  push Not at hnot
  rw [Conn.step_eq_none hnot.1 hnot.2] at hv
  cases hv

/-- Other than by what the loop sends and receives, an endpoint lives off what it
has under way; who leaves the line has more to go than who is in it. -/
theorem Trans.gross_le (hw : e.Wf side) (h : Trans side e a e') (hloop : ∀ ev, a ≠ .loop ev)
    (hrecv : ∀ f, a ≠ .recv f) :
    e'.gross + a.work + e.waiting.length ≤ e.gross + a.cost + e'.waiting.length := by
  have hleave (p : Sender) : e.waiting.length ≤ (e.waiting.erase p).length + 1 := by
    have hle := List.le_length_erase (a := p) (l := e.waiting)
    omega
  cases h with
  | loop => exact absurd rfl (hloop _)
  | recv => exact absurd rfl (hrecv _)
  | wait hsends hgone hroom hnew =>
      cases hsends <;>
        simp only [gross_wait, wait_waiting, List.length_append, List.length_singleton, Act.work,
          Act.cost] <;>
        omega
  | @accept k next hacc halloc =>
      have hset := gross_setAcceptor ((e.setNextId next).newConn k) (.opening e.numConns)
      simp only [gross_newConn, gross_setNextId, newConn_acceptor, Acceptor.load, Act.work,
        Act.cost, setAcceptor_waiting, newConn_waiting, setNextId_waiting] at hset ⊢
      omega
  | acceptFull hacc halloc =>
      simp only [gross_setNextId, setNextId_waiting, Act.work, Act.cost]
      omega
  | @sendOpen c hacc hgone hroom =>
      have hset := gross_setAcceptor (e.enqueue .acceptor (.tcpOpen (e.conns c).id))
        (.registering c)
      have hline := hleave .acceptor
      simp only [gross_enqueue, enqueue_acceptor, hacc, Acceptor.load, Frame.load, Act.work,
        Act.cost, setAcceptor_waiting, enqueue_waiting] at hset ⊢
      omega
  | sendOpenGone hacc hgone =>
      have hset := gross_setAcceptor (e.leave .acceptor) .gone
      have hline := hleave .acceptor
      simp only [gross_leave, leave_acceptor, hacc, Acceptor.load, Act.work, Act.cost,
        setAcceptor_waiting, leave_waiting] at hset ⊢
      omega
  | @register c hacc =>
      obtain ⟨hc, hun⟩ := hw.opening c (Or.inr hacc)
      have hspawn := gross_spawnConnection e hc ((hw.spawned c).2 hun) hun
      have hset := gross_setAcceptor (e.spawnConnection c) .accepting
      simp only [spawnConnection_acceptor, hacc, Acceptor.load, Act.work, Act.cost,
        setAcceptor_waiting, spawnConnection_waiting] at hset ⊢
      omega
  | @dispatch f hpc =>
      have hdisp := dispatch_load side e.map f
      have hgoto := gross_goto e (dispatchPc side e.map f)
      have hstart : pcLoad e.loop.pc = f.load := by rw [hpc]; rfl
      simp only [Act.work, Act.cost, goto_waiting]
      omega
  | @dialOk f hpc =>
      have hspawn := gross_spawnConnection (e.newConn f.connId) (c := e.numConns) (by simp)
        (by simp) (by simp)
      have hgoto := gross_goto ((e.newConn f.connId).spawnConnection e.numConns) .select
      simp only [spawnConnection_loop, newConn_loop, hpc, gross_newConn, pcLoad, Handling.load,
        Act.work, Act.cost, goto_waiting, spawnConnection_waiting, newConn_waiting]
        at hspawn hgoto ⊢
      omega
  | @dialErr f hpc =>
      have hgoto := gross_goto e (.handling ⟨f, .sendClose⟩)
      simp only [hpc, pcLoad, Handling.load, Act.work, Act.cost, goto_waiting] at hgoto ⊢
      omega
  | @deliver f c m hpc hdone hroom =>
      have hset := gross_setConn e (hw.lt_of_started c (Or.inr (hw.deliver f c m hpc).2.2.1))
        ((e.conns c).put m)
      have hgoto := gross_goto (e.setConn c ((e.conns c).put m)) .select
      have hput : ((e.conns c).put m).load = (e.conns c).load + m.load := by
        simp only [Conn.load, Conn.put, List.map_append, List.sum_append, List.map_singleton,
          List.sum_singleton]
        omega
      cases m <;>
        simp only [setConn_loop, hpc, pcLoad, Handling.load, WrMsg.load, Act.work,
          Act.cost, goto_waiting, setConn_waiting] at hput hgoto ⊢ <;>
        omega
  | @deliverGone f c bytes hpc hdone =>
      have hgoto := gross_goto e (.handling ⟨f, .writerGone⟩)
      simp only [hpc, pcLoad, Handling.load, Act.work, Act.cost, goto_waiting] at hgoto ⊢
      omega
  | shutdownGone hpc hdone =>
      have hgoto := gross_goto e .select
      simp only [hpc, pcLoad, Handling.load, Act.work, Act.cost, goto_waiting] at hgoto ⊢
      omega
  | @removeGone f hpc =>
      have hgoto := gross_goto (e.unmap f.connId) (.handling ⟨f, .sendClose⟩)
      simp only [gross_unmap, unmap_loop, hpc, pcLoad, Handling.load, Act.work, Act.cost,
        goto_waiting, unmap_waiting] at hgoto ⊢
      omega
  | @sendClose f hpc hroom =>
      have hgoto := gross_goto (e.enqueue .session (.tcpClose f.connId)) .select
      have hline := hleave .session
      simp only [gross_enqueue, enqueue_pc, hpc, pcLoad, Handling.load, Frame.load, Act.work,
        Act.cost, goto_waiting, enqueue_waiting] at hgoto ⊢
      omega
  | @conn c b v hv =>
      have hpay := Conn.step_pays hv
      have hset := gross_setConn e (hw.lt_of_step hv) v
      simp only [Act.work, Act.cost, setConn_waiting]
      omega
  | @sendData c chunk hr hgone hroom =>
      have hset := gross_setConn (e.enqueue (.reader c) (.tcpData (e.conns c).id chunk))
        (hw.lt_of_started c (Or.inl (by simp [hr]))) { e.conns c with reader := .reading }
      have hline := hleave (.reader c)
      simp only [gross_enqueue, enqueue_conns, Conn.load, hr, Reader.load, Frame.load, Act.work,
        Act.cost, setConn_waiting, enqueue_waiting] at hset ⊢
      omega
  | @sendDataGone c chunk hr hgone =>
      have hset := gross_setConn (e.leave (.reader c))
        (hw.lt_of_started c (Or.inl (by simp [hr]))) { e.conns c with reader := .closing }
      have hline := hleave (.reader c)
      simp only [gross_leave, leave_conns, Conn.load, hr, Reader.load, Act.work, Act.cost,
        setConn_waiting, leave_waiting] at hset ⊢
      omega
  | @sendEnd c hr hgone hroom =>
      have hset := gross_setConn (e.enqueue (.reader c) (.tcpClose (e.conns c).id))
        (hw.lt_of_started c (Or.inl (by simp [hr]))) { e.conns c with reader := .done }
      have hline := hleave (.reader c)
      simp only [gross_enqueue, enqueue_conns, Conn.load, hr, Reader.load, Frame.load, Act.work,
        Act.cost, setConn_waiting, enqueue_waiting] at hset ⊢
      omega
  | @sendEndGone c hr hgone =>
      have hset := gross_setConn (e.leave (.reader c))
        (hw.lt_of_started c (Or.inl (by simp [hr]))) { e.conns c with reader := .done }
      have hline := hleave (.reader c)
      simp only [gross_leave, leave_conns, Conn.load, hr, Reader.load, Act.work, Act.cost,
        setConn_waiting, leave_waiting] at hset ⊢
      omega
  | @chanClosed c hwr hq hno =>
      have hset := gross_setConn e (hw.lt_of_started c (Or.inr (by simp [hwr])))
        { e.conns c with writer := .exiting }
      simp only [Conn.load, hwr, Writer.load, Act.work, Act.cost, setConn_waiting] at hset ⊢
      omega
  | @remove c hshut =>
      have hset := gross_setConn (e.unmap (e.conns c).id)
        (hw.lt_of_started c (Or.inr (by simp [hshut]))) { e.conns c with writer := .done }
      simp only [gross_unmap, unmap_conns, Conn.load, hshut, Writer.load, Act.work,
        Act.cost, setConn_waiting, unmap_waiting] at hset ⊢
      omega

/-- Only the loop itself puts anything on the websocket. -/
theorem Trans.sent_kept (h : Trans side e a e') (hloop : ∀ ev, a ≠ .loop ev) :
    e'.loop.sent = e.loop.sent := by
  cases h with
  | loop => exact absurd rfl (hloop _)
  | _ => rfl

/-- A step of an endpoint pays, for what it sends and out of what it
receives. -/
theorem Trans.pays (hw : e.Wf side) (h : Trans side e a e') :
    e'.load + flyingLoad e'.loop.sent + a.work + flyingLoad e.rcvd ≤
      e.load + flyingLoad e.loop.sent + a.cost + flyingLoad e'.rcvd := by
  have hline := hw.waiting_le
  have hline' := (hw.step h).waiting_le
  rw [load, load]
  cases a with
  | loop ev =>
      cases h with
      | @loop _ l hev hl =>
          have hpay := event_pays hl
          have hgross : (e.setLoop l).gross =
              e.acceptor.load + pcLoad l.pc + queueLoad l.queue + e.connsLoad := rfl
          have hold : e.gross =
              e.acceptor.load + pcLoad e.loop.pc + queueLoad e.loop.queue + e.connsLoad := rfl
          have hcost : (Act.loop ev).cost = 0 := rfl
          rw [setLoop_waiting] at *
          rw [setLoop_loop, setLoop_rcvd, hcost]
          omega
      | wait hsends => cases hsends
  | recv f =>
      cases h with
      | recv hpc =>
          have hgoto := gross_goto (e.receive f) (.handling ⟨f, .start⟩)
          have hsent : ((e.receive f).goto (.handling ⟨f, .start⟩)).loop.sent = e.loop.sent := rfl
          have hstart : pcLoad (.handling ⟨f, .start⟩) = f.load := rfl
          have hselect : pcLoad e.loop.pc = 0 := by rw [hpc, pcLoad]
          simp only [gross_receive, receive_loop, hsent, goto_rcvd, receive_rcvd, goto_waiting,
            receive_waiting, flyingLoad_append, flyingLoad_cons, flyingLoad_nil, Act.work,
            Act.cost] at hgoto ⊢
          omega
      | wait hsends => cases hsends
  | _ =>
      have hpay := h.gross_le hw (by simp) (by simp)
      have hsent := h.sent_kept (by simp)
      have hrcvd : e'.rcvd = e.rcvd := by
        rcases h.rcvd_eq with heq | ⟨f, hf, _⟩
        · exact heq
        · cases hf
      rw [hsent, hrcvd]
      omega

end Endpoint

namespace Tunnel

open Endpoint

variable {t t' : Tunnel} {s : Side}

/-! ## The load of the tunnel -/

/-- The frames on their way to a side. -/
def flying (t : Tunnel) (s : Side) : List Frame :=
  (t.ends s.peer).loop.sent.drop (t.ends s).rcvd.length

/-- An endpoint and what is on its way to it. -/
def sideLoad (t : Tunnel) (s : Side) : Nat := (t.ends s).load + flyingLoad (t.flying s)

def load (t : Tunnel) : Nat := t.sideLoad .listen + t.sideLoad .connect

theorem load_eq (t : Tunnel) (s : Side) : t.load = t.sideLoad s + t.sideLoad s.peer := by
  cases s with
  | listen => rfl
  | connect => exact Nat.add_comm _ _

/-- What was sent has arrived or flies. -/
theorem flyingLoad_sent (h : Reaches step Free init t) (s : Side) :
    flyingLoad (t.ends s.peer).loop.sent =
      flyingLoad (t.ends s).rcvd + flyingLoad (t.flying s) := by
  rw [flying, ← flyingLoad_append, ← List.prefix_append_drop (rcvd_prefix_sent h s)]

theorem wf_of_reaches {C : Tunnel → Side × Act → Prop} (h : Reaches step C init t) :
    ∀ s, (t.ends s).Wf s :=
  ends_invariant (I := fun s e => e.Wf s) wf_init (fun hi htr => hi.step htr) h

/-- In every run of the tunnel every step pays. -/
theorem paid : Paid step (fun t => Reaches step Free init t) load
    (fun sa : Side × Act => sa.2.cost) (fun sa => sa.2.work) where
  keeps := fun hs hreach => hreach.tail trivial hs
  pays := by
    rintro t ⟨s, a⟩ t' hs hreach
    have hreach' : Reaches step Free init t' := hreach.tail trivial hs
    have hto := flyingLoad_sent hreach s
    have hfrom := flyingLoad_sent hreach s.peer
    have hto' := flyingLoad_sent hreach' s
    have hfrom' := flyingLoad_sent hreach' s.peer
    have hw := wf_of_reaches hreach s
    obtain ⟨e, htr, rfl, _⟩ := trans_of_step hs
    have hpay := htr.pays hw
    rw [load_eq t s, load_eq _ s]
    simp only [sideLoad, Side.peer_peer, put_ends_self, put_ends_peer] at *
    omega

end Tunnel

end UsbWs
