import UsbWs.Conn
import UsbWs.Lib.Line
import UsbWs.Loop

/-!
# One process of the TCP tunnel

`tcp-listen` (the home side) and `tcp-connect` (the gate side) run the same
session task over the same shared state; the home side has an acceptor task
besides. An `Endpoint` is that process: the loop that owns the websocket, the
acceptor, every connection ever made with its two tasks, and the conn map
they share. A channel of the source is named by the number of its connection,
so the map takes a conn id to a connection number.

Each action is one stretch of one task between two suspension points, so a
run is an interleaving of the tasks: `Endpoint.step` is the only thing that
fixes what may happen next, and it is executable. `rcvd` records the frames
the websocket brought, as `Loop.dequeued` and `Loop.sent` record those that
left.

The outbound queue is shared by all tasks. A send that finds no slot gets its
task in line (`waiting`), and slots go to those in line in their order: a slot
that the session task has freed belongs to the first of them that has none, and
is free for nobody else even before that task takes it (`outRoom`). The queue of
a writer has one sender only, the session task, so there a slot is a slot.

Two things are one step here that are two in the source and cannot be told
apart by another task: registering a connection together with the spawning of
its two tasks, and the writer's removal of its map entry together with the
end of the task, which drops the receiving end of its queue.
-/

namespace UsbWs

open Runs

/-- `dial_target` is `None` on the home side and `Some` on the gate side. -/
inductive Side where
  | listen
  | connect
  deriving DecidableEq, Repr

/-- Where `handle_incoming` is: about to look at the frame, in the dial of
`open_outbound`, in a send to a connection's writer queue, about to remove the
entry of a writer that is gone, in the send of a CLOSE to the outbound queue. -/
inductive Point where
  | start
  | dialing
  | deliver (c : Nat) (m : WrMsg)
  | writerGone
  | sendClose
  deriving DecidableEq, Repr

/-- `handle_incoming` at work on a frame. -/
structure Handling where
  frame : Frame
  point : Point
  deriving DecidableEq, Repr

/-- The acceptor task: in `accept`, in the `send_peer` of an OPEN, about to
register the connection, ended. -/
inductive Acceptor where
  | accepting
  | opening (c : Nat)
  | registering (c : Nat)
  | gone
  deriving DecidableEq, Repr

/-- The tasks that send to the outbound queue. -/
inductive Sender where
  | acceptor
  | session
  | reader (c : Nat)
  deriving DecidableEq, Repr

structure Endpoint where
  loop : Loop Frame Frame Handling
  /-- Who waits for a slot of the outbound queue, or has not taken it yet. -/
  waiting : List Sender
  acceptor : Acceptor
  nextId : ConnId
  conns : Nat → Conn
  numConns : Nat
  map : ConnId → Option Nat
  rcvd : List Frame

inductive Act where
  | loop (ev : LoopEvent)
  | accept
  | sendOpen
  | register
  | recv (f : Frame)
  | dispatch
  | dialOk
  | dialErr
  | deliver
  | removeGone
  | sendClose
  | conn (c : Nat) (a : ConnAct)
  | sendData (c : Nat)
  | sendEnd (c : Nat)
  | chanClosed (c : Nat)
  | remove (c : Nat)
  deriving DecidableEq, Repr

namespace Endpoint

/-- A process before its first connection; the gate has no acceptor. -/
def init : Side → Endpoint
  | .listen =>
      { loop := .init, waiting := [], acceptor := .accepting, nextId := 0,
        conns := fun _ => .fresh 0, numConns := 0, map := fun _ => none, rcvd := [] }
  | .connect =>
      { loop := .init, waiting := [], acceptor := .gone, nextId := 0,
        conns := fun _ => .fresh 0, numConns := 0, map := fun _ => none, rcvd := [] }

/-! ## The shared state, one write at a time -/

def goto (e : Endpoint) (pc : LoopPc Frame Handling) : Endpoint :=
  { e with loop := { e.loop with pc := pc } }

/-- `p` is done with its send. -/
def leave (e : Endpoint) (p : Sender) : Endpoint := { e with waiting := e.waiting.erase p }

def wait (e : Endpoint) (p : Sender) : Endpoint := { e with waiting := e.waiting ++ [p] }

def enqueue (e : Endpoint) (p : Sender) (f : Frame) : Endpoint :=
  { e.leave p with loop := { e.loop with queue := e.loop.queue ++ [f] } }

def setConn (e : Endpoint) (c : Nat) (v : Conn) : Endpoint :=
  { e with conns := Function.update e.conns c v }

def setLoop (e : Endpoint) (l : Loop Frame Frame Handling) : Endpoint :=
  { e with loop := l }

def setNextId (e : Endpoint) (next : ConnId) : Endpoint := { e with nextId := next }

def receive (e : Endpoint) (f : Frame) : Endpoint := { e with rcvd := e.rcvd ++ [f] }

def setAcceptor (e : Endpoint) (a : Acceptor) : Endpoint := { e with acceptor := a }

def insert (e : Endpoint) (k : ConnId) (c : Nat) : Endpoint :=
  { e with map := Function.update e.map k (some c) }

def unmap (e : Endpoint) (k : ConnId) : Endpoint :=
  { e with map := Function.update e.map k none }

/-- A socket that was accepted or dialled gets the next connection number. -/
def newConn (e : Endpoint) (k : ConnId) : Endpoint :=
  { e.setConn e.numConns (.fresh k) with numConns := e.numConns + 1 }

/-- Register the socket under its conn id and start its two halves. -/
def spawnConnection (e : Endpoint) (c : Nat) : Endpoint :=
  (e.insert (e.conns c).id c).setConn c (e.conns c).spawn

/-- Every frame ever handed to the outbound queue. -/
def enq (e : Endpoint) : List Frame := e.loop.enqueued

/-- The session is gone: the receiving end of the outbound queue is dropped. -/
def outGone (e : Endpoint) : Bool := e.loop.pc = .exited

/-- The outbound queue has a slot for `p`. -/
def outRoom (e : Endpoint) (p : Sender) : Bool :=
  decide (Line.Served outQueue e.loop.queue.length e.waiting p)

/-- A send that finds no slot gets its task in line, once. -/
def lineUp (e : Endpoint) (p : Sender) : Option Endpoint :=
  if p ∈ e.waiting then none else some (e.wait p)

/-- `handle_incoming` holds a clone of the sender of connection `c`. -/
def holds (e : Endpoint) (c : Nat) : Bool :=
  match e.loop.pc with
  | .handling ⟨_, .deliver c' _⟩ => c' = c
  | _ => false

/-- Every sender of the writer queue of `c` has been dropped. -/
def noSender (e : Endpoint) (c : Nat) : Bool :=
  e.map (e.conns c).id ≠ some c && !e.holds c

/-- What `handle_incoming` does on looking at a frame. -/
def dispatchPc (side : Side) (map : ConnId → Option Nat) (f : Frame) :
    LoopPc Frame Handling :=
  match f with
  | .tcpOpen _ =>
      match side with
      | .listen => .select
      | .connect => .handling ⟨f, .dialing⟩
  | .tcpData k payload =>
      if payload = [] then .select
      else
        match map k with
        | some c => .handling ⟨f, .deliver c (.data payload)⟩
        | none => .select
  | .tcpClose k =>
      match map k with
      | some c => .handling ⟨f, .deliver c .shutdown⟩
      | none => .select

/-- One stretch of one task. -/
def step (side : Side) (e : Endpoint) : Act → Option Endpoint
  | .loop ev =>
      -- `ctx` holds a sender, so `out_rx.recv()` never reports a closed channel.
      if ev = .outClosed then none
      else (e.loop.event id ev).map e.setLoop
  | .accept =>
      match e.acceptor with
      | .accepting =>
          match allocConnId e.map e.nextId with
          | (some k, next) =>
              some (((e.setNextId next).newConn k).setAcceptor (.opening e.numConns))
          | (none, next) => some (e.setNextId next)
      | _ => none
  | .sendOpen =>
      match e.acceptor with
      | .opening c =>
          if e.outGone then some ((e.leave .acceptor).setAcceptor .gone)
          else if e.outRoom .acceptor then
            some ((e.enqueue .acceptor (.tcpOpen (e.conns c).id)).setAcceptor (.registering c))
          else e.lineUp .acceptor
      | _ => none
  | .register =>
      match e.acceptor with
      | .registering c => some ((e.spawnConnection c).setAcceptor .accepting)
      | _ => none
  | .recv f =>
      match e.loop.pc with
      | .select => some ((e.receive f).goto (.handling ⟨f, .start⟩))
      | _ => none
  | .dispatch =>
      match e.loop.pc with
      | .handling ⟨f, .start⟩ => some (e.goto (dispatchPc side e.map f))
      | _ => none
  | .dialOk =>
      match e.loop.pc with
      | .handling ⟨f, .dialing⟩ =>
          some (((e.newConn f.connId).spawnConnection e.numConns).goto .select)
      | _ => none
  | .dialErr =>
      match e.loop.pc with
      | .handling ⟨f, .dialing⟩ => some (e.goto (.handling ⟨f, .sendClose⟩))
      | _ => none
  | .deliver =>
      match e.loop.pc with
      | .handling ⟨f, .deliver c m⟩ =>
          if (e.conns c).writer = .done then
            match m with
            | .data _ => some (e.goto (.handling ⟨f, .writerGone⟩))
            | .shutdown => some (e.goto .select)
          else if (e.conns c).queue.length < connQueue then
            some ((e.setConn c ((e.conns c).put m)).goto .select)
          else none
      | _ => none
  | .removeGone =>
      match e.loop.pc with
      | .handling ⟨f, .writerGone⟩ =>
          some ((e.unmap f.connId).goto (.handling ⟨f, .sendClose⟩))
      | _ => none
  | .sendClose =>
      match e.loop.pc with
      | .handling ⟨f, .sendClose⟩ =>
          if e.outRoom .session then
            some ((e.enqueue .session (.tcpClose f.connId)).goto .select)
          else e.lineUp .session
      | _ => none
  | .conn c a => ((e.conns c).step a).map (e.setConn c)
  | .sendData c =>
      match (e.conns c).reader with
      | .sending chunk =>
          if e.outGone then
            some ((e.leave (.reader c)).setConn c { e.conns c with reader := .closing })
          else if e.outRoom (.reader c) then
            some ((e.enqueue (.reader c) (.tcpData (e.conns c).id chunk)).setConn c
              { e.conns c with reader := .reading })
          else e.lineUp (.reader c)
      | _ => none
  | .sendEnd c =>
      match (e.conns c).reader with
      | .closing =>
          if e.outGone then
            some ((e.leave (.reader c)).setConn c { e.conns c with reader := .done })
          else if e.outRoom (.reader c) then
            some ((e.enqueue (.reader c) (.tcpClose (e.conns c).id)).setConn c
              { e.conns c with reader := .done })
          else e.lineUp (.reader c)
      | _ => none
  | .chanClosed c =>
      match (e.conns c).writer, (e.conns c).queue with
      | .recv, [] =>
          if e.noSender c then some (e.setConn c { e.conns c with writer := .exiting })
          else none
      | _, _ => none
  | .remove c =>
      match (e.conns c).writer with
      | .shut =>
          some ((e.unmap (e.conns c).id).setConn c { e.conns c with writer := .done })
      | _ => none

/-! ## What each write leaves alone

One line for each write and each field, so that no proof unfolds a write. -/

section Writes

variable (e : Endpoint)

@[simp] theorem goto_enq (pc : LoopPc Frame Handling) : (e.goto pc).enq = e.enq := rfl
@[simp] theorem goto_conns (pc : LoopPc Frame Handling) (d : Nat) :
    (e.goto pc).conns d = e.conns d := rfl
@[simp] theorem goto_numConns (pc : LoopPc Frame Handling) :
    (e.goto pc).numConns = e.numConns := rfl
@[simp] theorem goto_map (pc : LoopPc Frame Handling) (j : ConnId) :
    (e.goto pc).map j = e.map j := rfl
@[simp] theorem goto_acceptor (pc : LoopPc Frame Handling) :
    (e.goto pc).acceptor = e.acceptor := rfl
@[simp] theorem goto_rcvd (pc : LoopPc Frame Handling) : (e.goto pc).rcvd = e.rcvd := rfl
@[simp] theorem goto_pc (pc : LoopPc Frame Handling) : (e.goto pc).loop.pc = pc := rfl
@[simp] theorem goto_queue (pc : LoopPc Frame Handling) :
    (e.goto pc).loop.queue = e.loop.queue := rfl
@[simp] theorem goto_waiting (pc : LoopPc Frame Handling) : (e.goto pc).waiting = e.waiting := rfl

@[simp] theorem leave_loop (p : Sender) : (e.leave p).loop = e.loop := rfl
@[simp] theorem leave_enq (p : Sender) : (e.leave p).enq = e.enq := rfl
@[simp] theorem leave_conns (p : Sender) (d : Nat) : (e.leave p).conns d = e.conns d := rfl
@[simp] theorem leave_numConns (p : Sender) : (e.leave p).numConns = e.numConns := rfl
@[simp] theorem leave_map (p : Sender) (j : ConnId) : (e.leave p).map j = e.map j := rfl
@[simp] theorem leave_acceptor (p : Sender) : (e.leave p).acceptor = e.acceptor := rfl
@[simp] theorem leave_rcvd (p : Sender) : (e.leave p).rcvd = e.rcvd := rfl
@[simp] theorem leave_waiting (p : Sender) : (e.leave p).waiting = e.waiting.erase p := rfl

@[simp] theorem wait_loop (p : Sender) : (e.wait p).loop = e.loop := rfl
@[simp] theorem wait_enq (p : Sender) : (e.wait p).enq = e.enq := rfl
@[simp] theorem wait_conns (p : Sender) (d : Nat) : (e.wait p).conns d = e.conns d := rfl
@[simp] theorem wait_numConns (p : Sender) : (e.wait p).numConns = e.numConns := rfl
@[simp] theorem wait_map (p : Sender) (j : ConnId) : (e.wait p).map j = e.map j := rfl
@[simp] theorem wait_acceptor (p : Sender) : (e.wait p).acceptor = e.acceptor := rfl
@[simp] theorem wait_rcvd (p : Sender) : (e.wait p).rcvd = e.rcvd := rfl
@[simp] theorem wait_waiting (p : Sender) : (e.wait p).waiting = e.waiting ++ [p] := rfl

@[simp] theorem enqueue_conns (p : Sender) (f : Frame) (d : Nat) :
    (e.enqueue p f).conns d = e.conns d := rfl
@[simp] theorem enqueue_numConns (p : Sender) (f : Frame) :
    (e.enqueue p f).numConns = e.numConns := rfl
@[simp] theorem enqueue_map (p : Sender) (f : Frame) (j : ConnId) :
    (e.enqueue p f).map j = e.map j := rfl
@[simp] theorem enqueue_acceptor (p : Sender) (f : Frame) :
    (e.enqueue p f).acceptor = e.acceptor := rfl
@[simp] theorem enqueue_rcvd (p : Sender) (f : Frame) : (e.enqueue p f).rcvd = e.rcvd := rfl
@[simp] theorem enqueue_pc (p : Sender) (f : Frame) :
    (e.enqueue p f).loop.pc = e.loop.pc := rfl
@[simp] theorem enqueue_enq (p : Sender) (f : Frame) :
    (e.enqueue p f).enq = e.enq ++ [f] := by
  simp [enq, Loop.enqueued, enqueue]
@[simp] theorem enqueue_queue (p : Sender) (f : Frame) :
    (e.enqueue p f).loop.queue = e.loop.queue ++ [f] := rfl
@[simp] theorem enqueue_waiting (p : Sender) (f : Frame) :
    (e.enqueue p f).waiting = e.waiting.erase p := rfl

@[simp] theorem setConn_loop (c : Nat) (v : Conn) : (e.setConn c v).loop = e.loop := rfl
@[simp] theorem setConn_enq (c : Nat) (v : Conn) : (e.setConn c v).enq = e.enq := rfl
@[simp] theorem setConn_numConns (c : Nat) (v : Conn) :
    (e.setConn c v).numConns = e.numConns := rfl
@[simp] theorem setConn_map (c : Nat) (v : Conn) (j : ConnId) :
    (e.setConn c v).map j = e.map j := rfl
@[simp] theorem setConn_acceptor (c : Nat) (v : Conn) :
    (e.setConn c v).acceptor = e.acceptor := rfl
@[simp] theorem setConn_rcvd (c : Nat) (v : Conn) : (e.setConn c v).rcvd = e.rcvd := rfl
@[simp] theorem setConn_waiting (c : Nat) (v : Conn) :
    (e.setConn c v).waiting = e.waiting := rfl
@[simp] theorem setConn_conns (c : Nat) (v : Conn) (d : Nat) :
    (e.setConn c v).conns d = if d = c then v else e.conns d := Function.update_apply ..

@[simp] theorem setLoop_conns (l : Loop Frame Frame Handling) (d : Nat) :
    (e.setLoop l).conns d = e.conns d := rfl
@[simp] theorem setLoop_numConns (l : Loop Frame Frame Handling) :
    (e.setLoop l).numConns = e.numConns := rfl
@[simp] theorem setLoop_map (l : Loop Frame Frame Handling) (j : ConnId) :
    (e.setLoop l).map j = e.map j := rfl
@[simp] theorem setLoop_acceptor (l : Loop Frame Frame Handling) :
    (e.setLoop l).acceptor = e.acceptor := rfl
@[simp] theorem setLoop_rcvd (l : Loop Frame Frame Handling) :
    (e.setLoop l).rcvd = e.rcvd := rfl
@[simp] theorem setLoop_loop (l : Loop Frame Frame Handling) :
    (e.setLoop l).loop = l := rfl
@[simp] theorem setLoop_enq (l : Loop Frame Frame Handling) :
    (e.setLoop l).enq = l.enqueued := rfl
@[simp] theorem setLoop_waiting (l : Loop Frame Frame Handling) :
    (e.setLoop l).waiting = e.waiting := rfl

@[simp] theorem setNextId_loop (next : ConnId) : (e.setNextId next).loop = e.loop := rfl
@[simp] theorem setNextId_enq (next : ConnId) : (e.setNextId next).enq = e.enq := rfl
@[simp] theorem setNextId_conns (next : ConnId) (d : Nat) :
    (e.setNextId next).conns d = e.conns d := rfl
@[simp] theorem setNextId_numConns (next : ConnId) :
    (e.setNextId next).numConns = e.numConns := rfl
@[simp] theorem setNextId_map (next j : ConnId) :
    (e.setNextId next).map j = e.map j := rfl
@[simp] theorem setNextId_acceptor (next : ConnId) :
    (e.setNextId next).acceptor = e.acceptor := rfl
@[simp] theorem setNextId_rcvd (next : ConnId) : (e.setNextId next).rcvd = e.rcvd := rfl
@[simp] theorem setNextId_waiting (next : ConnId) :
    (e.setNextId next).waiting = e.waiting := rfl

@[simp] theorem receive_loop (f : Frame) : (e.receive f).loop = e.loop := rfl
@[simp] theorem receive_enq (f : Frame) : (e.receive f).enq = e.enq := rfl
@[simp] theorem receive_conns (f : Frame) (d : Nat) :
    (e.receive f).conns d = e.conns d := rfl
@[simp] theorem receive_numConns (f : Frame) : (e.receive f).numConns = e.numConns := rfl
@[simp] theorem receive_map (f : Frame) (j : ConnId) :
    (e.receive f).map j = e.map j := rfl
@[simp] theorem receive_acceptor (f : Frame) : (e.receive f).acceptor = e.acceptor := rfl
@[simp] theorem receive_rcvd (f : Frame) : (e.receive f).rcvd = e.rcvd ++ [f] := rfl
@[simp] theorem receive_waiting (f : Frame) : (e.receive f).waiting = e.waiting := rfl

@[simp] theorem setAcceptor_loop (a : Acceptor) : (e.setAcceptor a).loop = e.loop := rfl
@[simp] theorem setAcceptor_enq (a : Acceptor) : (e.setAcceptor a).enq = e.enq := rfl
@[simp] theorem setAcceptor_conns (a : Acceptor) (d : Nat) :
    (e.setAcceptor a).conns d = e.conns d := rfl
@[simp] theorem setAcceptor_numConns (a : Acceptor) :
    (e.setAcceptor a).numConns = e.numConns := rfl
@[simp] theorem setAcceptor_map (a : Acceptor) (j : ConnId) :
    (e.setAcceptor a).map j = e.map j := rfl
@[simp] theorem setAcceptor_rcvd (a : Acceptor) : (e.setAcceptor a).rcvd = e.rcvd := rfl
@[simp] theorem setAcceptor_acceptor (a : Acceptor) :
    (e.setAcceptor a).acceptor = a := rfl
@[simp] theorem setAcceptor_waiting (a : Acceptor) :
    (e.setAcceptor a).waiting = e.waiting := rfl

@[simp] theorem insert_loop (k : ConnId) (c : Nat) : (e.insert k c).loop = e.loop := rfl
@[simp] theorem insert_enq (k : ConnId) (c : Nat) : (e.insert k c).enq = e.enq := rfl
@[simp] theorem insert_conns (k : ConnId) (c d : Nat) :
    (e.insert k c).conns d = e.conns d := rfl
@[simp] theorem insert_numConns (k : ConnId) (c : Nat) :
    (e.insert k c).numConns = e.numConns := rfl
@[simp] theorem insert_acceptor (k : ConnId) (c : Nat) :
    (e.insert k c).acceptor = e.acceptor := rfl
@[simp] theorem insert_rcvd (k : ConnId) (c : Nat) : (e.insert k c).rcvd = e.rcvd := rfl
@[simp] theorem insert_map (k : ConnId) (c : Nat) (j : ConnId) :
    (e.insert k c).map j = if j = k then some c else e.map j := Function.update_apply ..

@[simp] theorem unmap_loop (k : ConnId) : (e.unmap k).loop = e.loop := rfl
@[simp] theorem unmap_enq (k : ConnId) : (e.unmap k).enq = e.enq := rfl
@[simp] theorem unmap_conns (k : ConnId) (d : Nat) :
    (e.unmap k).conns d = e.conns d := rfl
@[simp] theorem unmap_numConns (k : ConnId) : (e.unmap k).numConns = e.numConns := rfl
@[simp] theorem unmap_acceptor (k : ConnId) : (e.unmap k).acceptor = e.acceptor := rfl
@[simp] theorem unmap_rcvd (k : ConnId) : (e.unmap k).rcvd = e.rcvd := rfl
@[simp] theorem unmap_waiting (k : ConnId) : (e.unmap k).waiting = e.waiting := rfl
@[simp] theorem unmap_map (k j : ConnId) :
    (e.unmap k).map j = if j = k then none else e.map j := Function.update_apply ..

@[simp] theorem newConn_loop (k : ConnId) : (e.newConn k).loop = e.loop := rfl
@[simp] theorem newConn_enq (k : ConnId) : (e.newConn k).enq = e.enq := rfl
@[simp] theorem newConn_map (k j : ConnId) : (e.newConn k).map j = e.map j := rfl
@[simp] theorem newConn_acceptor (k : ConnId) :
    (e.newConn k).acceptor = e.acceptor := rfl
@[simp] theorem newConn_rcvd (k : ConnId) : (e.newConn k).rcvd = e.rcvd := rfl
@[simp] theorem newConn_waiting (k : ConnId) : (e.newConn k).waiting = e.waiting := rfl
@[simp] theorem newConn_conns (k : ConnId) (d : Nat) :
    (e.newConn k).conns d = if d = e.numConns then .fresh k else e.conns d :=
  Function.update_apply ..
@[simp] theorem newConn_numConns (k : ConnId) :
    (e.newConn k).numConns = e.numConns + 1 := rfl

@[simp] theorem spawnConnection_loop (c : Nat) :
    (e.spawnConnection c).loop = e.loop := rfl
@[simp] theorem spawnConnection_enq (c : Nat) : (e.spawnConnection c).enq = e.enq := rfl
@[simp] theorem spawnConnection_numConns (c : Nat) :
    (e.spawnConnection c).numConns = e.numConns := rfl
@[simp] theorem spawnConnection_acceptor (c : Nat) :
    (e.spawnConnection c).acceptor = e.acceptor := rfl
@[simp] theorem spawnConnection_rcvd (c : Nat) :
    (e.spawnConnection c).rcvd = e.rcvd := rfl
@[simp] theorem spawnConnection_waiting (c : Nat) :
    (e.spawnConnection c).waiting = e.waiting := rfl
@[simp] theorem spawnConnection_conns (c d : Nat) :
    (e.spawnConnection c).conns d = if d = c then (e.conns c).spawn else e.conns d :=
  Function.update_apply ..
@[simp] theorem spawnConnection_map (c : Nat) (j : ConnId) :
    (e.spawnConnection c).map j = if j = (e.conns c).id then some c else e.map j :=
  Function.update_apply ..

end Writes

theorem outRoom_eq_true {e : Endpoint} {p : Sender} : e.outRoom p = true ↔
    Line.Served outQueue e.loop.queue.length e.waiting p := decide_eq_true_iff

theorem outRoom_eq_false {e : Endpoint} {p : Sender} : e.outRoom p = false ↔
    ¬ Line.Served outQueue e.loop.queue.length e.waiting p := decide_eq_false_iff_not

/-- With nobody in line a slot that is not filled is free. -/
theorem outRoom_of_nil {e : Endpoint} {p : Sender} (hline : e.waiting = [])
    (hlt : e.loop.queue.length < outQueue) : e.outRoom p = true := by
  rw [outRoom_eq_true, hline]
  exact Line.served_nil hlt

/-! ## The steps, inverted

Every invariant is proved by cases on what a step did, so that is said once:
`Trans` has one constructor for each outcome of each action, with the guards
that led there and the state it leaves. -/

/-- The action that is a send of `p` to the outbound queue, where `p` stands. -/
inductive Sends (e : Endpoint) : Act → Sender → Prop where
  | sendOpen {c : Nat} (hacc : e.acceptor = .opening c) : Sends e .sendOpen .acceptor
  | sendClose {f : Frame} (hpc : e.loop.pc = .handling ⟨f, .sendClose⟩) :
      Sends e .sendClose .session
  | sendData {c : Nat} {chunk : Bytes} (hr : (e.conns c).reader = .sending chunk) :
      Sends e (.sendData c) (.reader c)
  | sendEnd {c : Nat} (hr : (e.conns c).reader = .closing) : Sends e (.sendEnd c) (.reader c)

inductive Trans (side : Side) (e : Endpoint) : Act → Endpoint → Prop where
  | loop {ev : LoopEvent} {l : Loop Frame Frame Handling} (hev : ev ≠ .outClosed)
      (hl : e.loop.event id ev = some l) : Trans side e (.loop ev) (e.setLoop l)
  | accept {k next : ConnId} (hacc : e.acceptor = .accepting)
      (halloc : allocConnId e.map e.nextId = (some k, next)) :
      Trans side e .accept
        (((e.setNextId next).newConn k).setAcceptor (.opening e.numConns))
  | acceptFull {next : ConnId} (hacc : e.acceptor = .accepting)
      (halloc : allocConnId e.map e.nextId = (none, next)) :
      Trans side e .accept (e.setNextId next)
  | wait {a : Act} {p : Sender} (hsends : Sends e a p) (hgone : e.outGone = false)
      (hroom : e.outRoom p = false) (hnew : p ∉ e.waiting) : Trans side e a (e.wait p)
  | sendOpen {c : Nat} (hacc : e.acceptor = .opening c) (hgone : e.outGone = false)
      (hroom : e.outRoom .acceptor = true) :
      Trans side e .sendOpen
        ((e.enqueue .acceptor (.tcpOpen (e.conns c).id)).setAcceptor (.registering c))
  | sendOpenGone {c : Nat} (hacc : e.acceptor = .opening c) (hgone : e.outGone = true) :
      Trans side e .sendOpen ((e.leave .acceptor).setAcceptor .gone)
  | register {c : Nat} (hacc : e.acceptor = .registering c) :
      Trans side e .register ((e.spawnConnection c).setAcceptor .accepting)
  | recv {f : Frame} (hpc : e.loop.pc = .select) :
      Trans side e (.recv f) ((e.receive f).goto (.handling ⟨f, .start⟩))
  | dispatch {f : Frame} (hpc : e.loop.pc = .handling ⟨f, .start⟩) :
      Trans side e .dispatch (e.goto (dispatchPc side e.map f))
  | dialOk {f : Frame} (hpc : e.loop.pc = .handling ⟨f, .dialing⟩) :
      Trans side e .dialOk
        (((e.newConn f.connId).spawnConnection e.numConns).goto .select)
  | dialErr {f : Frame} (hpc : e.loop.pc = .handling ⟨f, .dialing⟩) :
      Trans side e .dialErr (e.goto (.handling ⟨f, .sendClose⟩))
  | deliver {f : Frame} {c : Nat} {m : WrMsg}
      (hpc : e.loop.pc = .handling ⟨f, .deliver c m⟩) (hw : (e.conns c).writer ≠ .done)
      (hroom : (e.conns c).queue.length < connQueue) :
      Trans side e .deliver ((e.setConn c ((e.conns c).put m)).goto .select)
  | deliverGone {f : Frame} {c : Nat} {bytes : Bytes}
      (hpc : e.loop.pc = .handling ⟨f, .deliver c (.data bytes)⟩)
      (hw : (e.conns c).writer = .done) :
      Trans side e .deliver (e.goto (.handling ⟨f, .writerGone⟩))
  | shutdownGone {f : Frame} {c : Nat}
      (hpc : e.loop.pc = .handling ⟨f, .deliver c .shutdown⟩)
      (hw : (e.conns c).writer = .done) :
      Trans side e .deliver (e.goto .select)
  | removeGone {f : Frame} (hpc : e.loop.pc = .handling ⟨f, .writerGone⟩) :
      Trans side e .removeGone ((e.unmap f.connId).goto (.handling ⟨f, .sendClose⟩))
  | sendClose {f : Frame} (hpc : e.loop.pc = .handling ⟨f, .sendClose⟩)
      (hroom : e.outRoom .session = true) :
      Trans side e .sendClose ((e.enqueue .session (.tcpClose f.connId)).goto .select)
  | conn {c : Nat} {a : ConnAct} {v : Conn} (hv : (e.conns c).step a = some v) :
      Trans side e (.conn c a) (e.setConn c v)
  | sendData {c : Nat} {chunk : Bytes} (hr : (e.conns c).reader = .sending chunk)
      (hgone : e.outGone = false) (hroom : e.outRoom (.reader c) = true) :
      Trans side e (.sendData c)
        ((e.enqueue (.reader c) (.tcpData (e.conns c).id chunk)).setConn c
          { e.conns c with reader := .reading })
  | sendDataGone {c : Nat} {chunk : Bytes} (hr : (e.conns c).reader = .sending chunk)
      (hgone : e.outGone = true) :
      Trans side e (.sendData c)
        ((e.leave (.reader c)).setConn c { e.conns c with reader := .closing })
  | sendEnd {c : Nat} (hr : (e.conns c).reader = .closing) (hgone : e.outGone = false)
      (hroom : e.outRoom (.reader c) = true) :
      Trans side e (.sendEnd c)
        ((e.enqueue (.reader c) (.tcpClose (e.conns c).id)).setConn c
          { e.conns c with reader := .done })
  | sendEndGone {c : Nat} (hr : (e.conns c).reader = .closing) (hgone : e.outGone = true) :
      Trans side e (.sendEnd c)
        ((e.leave (.reader c)).setConn c { e.conns c with reader := .done })
  | chanClosed {c : Nat} (hw : (e.conns c).writer = .recv) (hq : (e.conns c).queue = [])
      (hno : e.noSender c = true) :
      Trans side e (.chanClosed c) (e.setConn c { e.conns c with writer := .exiting })
  | remove {c : Nat} (hw : (e.conns c).writer = .shut) :
      Trans side e (.remove c)
        ((e.unmap (e.conns c).id).setConn c { e.conns c with writer := .done })

/-- A send that finds no slot. -/
theorem trans_of_lineUp {side : Side} {e e' : Endpoint} {a : Act} {p : Sender}
    (h : e.lineUp p = some e') (hsends : Sends e a p) (hgone : e.outGone = false)
    (hroom : ¬ e.outRoom p = true) : Trans side e a e' := by
  rw [lineUp] at h
  split at h <;> cases h
  next hnew => exact .wait hsends hgone (by simpa using hroom) hnew

theorem trans_of_step {side : Side} {e e' : Endpoint} {a : Act}
    (h : e.step side a = some e') : Trans side e a e' := by
  cases a with
  | loop ev =>
      simp only [step] at h
      split at h
      · cases h
      · next hev =>
          obtain ⟨l, hl, rfl⟩ := Option.map_eq_some_iff.1 h
          exact .loop hev hl
  | accept =>
      simp only [step] at h
      split at h
      · next hacc =>
          split at h <;> cases h
          · next halloc => exact .accept hacc halloc
          · next halloc => exact .acceptFull hacc halloc
      · cases h
  | sendOpen =>
      simp only [step] at h
      split at h
      · next hacc =>
          split at h
          · next hgone => cases h; exact .sendOpenGone hacc hgone
          · next hgone =>
              have hlive : e.outGone = false := by simpa using hgone
              split at h
              · next hroom => cases h; exact .sendOpen hacc hlive hroom
              · next hroom => exact trans_of_lineUp h (.sendOpen hacc) hlive hroom
      · cases h
  | register =>
      simp only [step] at h
      split at h <;> cases h
      next hacc => exact .register hacc
  | recv f =>
      simp only [step] at h
      split at h <;> cases h
      next hpc => exact .recv hpc
  | dispatch =>
      simp only [step] at h
      split at h <;> cases h
      next hpc => exact .dispatch hpc
  | dialOk =>
      simp only [step] at h
      split at h <;> cases h
      next hpc => exact .dialOk hpc
  | dialErr =>
      simp only [step] at h
      split at h <;> cases h
      next hpc => exact .dialErr hpc
  | deliver =>
      simp only [step] at h
      split at h
      · next f c m hpc =>
          split at h
          · next hw =>
              cases m with
              | data bytes => cases h; exact .deliverGone hpc hw
              | shutdown => cases h; exact .shutdownGone hpc hw
          · next hw =>
              split at h <;> cases h
              next hroom => exact .deliver hpc hw hroom
      · cases h
  | removeGone =>
      simp only [step] at h
      split at h <;> cases h
      next hpc => exact .removeGone hpc
  | sendClose =>
      simp only [step] at h
      split at h
      · next hpc =>
          split at h
          · next hroom => cases h; exact .sendClose hpc hroom
          · next hroom =>
              exact trans_of_lineUp h (.sendClose hpc) (by simp [outGone, hpc]) hroom
      · cases h
  | conn c a =>
      simp only [step] at h
      obtain ⟨v, hv, rfl⟩ := Option.map_eq_some_iff.1 h
      exact .conn hv
  | sendData c =>
      simp only [step] at h
      split at h
      · next hr =>
          split at h
          · next hgone => cases h; exact .sendDataGone hr hgone
          · next hgone =>
              have hlive : e.outGone = false := by simpa using hgone
              split at h
              · next hroom => cases h; exact .sendData hr hlive hroom
              · next hroom => exact trans_of_lineUp h (.sendData hr) hlive hroom
      · cases h
  | sendEnd c =>
      simp only [step] at h
      split at h
      · next hr =>
          split at h
          · next hgone => cases h; exact .sendEndGone hr hgone
          · next hgone =>
              have hlive : e.outGone = false := by simpa using hgone
              split at h
              · next hroom => cases h; exact .sendEnd hr hlive hroom
              · next hroom => exact trans_of_lineUp h (.sendEnd hr) hlive hroom
      · cases h
  | chanClosed c =>
      simp only [step] at h
      split at h
      · next hw hq =>
          split at h <;> cases h
          next hno => exact .chanClosed hw hq hno
      · cases h
  | remove c =>
      simp only [step] at h
      split at h <;> cases h
      next hw => exact .remove hw

end Endpoint

end UsbWs
