import UsbWs.Delivery
import UsbWs.Tunnel

/-!
# The tunnel, byte by byte

`Endpoint` handles frames. The program handles byte strings: `send_peer` packs
a command, encrypts it for the peer, signs it, masks the peer's id in front of
it and queues the result, and `handle_incoming` begins with all of that in
reverse. A `Node` is the process with these strings in its queue and on its
websocket, and `Node.step` is one stretch of one of its tasks; the nonce a task
draws for a frame is part of the action that hands the frame over.

A `Wire` is two nodes and the relay between them. The relay passes on what one
node has sent, behind a header of its own (`pass`), and it may bring anything
else (`inject`): the frames of the server, to begin with. What it brings is
limited by no more than the conditions a theorem puts on the runs it is about.
-/

namespace UsbWs

open Runs Checked

variable {SK VK : Type}

/-! ## The context -/

/-- The keys of `Ctx`, and the key of the other direction that `build_ctx`
returns with it. -/
structure Ctx (C : Crypto SK VK) where
  me : Identity C
  peer : Peer VK
  kC2s : U8Array 32
  kS2c : U8Array 32

variable {C : Crypto SK VK}

/-- `derive` is `derive_session`. -/
def buildCtx (derive : U8Array 32 → U8Array 32 × U8Array 32) (serverXPub : U8Array 32)
    (me : Identity C) (peer : Peer VK) : Ctx C :=
  let shared := C.x25519 me.xPriv serverXPub
  { me, peer, kC2s := (derive shared).1, kS2c := (derive shared).2 }

namespace Ctx

variable (x : Ctx C)

/-- What `send_peer` hands to the outbound queue. -/
def frame (nonce : U8Array 24) (f : Frame) : Checked Bytes :=
  buildPeerFrame C nonce x.me x.peer.xPub x.peer.id x.kC2s (packInner 0 f.cmd f.body)

/-- The command of a byte string from the relay, as `handle_incoming` reads it. -/
def incoming (b : Bytes) : Checked (Option Frame) := incomingFrame C x.me x.peer x.kS2c b

end Ctx

/-! ## A process -/

structure Node where
  loop : Loop Bytes Bytes Handling
  waiting : List Sender
  acceptor : Acceptor
  nextId : ConnId
  conns : Nat → Conn
  numConns : Nat
  map : ConnId → Option Nat
  rcvd : List Bytes

namespace Node

def init (side : Side) : Node :=
  { loop := .init, waiting := [],
    acceptor := match side with | .listen => .accepting | .connect => .gone,
    nextId := 0, conns := fun _ => .fresh 0, numConns := 0, map := fun _ => none, rcvd := [] }

def goto (n : Node) (pc : LoopPc Bytes Handling) : Node := { n with loop := { n.loop with pc } }

/-- `p` is done with its send. -/
def leave (n : Node) (p : Sender) : Node := { n with waiting := n.waiting.erase p }

def wait (n : Node) (p : Sender) : Node := { n with waiting := n.waiting ++ [p] }

def enqueue (n : Node) (p : Sender) (b : Bytes) : Node :=
  { n.leave p with loop := { n.loop with queue := n.loop.queue ++ [b] } }

def setConn (n : Node) (c : Nat) (v : Conn) : Node :=
  { n with conns := Function.update n.conns c v }

def unmap (n : Node) (k : ConnId) : Node := { n with map := Function.update n.map k none }

/-- A socket that was accepted or dialled gets the next connection number. -/
def newConn (n : Node) (k : ConnId) : Node :=
  { n.setConn n.numConns (.fresh k) with numConns := n.numConns + 1 }

/-- Register the socket under its conn id and start its two halves. -/
def spawnConnection (n : Node) (c : Nat) : Node :=
  { n.setConn c (n.conns c).spawn with map := Function.update n.map (n.conns c).id (some c) }

def outGone (n : Node) : Bool :=
  match n.loop.pc with
  | .exited => true
  | _ => false

/-- The outbound queue has a slot for `p`. -/
def outRoom (n : Node) (p : Sender) : Bool :=
  decide (Line.Served outQueue n.loop.queue.length n.waiting p)

/-- A send that finds no slot gets its task in line, once. -/
def lineUp (n : Node) (p : Sender) : Option Node :=
  if p ∈ n.waiting then none else some (n.wait p)

/-- Every sender of the writer queue of `c` has been dropped. -/
def noSender (n : Node) (c : Nat) : Bool :=
  n.map (n.conns c).id ≠ some c &&
    match n.loop.pc with
    | .handling ⟨_, .deliver c' _⟩ => c' ≠ c
    | _ => true

variable (x : Ctx C) (nonce : U8Array 24)

/-- `send_peer`, where the queue has a slot. -/
def sendPeer (n : Node) (p : Sender) (f : Frame) : Option Node :=
  (x.frame nonce f).toOption.map (n.enqueue p)

/-- The websocket brings a byte string. -/
def recv (n : Node) (b : Bytes) : Option Node :=
  match n.loop.pc, x.incoming b with
  | .select, .ok none => some { n with rcvd := n.rcvd ++ [b] }
  | .select, .ok (some f) =>
      some { n.goto (.handling ⟨f, .start⟩) with rcvd := n.rcvd ++ [b] }
  | _, _ => none

/-- One stretch of one task, other than a receive. -/
def step (side : Side) (n : Node) : Act → Option Node
  | .loop ev =>
      if ev = .outClosed then none else (n.loop.event id ev).map fun l => { n with loop := l }
  | .accept =>
      match n.acceptor with
      | .accepting =>
          match allocConnId n.map n.nextId with
          | (some k, next) =>
              some { n.newConn k with nextId := next, acceptor := .opening n.numConns }
          | (none, next) => some { n with nextId := next }
      | _ => none
  | .sendOpen =>
      match n.acceptor with
      | .opening c =>
          if n.outGone then some { n.leave .acceptor with acceptor := .gone }
          else if n.outRoom .acceptor then
            (n.sendPeer x nonce .acceptor (.tcpOpen (n.conns c).id)).map fun n =>
              { n with acceptor := .registering c }
          else n.lineUp .acceptor
      | _ => none
  | .register =>
      match n.acceptor with
      | .registering c => some { n.spawnConnection c with acceptor := .accepting }
      | _ => none
  | .recv _ => none
  | .dispatch =>
      match n.loop.pc with
      | .handling ⟨f, .start⟩ =>
          match Endpoint.dispatchPc side n.map f with
          | .handling p => some (n.goto (.handling p))
          | _ => some (n.goto .select)
      | _ => none
  | .dialOk =>
      match n.loop.pc with
      | .handling ⟨f, .dialing⟩ =>
          some (((n.newConn f.connId).spawnConnection n.numConns).goto .select)
      | _ => none
  | .dialErr =>
      match n.loop.pc with
      | .handling ⟨f, .dialing⟩ => some (n.goto (.handling ⟨f, .sendClose⟩))
      | _ => none
  | .deliver =>
      match n.loop.pc with
      | .handling ⟨f, .deliver c m⟩ =>
          if (n.conns c).writer = .done then
            match m with
            | .data _ => some (n.goto (.handling ⟨f, .writerGone⟩))
            | .shutdown => some (n.goto .select)
          else if (n.conns c).queue.length < connQueue then
            some ((n.setConn c ((n.conns c).put m)).goto .select)
          else none
      | _ => none
  | .removeGone =>
      match n.loop.pc with
      | .handling ⟨f, .writerGone⟩ =>
          some ((n.unmap f.connId).goto (.handling ⟨f, .sendClose⟩))
      | _ => none
  | .sendClose =>
      match n.loop.pc with
      | .handling ⟨f, .sendClose⟩ =>
          if n.outRoom .session then
            (n.sendPeer x nonce .session (.tcpClose f.connId)).map fun n => n.goto .select
          else n.lineUp .session
      | _ => none
  | .conn c a => ((n.conns c).step a).map (n.setConn c)
  | .sendData c =>
      match (n.conns c).reader with
      | .sending chunk =>
          if n.outGone then
            some ((n.leave (.reader c)).setConn c { n.conns c with reader := .closing })
          else if n.outRoom (.reader c) then
            (n.sendPeer x nonce (.reader c) (.tcpData (n.conns c).id chunk)).map fun n =>
              n.setConn c { n.conns c with reader := .reading }
          else n.lineUp (.reader c)
      | _ => none
  | .sendEnd c =>
      match (n.conns c).reader with
      | .closing =>
          if n.outGone then
            some ((n.leave (.reader c)).setConn c { n.conns c with reader := .done })
          else if n.outRoom (.reader c) then
            (n.sendPeer x nonce (.reader c) (.tcpClose (n.conns c).id)).map fun n =>
              n.setConn c { n.conns c with reader := .done }
          else n.lineUp (.reader c)
      | _ => none
  | .chanClosed c =>
      match (n.conns c).writer, (n.conns c).queue with
      | .recv, [] =>
          if n.noSender c then some (n.setConn c { n.conns c with writer := .exiting }) else none
      | _, _ => none
  | .remove c =>
      match (n.conns c).writer with
      | .shut => some ((n.unmap (n.conns c).id).setConn c { n.conns c with writer := .done })
      | _ => none

end Node

/-! ## Two processes and the relay -/

/-- Two identities that have each other's invites, and the server's. Neither id
is the mark of the server. -/
structure Pair (C : Crypto SK VK) where
  me : Side → Identity C
  nick : Side → List Char
  server : Identity C
  derive : U8Array 32 → U8Array 32 × U8Array 32
  unmarked : ∀ s, (me s).id ≠ .zero 8

namespace Pair

variable (P : Pair C)

/-- What a side knows of the other. -/
def peer (s : Side) : Peer VK :=
  { xPub := (P.me s.peer).xPub, edPub := (P.me s.peer).edPub, id := (P.me s.peer).id,
    nick := P.nick s.peer }

def ctx (s : Side) : Ctx C := buildCtx P.derive P.server.xPub (P.me s) (P.peer s)

/-- The keys that the relay derives for a client. -/
def relayKeys (s : Side) : U8Array 32 × U8Array 32 :=
  P.derive (C.x25519 P.server.xPriv (P.me s).xPub)

/-- The relay takes the sender's mask off, finds the receiver, and puts the
sender's id under a mask of the receiver's in front. -/
def relay (s : Side) (frame : Bytes) : Checked (Option Bytes) := do
  let id ← unmask C (P.relayKeys s.peer).1 frame
  if id = (P.me s).id then
    return some (← readdress C (P.relayKeys s).2 (P.me s.peer).id frame)
  else return none

/-- The relay and its client derive the same keys. -/
theorem relayKeys_eq (hC : C.Lawful) (s : Side) :
    P.relayKeys s = ((P.ctx s).kC2s, (P.ctx s).kS2c) := by
  rw [relayKeys, ctx, buildCtx, Identity.agree hC P.server (P.me s)]

end Pair

def identityOf : Side → Identity Crypto.keyed
  | .listen => .fromSeeds .keyed (.fill 32 8) (.zero 32)
  | .connect => .fromSeeds .keyed (.fill 32 16) (.fill 32 1)

theorem id_identityOf (s : Side) : (identityOf s).id ≠ .zero 8 := by
  cases s <;> decide

/-- Home and gate of the tunnel; the relay has a key too. -/
def aliceAndBob : Pair Crypto.keyed where
  me := identityOf
  nick := fun _ => []
  server := .fromSeeds .keyed (.fill 32 24) (.zero 32)
  derive := fun shared => (shared, shared)
  unmarked := id_identityOf

structure Wire where
  nodes : Side → Node
  /-- How many frames of its peer the relay has passed on to a side. -/
  passed : Side → Nat

inductive WireAct where
  | node (s : Side) (a : Act) (nonce : U8Array 24)
  | pass (s : Side)
  | inject (s : Side) (b : Bytes)

namespace Wire

def init : Wire := ⟨.init, fun _ => 0⟩

def put (w : Wire) (s : Side) (n : Node) : Wire := { w with nodes := Function.update w.nodes s n }

def step (P : Pair C) (w : Wire) : WireAct → Option Wire
  | .node s a nonce => ((w.nodes s).step (P.ctx s) nonce s a).map (w.put s)
  | .pass s =>
      match (w.nodes s.peer).loop.sent[w.passed s]? with
      | some frame =>
          match P.relay s frame with
          | .ok (some b) =>
              ((w.nodes s).recv (P.ctx s) b).map fun n =>
                { w.put s n with passed := Function.update w.passed s (w.passed s + 1) }
          | _ => none
      | none => none
  | .inject s b => ((w.nodes s).recv (P.ctx s) b).map (w.put s)

@[simp] theorem put_nodes_self (w : Wire) (s : Side) (n : Node) : (w.put s n).nodes s = n :=
  Function.update_self ..

theorem put_nodes_peer (w : Wire) (s : Side) (n : Node) :
    (w.put s n).nodes s.peer = w.nodes s.peer := Function.update_of_ne s.peer_ne ..

end Wire

end UsbWs
