import UsbWs.Lib.Fifo
import UsbWs.Routing

/-!
# Home and gate, joined by the relay

A `Tunnel` is the two endpoints. The relay carries what one side has put on
its websocket to the other side, in order and without loss, so the frame a
side may receive next is the one after those it has received. An action is
one stretch of one task of one side, and a run is any interleaving.

In a run of one relay session no websocket closes and no send fails. Then
every frame a side takes off its outbound queue is sent, and what a side has
received is a prefix of what its peer has enqueued (`rcvd_prefix_enq`): the
five queues between two sockets are one log.
-/

namespace UsbWs

open Runs

def Side.peer : Side → Side
  | .listen => .connect
  | .connect => .listen

@[simp] theorem Side.peer_peer (s : Side) : s.peer.peer = s := by cases s <;> rfl

theorem Side.eq_or_eq_peer (r s : Side) : r = s ∨ r = s.peer := by
  cases r <;> cases s <;> simp [peer]

theorem Side.peer_ne (s : Side) : s.peer ≠ s := by cases s <;> simp [peer]

structure Tunnel where
  ends : Side → Endpoint

namespace Endpoint

variable {side : Side} {e e' : Endpoint} {a : Act}

/-- Only a receive adds to the record of what was received. -/
theorem Trans.rcvd_eq (h : Trans side e a e') :
    e'.rcvd = e.rcvd ∨ ∃ f, a = .recv f ∧ e'.rcvd = e.rcvd ++ [f] := by
  cases h with
  | recv hpc => exact Or.inr ⟨_, rfl, rfl⟩
  | _ => exact Or.inl rfl

/-- What an endpoint has sent stays sent. -/
theorem Trans.prefix_sent (h : Trans side e a e') : e.loop.sent <+: e'.loop.sent := by
  cases h with
  | loop hev hl => exact Loop.prefix_event_sent hl
  | _ => exact List.prefix_rfl

/-- Every frame taken off the outbound queue was sent or is being sent. -/
def Lossless (e : Endpoint) : Prop := e.loop.sent ++ e.loop.pending = e.loop.dequeued

theorem Lossless.step (hl : Lossless e) (h : Trans side e a e') (ha : a ≠ .loop .sendErr) :
    Lossless e' := by
  cases h with
  | @loop ev l hev hl' =>
      have hrec := (Loop.event_record hl').1 (fun heq => ha (by rw [heq]))
      simp only [List.map_id] at hrec
      exact hrec hl
  | recv hpc | dialOk hpc | dialErr hpc | deliver hpc | deliverGone hpc | shutdownGone hpc
  | removeGone hpc | sendClose hpc =>
      have hpend : e.loop.pending = [] := by simp [Loop.pending, hpc]
      rw [Lossless, hpend] at hl
      exact hl
  | @dispatch f hpc =>
      have hpend : e.loop.pending = [] := by simp [Loop.pending, hpc]
      rw [Lossless, hpend] at hl
      have hpend' : (e.goto (dispatchPc side e.map f)).loop.pending = [] := by
        rcases dispatchPc_cases side e.map f with ⟨hd, _⟩ | ⟨hd, _⟩ | ⟨c, m, hd, _⟩ <;>
          simp [Loop.pending, hd]
      rw [Lossless, hpend']
      exact hl
  | _ => exact hl

theorem Lossless.sent_prefix_enq (hl : Lossless e) : e.loop.sent <+: e.enq := by
  rw [enq, Loop.enqueued, ← show _ = _ from hl, List.append_assoc]
  exact List.prefix_append _ _

end Endpoint

namespace Tunnel

open Endpoint

/-- The process that runs `tcp-listen`. -/
def home (t : Tunnel) : Endpoint := t.ends .listen

/-- The process that runs `tcp-connect`. -/
def gate (t : Tunnel) : Endpoint := t.ends .connect

def init : Tunnel := ⟨Endpoint.init⟩

def put (t : Tunnel) (s : Side) (e : Endpoint) : Tunnel := ⟨Function.update t.ends s e⟩

/-- The relay is a lossless FIFO: only the next frame of the peer arrives. -/
def arrives (t : Tunnel) (s : Side) : Act → Bool
  | .recv f => (t.ends s.peer).loop.sent[(t.ends s).rcvd.length]? = some f
  | _ => true

/-- One stretch of one task of one side. -/
def step (t : Tunnel) (sa : Side × Act) : Option Tunnel :=
  if t.arrives sa.1 sa.2 then ((t.ends sa.1).step sa.1 sa.2).map (t.put sa.1) else none

/-- The relay session goes on: no websocket closes, no send fails. -/
def oneSession (_ : Tunnel) (sa : Side × Act) : Bool :=
  match sa.2 with
  | .loop .wsClosed | .loop .sendErr => false
  | _ => true

@[simp] theorem put_ends_self (t : Tunnel) (s : Side) (e : Endpoint) :
    (t.put s e).ends s = e := Function.update_self ..

theorem put_ends_peer (t : Tunnel) (s : Side) (e : Endpoint) :
    (t.put s e).ends s.peer = t.ends s.peer := Function.update_of_ne s.peer_ne ..

theorem put_self (t : Tunnel) (s : Side) : t.put s (t.ends s) = t :=
  congrArg Tunnel.mk (Function.update_eq_self s t.ends)

variable {C : Tunnel → Side × Act → Prop} {t t' : Tunnel} {s : Side} {a : Act}

/-- What holds of both ends and of the one put in holds of both ends. -/
theorem forall_put {I : Side → Endpoint → Prop} {e : Endpoint} (hall : ∀ r, I r (t.ends r))
    (hs : I s e) : ∀ r, I r ((t.put s e).ends r) := by
  intro r
  rcases r.eq_or_eq_peer s with rfl | rfl
  · rw [put_ends_self]
    exact hs
  · rw [put_ends_peer]
    exact hall _

theorem trans_of_step (h : t.step (s, a) = some t') :
    ∃ e, Trans s (t.ends s) a e ∧ t' = t.put s e ∧ t.arrives s a = true := by
  simp only [step] at h
  split at h
  · next harr =>
      obtain ⟨e, he, rfl⟩ := Option.map_eq_some_iff.1 h
      exact ⟨e, Endpoint.trans_of_step he, rfl, harr⟩
  · cases h

/-- What every run of an endpoint keeps holds of both ends. -/
theorem ends_invariant {I : Side → Endpoint → Prop} (h0 : ∀ s, I s (Endpoint.init s))
    (hI : ∀ {s e a e'}, I s e → Trans s e a e' → I s e') (h : Reaches step C init t) :
    ∀ s, I s (t.ends s) := by
  refine h.invariant (I := fun t => ∀ s, I s (t.ends s)) h0 ?_
  rintro t ⟨s, a⟩ t' _ hs hall
  obtain ⟨e, htr, rfl, _⟩ := trans_of_step hs
  exact forall_put hall (hI (hall s) htr)

/-- What a side has received is what its peer has sent, as far as it came. -/
theorem rcvd_prefix_sent (h : Reaches step C init t) :
    ∀ s, (t.ends s).rcvd <+: (t.ends s.peer).loop.sent := by
  refine h.invariant (I := fun t => ∀ s, (t.ends s).rcvd <+: (t.ends s.peer).loop.sent) ?_ ?_
  · intro s
    cases s <;> exact List.nil_prefix
  · rintro t ⟨s, a⟩ t' _ hs hall r
    obtain ⟨e, htr, rfl, harr⟩ := trans_of_step hs
    rcases r.eq_or_eq_peer s with rfl | rfl
    · rw [put_ends_self, put_ends_peer]
      rcases htr.rcvd_eq with heq | ⟨f, rfl, heq⟩
      · exact heq ▸ hall _
      · rw [heq]
        exact Fifo.prefix_snoc (hall r) (by simpa [arrives] using harr)
    · rw [put_ends_peer, Side.peer_peer, put_ends_self]
      have hold := hall s.peer
      rw [Side.peer_peer] at hold
      exact hold.trans htr.prefix_sent

theorem lossless (h : Reaches step (fun t sa => oneSession t sa = true) init t) :
    ∀ s, Lossless (t.ends s) := by
  refine h.invariant (I := fun t => ∀ s, Lossless (t.ends s)) ?_ ?_
  · intro s
    cases s <;> rfl
  · rintro t ⟨s, a⟩ t' hC hs hall
    obtain ⟨e, htr, rfl, _⟩ := trans_of_step hs
    refine forall_put (I := fun _ e => Lossless e) hall ((hall s).step htr ?_)
    rintro rfl
    cases hC

/-- In one relay session a side has received a prefix of what its peer has ever
enqueued. -/
theorem rcvd_prefix_enq (h : Reaches step (fun t sa => oneSession t sa = true) init t) :
    ∀ s, (t.ends s).rcvd <+: (t.ends s.peer).enq :=
  fun s => (rcvd_prefix_sent h s).trans (lossless h s.peer).sent_prefix_enq

end Tunnel

end UsbWs
