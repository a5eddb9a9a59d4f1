import Mathlib.Data.List.Forall2
import UsbWs.Lib.Simulation
import UsbWs.Return
import UsbWs.Wire

/-!
# The bytes refine the frames

A node is an endpoint whose queue and websocket hold, for each frame, the byte
string that its `send_peer` built for it (`Ctx.Seals`); everything else of its
state is the endpoint's. Each step of a node is the same step of the endpoint
(`Node.step_endpoint`), and a byte string it receives is a receive of the
command that it decodes to, or a stutter (`Node.recv_endpoint`).

The relay is honest where what it brings, besides what it passes on, is
ignored. Then a wire is a tunnel: what it passes on is decoded to the frame
that was sealed (`incoming_relayed`), so the next string of a side is the next
frame (`refines`).
-/

namespace UsbWs

open Runs Checked

/-! ## Loops over related items -/

section Loops

variable {ι κ η : Type} {S : ι → κ → Prop}

/-- The same point; an item that is being sent is related to one. -/
inductive LoopPc.Rel (S : ι → κ → Prop) : LoopPc ι η → LoopPc κ η → Prop where
  | connecting : Rel S .connecting .connecting
  | select : Rel S .select .select
  | handling (p : η) : Rel S (.handling p) (.handling p)
  | sending {i : ι} {j : κ} (h : S i j) : Rel S (.sending i) (.sending j)
  | exited : Rel S .exited .exited

structure Loop.Rel (S : ι → κ → Prop) (l : Loop ι ι η) (m : Loop κ κ η) : Prop where
  pc : l.pc.Rel S m.pc
  queue : List.Forall₂ S l.queue m.queue
  dequeued : List.Forall₂ S l.dequeued m.dequeued
  past : List.Forall₂ (List.Forall₂ S) l.past m.past
  wire : List.Forall₂ S l.wire m.wire

theorem forall₂_snoc {as : List ι} {bs : List κ} {a : ι} {b : κ} (h : List.Forall₂ S as bs)
    (hab : S a b) : List.Forall₂ S (as ++ [a]) (bs ++ [b]) :=
  List.rel_append h (.cons hab .nil)

theorem exists_getElem? {as : List ι} {bs : List κ} (h : List.Forall₂ S as bs) :
    ∀ {i : Nat} {a : ι}, as[i]? = some a → ∃ b, bs[i]? = some b ∧ S a b := by
  induction h with
  | nil => intro i a ha; cases ha
  | cons hab _ ih =>
      intro i a ha
      cases i with
      | zero => cases ha; exact ⟨_, rfl, hab⟩
      | succ i => exact ih ha

theorem exists_of_mem {as : List ι} {bs : List κ} (h : List.Forall₂ S as bs) {a : ι}
    (ha : a ∈ as) : ∃ b ∈ bs, S a b := by
  obtain ⟨i, hi⟩ := List.mem_iff_getElem?.1 ha
  obtain ⟨b, hb, hab⟩ := exists_getElem? h hi
  exact ⟨b, List.mem_iff_getElem?.2 ⟨i, hb⟩, hab⟩

namespace Loop.Rel

variable {l l' : Loop ι ι η} {m : Loop κ κ η}

theorem init : (Loop.init : Loop ι ι η).Rel S (Loop.init : Loop κ κ η) :=
  ⟨.connecting, .nil, .nil, .nil, .nil⟩

theorem sent (h : l.Rel S m) : List.Forall₂ S l.sent m.sent :=
  List.rel_flatten (forall₂_snoc h.past h.wire)

theorem enqueued (h : l.Rel S m) : List.Forall₂ S l.enqueued m.enqueued :=
  List.rel_append h.dequeued h.queue

theorem pc_select (h : l.Rel S m) (hpc : l.pc = .select) : m.pc = .select := by
  have hrel := h.pc
  rw [hpc] at hrel
  cases hm : m.pc <;> rw [hm] at hrel <;> cases hrel

theorem pc_handling (h : l.Rel S m) {p : η} (hpc : l.pc = .handling p) : m.pc = .handling p := by
  have hrel := h.pc
  rw [hpc] at hrel
  cases hm : m.pc <;> rw [hm] at hrel <;> cases hrel
  rfl

theorem of_disconnect (h : l.Rel S m) : l.disconnect.Rel S m.disconnect :=
  ⟨.connecting, h.queue, h.dequeued, forall₂_snoc h.past h.wire, .nil⟩

/-- The loop does the same with related items. -/
theorem event (h : l.Rel S m) {ev : LoopEvent} (hl : l.event id ev = some l') :
    ∃ m', m.event id ev = some m' ∧ l'.Rel S m' := by
  have hbreak := h.of_disconnect
  obtain ⟨pc, queue, dequeued, past, wire⟩ := l
  obtain ⟨pc', queue', dequeued', past', wire'⟩ := m
  obtain ⟨hpc, hqueue, hdequeued, hpast, hwire⟩ := h
  cases hpc with
  | connecting =>
      cases ev with
      | relayUp => cases hl; exact ⟨_, rfl, .select, hqueue, hdequeued, hpast, hwire⟩
      | relayDown => cases hl; exact ⟨_, rfl, .connecting, hqueue, hdequeued, hpast, hwire⟩
      | ctrlC => cases hl; exact ⟨_, rfl, .exited, hqueue, hdequeued, hpast, hwire⟩
      | _ => cases hl
  | select =>
      cases ev with
      | wsClosed => cases hl; exact ⟨_, rfl, hbreak⟩
      | ctrlC => cases hl; exact ⟨_, rfl, .exited, hqueue, hdequeued, hpast, hwire⟩
      | dequeue =>
          cases hqueue with
          | nil => cases hl
          | cons hitem hrest =>
              cases hl
              exact ⟨_, rfl, .sending hitem, hrest, forall₂_snoc hdequeued hitem, hpast, hwire⟩
      | outClosed =>
          cases hqueue with
          | nil => cases hl; exact ⟨_, rfl, .exited, .nil, hdequeued, hpast, hwire⟩
          | cons => cases hl
      | _ => cases hl
  | handling p => cases ev <;> cases hl
  | sending hitem =>
      cases ev with
      | sendOk =>
          cases hl
          exact ⟨_, rfl, .select, hqueue, hdequeued, hpast, forall₂_snoc hwire hitem⟩
      | sendErr => cases hl; exact ⟨_, rfl, hbreak⟩
      | _ => cases hl
  | exited => cases ev <;> cases hl

end Loop.Rel

end Loops

/-! ## A node and an endpoint -/

variable {SK VK : Type} {C : Crypto SK VK}

/-- The byte string was built for the frame. -/
def Ctx.Seals (x : Ctx C) (b : Bytes) (f : Frame) : Prop := ∃ nonce, x.frame nonce f = .ok b

namespace Node

variable {x : Ctx C} {nonce : U8Array 24} {side : Side} {n n' : Node}
  {l : Loop Frame Frame Handling}

/-- The endpoint with the rest of a node's state. -/
def endpoint (x : Ctx C) (n : Node) (l : Loop Frame Frame Handling) : Endpoint :=
  { loop := l, waiting := n.waiting, acceptor := n.acceptor, nextId := n.nextId,
    conns := n.conns, numConns := n.numConns, map := n.map,
    rcvd := n.rcvd.filterMap (decodedFrame C x.me x.peer x.kS2c) }

/-- No DATA or CLOSE frame is looked at while the acceptor still has to register
the connection with its id. -/
def registeredFirst (n : Node) : Act → Bool
  | .dispatch =>
      match n.loop.pc, n.acceptor with
      | .handling ⟨f, .start⟩, .opening c | .handling ⟨f, .start⟩, .registering c =>
          !((n.conns c).id = f.connId && f.msg.isSome)
      | _, _ => true
  | _ => true

theorem exists_of_sendPeer {p : Sender} {f : Frame} (h : n.sendPeer x nonce p f = some n') :
    ∃ b, x.Seals b f ∧ n' = n.enqueue p b := by
  obtain ⟨b, hb, rfl⟩ := Option.map_eq_some_iff.1 h
  refine ⟨b, ⟨nonce, ?_⟩, rfl⟩
  cases hframe : x.frame nonce f with
  | ok b' => rw [hframe] at hb; cases hb; rfl
  | error e => rw [hframe] at hb; cases hb

section Related

variable (hl : n.loop.Rel x.Seals l)

include hl

theorem outRoom_endpoint (p : Sender) : (n.endpoint x l).outRoom p = n.outRoom p := by
  rw [Endpoint.outRoom, Node.outRoom, hl.queue.length_eq]
  rfl

theorem outGone_endpoint : (n.endpoint x l).outGone = n.outGone := by
  have hpc := hl.pc
  have hgone : (n.endpoint x l).outGone = decide (l.pc = .exited) := rfl
  rw [hgone, Node.outGone]
  generalize n.loop.pc = pc at hpc ⊢
  generalize l.pc = pc' at hpc ⊢
  cases hpc <;> simp

theorem noSender_endpoint (c : Nat) : (n.endpoint x l).noSender c = n.noSender c := by
  have hpc := hl.pc
  have hno : (n.endpoint x l).noSender c =
      (decide (n.map (n.conns c).id ≠ some c) && !(n.endpoint x l).holds c) := rfl
  have hloop : (n.endpoint x l).loop.pc = l.pc := rfl
  rw [hno, Endpoint.holds, hloop, Node.noSender]
  generalize n.loop.pc = pc at hpc ⊢
  generalize l.pc = pc' at hpc ⊢
  cases hpc with
  | handling p =>
      obtain ⟨f, point⟩ := p
      cases point <;> simp
  | _ => simp

theorem registeredFirst_endpoint (a : Act) :
    (n.endpoint x l).registeredFirst a = n.registeredFirst a := by
  have hpc := hl.pc
  cases a with
  | dispatch =>
      simp only [Endpoint.registeredFirst, registeredFirst, endpoint]
      generalize n.loop.pc = pc at hpc ⊢
      generalize l.pc = pc' at hpc ⊢
      cases hpc with
      | handling p =>
          obtain ⟨f, point⟩ := p
          cases point <;> cases n.acceptor <;> rfl
      | _ => rfl
  | _ => rfl

theorem rel_goto {pc : LoopPc Bytes Handling} {pc' : LoopPc Frame Handling}
    (hpc : pc.Rel x.Seals pc') : (n.goto pc).loop.Rel x.Seals { l with pc := pc' } :=
  ⟨hpc, hl.queue, hl.dequeued, hl.past, hl.wire⟩

/-- Who finds no slot gets in line in both. -/
theorem lineUp_endpoint {p : Sender} (h : n.lineUp p = some n') :
    ∃ l', (n.endpoint x l).lineUp p = some (n'.endpoint x l') ∧ n'.loop.Rel x.Seals l' := by
  simp only [lineUp] at h
  split at h <;> cases h
  next hnew => exact ⟨l, if_neg hnew, hl⟩

theorem rel_enqueue (p : Sender) {b : Bytes} {f : Frame} (hb : x.Seals b f) :
    (n.enqueue p b).loop.Rel x.Seals { l with queue := l.queue ++ [f] } :=
  ⟨hl.pc, forall₂_snoc hl.queue hb, hl.dequeued, hl.past, hl.wire⟩

end Related

/-- A step of a node is a step of the endpoint. -/
theorem step_endpoint (hl : n.loop.Rel x.Seals l) {a : Act}
    (h : n.step x nonce side a = some n') :
    ∃ l', (n.endpoint x l).step side a = some (n'.endpoint x l') ∧ n'.loop.Rel x.Seals l' := by
  have hroom := outRoom_endpoint hl
  have hgone := outGone_endpoint hl
  have hacc : (n.endpoint x l).acceptor = n.acceptor := rfl
  have hconn : ∀ c, (n.endpoint x l).conns c = n.conns c := fun _ => rfl
  have hpc : (n.endpoint x l).loop.pc = l.pc := rfl
  cases a with
  | loop ev =>
      simp only [step] at h
      split at h
      · cases h
      · next hev =>
          obtain ⟨m, hm, rfl⟩ := Option.map_eq_some_iff.1 h
          obtain ⟨l', hl', hrel⟩ := hl.event hm
          refine ⟨l', ?_, hrel⟩
          have hloop : (n.endpoint x l).loop = l := rfl
          rw [Endpoint.step, if_neg hev, hloop, hl']
          rfl
  | accept =>
      simp only [step] at h
      split at h
      · next hacc' =>
          split at h <;> cases h
          · next k next halloc =>
              refine ⟨l, ?_, hl⟩
              simp only [Endpoint.step, hacc, hacc']
              rw [show allocConnId (n.endpoint x l).map (n.endpoint x l).nextId = _ from halloc]
              rfl
          · next next halloc =>
              refine ⟨l, ?_, hl⟩
              simp only [Endpoint.step, hacc, hacc']
              rw [show allocConnId (n.endpoint x l).map (n.endpoint x l).nextId = _ from halloc]
              simp [Endpoint.setNextId, endpoint, hacc']
      · cases h
  | sendOpen =>
      simp only [step] at h
      split at h
      · next c hacc' =>
          simp only [Endpoint.step, hacc, hacc', hgone, hroom]
          split at h
          · next hg =>
              cases h
              exact ⟨l, by rw [if_pos hg]; rfl, hl⟩
          · next hg =>
              split at h
              · next hfree =>
                  obtain ⟨n₁, hsend, rfl⟩ := Option.map_eq_some_iff.1 h
                  obtain ⟨b, hb, rfl⟩ := exists_of_sendPeer hsend
                  refine ⟨_, ?_, rel_enqueue hl .acceptor hb⟩
                  rw [if_neg hg, if_pos hfree]
                  rfl
              · next hfull =>
                  rw [if_neg hg, if_neg hfull]
                  exact lineUp_endpoint hl h
      · cases h
  | register =>
      simp only [step] at h
      split at h <;> cases h
      next c hacc' =>
        refine ⟨l, ?_, hl⟩
        simp only [Endpoint.step, hacc, hacc']
        rfl
  | recv f => cases h
  | dispatch =>
      simp only [step] at h
      split at h
      · next f hpc' =>
          have hmap : (n.endpoint x l).map = n.map := rfl
          simp only [Endpoint.step, hpc, hl.pc_handling hpc', hmap]
          rcases Endpoint.dispatchPc_cases side n.map f with ⟨hd, _⟩ | ⟨hd, _⟩ | ⟨_, _, hd, _⟩
          all_goals rw [hd] at h ⊢; cases h
          · exact ⟨{ l with pc := .select }, rfl, rel_goto hl .select⟩
          · exact ⟨{ l with pc := .handling ⟨f, .dialing⟩ }, rfl, rel_goto hl (.handling _)⟩
          · exact ⟨{ l with pc := .handling ⟨f, .deliver _ _⟩ }, rfl, rel_goto hl (.handling _)⟩
      · cases h
  | dialOk =>
      simp only [step] at h
      split at h <;> cases h
      next f hpc' =>
        refine ⟨_, ?_, rel_goto (n := (n.newConn f.connId).spawnConnection n.numConns) hl .select⟩
        simp only [Endpoint.step, hpc, hl.pc_handling hpc']
        rfl
  | dialErr =>
      simp only [step] at h
      split at h <;> cases h
      next f hpc' =>
        refine ⟨_, ?_, rel_goto hl (.handling _)⟩
        simp only [Endpoint.step, hpc, hl.pc_handling hpc']
        rfl
  | deliver =>
      simp only [step] at h
      split at h
      · next f c m hpc' =>
          simp only [Endpoint.step, hpc, hl.pc_handling hpc', hconn]
          split at h
          · next hdone =>
              rw [if_pos hdone]
              cases m with
              | data bytes =>
                  cases h
                  exact ⟨{ l with pc := .handling ⟨f, .writerGone⟩ }, rfl,
                    rel_goto hl (.handling _)⟩
              | shutdown =>
                  cases h
                  exact ⟨{ l with pc := .select }, rfl, rel_goto hl .select⟩
          · next hdone =>
              split at h <;> cases h
              next hfree =>
                rw [if_neg hdone, if_pos hfree]
                exact ⟨{ l with pc := .select }, rfl,
                  rel_goto (n := n.setConn c ((n.conns c).put m)) hl .select⟩
      · cases h
  | removeGone =>
      simp only [step] at h
      split at h <;> cases h
      next f hpc' =>
        refine ⟨_, ?_, rel_goto (n := n.unmap f.connId) hl (.handling _)⟩
        simp only [Endpoint.step, hpc, hl.pc_handling hpc']
        rfl
  | sendClose =>
      simp only [step] at h
      split at h
      · next f hpc' =>
          simp only [Endpoint.step, hpc, hl.pc_handling hpc', hroom]
          split at h
          · next hfree =>
              obtain ⟨n₁, hsend, rfl⟩ := Option.map_eq_some_iff.1 h
              obtain ⟨b, hb, rfl⟩ := exists_of_sendPeer hsend
              refine ⟨_, ?_, rel_goto (rel_enqueue hl .session hb) .select⟩
              rw [if_pos hfree]
              rfl
          · next hfull =>
              rw [if_neg hfull]
              exact lineUp_endpoint hl h
      · cases h
  | conn c b =>
      simp only [step] at h
      obtain ⟨v, hv, rfl⟩ := Option.map_eq_some_iff.1 h
      refine ⟨l, ?_, hl⟩
      simp only [Endpoint.step, hconn, hv, Option.map_some]
      rfl
  | sendData c =>
      simp only [step] at h
      split at h
      · next chunk hr =>
          simp only [Endpoint.step, hconn, hr, hgone, hroom]
          split at h
          · next hg =>
              cases h
              exact ⟨l, by rw [if_pos hg]; rfl, hl⟩
          · next hg =>
              split at h
              · next hfree =>
                  obtain ⟨n₁, hsend, rfl⟩ := Option.map_eq_some_iff.1 h
                  obtain ⟨b, hb, rfl⟩ := exists_of_sendPeer hsend
                  refine ⟨_, ?_, rel_enqueue hl (.reader c) hb⟩
                  rw [if_neg hg, if_pos hfree]
                  rfl
              · next hfull =>
                  rw [if_neg hg, if_neg hfull]
                  exact lineUp_endpoint hl h
      · cases h
  | sendEnd c =>
      simp only [step] at h
      split at h
      · next hr =>
          simp only [Endpoint.step, hconn, hr, hgone, hroom]
          split at h
          · next hg =>
              cases h
              exact ⟨l, by rw [if_pos hg]; rfl, hl⟩
          · next hg =>
              split at h
              · next hfree =>
                  obtain ⟨n₁, hsend, rfl⟩ := Option.map_eq_some_iff.1 h
                  obtain ⟨b, hb, rfl⟩ := exists_of_sendPeer hsend
                  refine ⟨_, ?_, rel_enqueue hl (.reader c) hb⟩
                  rw [if_neg hg, if_pos hfree]
                  rfl
              · next hfull =>
                  rw [if_neg hg, if_neg hfull]
                  exact lineUp_endpoint hl h
      · cases h
  | chanClosed c =>
      simp only [step] at h
      split at h
      · next hw hq =>
          split at h <;> cases h
          next hno =>
            refine ⟨l, ?_, hl⟩
            simp only [Endpoint.step, hconn, hw, hq, noSender_endpoint hl, if_pos hno]
            rfl
      · cases h
  | remove c =>
      simp only [step] at h
      split at h <;> cases h
      next hw =>
        refine ⟨l, ?_, hl⟩
        simp only [Endpoint.step, hconn, hw]
        rfl

/-- A byte string is ignored, or received as the command it decodes to. -/
theorem recv_endpoint (side : Side) (hl : n.loop.Rel x.Seals l) {b : Bytes}
    (h : n.recv x b = some n') :
    (decodedFrame C x.me x.peer x.kS2c b = none ∧ n'.endpoint x l = n.endpoint x l ∧
        n'.loop.Rel x.Seals l) ∨
      ∃ f l', decodedFrame C x.me x.peer x.kS2c b = some f ∧
        (n.endpoint x l).step side (.recv f) = some (n'.endpoint x l') ∧
        n'.loop.Rel x.Seals l' := by
  have hdecode : x.incoming b = .ok (decodedFrame C x.me x.peer x.kS2c b) := incomingFrame_ok b
  have hpc : (n.endpoint x l).loop.pc = l.pc := rfl
  simp only [recv, hdecode] at h
  split at h
  · next hpc' hnone =>
      cases h
      have hignored : decodedFrame C x.me x.peer x.kS2c b = none := by simpa using hnone
      refine Or.inl ⟨hignored, ?_, hl⟩
      simp [endpoint, hignored]
  · next f hpc' hsome =>
      cases h
      have hframe : decodedFrame C x.me x.peer x.kS2c b = some f := by simpa using hsome
      refine Or.inr ⟨f, { l with pc := .handling ⟨f, .start⟩ }, hframe, ?_,
        rel_goto hl (.handling _)⟩
      simp only [Endpoint.step, hpc, hl.pc_select hpc']
      simp [endpoint, Endpoint.receive, Endpoint.goto, goto, hframe]
  · cases h

end Node

/-! ## What the relay passes on -/

section Relay

variable (hC : C.Lawful) (P : Pair C) (s : Side)

include hC

/-- What one side builds for a frame. -/
theorem Pair.exists_of_seals {b : Bytes} {f : Frame} (hb : (P.ctx s.peer).Seals b f) :
    ∃ nonce, b = (sealedFrame hC nonce (P.me s.peer) (P.me s).xPub (P.ctx s.peer).peer.id
      (P.ctx s.peer).kC2s (packInner 0 f.cmd f.body)).bytes := by
  obtain ⟨nonce, hb⟩ := hb
  have hpeer : (P.ctx s.peer).peer.xPub = (P.me s).xPub := by simp [ctx, buildCtx, peer]
  rw [Ctx.frame, buildPeerFrame, buildFrame_eq hC, hpeer, Except.ok.injEq] at hb
  exact ⟨nonce, hb.symm⟩

/-- A string that one side has built for a frame is decoded by the other to
that frame. -/
theorem Pair.incoming_relayed {b b' : Bytes} {f : Frame} (hb : (P.ctx s.peer).Seals b f)
    (hrelay : P.relay s b = .ok (some b')) :
    decodedFrame C (P.ctx s).me (P.ctx s).peer (P.ctx s).kS2c b' = some f := by
  obtain ⟨nonce, rfl⟩ := P.exists_of_seals hC s hb
  rw [relay, unmask_bytes, ok_bind] at hrelay
  split at hrelay
  · rw [readdress_bytes, ok_bind] at hrelay
    cases hrelay
    have hkey : (P.relayKeys s).2 = (P.ctx s).kS2c := by rw [P.relayKeys_eq hC s]
    rw [decodedFrame_bytes, hkey]
    have hopened := opened_sealedFrame hC nonce (P.ctx s.peer).peer.id (P.ctx s.peer).kC2s
      (packInner 0 f.cmd f.body) (P.me s.peer) (P.me s)
    rw [if_neg (by simpa [RelayFrame.withHeader] using P.unmarked s.peer)]
    have hinner : ∀ header, ((sealedFrame hC nonce (P.me s.peer) (P.me s).xPub
        (P.ctx s.peer).peer.id (P.ctx s.peer).kC2s (packInner 0 f.cmd f.body)).withHeader
          header).opened C (P.ctx s).me.xPriv (P.ctx s).peer.xPub (P.ctx s).peer.edPub =
        some (packInner 0 f.cmd f.body) := fun header => hopened
    rw [hinner, Option.bind_some, Frame.ofInner_packInner]
  · cases hrelay

end Relay

/-! ## A wire is a tunnel -/

namespace Wire

variable {P : Pair C} {w w' : Wire} {t : Tunnel}

/-- The process that runs `tcp-listen`. -/
def home (w : Wire) : Node := w.nodes .listen

/-- The process that runs `tcp-connect`. -/
def gate (w : Wire) : Node := w.nodes .connect

/-- The tunnel whose frames are those in the strings of a wire. -/
structure Opens (P : Pair C) (w : Wire) (t : Tunnel) : Prop where
  loop : ∀ s, (w.nodes s).loop.Rel (P.ctx s).Seals (t.ends s).loop
  rest : ∀ s, t.ends s = (w.nodes s).endpoint (P.ctx s) (t.ends s).loop
  passed : ∀ s, w.passed s = (t.ends s).rcvd.length

theorem Opens.conns (ho : Opens P w t) (s : Side) : (t.ends s).conns = (w.nodes s).conns ∧
    (t.ends s).numConns = (w.nodes s).numConns := by
  rw [ho.rest s]
  exact ⟨rfl, rfl⟩

theorem Opens.home (ho : Opens P w t) :
    t.home.conns = w.home.conns ∧ t.home.numConns = w.home.numConns := ho.conns .listen

theorem Opens.gate (ho : Opens P w t) :
    t.gate.conns = w.gate.conns ∧ t.gate.numConns = w.gate.numConns := ho.conns .connect

theorem opens_init (P : Pair C) : Opens P init Tunnel.init where
  loop := fun s => by cases s <;> exact .init
  rest := fun s => by cases s <;> rfl
  passed := fun s => by cases s <;> rfl

/-- Besides what it passes on, the relay brings what is ignored. -/
def honest (P : Pair C) (_ : Wire) : WireAct → Prop
  | .inject s b => Ignored C (P.ctx s).me (P.ctx s).peer (P.ctx s).kS2c b
  | _ => True

instance (w : Wire) (a : WireAct) : Decidable (honest P w a) :=
  match a with
  | .inject s b => inferInstanceAs (Decidable (Ignored C (P.ctx s).me (P.ctx s).peer _ b))
  | .node .. | .pass _ => inferInstanceAs (Decidable True)

/-- One side of the tunnel moves as a node does. -/
theorem Opens.put (ho : Opens P w t) {s : Side} {n : Node} {l : Loop Frame Frame Handling}
    (hl : n.loop.Rel (P.ctx s).Seals l) {passed : Side → Nat}
    (hs : passed s = (n.endpoint (P.ctx s) l).rcvd.length)
    (hpeer : passed s.peer = w.passed s.peer) :
    Opens P ⟨(w.put s n).nodes, passed⟩ (t.put s (n.endpoint (P.ctx s) l)) := by
  have hboth : ∀ r, ((w.put s n).nodes r).loop.Rel (P.ctx r).Seals
        ((t.put s (n.endpoint (P.ctx s) l)).ends r).loop ∧
      (t.put s (n.endpoint (P.ctx s) l)).ends r = ((w.put s n).nodes r).endpoint (P.ctx r)
        ((t.put s (n.endpoint (P.ctx s) l)).ends r).loop ∧
      passed r = ((t.put s (n.endpoint (P.ctx s) l)).ends r).rcvd.length := by
    intro r
    rcases r.eq_or_eq_peer s with rfl | rfl
    · rw [put_nodes_self, Tunnel.put_ends_self]
      exact ⟨hl, rfl, hs⟩
    · rw [put_nodes_peer, Tunnel.put_ends_peer]
      exact ⟨ho.loop _, ho.rest _, hpeer.trans (ho.passed _)⟩
  exact ⟨fun r => (hboth r).1, fun r => (hboth r).2.1, fun r => (hboth r).2.2⟩

theorem rcvd_of_recv {side : Side} {e e' : Endpoint} {f : Frame}
    (h : e.step side (.recv f) = some e') : e'.rcvd = e.rcvd ++ [f] := by
  cases Endpoint.trans_of_step h with
  | recv hpc => rfl
  | wait hsends => cases hsends

/-- Each step of the wire is one of the tunnel, or a stutter. -/
theorem simulation (hC : C.Lawful) (P : Pair C) {W : Wire → WireAct → Prop}
    {D : Tunnel → Side × Act → Prop} (hW : ∀ {w a}, W w a → honest P w a)
    (hnode : ∀ {w t s a nonce}, Opens P w t → W w (.node s a nonce) → D t (s, a))
    (hrecv : ∀ {t s f}, D t (s, .recv f)) :
    Simulation (step P) W Tunnel.step D (Opens P) := by
  intro w a w' t hC' hs ho
  cases a with
  | node s a nonce =>
      obtain ⟨n, hn, rfl⟩ := Option.map_eq_some_iff.1 hs
      obtain ⟨l', hstep, hl'⟩ := Node.step_endpoint (ho.loop s) hn
      rw [← ho.rest s] at hstep
      have htrans := Endpoint.trans_of_step hstep
      have harr : t.arrives s a = true := by
        cases a with
        | recv f => cases hn
        | _ => rfl
      have hrcvd : (n.endpoint (P.ctx s) l').rcvd = (t.ends s).rcvd := by
        rcases htrans.rcvd_eq with heq | ⟨f, rfl, _⟩
        · exact heq
        · cases hn
      refine ⟨t.put s (n.endpoint (P.ctx s) l'), .single (hnode ho hC') ?_,
        ho.put hl' (by rw [hrcvd]; exact ho.passed s) rfl⟩
      rw [Tunnel.step, if_pos harr, hstep]
      rfl
  | pass s =>
      simp only [step] at hs
      split at hs
      · next frame hsent =>
          split at hs
          · next b hrelay =>
              obtain ⟨n, hn, rfl⟩ := Option.map_eq_some_iff.1 hs
              -- the string was built for the next frame of the peer
              obtain ⟨f, hnext, hseal⟩ := exists_getElem? (ho.loop s.peer).sent hsent
              have hdecode := P.incoming_relayed hC s hseal hrelay
              rcases Node.recv_endpoint s (ho.loop s) hn with
                ⟨hnone, _⟩ | ⟨g, l', hg, hstep, hl'⟩
              · cases hdecode.symm.trans hnone
              · obtain rfl : f = g := by
                  rw [hdecode] at hg
                  cases hg
                  rfl
                rw [← ho.rest s] at hstep
                have harr : t.arrives s (.recv f) = true := by
                  rw [ho.passed s] at hnext
                  exact decide_eq_true hnext
                have hrcvd := rcvd_of_recv hstep
                refine ⟨t.put s (n.endpoint (P.ctx s) l'),
                  .single (a := (s, .recv f)) hrecv ?_, ho.put hl' ?_ ?_⟩
                · rw [Tunnel.step, if_pos harr, hstep]
                  rfl
                · rw [hrcvd, Function.update_self, List.length_append, ho.passed s]
                  rfl
                · exact Function.update_of_ne s.peer_ne ..
          · cases hs
      · cases hs
  | inject s b =>
      obtain ⟨n, hn, rfl⟩ := Option.map_eq_some_iff.1 hs
      have hignored := decodedFrame_eq_none_iff.2 (hW hC')
      rcases Node.recv_endpoint s (ho.loop s) hn with ⟨_, hsame, hl⟩ | ⟨f, _, hf, _⟩
      · have hput : Opens P (w.put s n) (t.put s (n.endpoint (P.ctx s) (t.ends s).loop)) :=
          ho.put hl (by rw [hsame, ← ho.rest s]; exact ho.passed s) rfl
        rw [hsame, ← ho.rest s, Tunnel.put_self] at hput
        exact ⟨t, .refl t, hput⟩
      · cases hignored.symm.trans hf

/-- Every run of a wire with an honest relay is a run of the tunnel: whatever
the keys and the nonces, and with reconnects and failed sends. -/
theorem refines (hC : C.Lawful) (P : Pair C) {w : Wire}
    (h : Reaches (step P) (honest P) init w) :
    ∃ t, Reaches Tunnel.step Free Tunnel.init t ∧ Opens P w t :=
  (simulation hC P (D := Free) id (fun _ _ => trivial) trivial).reaches h (opens_init P)

/-- The tunnel's run, with a nonce for each frame, and a string of the relay's
own in between. -/
def oneByteRun : List WireAct :=
  [.node .listen (.loop .relayUp) (.zero 24), .node .connect (.loop .relayUp) (.zero 24),
    .inject .connect [], .node .listen .accept (.zero 24), .node .listen .sendOpen (.zero 24),
    .node .listen .register (.zero 24), .node .listen (.conn 0 (.read [7])) (.zero 24),
    .node .listen (.sendData 0) (.zero 24), .node .listen (.loop .dequeue) (.zero 24),
    .node .listen (.loop .sendOk) (.zero 24), .node .listen (.loop .dequeue) (.zero 24),
    .node .listen (.loop .sendOk) (.zero 24), .pass .connect, .node .connect .dispatch (.zero 24),
    .node .connect .dialOk (.zero 24), .pass .connect, .node .connect .dispatch (.zero 24),
    .node .connect .deliver (.zero 24), .node .connect (.conn 0 .pop) (.zero 24),
    .node .connect (.conn 0 (.write 1)) (.zero 24)]

theorem refines_one_byte :
    ∃ w t, (w.gate.conns 0).written = [7] ∧ Reaches Tunnel.step Free Tunnel.init t ∧
      Opens aliceAndBob w t := by
  have hrun : (run (guarded (step aliceAndBob) (honest aliceAndBob)) init oneByteRun).any
      (fun w => (w.gate.conns 0).written = [7]) = true := by
    decide +kernel
  obtain ⟨w, h, hp⟩ := exists_of_run_any hrun
  obtain ⟨t, ht, ho⟩ := refines Crypto.keyed_lawful aliceAndBob h
  exact ⟨w, t, of_decide_eq_true hp, ht, ho⟩

/-! ## From socket to socket -/

/-- No websocket closes, no send fails. -/
def upheld : WireAct → Bool
  | .node _ (.loop .wsClosed) _ | .node _ (.loop .sendErr) _ => false
  | _ => true

/-- The relay session goes on, with an honest relay. -/
def oneSession (P : Pair C) (w : Wire) (a : WireAct) : Prop := honest P w a ∧ upheld a = true

/-- And home looks no frame up before its connection is registered. -/
def answersRegistered (P : Pair C) (w : Wire) (a : WireAct) : Prop :=
  oneSession P w a ∧
    match a with
    | .node .listen b _ => w.home.registeredFirst b = true
    | _ => True

/-- Conn id `k` is given to one connection at most. -/
def UsedOnce (k : ConnId) (n : Node) : Prop :=
  ∀ c d, c < n.numConns → d < n.numConns → (n.conns c).id = k → (n.conns d).id = k → c = d

/-- No write of a connection with id `k` has failed on either side. -/
def NoWriteFailed (k : ConnId) (w : Wire) : Prop :=
  ∀ s c, c < (w.nodes s).numConns → ((w.nodes s).conns c).id = k →
    ((w.nodes s).conns c).writeFailed = false

theorem tunnel_oneSession {a : Act} {s : Side} {nonce : U8Array 24}
    (h : oneSession P w (.node s a nonce)) : Tunnel.oneSession t (s, a) = true := by
  have hup := h.2
  cases a with
  | loop ev => cases ev <;> first | rfl | cases hup
  | _ => rfl

theorem tunnel_answersRegistered (ho : Opens P w t) {a : Act} {s : Side} {nonce : U8Array 24}
    (h : answersRegistered P w (.node s a nonce)) :
    Tunnel.answersRegistered t (s, a) = true := by
  rw [Tunnel.answersRegistered, tunnel_oneSession h.1, Bool.true_and]
  cases s with
  | connect => rfl
  | listen =>
      have hhome : t.home = w.home.endpoint (P.ctx .listen) t.home.loop := ho.rest .listen
      have hloop : w.home.loop.Rel (P.ctx .listen).Seals t.home.loop := ho.loop .listen
      rw [hhome, Node.registeredFirst_endpoint hloop, Bool.or_eq_true]
      exact Or.inr h.2

/-- From socket to socket, with all that is built, sealed, masked, passed on,
verified and opened in between: in one relay session with an honest relay, for
an accepted connection whose id is used once, what was written to the gate's
socket is a prefix of what was read from home's, and the other way round where
no frame is looked at before its connection is registered. Where no write
fails, a writer leaves its loop only after the socket on the other side has
ended, with the two byte sequences equal. -/
theorem integrity (hC : C.Lawful) (P : Pair C) {w : Wire}
    (h : Reaches (step P) (oneSession P) init w) {n j : Nat}
    (hn : n < w.home.numConns) (hu : UsedOnce (w.home.conns n).id w.home)
    (hj : j < w.gate.numConns) (hid : (w.gate.conns j).id = (w.home.conns n).id) :
    ((w.gate.conns j).written <+: (w.home.conns n).reads.flatten ∧
      (NoWriteFailed (w.home.conns n).id w → (w.gate.conns j).writer.pastLoop = true →
        (w.home.conns n).eof = true ∧
          (w.gate.conns j).written = (w.home.conns n).reads.flatten)) ∧
    (Reaches (step P) (answersRegistered P) init w →
      (w.home.conns n).written <+: (w.gate.conns j).reads.flatten ∧
      (NoWriteFailed (w.home.conns n).id w → (w.home.conns n).writer.pastLoop = true →
        (w.gate.conns j).eof = true ∧
          (w.home.conns n).written = (w.gate.conns j).reads.flatten)) := by
  -- what is said of the tunnel is said of the wire
  have hfail : ∀ {t k}, Opens P w t → NoWriteFailed k w → Tunnel.NoWriteFailed k t :=
    fun ho hf s c => by
      rw [(ho.conns s).1, (ho.conns s).2]
      exact hf s c
  have hused : ∀ {t k}, Opens P w t → UsedOnce k w.home → Endpoint.UsedOnce k t.home :=
    fun ho hu => by
      rw [Endpoint.UsedOnce, ho.home.1, ho.home.2]
      exact hu
  constructor
  · obtain ⟨t, ht, ho⟩ := (simulation hC P (D := fun t sa => Tunnel.oneSession t sa = true)
      (fun h => h.1) (fun _ h => tunnel_oneSession h) (fun {_ _ _} => rfl)).reaches h (opens_init P)
    have hu' := hused ho hu
    rw [← ho.home.2] at hn
    rw [← ho.gate.2] at hj
    rw [← ho.home.1] at hu' hid
    rw [← ho.gate.1] at hid
    have hup := Tunnel.upstream ht hu'
    rw [← ho.home.1, ← ho.gate.1]
    refine ⟨hup.prefix_written ht hn rfl hj hid, fun hf hpast => ?_⟩
    have hf' := hfail ho hf
    have hok : (t.gate.conns j).writeFailed = false := hf' .connect j hj hid
    exact (Tunnel.orderly ht hu' hf').written_eq hup ht hn rfl hj hid hok hpast
  · intro h
    obtain ⟨t, ht, ho⟩ := (simulation hC P (D := fun t sa => Tunnel.answersRegistered t sa = true)
      (fun h => h.1.1) (fun ho h => tunnel_answersRegistered ho h)
      (fun {_ _ _} => by simp [Tunnel.answersRegistered, Tunnel.oneSession,
        Endpoint.registeredFirst])).reaches h (opens_init P)
    have hu' := hused ho hu
    rw [← ho.home.2] at hn
    rw [← ho.gate.2] at hj
    rw [← ho.home.1] at hu' hid
    rw [← ho.gate.1] at hid
    rw [← ho.home.1, ← ho.gate.1]
    exact ⟨Tunnel.home_prefix_written ht hn hu' hj hid,
      fun hf => Tunnel.home_written_eq ht hn hu' hj hid (hfail ho hf)⟩

instance (w : Wire) (a : WireAct) : Decidable (oneSession P w a) :=
  inferInstanceAs (Decidable (_ ∧ _))

theorem integrity_one_byte :
    ∃ w, Reaches (step aliceAndBob) (oneSession aliceAndBob) init w ∧
      (w.gate.conns 0).written = [7] ∧ [7] <+: (w.home.conns 0).reads.flatten := by
  have hrun : (run (guarded (step aliceAndBob) (oneSession aliceAndBob)) init oneByteRun).any
      (fun w => w.home.numConns = 1 ∧ w.gate.numConns = 1 ∧
        (w.gate.conns 0).id = (w.home.conns 0).id ∧ (w.gate.conns 0).written = [7]) = true := by
    decide +kernel
  obtain ⟨w, h, hp⟩ := exists_of_run_any hrun
  simp only [decide_eq_true_eq] at hp
  obtain ⟨hhome, hgate, hid, hwritten⟩ := hp
  have hu : UsedOnce (w.home.conns 0).id w.home := fun c d hc hd _ _ => by omega
  have hboth := integrity Crypto.keyed_lawful aliceAndBob h (by omega) hu (by omega) hid
  exact ⟨w, h, hwritten, hwritten ▸ hboth.1.1⟩

end Wire

end UsbWs
