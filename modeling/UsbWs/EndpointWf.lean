import UsbWs.Endpoint

/-!
# What holds of an endpoint in every run

`Wf` is the bookkeeping every later argument leans on, whatever frames
arrive and however the tasks interleave: the map points at running writers
registered under their own id, a connection is unspawned exactly while the
acceptor holds it, the frame at hand is the one received last, and what
`handle_incoming` is doing agrees with that frame. Each writer's accounts
(`Conn.WriterOk`) are part of it.

What a step does to one connection, to one map entry, to the acceptor and to the
line for the outbound queue is said once, in `ConnChange`, `MapChange`,
`AcceptorChange` and `LineChange`, as `Comes` says it of `handle_incoming`. Every
field of `Wf`, and every later invariant of an endpoint, is a case analysis on one
of these.

Nothing here assumes that conn ids are not reused. That is why the map is
only said to point *at* running writers, and not that every running writer
is mapped: with reuse it need not be.
-/

namespace UsbWs

open Runs

namespace Endpoint

/-- The three things `handle_incoming` does on looking at a frame: nothing,
dial, or send to the writer the map names. -/
theorem dispatchPc_cases (side : Side) (map : ConnId → Option Nat) (f : Frame) :
    dispatchPc side map f = .select ∧ (f.msg = none ∨ map f.connId = none) ∨
      dispatchPc side map f = .handling ⟨f, .dialing⟩ ∧ side = .connect ∧
        f = .tcpOpen f.connId ∨
      ∃ c m, dispatchPc side map f = .handling ⟨f, .deliver c m⟩ ∧
        map f.connId = some c ∧ f.msg = some m := by
  cases f with
  | tcpOpen k =>
      cases side with
      | listen => exact Or.inl ⟨rfl, Or.inl rfl⟩
      | connect => exact Or.inr (Or.inl ⟨rfl, rfl, rfl⟩)
  | tcpData k payload =>
      by_cases hp : payload = []
      · exact Or.inl ⟨by simp [dispatchPc, hp], Or.inl (by simp [Frame.msg, hp])⟩
      · cases hk : map k with
        | none => exact Or.inl ⟨by simp [dispatchPc, hp, hk], Or.inr hk⟩
        | some c =>
            exact Or.inr (Or.inr ⟨c, .data payload, by simp [dispatchPc, hp, hk], hk,
              by simp [Frame.msg, hp]⟩)
  | tcpClose k =>
      cases hk : map k with
      | none => exact Or.inl ⟨by simp [dispatchPc, hk], Or.inr hk⟩
      | some c => exact Or.inr (Or.inr ⟨c, .shutdown, by simp [dispatchPc, hk], hk, rfl⟩)

/-- How `handle_incoming` came to be at `p` after a step from `e` to `e'`. -/
inductive Comes (side : Side) (e e' : Endpoint) : Act → Handling → Prop where
  | stay {a : Act} {p : Handling} (hpc : e.loop.pc = .handling p)
      (hrcvd : e'.rcvd = e.rcvd) : Comes side e e' a p
  | recv {f : Frame} (hpc : e.loop.pc = .select) (hrcvd : e'.rcvd = e.rcvd ++ [f])
      (henq : e'.enq = e.enq) : Comes side e e' (.recv f) ⟨f, .start⟩
  | dial {f : Frame} (hpc : e.loop.pc = .handling ⟨f, .start⟩) (hrcvd : e'.rcvd = e.rcvd)
      (hside : side = .connect) (hf : f = .tcpOpen f.connId) :
      Comes side e e' .dispatch ⟨f, .dialing⟩
  | deliver {f : Frame} {c : Nat} {m : WrMsg} (hpc : e.loop.pc = .handling ⟨f, .start⟩)
      (hrcvd : e'.rcvd = e.rcvd) (hmap : e.map f.connId = some c) (hm : f.msg = some m) :
      Comes side e e' .dispatch ⟨f, .deliver c m⟩
  | gone {f : Frame} {c : Nat} {bytes : Bytes}
      (hpc : e.loop.pc = .handling ⟨f, .deliver c (.data bytes)⟩) (hrcvd : e'.rcvd = e.rcvd)
      (hdone : (e.conns c).writer = .done) : Comes side e e' .deliver ⟨f, .writerGone⟩
  | close {a : Act} {f : Frame} {q : Point} (hpc : e.loop.pc = .handling ⟨f, q⟩)
      (hrcvd : e'.rcvd = e.rcvd)
      (hq : a = .dialErr ∧ q = .dialing ∨ a = .removeGone ∧ q = .writerGone) :
      Comes side e e' a ⟨f, .sendClose⟩

theorem Trans.comes {side : Side} {e e' : Endpoint} {a : Act} (h : Trans side e a e')
    {p : Handling} (hp : e'.loop.pc = .handling p) : Comes side e e' a p := by
  cases h with
  | loop hev hl => exact absurd hp ((Loop.event_frame hl).2.1 p)
  | recv hpc => cases hp; exact .recv hpc rfl rfl
  | @dispatch f hpc =>
      rw [goto_pc] at hp
      rcases dispatchPc_cases side e.map f with
        ⟨hd, _⟩ | ⟨hd, hside, hf⟩ | ⟨c, m, hd, hmap, hm⟩ <;>
        rw [hd] at hp <;> cases hp
      · exact .dial hpc rfl hside hf
      · exact .deliver hpc rfl hmap hm
  | deliverGone hpc hdone => cases hp; exact .gone hpc rfl hdone
  | dialErr hpc => cases hp; exact .close hpc rfl (Or.inl ⟨rfl, rfl⟩)
  | removeGone hpc => cases hp; exact .close hpc rfl (Or.inr ⟨rfl, rfl⟩)
  | dialOk | deliver | shutdownGone | sendClose => cases hp
  | accept | acceptFull | wait | sendOpen | sendOpenGone | register | conn | sendData
  | sendDataGone | sendEnd | sendEndGone | chanClosed | remove => exact .stay hp rfl

/-- Where a connection came from that is new after a step from `e` to `e'`. -/
inductive Makes (e e' : Endpoint) : Prop where
  | accepted {k : ConnId} (hacc : e.acceptor = .accepting)
      (hacc' : e'.acceptor = .opening e.numConns) (hpc : e'.loop.pc = e.loop.pc)
      (hfree : e.map k = none) (hnew : e'.conns e.numConns = .fresh k) : Makes e e'
  | dialled {f : Frame} (hpc : e.loop.pc = .handling ⟨f, .dialing⟩)
      (hpc' : e'.loop.pc = .select) (hnew : e'.conns e.numConns = (Conn.fresh f.connId).spawn) :
      Makes e e'

theorem Trans.makes {side : Side} {e e' : Endpoint} {a : Act} (h : Trans side e a e')
    {c : Nat} (hlt' : c < e'.numConns) (hge : ¬ c < e.numConns) :
    c = e.numConns ∧ e'.enq = e.enq ∧ e'.rcvd = e.rcvd ∧ Makes e e' := by
  cases h with
  | accept hacc halloc =>
      simp only [setAcceptor_numConns, newConn_numConns, setNextId_numConns] at hlt'
      exact ⟨by omega, rfl, rfl, .accepted hacc rfl rfl (allocConnId_free halloc) (by simp)⟩
  | dialOk hpc =>
      simp only [goto_numConns, spawnConnection_numConns, newConn_numConns] at hlt'
      exact ⟨by omega, rfl, rfl, .dialled hpc rfl (by simp)⟩
  | _ => exact absurd (by simpa using hlt') hge

/-- What became of connection `c` in a step from `e` to `e'`. -/
inductive ConnChange (e e' : Endpoint) (c : Nat) : Act → Prop where
  | same {a : Act} (hc : e'.conns c = e.conns c) : ConnChange e e' c a
  | accepted {k : ConnId} (hnew : c = e.numConns) (hlt : c < e'.numConns)
      (hacc : e.acceptor = .accepting) (hc : e'.conns c = .fresh k) : ConnChange e e' c .accept
  | dialled {f : Frame} (hnew : c = e.numConns) (hlt : c < e'.numConns)
      (hpc : e.loop.pc = .handling ⟨f, .dialing⟩)
      (hc : e'.conns c = (Conn.fresh f.connId).spawn) (hmap : e'.map f.connId = some c) :
      ConnChange e e' c .dialOk
  | registered (hacc : e.acceptor = .registering c) (hacc' : e'.acceptor = .accepting)
      (hc : e'.conns c = (e.conns c).spawn) (hmap : e'.map (e.conns c).id = some c) :
      ConnChange e e' c .register
  | put {f : Frame} {m : WrMsg} (hpc : e.loop.pc = .handling ⟨f, .deliver c m⟩)
      (hc : e'.conns c = (e.conns c).put m) : ConnChange e e' c .deliver
  | own {b : ConnAct} (hv : (e.conns c).step b = some (e'.conns c)) :
      ConnChange e e' c (.conn c b)
  | sent {chunk : Bytes} (hr : (e.conns c).reader = .sending chunk)
      (henq : e'.enq = e.enq ++ [.tcpData (e.conns c).id chunk])
      (hc : e'.conns c = { e.conns c with reader := .reading }) :
      ConnChange e e' c (.sendData c)
  | dropped {chunk : Bytes} (hr : (e.conns c).reader = .sending chunk)
      (hgone : e.loop.pc = .exited)
      (hc : e'.conns c = { e.conns c with reader := .closing }) :
      ConnChange e e' c (.sendData c)
  | finished (hr : (e.conns c).reader = .closing)
      (hc : e'.conns c = { e.conns c with reader := .done }) : ConnChange e e' c (.sendEnd c)
  | closed (hw : (e.conns c).writer = .recv) (hno : e.noSender c = true)
      (hc : e'.conns c = { e.conns c with writer := .exiting }) :
      ConnChange e e' c (.chanClosed c)
  | removed (hw : (e.conns c).writer = .shut) (hmap : e'.map (e.conns c).id = none)
      (hc : e'.conns c = { e.conns c with writer := .done }) : ConnChange e e' c (.remove c)

theorem Trans.connChange {side : Side} {e e' : Endpoint} {a : Act} (h : Trans side e a e')
    (c : Nat) : ConnChange e e' c a := by
  cases h with
  | @accept k _ hacc halloc =>
      by_cases hc : c = e.numConns
      · exact .accepted hc (by simp [hc]) hacc (k := k) (by simp [hc])
      · exact .same (by simp [hc])
  | dialOk hpc =>
      by_cases hc : c = e.numConns
      · exact .dialled hc (by simp [hc]) hpc (by simp [hc]) (by simp [hc])
      · exact .same (by simp [hc])
  | @register d hacc =>
      by_cases hc : c = d
      · subst hc
        exact .registered hacc rfl (by simp) (by simp)
      · exact .same (by simp [hc])
  | @deliver f d m hpc hdone hroom =>
      by_cases hc : c = d
      · subst hc
        exact .put hpc (by simp)
      · exact .same (by simp [hc])
  | @conn d b v hv =>
      by_cases hc : c = d
      · subst hc
        exact .own (hv.trans (by simp))
      · exact .same (by simp [hc])
  | @sendData d _ hr _ _ =>
      by_cases hc : c = d
      · subst hc
        exact .sent hr (by simp) (by simp)
      · exact .same (by simp [hc])
  | @sendDataGone d _ hr hgone =>
      by_cases hc : c = d
      · subst hc
        exact .dropped hr (by simpa [outGone] using hgone) (by simp)
      · exact .same (by simp [hc])
  | @sendEnd d hr _ _ | @sendEndGone d hr _ =>
      by_cases hc : c = d
      · subst hc
        exact .finished hr (by simp)
      · exact .same (by simp [hc])
  | @chanClosed d hrecv hq hno =>
      by_cases hc : c = d
      · subst hc
        exact .closed hrecv hno (by simp)
      · exact .same (by simp [hc])
  | @remove d hshut =>
      by_cases hc : c = d
      · subst hc
        exact .removed hshut (by simp) (by simp)
      · exact .same (by simp [hc])
  | _ => exact .same (by simp)

/-- What became of the map entry of conn id `k`. -/
inductive MapChange (e e' : Endpoint) (k : ConnId) : Act → Prop where
  | same {a : Act} (hmap : e'.map k = e.map k) : MapChange e e' k a
  | registered {c : Nat} (hacc : e.acceptor = .registering c)
      (hacc' : e'.acceptor = .accepting) (hid : (e.conns c).id = k)
      (hmap : e'.map k = some c) (hc : e'.conns c = (e.conns c).spawn) :
      MapChange e e' k .register
  | dialled {f : Frame} (hpc : e.loop.pc = .handling ⟨f, .dialing⟩) (hk : f.connId = k)
      (hmap : e'.map k = some e.numConns) (hlt : e.numConns < e'.numConns)
      (hc : e'.conns e.numConns = (Conn.fresh k).spawn) : MapChange e e' k .dialOk
  | removed {c : Nat} (hw : (e.conns c).writer = .shut) (hid : (e.conns c).id = k)
      (hmap : e'.map k = none) (hdone : (e'.conns c).writer = .done) :
      MapChange e e' k (.remove c)
  | gone {f : Frame} (hpc : e.loop.pc = .handling ⟨f, .writerGone⟩) (hk : f.connId = k)
      (hmap : e'.map k = none) : MapChange e e' k .removeGone

theorem Trans.mapChange {side : Side} {e e' : Endpoint} {a : Act} (h : Trans side e a e')
    (k : ConnId) : MapChange e e' k a := by
  cases h with
  | @register c hacc =>
      by_cases hk : k = (e.conns c).id
      · exact .registered hacc rfl hk.symm (by simp [hk]) (by simp)
      · exact .same (by simp [hk])
  | @dialOk f hpc =>
      by_cases hk : k = f.connId
      · exact .dialled hpc hk.symm (by simp [hk]) (by simp) (by simp [hk])
      · exact .same (by simp [hk])
  | @removeGone f hpc =>
      by_cases hk : k = f.connId
      · exact .gone hpc hk.symm (by simp [hk])
      · exact .same (by simp [hk])
  | @remove c hshut =>
      by_cases hk : k = (e.conns c).id
      · exact .removed hshut hk.symm (by simp [hk]) (by simp)
      · exact .same (by simp [hk])
  | _ => exact .same (by simp)

/-- What became of the acceptor task. -/
inductive AcceptorChange (e e' : Endpoint) : Act → Prop where
  | same {a : Act} (hacc : e'.acceptor = e.acceptor) : AcceptorChange e e' a
  | accepted {k : ConnId} (hacc : e.acceptor = .accepting)
      (hacc' : e'.acceptor = .opening e.numConns) (hlt : e.numConns < e'.numConns)
      (hc : e'.conns e.numConns = .fresh k) (hfree : e.map k = none) :
      AcceptorChange e e' .accept
  | opened {c : Nat} (hacc : e.acceptor = .opening c) (hacc' : e'.acceptor = .registering c) :
      AcceptorChange e e' .sendOpen
  | gone {c : Nat} (hacc : e.acceptor = .opening c) (hacc' : e'.acceptor = .gone)
      (hpc : e'.loop.pc = .exited) : AcceptorChange e e' .sendOpen
  | registered {c : Nat} (hacc : e.acceptor = .registering c) (hacc' : e'.acceptor = .accepting)
      (hc : e'.conns c = (e.conns c).spawn) (hmap : e'.map (e.conns c).id = some c) :
      AcceptorChange e e' .register

theorem Trans.acceptorChange {side : Side} {e e' : Endpoint} {a : Act}
    (h : Trans side e a e') : AcceptorChange e e' a := by
  cases h with
  | @accept k _ hacc halloc =>
      exact .accepted hacc rfl (by simp) (k := k) (by simp) (allocConnId_free halloc)
  | sendOpen hacc hgone hroom => exact .opened hacc rfl
  | sendOpenGone hacc hgone => exact .gone hacc rfl (by simpa [outGone] using hgone)
  | register hacc => exact .registered hacc rfl (by simp) (by simp)
  | _ => exact .same (by simp)

theorem Trans.numConns_le {side : Side} {e e' : Endpoint} {a : Act} (h : Trans side e a e') :
    e.numConns ≤ e'.numConns := by
  cases h with
  | accept | dialOk => exact Nat.le_succ _
  | _ => simp

theorem Trans.prefix_rcvd {side : Side} {e e' : Endpoint} {a : Act} (h : Trans side e a e') :
    e.rcvd <+: e'.rcvd := by
  cases h <;> simp

/-- A session that has ended stays ended. -/
theorem Trans.exited {side : Side} {e e' : Endpoint} {a : Act} (h : Trans side e a e')
    (hpc : e.loop.pc = .exited) : e'.loop.pc = .exited := by
  cases h with
  | loop hev hl => exact absurd hpc (Loop.event_frame hl).2.2.1
  | accept | acceptFull | wait | sendOpen | sendOpenGone | register | conn | sendData
  | sendDataGone | sendEnd | sendEndGone | chanClosed | remove => exact hpc
  | recv hpc₀ | dispatch hpc₀ | dialOk hpc₀ | dialErr hpc₀ | deliver hpc₀ | deliverGone hpc₀
  | shutdownGone hpc₀ | removeGone hpc₀ | sendClose hpc₀ => cases hpc₀.symm.trans hpc

/-- What became of the line for the outbound queue. -/
inductive LineChange (e e' : Endpoint) (a : Act) : Prop where
  | same (hline : e'.waiting = e.waiting) (hnone : ∀ p, ¬ Sends e a p)
  | left {p : Sender} (hsends : Sends e a p) (hline : e'.waiting = e.waiting.erase p)
  | joined {p : Sender} (hsends : Sends e a p) (hgone : e.outGone = false)
      (hroom : e.outRoom p = false) (hnew : p ∉ e.waiting) (heq : e' = e.wait p)

theorem Trans.lineChange {side : Side} {e e' : Endpoint} {a : Act} (h : Trans side e a e') :
    LineChange e e' a := by
  cases h with
  | wait hsends hgone hroom hnew => exact .joined hsends hgone hroom hnew rfl
  | sendOpen hacc | sendOpenGone hacc => exact .left (.sendOpen hacc) rfl
  | sendClose hpc => exact .left (.sendClose hpc) rfl
  | sendData hr | sendDataGone hr => exact .left (.sendData hr) rfl
  | sendEnd hr | sendEndGone hr => exact .left (.sendEnd hr) rfl
  | _ => exact .same (by simp) fun p hsends => by cases hsends

/-- An action is a send of one task. -/
theorem Sends.unique {e : Endpoint} {a : Act} {p q : Sender} (hp : Sends e a p)
    (hq : Sends e a q) : p = q := by
  cases hp <;> cases hq <;> rfl

/-- A task that gets in line stands where it stood. -/
theorem Sends.wait {e : Endpoint} {a : Act} {p : Sender} (hp : Sends e a p) (q : Sender) :
    Sends (e.wait q) a p := by
  cases hp with
  | sendOpen hacc => exact .sendOpen hacc
  | sendClose hpc => exact .sendClose hpc
  | sendData hr => exact .sendData hr
  | sendEnd hr => exact .sendEnd hr

/-- Who is in line is in it once, and stands at a send. -/
structure Lined (e : Endpoint) : Prop where
  nodup : e.waiting.Nodup
  sends : ∀ p ∈ e.waiting, ∃ a, Sends e a p

/-! ## The invariant -/

structure Wf (side : Side) (e : Endpoint) : Prop where
  beyond : ∀ c, e.numConns ≤ c →
    (e.conns c).reader = .unspawned ∧ (e.conns c).writer = .unspawned
  mapped : ∀ k c, e.map k = some c →
    c < e.numConns ∧ (e.conns c).id = k ∧ (e.conns c).writer.alive = true
  spawned : ∀ c, (e.conns c).reader = .unspawned ↔ (e.conns c).writer = .unspawned
  blank : ∀ c, (e.conns c).reader = .unspawned →
    (e.conns c).reads = [] ∧ (e.conns c).eof = false
  writer : ∀ c, (e.conns c).WriterOk
  opening : ∀ c, e.acceptor = .opening c ∨ e.acceptor = .registering c →
    c < e.numConns ∧ (e.conns c).writer = .unspawned
  waiting : ∀ c, c < e.numConns → (e.conns c).writer = .unspawned →
    e.acceptor = .opening c ∨ e.acceptor = .registering c ∨ e.loop.pc = .exited
  gate : side = .connect → e.acceptor = .gone ∧
    ∀ c, c < e.numConns → (e.conns c).writer ≠ .unspawned
  handling : ∀ h, e.loop.pc = .handling h → ∃ r, e.rcvd = r ++ [h.frame]
  dialing : ∀ f, e.loop.pc = .handling ⟨f, .dialing⟩ →
    side = .connect ∧ f = .tcpOpen f.connId
  deliver : ∀ f c m, e.loop.pc = .handling ⟨f, .deliver c m⟩ →
    c < e.numConns ∧ (e.conns c).id = f.connId ∧ (e.conns c).writer ≠ .unspawned ∧
      f.msg = some m
  writerGone : ∀ f, e.loop.pc = .handling ⟨f, .writerGone⟩ →
    ∃ c, c < e.numConns ∧ (e.conns c).id = f.connId ∧ (e.conns c).writer = .done
  lined : e.Lined

theorem lined_init (side : Side) : (init side).Lined := by
  have hnil : (init side).waiting = [] := by cases side <;> rfl
  exact ⟨hnil ▸ List.nodup_nil, fun p hp => by simp [hnil] at hp⟩

theorem wf_init (side : Side) : (init side).Wf side := by
  constructor
  case lined => exact lined_init side
  all_goals cases side <;> simp [init, Loop.init, Conn.fresh, Conn.WriterOk]

/-- Connections stay, and keep their ids. -/
theorem Trans.id_eq {side : Side} {e e' : Endpoint} {a : Act} (h : Trans side e a e') {c : Nat}
    (hc : c < e.numConns) : c < e'.numConns ∧ (e'.conns c).id = (e.conns c).id := by
  refine ⟨Nat.lt_of_lt_of_le hc h.numConns_le, ?_⟩
  cases h.connChange c with
  | accepted hnew | dialled hnew => exact absurd hnew (Nat.ne_of_lt hc)
  | own hv => exact (Conn.step_frame hv).1
  | same heq | registered _ _ heq | put _ heq | sent _ _ heq | dropped _ _ heq
  | finished _ heq | closed _ _ heq | removed _ _ heq => simp [heq]

/-- A connection whose tasks have started stays one, under the same id. -/
theorem Trans.started {side : Side} {e e' : Endpoint} {a : Act}
    (h : Trans side e a e') {c : Nat} (hlt : c < e.numConns)
    (hstart : (e.conns c).writer ≠ .unspawned) :
    c < e'.numConns ∧ (e'.conns c).id = (e.conns c).id ∧
      (e'.conns c).writer ≠ .unspawned := by
  obtain ⟨hlt', hid'⟩ := h.id_eq hlt
  refine ⟨hlt', hid', ?_⟩
  cases h.connChange c with
  | accepted hnew | dialled hnew => exact absurd hnew (Nat.ne_of_lt hlt)
  | own hv => exact fun hun => hstart ((Conn.step_frame hv).2.2.1.1 hun)
  | same heq | put _ heq | sent _ _ heq | dropped _ _ heq | finished _ heq =>
      simpa [heq] using hstart
  | registered _ _ heq | closed _ _ heq | removed _ _ heq => simp [heq]

/-- What can become of a connection that waits for the acceptor, or of a number
that no connection has yet. -/
theorem Wf.unspawned_cases {side : Side} {e e' : Endpoint} {a : Act} (hw : e.Wf side)
    (h : Trans side e a e') {c : Nat} (hun : (e.conns c).writer = .unspawned) :
    e'.conns c = e.conns c ∨
      (c = e.numConns ∧ c < e'.numConns ∧ ∃ k, e'.conns c = .fresh k ∨
        side = .connect ∧ e'.conns c = (Conn.fresh k).spawn) ∨
      e.acceptor = .registering c ∧ e'.acceptor = .accepting ∧
        e'.conns c = (e.conns c).spawn := by
  have hread : (e.conns c).reader = .unspawned := (hw.spawned c).2 hun
  cases h.connChange c with
  | same hc => exact Or.inl hc
  | accepted hnew hlt hacc hc => exact Or.inr (Or.inl ⟨hnew, hlt, _, Or.inl hc⟩)
  | @dialled f hnew hlt hpc hc hmap =>
      exact Or.inr (Or.inl ⟨hnew, hlt, _, Or.inr ⟨(hw.dialing f hpc).1, hc⟩⟩)
  | registered hacc hacc' hc hmap => exact Or.inr (Or.inr ⟨hacc, hacc', hc⟩)
  | @put f m hpc hc => exact absurd hun (hw.deliver f c m hpc).2.2.1
  | own hv =>
      rw [Conn.step_eq_none hread hun] at hv
      cases hv
  | sent hr | dropped hr | finished hr => cases hr.symm.trans hread
  | closed hrecv hno hc => cases hrecv.symm.trans hun
  | removed hshut hmap hc => cases hshut.symm.trans hun

theorem Wf.beyond_step {side : Side} {e e' : Endpoint} {a : Act} (hw : e.Wf side)
    (h : Trans side e a e') : ∀ c, e'.numConns ≤ c →
      (e'.conns c).reader = .unspawned ∧ (e'.conns c).writer = .unspawned := by
  intro c hle
  have hle₀ : e.numConns ≤ c := Nat.le_trans h.numConns_le hle
  have hold := hw.beyond c hle₀
  rcases hw.unspawned_cases h hold.2 with hc | ⟨_, hlt, _⟩ | ⟨hacc, _⟩
  · rwa [hc]
  · exact absurd hlt (Nat.not_lt.2 hle)
  · exact absurd (hw.opening c (Or.inr hacc)).1 (Nat.not_lt.2 hle₀)

/-- A running writer runs until it takes its entry out of the map. -/
theorem Wf.alive_step {side : Side} {e e' : Endpoint} {a : Act} (hw : e.Wf side)
    (h : Trans side e a e') {c : Nat} (hmap : e.map (e.conns c).id = some c)
    (hmap' : e'.map (e.conns c).id = some c) : (e'.conns c).writer.alive = true := by
  obtain ⟨hlt, _, halive⟩ := hw.mapped _ c hmap
  cases h.connChange c with
  | accepted hnew | dialled hnew => exact absurd hnew (Nat.ne_of_lt hlt)
  | own hv => exact (Conn.step_frame hv).2.1.trans halive
  | removed hshut hnone => cases hnone.symm.trans hmap'
  | registered _ _ heq | closed _ _ heq =>
      rw [heq]
      rfl
  | same heq | put _ heq | sent _ _ heq | dropped _ _ heq | finished _ heq =>
      rw [heq]
      exact halive

theorem Wf.mapped_step {side : Side} {e e' : Endpoint} {a : Act} (hw : e.Wf side)
    (h : Trans side e a e') : ∀ k c, e'.map k = some c →
      c < e'.numConns ∧ (e'.conns c).id = k ∧ (e'.conns c).writer.alive = true := by
  intro k c hmap'
  cases h.mapChange k with
  | same hsame =>
      obtain ⟨hlt, rfl, _⟩ := hw.mapped k c (hsame ▸ hmap')
      obtain ⟨hlt', hid'⟩ := h.id_eq hlt
      exact ⟨hlt', hid', hw.alive_step h (hsame ▸ hmap') hmap'⟩
  | @registered d hacc hacc' hid hmap hc =>
      obtain rfl : d = c := by simpa using hmap.symm.trans hmap'
      have hlt := (hw.opening d (Or.inr hacc)).1
      exact ⟨Nat.lt_of_lt_of_le hlt h.numConns_le, by rw [hc]; exact hid, by rw [hc]; rfl⟩
  | dialled hpc hk hmap hlt hc =>
      obtain rfl : e.numConns = c := by simpa using hmap.symm.trans hmap'
      exact ⟨hlt, by rw [hc]; rfl, by rw [hc]; rfl⟩
  | removed hshut hid hmap hdone => cases hmap.symm.trans hmap'
  | gone hpc hk hmap => cases hmap.symm.trans hmap'

theorem Wf.spawned_step {side : Side} {e e' : Endpoint} {a : Act} (hw : e.Wf side)
    (h : Trans side e a e') : ∀ c,
      (e'.conns c).reader = .unspawned ↔ (e'.conns c).writer = .unspawned := by
  intro c
  have hold := hw.spawned c
  cases h.connChange c with
  | same hc => rwa [hc]
  | accepted _ _ _ hc | dialled _ _ _ hc | registered _ _ hc => simp [hc]
  | put hpc hc => simpa [hc] using hold
  | own hv =>
      obtain ⟨_, _, hwr, hrd, _⟩ := Conn.step_frame hv
      exact hrd.trans (hold.trans hwr.symm)
  | sent hr _ hc | dropped hr _ hc | finished hr hc => simpa [hr, hc] using hold
  | closed hrecv _ hc => simpa [hc, hrecv] using hold
  | removed hshut _ hc => simpa [hc, hshut] using hold

theorem Wf.blank_step {side : Side} {e e' : Endpoint} {a : Act} (hw : e.Wf side)
    (h : Trans side e a e') : ∀ c, (e'.conns c).reader = .unspawned →
      (e'.conns c).reads = [] ∧ (e'.conns c).eof = false := by
  intro c hun
  have hold := hw.blank c
  cases h.connChange c with
  | accepted hnew hlt hacc hc => simp [hc]
  | dialled _ _ _ hc | registered _ _ hc | sent _ _ hc | dropped _ _ hc | finished _ hc =>
      simp [hc] at hun
  | own hv =>
      -- a step of the connection itself is one of tasks that have started
      have hun₀ := (Conn.step_frame hv).2.2.2.1.1 hun
      rw [Conn.step_eq_none hun₀ ((hw.spawned c).1 hun₀)] at hv
      cases hv
  | same hc | put _ hc | closed _ _ hc | removed _ _ hc =>
      rw [hc] at hun ⊢
      exact hold hun

theorem Wf.opening_step {side : Side} {e e' : Endpoint} {a : Act} (hw : e.Wf side)
    (h : Trans side e a e') : ∀ c, e'.acceptor = .opening c ∨ e'.acceptor = .registering c →
      c < e'.numConns ∧ (e'.conns c).writer = .unspawned := by
  intro c hacc'
  -- it is enough that the acceptor already held the connection
  have hold : e.acceptor = .opening c ∨ e.acceptor = .registering c →
      c < e'.numConns ∧ (e'.conns c).writer = .unspawned := by
    intro hacc
    obtain ⟨hlt, hun⟩ := hw.opening c hacc
    refine ⟨Nat.lt_of_lt_of_le hlt h.numConns_le, ?_⟩
    rcases hw.unspawned_cases h hun with hc | ⟨hnew, _⟩ | ⟨_, hdone, _⟩
    · rwa [hc]
    · exact absurd hnew (Nat.ne_of_lt hlt)
    · rcases hacc' with ho | hr
      · cases hdone.symm.trans ho
      · cases hdone.symm.trans hr
  cases h.acceptorChange with
  | same hsame => exact hold (hsame ▸ hacc')
  | accepted hacc hopen hlt hc =>
      rw [hopen] at hacc'
      obtain rfl : e.numConns = c := by simpa using hacc'
      exact ⟨hlt, by rw [hc]; rfl⟩
  | @opened d hacc hreg =>
      rw [hreg] at hacc'
      obtain rfl : d = c := by simpa using hacc'
      exact hold (Or.inl hacc)
  | gone hacc hgone => simp [hgone] at hacc'
  | registered hacc hdone => simp [hdone] at hacc'

theorem Wf.waiting_step {side : Side} {e e' : Endpoint} {a : Act} (hw : e.Wf side)
    (h : Trans side e a e') : ∀ c, c < e'.numConns → (e'.conns c).writer = .unspawned →
      e'.acceptor = .opening c ∨ e'.acceptor = .registering c ∨ e'.loop.pc = .exited := by
  intro c hlt' hun'
  by_cases hlt : c < e.numConns
  · have hun : (e.conns c).writer = .unspawned := by
      by_contra hstart
      exact (h.started hlt hstart).2.2 hun'
    rcases hw.waiting c hlt hun with hopen | hreg | hexit
    · cases h.acceptorChange with
      | same hacc => exact Or.inl (hacc.trans hopen)
      | @opened d hacc hacc' =>
          obtain rfl : d = c := by simpa using hacc.symm.trans hopen
          exact Or.inr (Or.inl hacc')
      | gone hacc hacc' hpc => exact Or.inr (Or.inr hpc)
      | accepted hacc | registered hacc => cases hacc.symm.trans hopen
    · cases h.acceptorChange with
      | same hacc => exact Or.inr (Or.inl (hacc.trans hreg))
      | @registered d hacc hacc' hc =>
          obtain rfl : d = c := by simpa using hacc.symm.trans hreg
          simp [hc] at hun'
      | accepted hacc | opened hacc | gone hacc => cases hacc.symm.trans hreg
    · exact Or.inr (Or.inr (h.exited hexit))
  · obtain ⟨rfl, _, _, hmakes⟩ := h.makes hlt' hlt
    cases hmakes with
    | accepted hacc hacc' => exact Or.inl hacc'
    | dialled hpc hpc' hnew => simp [hnew] at hun'

theorem Wf.gate_step {side : Side} {e e' : Endpoint} {a : Act} (hw : e.Wf side)
    (h : Trans side e a e') : side = .connect → e'.acceptor = .gone ∧
    ∀ c, c < e'.numConns → (e'.conns c).writer ≠ .unspawned := by
  intro hside
  obtain ⟨hgone, hstart⟩ := hw.gate hside
  constructor
  · cases h.acceptorChange with
    | same hacc => exact hacc.trans hgone
    | accepted hacc | opened hacc | gone hacc | registered hacc => cases hacc.symm.trans hgone
  · intro c hlt'
    by_cases hlt : c < e.numConns
    · exact (h.started hlt (hstart c hlt)).2.2
    · obtain ⟨rfl, _, _, hmakes⟩ := h.makes hlt' hlt
      cases hmakes with
      | accepted hacc => cases hacc.symm.trans hgone
      | dialled hpc hpc' hnew => simp [hnew]

theorem Wf.writer_step {side : Side} {e e' : Endpoint} {a : Act} (hw : e.Wf side)
    (h : Trans side e a e') : ∀ c, (e'.conns c).WriterOk := by
  intro c
  have hok := hw.writer c
  cases h.connChange c with
  | same hc => rwa [hc]
  | accepted hnew hlt hacc hc => exact hc ▸ Conn.writerOk_fresh _
  | dialled hnew hlt hpc hc => exact hc ▸ (Conn.writerOk_fresh _).spawn rfl
  | registered hacc hacc' hc => exact hc ▸ hok.spawn (hw.opening c (Or.inr hacc)).2
  | @put f m hpc hc => exact hc ▸ hok.put (hw.deliver f c m hpc).2.2.1 m
  | own hv => exact hok.step hv
  | sent _ _ hc | dropped _ _ hc | finished _ hc =>
      rw [hc]
      exact hok
  | closed hrecv hno hc =>
      simp only [Conn.WriterOk, hrecv] at hok
      rw [hc]
      exact ⟨hok.1 ▸ List.prefix_rfl, fun _ => hok.1, fun hmem => absurd hmem hok.2.1⟩
  | removed hshut hmap hc =>
      simp only [Conn.WriterOk, hshut] at hok
      rw [hc]
      exact hok

theorem Wf.handling_step {side : Side} {e e' : Endpoint} {a : Act} (hw : e.Wf side)
    (h : Trans side e a e') : ∀ p, e'.loop.pc = .handling p → ∃ r, e'.rcvd = r ++ [p.frame] := by
  intro p hp
  cases h.comes hp with
  | recv hpc hrcvd => exact ⟨e.rcvd, hrcvd⟩
  | stay hpc hrcvd | dial hpc hrcvd | deliver hpc hrcvd | gone hpc hrcvd | close hpc hrcvd =>
      obtain ⟨r, hr⟩ := hw.handling _ hpc
      exact ⟨r, hrcvd.trans hr⟩

theorem Wf.dialing_step {side : Side} {e e' : Endpoint} {a : Act} (hw : e.Wf side)
    (h : Trans side e a e') : ∀ f, e'.loop.pc = .handling ⟨f, .dialing⟩ →
      side = .connect ∧ f = .tcpOpen f.connId := by
  intro f hp
  cases h.comes hp with
  | stay hpc hrcvd => exact hw.dialing f hpc
  | dial hpc hrcvd hside hf => exact ⟨hside, hf⟩

/-- A writer that has ended stays ended, under the same id. -/
theorem Wf.done_step {side : Side} {e e' : Endpoint} {a : Act} (hw : e.Wf side)
    (h : Trans side e a e') {c : Nat} (hlt : c < e.numConns)
    (hdone : (e.conns c).writer = .done) :
    c < e'.numConns ∧ (e'.conns c).id = (e.conns c).id ∧ (e'.conns c).writer = .done := by
  obtain ⟨hlt', hid', hstart'⟩ := h.started hlt (by simp [hdone])
  refine ⟨hlt', hid', ?_⟩
  cases h.connChange c with
  | accepted hnew | dialled hnew => exact absurd hnew (Nat.ne_of_lt hlt)
  | registered hacc => cases hdone.symm.trans (hw.opening c (Or.inr hacc)).2
  | own hv =>
      have hdead : (e'.conns c).writer.alive = false := by
        rw [(Conn.step_frame hv).2.1, hdone]
        rfl
      exact Writer.eq_done hstart' hdead
  | closed hrecv => cases hrecv.symm.trans hdone
  | removed hshut => cases hshut.symm.trans hdone
  | same hc | put _ hc | sent _ _ hc | dropped _ _ hc | finished _ hc => rwa [hc]

theorem Wf.deliver_step {side : Side} {e e' : Endpoint} {a : Act} (hw : e.Wf side)
    (h : Trans side e a e') : ∀ f c m, e'.loop.pc = .handling ⟨f, .deliver c m⟩ →
      c < e'.numConns ∧ (e'.conns c).id = f.connId ∧ (e'.conns c).writer ≠ .unspawned ∧
        f.msg = some m := by
  intro f c m hp
  have hold : c < e.numConns ∧ (e.conns c).id = f.connId ∧
      (e.conns c).writer ≠ .unspawned ∧ f.msg = some m := by
    cases h.comes hp with
    | stay hpc hrcvd => exact hw.deliver f c m hpc
    | deliver hpc hrcvd hmap hm =>
        obtain ⟨hlt, hid, halive⟩ := hw.mapped _ _ hmap
        exact ⟨hlt, hid, fun hun => by simp [hun, Writer.alive] at halive, hm⟩
  obtain ⟨hlt, hid, hstart, hm⟩ := hold
  obtain ⟨hlt', hid', hstart'⟩ := h.started hlt hstart
  exact ⟨hlt', hid'.trans hid, hstart', hm⟩

theorem Wf.writerGone_step {side : Side} {e e' : Endpoint} {a : Act} (hw : e.Wf side)
    (h : Trans side e a e') : ∀ f, e'.loop.pc = .handling ⟨f, .writerGone⟩ →
      ∃ c, c < e'.numConns ∧ (e'.conns c).id = f.connId ∧ (e'.conns c).writer = .done := by
  intro f hp
  have hold : ∃ c, c < e.numConns ∧ (e.conns c).id = f.connId ∧
      (e.conns c).writer = .done := by
    cases h.comes hp with
    | stay hpc hrcvd => exact hw.writerGone f hpc
    | @gone f c bytes hpc hrcvd hdone =>
        obtain ⟨hlt, hid, _⟩ := hw.deliver _ _ _ hpc
        exact ⟨c, hlt, hid, hdone⟩
  obtain ⟨c, hlt, hid, hcd⟩ := hold
  obtain ⟨hlt', hid', hcd'⟩ := hw.done_step h hlt hcd
  exact ⟨c, hlt', hid'.trans hid, hcd'⟩

/-- A reader that has started and does not read stands still until it is done
with its send. -/
theorem Wf.reader_step {side : Side} {e e' : Endpoint} {a : Act} (hw : e.Wf side)
    (h : Trans side e a e') {c : Nat} (hstart : (e.conns c).reader ≠ .unspawned)
    (hread : (e.conns c).reader ≠ .reading) :
    (e'.conns c).reader = (e.conns c).reader ∨
      (∃ chunk, (e.conns c).reader = .sending chunk) ∧ a = .sendData c ∨
      (e.conns c).reader = .closing ∧ a = .sendEnd c := by
  cases h.connChange c with
  | sent hr | dropped hr => exact Or.inr (Or.inl ⟨⟨_, hr⟩, rfl⟩)
  | finished hr => exact Or.inr (Or.inr ⟨hr, rfl⟩)
  | own hv => exact Or.inl (Conn.step_reader_eq hv hread)
  | accepted hnew | dialled hnew =>
      exact absurd (hw.beyond c (Nat.le_of_eq hnew.symm)).1 hstart
  | registered hacc =>
      exact absurd ((hw.spawned c).2 (hw.opening c (Or.inr hacc)).2) hstart
  | same hc | put _ hc | closed _ _ hc | removed _ _ hc => exact Or.inl (by simp [hc])

/-- A task at a send is there until its own next step. -/
theorem Wf.sends_step {side : Side} {e e' : Endpoint} {a b : Act} {p : Sender}
    (hw : e.Wf side) (h : Trans side e a e') (hp : Sends e b p) (hne : b ≠ a) :
    Sends e' b p := by
  cases hp with
  | sendOpen hacc =>
      cases h.acceptorChange with
      | same hsame => exact .sendOpen (hsame.trans hacc)
      | opened | gone => exact absurd rfl hne
      | accepted hacc' | registered hacc' => cases hacc'.symm.trans hacc
  | sendClose hpc =>
      cases h with
      | sendClose => exact absurd rfl hne
      | loop hev hl => exact absurd hpc ((Loop.event_frame hl).1 _)
      | recv hpc' | dispatch hpc' | dialOk hpc' | dialErr hpc' | deliver hpc' | deliverGone hpc'
      | shutdownGone hpc' | removeGone hpc' => cases hpc'.symm.trans hpc
      | _ => exact .sendClose hpc
  | @sendData c chunk hr =>
      have hread : (e.conns c).reader ≠ .reading := by simp [hr]
      rcases hw.reader_step h (by simp [hr]) hread with hsame | ⟨_, rfl⟩ | ⟨hend, _⟩
      · exact .sendData (hsame.trans hr)
      · exact absurd rfl hne
      · cases hend.symm.trans hr
  | @sendEnd c hr =>
      have hread : (e.conns c).reader ≠ .reading := by simp [hr]
      rcases hw.reader_step h (by simp [hr]) hread with hsame | ⟨⟨_, hdata⟩, _⟩ | ⟨_, rfl⟩
      · exact .sendEnd (hsame.trans hr)
      · cases hdata.symm.trans hr
      · exact absurd rfl hne

theorem Wf.lined_step {side : Side} {e e' : Endpoint} {a : Act} (hw : e.Wf side)
    (h : Trans side e a e') : e'.Lined := by
  obtain ⟨hnodup, hsends⟩ := hw.lined
  cases h.lineChange with
  | same hline hnone =>
      refine ⟨hline ▸ hnodup, fun p hp => ?_⟩
      obtain ⟨b, hb⟩ := hsends p (hline ▸ hp)
      exact ⟨b, hw.sends_step h hb fun heq => hnone p (heq ▸ hb)⟩
  | @left q hq hline =>
      refine ⟨hline ▸ hnodup.erase q, fun p hp => ?_⟩
      obtain ⟨hne, hmem⟩ := hnodup.mem_erase_iff.1 (hline ▸ hp)
      obtain ⟨b, hb⟩ := hsends p hmem
      exact ⟨b, hw.sends_step h hb fun heq => hne (hb.unique (heq ▸ hq))⟩
  | @joined q hq hgone hroom hnew heq =>
      subst heq
      refine ⟨?_, fun p hp => ?_⟩
      · exact List.nodup_append.2 ⟨hnodup, List.nodup_singleton q, by grind⟩
      · rcases List.mem_append.1 hp with hmem | hmem
        · obtain ⟨b, hb⟩ := hsends p hmem
          exact ⟨b, hb.wait q⟩
        · obtain rfl := List.mem_singleton.1 hmem
          exact ⟨a, hq.wait p⟩

theorem Wf.step {side : Side} {e e' : Endpoint} {a : Act} (hw : e.Wf side)
    (h : Trans side e a e') : e'.Wf side where
  beyond := hw.beyond_step h
  mapped := hw.mapped_step h
  spawned := hw.spawned_step h
  blank := hw.blank_step h
  writer := hw.writer_step h
  opening := hw.opening_step h
  waiting := hw.waiting_step h
  gate := hw.gate_step h
  handling := hw.handling_step h
  dialing := hw.dialing_step h
  deliver := hw.deliver_step h
  writerGone := hw.writerGone_step h
  lined := hw.lined_step h

/-- Every reachable state is well formed. -/
theorem Wf.of_reaches {side : Side} {C : Endpoint → Act → Prop} {e : Endpoint}
    (h : Reaches (Endpoint.step side) C (init side) e) : e.Wf side :=
  h.invariant (wf_init side) fun _ hs hw => hw.step (trans_of_step hs)

/-! ## What only one side does -/

theorem Wf.not_accepting {e : Endpoint} (hw : e.Wf .connect) :
    e.acceptor ≠ .accepting := fun h => by
  rw [(hw.gate rfl).1] at h
  cases h

theorem Wf.not_opening {e : Endpoint} (hw : e.Wf .connect) (c : Nat) :
    e.acceptor ≠ .opening c := fun h => by
  rw [(hw.gate rfl).1] at h
  cases h

theorem Wf.not_registering {e : Endpoint} (hw : e.Wf .connect) (c : Nat) :
    e.acceptor ≠ .registering c := fun h => by
  rw [(hw.gate rfl).1] at h
  cases h

theorem Wf.not_dialing {e : Endpoint} (hw : e.Wf .listen) (f : Frame) :
    e.loop.pc ≠ .handling ⟨f, .dialing⟩ := fun h => by
  have hside := (hw.dialing f h).1
  cases hside

end Endpoint

end UsbWs
