import UsbWs.Reuse

/-!
# An endpoint since a mark

The invariants of a connection speak of an id that is used once. An id that
comes round again is not, but it is in a sense used once *since* nothing was
left of its earlier connections: from there on these are numbers without a
task, and their frames are entries of a log that nobody reads again.

`since k m e` is the endpoint `e` with that past under another id: the
connections and the log entries before the mark `m` that had id `k` are given
a different one. Nothing else changes, and nothing that still runs can tell
(`Trans.since`): a step of `e` is the same step of `since k m e`, as long as
the connections before the mark are gone (`Past`). At the mark itself no
connection and no frame of `since k m e` has id `k` at all (`Unused`), so every
invariant of `k` holds there as it does before the first connection.
-/

namespace UsbWs

open Runs

/-- The id itself, or another one where it is `k`. -/
def away (k i : ConnId) : ConnId :=
  if i = k then if k = 0 then 1 else 0 else i

theorem away_ne (k i : ConnId) : away k i ≠ k := by
  unfold away
  split
  · split
    · next hk => simp [hk]
    · next hk => exact fun h => hk h.symm
  · next hi => exact hi

theorem away_of_ne {k i : ConnId} (h : i ≠ k) : away k i = i := if_neg h

namespace Frame

def away (k : ConnId) : Frame → Frame
  | tcpOpen i => tcpOpen (UsbWs.away k i)
  | tcpData i payload => tcpData (UsbWs.away k i) payload
  | tcpClose i => tcpClose (UsbWs.away k i)

@[simp] theorem away_connId (k : ConnId) (f : Frame) :
    (f.away k).connId = UsbWs.away k f.connId := by cases f <;> rfl

theorem away_of_ne {k : ConnId} {f : Frame} (h : f.connId ≠ k) : f.away k = f := by
  cases f <;> simp only [connId] at h <;> simp only [away, UsbWs.away_of_ne h]

end Frame

def Conn.away (k : ConnId) (c : Conn) : Conn := { c with id := UsbWs.away k c.id }

theorem Conn.away_of_ne {k : ConnId} {c : Conn} (h : c.id ≠ k) : c.away k = c := by
  rw [Conn.away, UsbWs.away_of_ne h]

/-- How far an endpoint had come at some moment: how many connections it had,
how many frames it had received, and how many of its own its peer had. -/
structure Mark where
  conns : Nat
  rcvd : Nat
  sent : Nat

namespace Endpoint

variable {side : Side} {k : ConnId} {m : Mark} {e e' : Endpoint} {a : Act} {c : Nat}

def since (k : ConnId) (m : Mark) (e : Endpoint) : Endpoint :=
  { e with
    conns := fun c => if c < m.conns then (e.conns c).away k else e.conns c
    rcvd := KeyedLog.recast (Frame.away k) m.rcvd e.rcvd
    loop := { e.loop with dequeued := KeyedLog.recast (Frame.away k) m.sent e.loop.dequeued } }

/-! ## Connections that are gone -/

/-- No task of the connection runs, and the acceptor will start none. -/
structure Gone (e : Endpoint) (c : Nat) : Prop where
  reader : (e.conns c).reader.alive = false
  writer : (e.conns c).writer.alive = false
  opening : e.acceptor ≠ .opening c
  registering : e.acceptor ≠ .registering c

/-- A connection that is gone is left as it is. -/
theorem Gone.conn_eq (hw : e.Wf side) (hg : Gone e c) (hlt : c < e.numConns)
    (h : Trans side e a e') : e'.conns c = e.conns c := by
  have hrd := hg.reader
  have hwr := hg.writer
  cases h.connChange c with
  | same hc => exact hc
  | accepted hnew | dialled hnew => exact absurd hnew (Nat.ne_of_lt hlt)
  | registered hacc => exact absurd hacc hg.registering
  | @put f m hpc hc =>
      have hdone := Writer.eq_done (hw.deliver f c m hpc).2.2.1 hwr
      cases h with
      | deliver hpc' hne =>
          cases hpc.symm.trans hpc'
          exact absurd hdone hne
      | deliverGone | shutdownGone => rfl
      | wait hsends => cases hsends
  | own hv =>
      rcases alive_of_conn_step hv with halive | halive
      · cases hrd.symm.trans halive
      · cases hwr.symm.trans halive
  | sent hr | dropped hr | finished hr =>
      rw [hr] at hrd
      cases hrd
  | closed hend | removed hend =>
      rw [hend] at hwr
      cases hwr

theorem Gone.step (hw : e.Wf side) (hg : Gone e c) (hlt : c < e.numConns)
    (h : Trans side e a e') : Gone e' c := by
  have hconn := hg.conn_eq hw hlt h
  refine ⟨hconn ▸ hg.reader, hconn ▸ hg.writer, ?_, ?_⟩
  · cases h.acceptorChange with
    | same hsame => exact hsame ▸ hg.opening
    | accepted _ hopen =>
        rw [hopen]
        exact fun heq => absurd (Acceptor.opening.inj heq) (Nat.ne_of_gt hlt)
    | opened _ hacc | gone _ hacc | registered _ hacc => simp [hacc]
  · cases h.acceptorChange with
    | same hsame => exact hsame ▸ hg.registering
    | opened hacc hreg =>
        rw [hreg]
        exact fun heq => hg.opening (Acceptor.registering.inj heq ▸ hacc)
    | accepted _ hacc | gone _ hacc | registered _ hacc => simp [hacc]

/-- What a step has dequeued stays dequeued. -/
theorem Trans.prefix_dequeued (h : Trans side e a e') :
    e.loop.dequeued <+: e'.loop.dequeued := by
  cases h with
  | @loop ev l hev hl =>
      cases ev <;> simp only [Loop.event] at hl <;> split at hl <;> cases hl <;>
        simp [Loop.disconnect]
  | _ => exact List.prefix_rfl

/-- The endpoint has come past the mark, and the connections it had there with
id `k` are gone. -/
structure Past (k : ConnId) (m : Mark) (e : Endpoint) : Prop where
  conns : m.conns ≤ e.numConns
  rcvd : m.rcvd ≤ e.rcvd.length
  sent : m.sent ≤ e.loop.dequeued.length
  gone : ∀ c, c < m.conns → (e.conns c).id = k → Gone e c

theorem Past.step (hw : e.Wf side) (hp : Past k m e) (h : Trans side e a e') : Past k m e' where
  conns := Nat.le_trans hp.conns h.numConns_le
  rcvd := Nat.le_trans hp.rcvd h.prefix_rcvd.length_le
  sent := Nat.le_trans hp.sent h.prefix_dequeued.length_le
  gone := by
    intro c hc hck
    have hlt := Nat.lt_of_lt_of_le hc hp.conns
    exact (hp.gone c hc ((h.id_eq hlt).2 ▸ hck)).step hw hlt h

/-! ## Steps since the mark -/

@[simp] theorem since_map (i : ConnId) : (e.since k m).map i = e.map i := rfl
@[simp] theorem since_numConns : (e.since k m).numConns = e.numConns := rfl
@[simp] theorem since_acceptor : (e.since k m).acceptor = e.acceptor := rfl
@[simp] theorem since_pc : (e.since k m).loop.pc = e.loop.pc := rfl

theorem since_conns_of_ge (hc : m.conns ≤ c) : (e.since k m).conns c = e.conns c :=
  if_neg (Nat.not_lt.2 hc)

theorem since_conns_of_ne (hc : (e.conns c).id ≠ k) : (e.since k m).conns c = e.conns c := by
  simp [since, Conn.away_of_ne hc]

/-- Since the mark no connection before it has id `k`. -/
theorem since_id_ne (hc : c < m.conns) : ((e.since k m).conns c).id ≠ k := by
  simp only [since, if_pos hc]
  exact away_ne k _

/-- Only the id can differ. -/
theorem since_conns (k : ConnId) (m : Mark) (e : Endpoint) (c : Nat) :
    ∃ i, (e.since k m).conns c = { e.conns c with id := i } := by
  simp only [since]
  split
  · exact ⟨_, rfl⟩
  · exact ⟨(e.conns c).id, rfl⟩

@[simp] theorem since_reader : ((e.since k m).conns c).reader = (e.conns c).reader := by
  obtain ⟨i, hi⟩ := since_conns k m e c
  rw [hi]

@[simp] theorem since_writer : ((e.since k m).conns c).writer = (e.conns c).writer := by
  obtain ⟨i, hi⟩ := since_conns k m e c
  rw [hi]

/-- A connection that is not gone is after the mark, or has another id. -/
theorem Past.after_or_ne (hp : Past k m e) (hc : ¬ Gone e c) :
    m.conns ≤ c ∨ (e.conns c).id ≠ k := by
  by_cases hlt : c < m.conns
  · exact Or.inr fun hck => hc (hp.gone c hlt hck)
  · exact Or.inl (Nat.not_lt.1 hlt)

theorem Past.of_reader (hp : Past k m e) (hr : (e.conns c).reader.alive = true) :
    m.conns ≤ c ∨ (e.conns c).id ≠ k :=
  hp.after_or_ne fun hg => Bool.noConfusion (hg.reader.symm.trans hr)

theorem Past.of_writer (hp : Past k m e) (hwr : (e.conns c).writer.alive = true) :
    m.conns ≤ c ∨ (e.conns c).id ≠ k :=
  hp.after_or_ne fun hg => Bool.noConfusion (hg.writer.symm.trans hwr)

theorem since_conns_eq (hc : m.conns ≤ c ∨ (e.conns c).id ≠ k) :
    (e.since k m).conns c = e.conns c :=
  hc.elim since_conns_of_ge since_conns_of_ne

theorem since_enq (hs : m.sent ≤ e.loop.dequeued.length) :
    (e.since k m).enq = KeyedLog.recast (Frame.away k) m.sent e.enq :=
  (KeyedLog.recast_append hs).symm

theorem since_goto (pc : LoopPc Frame Handling) :
    (e.goto pc).since k m = (e.since k m).goto pc := rfl

theorem since_receive (hr : m.rcvd ≤ e.rcvd.length) (f : Frame) :
    (e.receive f).since k m = (e.since k m).receive f := by
  simp only [since, receive, KeyedLog.recast_append hr]

/-- Writing a connection that is not one of the past under its own id. -/
theorem since_setConn {v : Conn} (hc : m.conns ≤ c ∨ v.id ≠ k) :
    (e.setConn c v).since k m = (e.since k m).setConn c v := by
  simp only [since, setConn, Endpoint.mk.injEq, true_and, and_true]
  funext d
  by_cases hd : d = c
  · subst hd
    rcases hc with hge | hne
    · simp [Nat.not_lt.2 hge]
    · simp [Conn.away_of_ne hne]
  · simp [hd]

theorem since_newConn (hc : m.conns ≤ e.numConns) (i : ConnId) :
    (e.newConn i).since k m = (e.since k m).newConn i := by
  have hset := since_setConn (e := e) (k := k) (v := .fresh i) (Or.inl hc)
  exact congrArg (fun e' => { e' with numConns := e.numConns + 1 }) hset

theorem since_spawnConnection (hc : m.conns ≤ c ∨ (e.conns c).id ≠ k) :
    (e.spawnConnection c).since k m = (e.since k m).spawnConnection c := by
  rw [spawnConnection, spawnConnection, since_conns_eq hc]
  exact since_setConn hc

theorem since_event (hs : m.sent ≤ e.loop.dequeued.length) {ev : LoopEvent}
    {l : Loop Frame Frame Handling} (hl : e.loop.event id ev = some l) :
    (e.since k m).loop.event id ev = some ((e.setLoop l).since k m).loop := by
  cases ev with
  | dequeue | outClosed =>
      simp only [Loop.event] at hl
      split at hl <;> cases hl
      next hpc hq => simp [Loop.event, since, setLoop, hpc, hq, KeyedLog.recast_append hs]
  | _ =>
      simp only [Loop.event] at hl
      split at hl <;> cases hl <;>
        next hpc => simp [Loop.event, since, setLoop, hpc, Loop.disconnect]

/-- A task at a send stands there since the mark too. -/
theorem Sends.since {p : Sender} (h : Sends e a p) : Sends (e.since k m) a p := by
  cases h with
  | sendOpen hacc => exact .sendOpen hacc
  | sendClose hpc => exact .sendClose hpc
  | sendData hr => exact .sendData (since_reader.trans hr)
  | sendEnd hr => exact .sendEnd (since_reader.trans hr)

/-- A step past the mark is the same step since the mark. -/
theorem Trans.since (hw : e.Wf side) (hp : Past k m e) (h : Trans side e a e') :
    Trans side (e.since k m) a (e'.since k m) := by
  cases h with
  | loop hev hl => exact .loop hev (since_event hp.sent hl)
  | @accept i next hacc halloc =>
      have hnew := since_newConn (e := e.setNextId next) (k := k) hp.conns i
      have hstep : Trans side (e.since k m) .accept _ := .accept hacc halloc
      rwa [show (e.since k m).setNextId next = (e.setNextId next).since k m from rfl,
        ← hnew] at hstep
  | acceptFull hacc halloc => exact .acceptFull hacc halloc
  | wait hsends hgone hroom hnew => exact .wait hsends.since hgone hroom hnew
  | @sendOpen c hacc hgone hroom =>
      have hstep : Trans side (e.since k m) .sendOpen _ := .sendOpen hacc hgone hroom
      rwa [since_conns_eq (hp.after_or_ne fun hg => hg.opening hacc)] at hstep
  | sendOpenGone hacc hgone => exact .sendOpenGone hacc hgone
  | register hacc =>
      have hstep : Trans side (e.since k m) .register _ := .register hacc
      rwa [← since_spawnConnection (hp.after_or_ne fun hg => hg.registering hacc)] at hstep
  | recv hpc =>
      rw [since_goto, since_receive hp.rcvd]
      exact .recv hpc
  | dispatch hpc => exact .dispatch hpc
  | @dialOk f hpc =>
      have hnew := since_newConn (k := k) hp.conns f.connId
      have hstep : Trans side (e.since k m) .dialOk _ := .dialOk hpc
      rwa [← hnew, since_numConns, ← since_spawnConnection (Or.inl hp.conns)] at hstep
  | dialErr hpc => exact .dialErr hpc
  | @deliver f c msg hpc hne hroom =>
      have hc := hp.after_or_ne (c := c) fun hg =>
        hne (Writer.eq_done (hw.deliver f c msg hpc).2.2.1 hg.writer)
      have hstep : Trans side (e.since k m) .deliver _ :=
        .deliver hpc (by rwa [since_writer]) (by rwa [since_conns_eq hc])
      rw [since_conns_eq hc] at hstep
      rwa [since_goto, since_setConn (v := (e.conns c).put msg) hc]
  | deliverGone hpc hdone => exact .deliverGone hpc (since_writer.trans hdone)
  | shutdownGone hpc hdone => exact .shutdownGone hpc (since_writer.trans hdone)
  | removeGone hpc => exact .removeGone hpc
  | sendClose hpc hroom => exact .sendClose hpc hroom
  | @conn c b v hv =>
      have hc : m.conns ≤ c ∨ (e.conns c).id ≠ k :=
        (alive_of_conn_step hv).elim hp.of_reader hp.of_writer
      rw [since_setConn ((Conn.step_frame hv).1 ▸ hc)]
      exact .conn (by rwa [since_conns_eq hc])
  | @sendData c chunk hr hgone hroom =>
      have hc := hp.of_reader (c := c) (by rw [hr]; rfl)
      have hstep : Trans side (e.since k m) (.sendData c) _ :=
        .sendData (since_reader.trans hr) hgone hroom
      rw [since_conns_eq hc] at hstep
      rwa [since_setConn (v := { e.conns c with reader := .reading }) hc]
  | @sendDataGone c chunk hr hgone =>
      have hc := hp.of_reader (c := c) (by rw [hr]; rfl)
      have hstep : Trans side (e.since k m) (.sendData c) _ :=
        .sendDataGone (since_reader.trans hr) hgone
      rw [since_conns_eq hc] at hstep
      rwa [since_setConn (v := { e.conns c with reader := .closing }) hc]
  | @sendEnd c hr hgone hroom =>
      have hc := hp.of_reader (c := c) (by rw [hr]; rfl)
      have hstep : Trans side (e.since k m) (.sendEnd c) _ :=
        .sendEnd (since_reader.trans hr) hgone hroom
      rw [since_conns_eq hc] at hstep
      rwa [since_setConn (v := { e.conns c with reader := .done }) hc]
  | @sendEndGone c hr hgone =>
      have hc := hp.of_reader (c := c) (by rw [hr]; rfl)
      have hstep : Trans side (e.since k m) (.sendEnd c) _ :=
        .sendEndGone (since_reader.trans hr) hgone
      rw [since_conns_eq hc] at hstep
      rwa [since_setConn (v := { e.conns c with reader := .done }) hc]
  | @chanClosed c hrecv hq hno =>
      have hc := hp.of_writer (c := c) (by rw [hrecv]; rfl)
      have hno' : (e.since k m).noSender c = true := by
        rw [noSender, since_conns_eq hc]
        exact hno
      have hstep : Trans side (e.since k m) (.chanClosed c) _ :=
        .chanClosed (since_writer.trans hrecv) (by rwa [since_conns_eq hc]) hno'
      rw [since_conns_eq hc] at hstep
      rwa [since_setConn (v := { e.conns c with writer := .exiting }) hc]
  | @remove c hshut =>
      have hc := hp.of_writer (c := c) (by rw [hshut]; rfl)
      have hstep : Trans side (e.since k m) (.remove c) _ := .remove (since_writer.trans hshut)
      rw [since_conns_eq hc] at hstep
      rwa [since_setConn (v := { e.conns c with writer := .done }) hc]

/-! ## At the mark itself -/

/-- The mark of this moment, when the peer has received `p` frames. -/
def mark (p : Nat) (e : Endpoint) : Mark := ⟨e.numConns, e.rcvd.length, p⟩

/-- No connection has id `k`, and no frame sent or in hand. -/
structure Unused (k : ConnId) (e : Endpoint) : Prop where
  conns : ∀ c, c < e.numConns → (e.conns c).id ≠ k
  enq : ∀ f ∈ e.enq, f.connId ≠ k
  hand : ∀ p, e.loop.pc = .handling p → p.frame.connId ≠ k

/-- The connections with id `k` are gone, and none of its frames is in hand or
on its way. -/
structure Over (k : ConnId) (p : Nat) (e : Endpoint) : Prop where
  gone : ∀ c, c < e.numConns → (e.conns c).id = k → Gone e c
  hand : ∀ h, e.loop.pc = .handling h → h.frame.connId ≠ k
  sent : p ≤ e.loop.dequeued.length
  enq : ∀ f ∈ e.enq.drop p, f.connId ≠ k

section Over

variable {p : Nat} (ho : Over k p e)

theorem since_mark_rcvd : (e.since k (e.mark p)).rcvd = e.rcvd.map (Frame.away k) :=
  KeyedLog.recast_eq_map (by simp [mark])

theorem since_mark_id (hc : c < e.numConns) :
    ((e.since k (e.mark p)).conns c).id = away k (e.conns c).id :=
  congrArg Conn.id (if_pos hc)

theorem Known.since_mark {i : ConnId} (hk : Known side i e) :
    Known side (away k i) (e.since k (e.mark p)) := by
  cases side with
  | listen =>
      obtain ⟨c, hc, rfl, hacc⟩ := hk
      exact ⟨c, hc, since_mark_id hc, hacc⟩
  | connect =>
      simp only [Known, since_mark_rcvd]
      exact List.mem_map_of_mem hk

include ho

theorem Over.past : Past k (e.mark p) e :=
  ⟨Nat.le_refl _, Nat.le_refl _, ho.sent, ho.gone⟩

theorem Over.since_enq : (e.since k (e.mark p)).enq = e.enq.map (Frame.away k) :=
  (Endpoint.since_enq ho.sent).trans
    (KeyedLog.recast_eq_map fun f hf => Frame.away_of_ne (ho.enq f hf))

theorem Over.unused : Unused k (e.since k (e.mark p)) where
  conns := fun _ hc => since_id_ne hc
  enq := by
    rw [ho.since_enq]
    intro f hf
    obtain ⟨g, _, rfl⟩ := List.mem_map.1 hf
    rw [Frame.away_connId]
    exact away_ne k _
  hand := ho.hand

/-- A connection whose writer runs has another id. -/
theorem Over.id_ne (hc : c < e.numConns) (hwr : (e.conns c).writer.alive = true) :
    (e.conns c).id ≠ k :=
  fun hck => Bool.noConfusion ((ho.gone c hc hck).writer.symm.trans hwr)

theorem Over.wf (hw : e.Wf side) : (e.since k (e.mark p)).Wf side where
  beyond := by simpa using hw.beyond
  mapped := by
    intro i c hmap
    obtain ⟨hc, hid, halive⟩ := hw.mapped i c hmap
    rw [since_conns_of_ne (ho.id_ne hc halive)]
    exact ⟨hc, hid, halive⟩
  spawned := by simpa using hw.spawned
  blank := by
    intro c hun
    obtain ⟨i, hi⟩ := since_conns k (e.mark p) e c
    rw [hi]
    exact hw.blank c (since_reader.symm.trans hun)
  writer := by
    intro c
    obtain ⟨i, hi⟩ := since_conns k (e.mark p) e c
    rw [hi]
    exact hw.writer c
  opening := by simpa using hw.opening
  waiting := by simpa using hw.waiting
  gate := by simpa using hw.gate
  handling := by
    intro h hpc
    obtain ⟨r, hr⟩ := hw.handling h hpc
    refine ⟨r.map (Frame.away k), ?_⟩
    rw [since_mark_rcvd, hr, List.map_append, List.map_singleton,
      Frame.away_of_ne (ho.hand h hpc)]
  dialing := hw.dialing
  deliver := by
    intro f c msg hpc
    obtain ⟨hc, hid, hstart, hmsg⟩ := hw.deliver f c msg hpc
    refine ⟨hc, ?_, by rwa [since_writer], hmsg⟩
    rw [since_conns_of_ne (hid ▸ ho.hand _ hpc)]
    exact hid
  writerGone := by
    intro f hpc
    obtain ⟨c, hc, hid, hdone⟩ := hw.writerGone f hpc
    refine ⟨c, hc, ?_, since_writer.trans hdone⟩
    rw [since_conns_of_ne (hid ▸ ho.hand _ hpc)]
    exact hid
  lined := ⟨hw.lined.nodup, fun q hq => (hw.lined.sends q hq).imp fun _ hb => hb.since⟩

theorem Over.traced (ht : Traced side e) : Traced side (e.since k (e.mark p)) where
  enq := by
    rw [ho.since_enq]
    intro f hf
    obtain ⟨g, hg, rfl⟩ := List.mem_map.1 hf
    rw [Frame.away_connId]
    exact (ht.enq g hg).since_mark
  conn := by
    intro c hc hacc
    rw [since_mark_id (e := e) hc]
    exact (ht.conn c hc hacc).since_mark
  closing := by
    intro f hpc
    have hk := (ht.closing f hpc).since_mark (k := k) (p := p)
    rwa [away_of_ne (ho.hand _ hpc)] at hk

end Over

end Endpoint

end UsbWs
