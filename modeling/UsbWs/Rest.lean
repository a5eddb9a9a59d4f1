import UsbWs.Load
import UsbWs.Suspension

/-!
# An endpoint at rest

Sockets and users apart, the two processes and the relay go on by themselves:
they put what was read on the wire, look at what arrives, dial, write, and end
their tasks. Those steps come to an end (`Load`). This module says where an
endpoint is then.

No step of its own left but to receive (`Resting`), it waits in its `select!`
with an empty queue and nobody in line for it, every reader in its read or ended,
every writer waiting or ended (`Waits`); or it is stuck
(`Resting.select_or_stuck`).

`Accounted` is what the other side has then been told, besides what is known
of any run: a reader that ends says so, an accepted connection was announced,
and every OPEN of the gate has an answer.
-/

namespace UsbWs

open Runs

/-- A step of a task or of the relay by itself: nobody connects, no socket
brings anything, no write fails, the websocket stays up. -/
def Act.proceeds : Act → Bool
  | .accept | .conn _ (.read _) | .conn _ .readEnd | .conn _ .writeErr => false
  | .loop .dequeue | .loop .sendOk => true
  | .loop _ => false
  | _ => true

theorem Act.cost_lt_work {a : Act} (h : a.proceeds = true) : a.cost < a.work := by
  cases a with
  | loop ev => cases ev <;> first | exact Nat.zero_lt_one | cases h
  | conn c b => cases b <;> first | exact Nat.zero_lt_one | cases h
  | accept => cases h
  | _ => exact Nat.zero_lt_one

namespace Endpoint

variable {side : Side} {k : ConnId} {e e' : Endpoint} {a : Act}

/-! ## An endpoint whose own steps have ended -/

/-- No step of its own is left but to receive. -/
def Resting (side : Side) (e : Endpoint) : Prop :=
  ∀ a, Act.proceeds a = true → (∀ f, a ≠ .recv f) → e.step side a = none

/-- A writer that runs is waiting for a message, with none on its queue. -/
theorem Resting.writer (hr : Resting side e) {c : Nat} (halive : (e.conns c).writer.alive = true) :
    (e.conns c).writer = .recv ∧ (e.conns c).queue = [] := by
  have hconn : ∀ b, Act.proceeds (.conn c b) = true → (e.conns c).step b = none := fun b hb => by
    have hnone := hr (.conn c b) hb (by simp)
    simpa [step] using hnone
  cases hw : (e.conns c).writer with
  | unspawned | done => rw [hw] at halive; cases halive
  | recv =>
      refine ⟨rfl, ?_⟩
      cases hq : (e.conns c).queue with
      | nil => rfl
      | cons m rest =>
          have hpop := hconn .pop rfl
          cases m <;> simp [Conn.step, hw, hq] at hpop
  | writing rest =>
      cases rest with
      | nil =>
          have hwrote := hconn .wrote rfl
          simp [Conn.step, hw] at hwrote
      | cons b rest =>
          have hwrite := hconn (.write 1) rfl
          simp [Conn.step, hw] at hwrite
  | exiting =>
      have hshut := hconn .shutdown rfl
      simp [Conn.step, hw] at hshut
  | shut =>
      have hremove := hr (.remove c) rfl (by simp)
      simp [step, hw] at hremove

/-- Its session task waits for the websocket, unless it waits forever. -/
theorem Resting.select_or_stuck (hw : e.Wf side) (hr : Resting side e)
    (hup : e.loop.pc ≠ .connecting) (hlive : e.loop.pc ≠ .exited) :
    e.loop.pc = .select ∨ Stuck e := by
  cases hpc : e.loop.pc with
  | connecting => exact absurd hpc hup
  | exited => exact absurd hpc hlive
  | select => exact Or.inl rfl
  | sending f =>
      have hsend := hr (.loop .sendOk) rfl (by simp)
      simp [step, Loop.event, hpc] at hsend
  | handling p =>
      obtain ⟨f, point⟩ := p
      cases point with
      | start =>
          have hdispatch := hr .dispatch rfl (by simp)
          simp [step, hpc] at hdispatch
      | dialing =>
          have hdial := hr .dialOk rfl (by simp)
          simp [step, hpc] at hdial
      | deliver c m =>
          -- a full queue has a writer that could take a message
          obtain ⟨hfull, hdone⟩ := (deliver_eq_none_iff hpc).1 (hr .deliver rfl (by simp))
          have halive : (e.conns c).writer.alive = true := by
            cases hwr : (e.conns c).writer with
            | unspawned => exact absurd hwr (hw.deliver f c m hpc).2.2.1
            | done => exact absurd hwr hdone
            | _ => rfl
          rw [(hr.writer halive).2] at hfull
          exact absurd hfull (by decide)
      | writerGone =>
          have hremove := hr .removeGone rfl (by simp)
          simp [step, hpc] at hremove
      | sendClose =>
          have hclose := hr .sendClose rfl (by simp)
          cases hroom : e.outRoom .session with
          | true => simp [step, hpc, hroom] at hclose
          | false =>
              have hline : .session ∈ e.waiting := by
                simpa [step, hpc, hroom, lineUp] using hclose
              exact Or.inr ⟨⟨f, hpc⟩, hline, hroom⟩

theorem Sends.proceeds {p : Sender} (h : Sends e a p) : a.proceeds = true := by
  cases h <;> rfl

theorem outGone_of_select (hpc : e.loop.pc = .select) : e.outGone = false := by
  simp [outGone, hpc]

section AtSelect

variable (hr : Resting side e) (hpc : e.loop.pc = .select)

include hr hpc

theorem Resting.queue : e.loop.queue = [] := by
  cases hq : e.loop.queue with
  | nil => rfl
  | cons f rest =>
      have hdequeue := hr (.loop .dequeue) rfl (by simp)
      simp [step, Loop.event, hpc, hq] at hdequeue

/-- Nobody is in line: the first would have a slot. -/
theorem Resting.waiting (hw : e.Wf side) : e.waiting = [] := by
  cases hline : e.waiting with
  | nil => rfl
  | cons p rest =>
      obtain ⟨b, hb⟩ := hw.lined.sends p (hline ▸ List.mem_cons_self)
      have hroom : e.outRoom p = true := by
        rw [outRoom_eq_true, hr.queue hpc, hline]
        exact Line.served_head (by decide)
      obtain ⟨e', _, hs, _⟩ := hb.step_of_room side (outGone_of_select hpc) hroom
      have hnone : e.step side b = none := hr b hb.proceeds (by cases hb <;> simp)
      cases hnone.symm.trans hs

theorem Resting.outRoom (hw : e.Wf side) (p : Sender) : e.outRoom p = true :=
  outRoom_of_nil (hr.waiting hpc hw) (by rw [hr.queue hpc]; decide)

theorem Resting.acceptor (hw : e.Wf side) (c : Nat) :
    e.acceptor ≠ .opening c ∧ e.acceptor ≠ .registering c := by
  constructor
  · intro hacc
    have hopen := hr .sendOpen rfl (by simp)
    simp [step, hacc, outGone_of_select hpc, hr.outRoom hpc hw] at hopen
  · intro hacc
    have hregister := hr .register rfl (by simp)
    simp [step, hacc] at hregister

/-- A reader is in its read or has ended. -/
theorem Resting.reader (hw : e.Wf side) {c : Nat} (hc : c < e.numConns) :
    (e.conns c).reader = .reading ∨ (e.conns c).reader = .done := by
  cases hrd : (e.conns c).reader with
  | reading => exact Or.inl rfl
  | done => exact Or.inr rfl
  | unspawned =>
      rcases hw.waiting c hc ((hw.spawned c).1 hrd) with hacc | hacc | hexit
      · exact absurd hacc (hr.acceptor hpc hw c).1
      · exact absurd hacc (hr.acceptor hpc hw c).2
      · rw [hpc] at hexit
        cases hexit
  | sending chunk =>
      have hsend := hr (.sendData c) rfl (by simp)
      simp [step, hrd, outGone_of_select hpc, hr.outRoom hpc hw] at hsend
  | closing =>
      have hend := hr (.sendEnd c) rfl (by simp)
      simp [step, hrd, outGone_of_select hpc, hr.outRoom hpc hw] at hend

/-- A connection whose writer has not ended has its entry in the map. -/
theorem Resting.mapped (hw : e.Wf side) {c : Nat} (hc : c < e.numConns) :
    (e.conns c).writer = .recv ∧ (e.conns c).queue = [] ∧ e.map (e.conns c).id = some c ∨
      (e.conns c).writer = .done := by
  cases hdead : (e.conns c).writer.alive with
  | false =>
      refine Or.inr (Writer.eq_done (fun hun => ?_) hdead)
      rcases hr.reader hpc hw hc with hrd | hrd <;>
        rw [(hw.spawned c).2 hun] at hrd <;> cases hrd
  | true =>
      obtain ⟨hrecv, hq⟩ := hr.writer hdead
      refine Or.inl ⟨hrecv, hq, ?_⟩
      have hclosed := hr (.chanClosed c) rfl (by simp)
      simpa [step, hrecv, hq, noSender, holds, hpc] using hclosed

end AtSelect

/-- An endpoint that waits for others: its session task in the `select!` with
nothing to send, its acceptor in `accept`, every reader in its read and every
writer in its receive, unless they have ended. -/
structure Waits (e : Endpoint) : Prop where
  select : e.loop.pc = .select
  queue : e.loop.queue = []
  acceptor : e.acceptor = .accepting ∨ e.acceptor = .gone
  reader : ∀ c < e.numConns, (e.conns c).reader = .reading ∨ (e.conns c).reader = .done
  writer : ∀ c < e.numConns,
    (e.conns c).writer = .recv ∧ (e.conns c).queue = [] ∧ e.map (e.conns c).id = some c ∨
      (e.conns c).writer = .done

instance (e : Endpoint) : Decidable (Waits e) :=
  decidable_of_iff (e.loop.pc = .select ∧ e.loop.queue = [] ∧
      (e.acceptor = .accepting ∨ e.acceptor = .gone) ∧
      (∀ c < e.numConns, (e.conns c).reader = .reading ∨ (e.conns c).reader = .done) ∧
      ∀ c < e.numConns, (e.conns c).writer = .recv ∧ (e.conns c).queue = [] ∧
        e.map (e.conns c).id = some c ∨ (e.conns c).writer = .done)
    ⟨fun ⟨hpc, hq, hacc, hr, hw⟩ => ⟨hpc, hq, hacc, hr, hw⟩,
      fun h => ⟨h.select, h.queue, h.acceptor, h.reader, h.writer⟩⟩

theorem Resting.waits (hw : e.Wf side) (hr : Resting side e) (hpc : e.loop.pc = .select) :
    Waits e where
  select := hpc
  queue := hr.queue hpc
  acceptor := by
    cases hacc : e.acceptor with
    | accepting => exact Or.inl rfl
    | gone => exact Or.inr rfl
    | opening c => exact absurd hacc (hr.acceptor hpc hw c).1
    | registering c => exact absurd hacc (hr.acceptor hpc hw c).2
  reader := fun _ hc => hr.reader hpc hw hc
  writer := fun _ hc => hr.mapped hpc hw hc

/-- Its tasks take no step. -/
theorem Waits.step_conn (hw : e.Wf side) (h : Waits e) {c : Nat} {b : ConnAct}
    (hb : (Act.conn c b).proceeds = true) : (e.conns c).step b = none := by
  by_cases hc : c < e.numConns
  · have hreader := h.reader c hc
    rcases h.writer c hc with ⟨hrecv, hq, _⟩ | hdone
    · cases b <;> first | (simp [Conn.step, hrecv, hq]; done) | cases hb
    · cases b <;> first | (simp [Conn.step, hdone]; done) | cases hb
  · exact Conn.step_eq_none (hw.beyond c (by omega)).1 (hw.beyond c (by omega)).2

theorem Waits.resting (hw : e.Wf side) (h : Waits e) : Resting side e := by
  intro a ha hrecv
  by_contra henabled
  obtain ⟨e', hs⟩ := Option.ne_none_iff_exists'.1 henabled
  -- where a connection's task has started, it waits
  have hreader : ∀ c, (e.conns c).reader = .unspawned ∨ (e.conns c).reader = .reading ∨
      (e.conns c).reader = .done := fun c => by
    by_cases hc : c < e.numConns
    · exact Or.inr (h.reader c hc)
    · exact Or.inl (hw.beyond c (by omega)).1
  have hpc := h.select
  have hacc := h.acceptor
  cases trans_of_step hs with
  | @loop ev l hev hl =>
      cases ev with
      | dequeue => simp [Loop.event, hpc, h.queue] at hl
      | sendOk => simp [Loop.event, hpc] at hl
      | _ => cases ha
  | accept | acceptFull => cases ha
  | wait hsends =>
      cases hsends with
      | sendOpen hopen => simp [hopen] at hacc
      | sendClose hpc' => cases hpc.symm.trans hpc'
      | @sendData c _ hr | @sendEnd c hr =>
          have hr' := hreader c
          simp [hr] at hr'
  | sendOpen hopen | sendOpenGone hopen | register hopen => simp [hopen] at hacc
  | recv => exact absurd rfl (hrecv _)
  | dispatch hpc' | dialOk hpc' | dialErr hpc' | deliver hpc' | deliverGone hpc' | shutdownGone hpc'
  | removeGone hpc' | sendClose hpc' => cases hpc.symm.trans hpc'
  | conn hv => cases (h.step_conn hw ha).symm.trans hv
  | @sendData c _ hr | @sendDataGone c _ hr | @sendEnd c hr | @sendEndGone c hr =>
      have hr' := hreader c
      simp [hr] at hr'
  | @chanClosed c hrecv' hq hno =>
      have hc : c < e.numConns := by
        by_contra hge
        cases hrecv'.symm.trans (hw.beyond c (by omega)).2
      rcases h.writer c hc with ⟨_, _, hmap⟩ | hdone
      · simp [noSender, hmap] at hno
      · cases hrecv'.symm.trans hdone
  | @remove c hshut =>
      have hc : c < e.numConns := by
        by_contra hge
        cases hshut.symm.trans (hw.beyond c (by omega)).2
      rcases h.writer c hc with ⟨hrecv', _⟩ | hdone
      · cases hshut.symm.trans hrecv'
      · cases hshut.symm.trans hdone

/-! ## Where DATA comes from -/

theorem Trans.mem_reads (h : Trans side e a e') {c : Nat} (hlt : c < e.numConns) {chunk : Bytes}
    (hread : chunk ∈ (e.conns c).reads) : chunk ∈ (e'.conns c).reads := by
  cases h.connChange c with
  | accepted hnew | dialled hnew => exact absurd hnew (Nat.ne_of_lt hlt)
  | own hv =>
      rcases Conn.step_reader hv with ⟨_, _, _, _, hreads, _⟩ | ⟨_, _, hreads, _⟩ | ⟨_, hreads, _⟩
      · rw [hreads]
        exact List.mem_append_left _ hread
      · rwa [hreads]
      · rwa [hreads]
  | same hc | registered _ _ hc | put _ hc | sent _ _ hc | dropped _ _ hc | finished _ hc
  | closed _ _ hc | removed _ _ hc => simpa [hc] using hread

/-- What a reader has in its hands it has read, and a DATA frame is a chunk that
a connection with its id has read. -/
structure Sourced (e : Endpoint) : Prop where
  sending : ∀ c chunk, (e.conns c).reader = .sending chunk → chunk ∈ (e.conns c).reads
  data : ∀ k payload, .tcpData k payload ∈ e.enq →
    ∃ c < e.numConns, (e.conns c).id = k ∧ payload ∈ (e.conns c).reads

theorem sourced_init (side : Side) : Sourced (init side) := by
  constructor
  all_goals cases side <;> simp [init, Conn.fresh, enq, Loop.enqueued, Loop.init]

theorem Sourced.step (hw : e.Wf side) (hs : Sourced e) (h : Trans side e a e') : Sourced e' where
  sending := by
    intro c chunk hr'
    have hold := hs.sending c chunk
    cases h.connChange c with
    | own hv =>
        rcases Conn.step_reader hv with
          ⟨chunk', _, _, hr, hreads, _⟩ | ⟨_, hr, _⟩ | ⟨hr, hreads, _⟩
        · cases hr.symm.trans hr'
          rw [hreads]
          exact List.mem_append_right _ (List.mem_singleton_self _)
        · cases hr.symm.trans hr'
        · rw [hreads]
          exact hold (hr.symm.trans hr')
    | accepted _ _ _ hc | dialled _ _ _ hc | registered _ _ hc | sent _ _ hc
    | dropped _ _ hc | finished _ hc =>
        rw [hc] at hr'
        cases hr'
    | same hc | put _ hc | closed _ _ hc | removed _ _ hc =>
        rw [hc] at hr' ⊢
        exact hold hr'
  data := by
    intro k payload hmem
    have hkept : ∀ c, c < e.numConns → (e.conns c).id = k → payload ∈ (e.conns c).reads →
        ∃ c < e'.numConns, (e'.conns c).id = k ∧ payload ∈ (e'.conns c).reads :=
      fun c hc hck hread => by
        obtain ⟨hc', hid⟩ := h.id_eq hc
        exact ⟨c, hc', hid.trans hck, h.mem_reads hc hread⟩
    have hold : .tcpData k payload ∈ e.enq →
        ∃ c < e'.numConns, (e'.conns c).id = k ∧ payload ∈ (e'.conns c).reads := fun hmem => by
      obtain ⟨c, hc, hck, hread⟩ := hs.data k payload hmem
      exact hkept c hc hck hread
    rcases h.emits with henq | ⟨f, henq, hem⟩
    · exact hold (henq ▸ hmem)
    · rw [henq, List.mem_append, List.mem_singleton] at hmem
      rcases hmem with hmem | rfl
      · exact hold hmem
      · generalize hf : Frame.tcpData k payload = f at hem
        cases hem with
        | @data c chunk hr hconns =>
            cases hf
            have hc : c < e.numConns := by
              by_contra hge
              rw [(hw.beyond c (by omega)).1] at hr
              cases hr
            exact hkept c hc rfl (hs.sending c _ hr)
        | acceptor | close | session => cases hf

/-! ## What has been said so far -/

/-- A socket that has ended has ended its reader, which says so with a CLOSE; a
connection the acceptor is done with was announced by an OPEN; an OPEN of the
gate was answered by a connection or a CLOSE, or is in hand. -/
structure Accounted (side : Side) (e : Endpoint) : Prop where
  ended : ∀ c, (e.conns c).eof = true →
    (e.conns c).reader = .closing ∨ (e.conns c).reader = .done
  closed : ∀ c, (e.conns c).reader = .done →
    .tcpClose (e.conns c).id ∈ e.enq ∨ e.loop.pc = .exited
  announced : side = .listen → ∀ c, c < e.numConns → e.acceptor ≠ .opening c →
    .tcpOpen (e.conns c).id ∈ e.enq ∨ e.loop.pc = .exited
  answered : side = .connect → ∀ k, .tcpOpen k ∈ e.rcvd →
    (∃ c < e.numConns, (e.conns c).id = k) ∨ .tcpClose k ∈ e.enq ∨
      ∃ p, e.loop.pc = .handling ⟨.tcpOpen k, p⟩

theorem accounted_init (side : Side) : Accounted side (init side) := by
  constructor
  all_goals cases side <;> simp [init, Conn.fresh]

theorem Trans.mem_enq (h : Trans side e a e') {f : Frame} (hf : f ∈ e.enq) : f ∈ e'.enq := by
  rcases h.emits with henq | ⟨g, henq, _⟩
  · exact henq ▸ hf
  · rw [henq]
    exact List.mem_append_left _ hf

theorem Accounted.ended_step (hw : e.Wf side) (ha : Accounted side e) (h : Trans side e a e') :
    ∀ c, (e'.conns c).eof = true →
      (e'.conns c).reader = .closing ∨ (e'.conns c).reader = .done := by
  intro c heof
  have hold := ha.ended c
  cases h.connChange c with
  | own hv =>
      rcases Conn.step_reader hv with ⟨_, _, hr, _, _, hkept⟩ | ⟨_, hr, _⟩ | ⟨hr, _, hkept⟩
      · rcases hold (hkept.symm.trans heof) with hend | hend <;> cases hend.symm.trans hr
      · exact Or.inl hr
      · exact hr ▸ hold (hkept.symm.trans heof)
  | accepted _ _ _ hc | dialled _ _ _ hc => simp [hc] at heof
  | registered hacc _ hc =>
      -- its reader had not started
      rw [hc] at heof
      have hun := (hw.spawned c).2 (hw.opening c (Or.inr hacc)).2
      rcases hold heof with hend | hend <;> cases hend.symm.trans hun
  | sent hr _ hc =>
      rw [hc] at heof
      rcases hold heof with hend | hend <;> cases hend.symm.trans hr
  | dropped hr _ hc => exact Or.inl (by rw [hc])
  | finished hr hc => exact Or.inr (by rw [hc])
  | same hc | put _ hc | closed _ _ hc | removed _ _ hc =>
      rw [hc] at heof ⊢
      exact hold heof

theorem Accounted.closed_step (ha : Accounted side e) (h : Trans side e a e') :
    ∀ c, (e'.conns c).reader = .done →
      .tcpClose (e'.conns c).id ∈ e'.enq ∨ e'.loop.pc = .exited := by
  intro c hdone
  -- it is enough that the reader had ended before, under the same id
  have hold : (e.conns c).reader = .done → (e'.conns c).id = (e.conns c).id →
      .tcpClose (e'.conns c).id ∈ e'.enq ∨ e'.loop.pc = .exited := fun hdone₀ hid => by
    rcases ha.closed c hdone₀ with hclose | hexit
    · exact Or.inl (hid ▸ h.mem_enq hclose)
    · exact Or.inr (h.exited hexit)
  cases h.connChange c with
  | accepted _ _ _ hc | dialled _ _ _ hc | registered _ _ hc | sent _ _ hc | dropped _ _ hc =>
      rw [hc] at hdone
      cases hdone
  | own hv =>
      rcases Conn.step_reader hv with ⟨_, _, _, hr, _⟩ | ⟨_, hr, _⟩ | ⟨hr, _⟩
      · cases hr.symm.trans hdone
      · cases hr.symm.trans hdone
      · exact hold (hr.symm.trans hdone) (Conn.step_frame hv).1
  | finished hr hc =>
      cases h with
      | wait => cases hr.symm.trans hdone
      | sendEnd _ hgone hroom => exact Or.inl (by simp)
      | sendEndGone _ hgone => exact Or.inr (by simpa [outGone] using hgone)
  | same hc | put _ hc | closed _ _ hc | removed _ _ hc =>
      rw [hc] at hdone
      exact hold hdone (by simp [hc])

theorem Accounted.announced_step (hw : e.Wf side) (ha : Accounted side e)
    (h : Trans side e a e') : side = .listen → ∀ c, c < e'.numConns → e'.acceptor ≠ .opening c →
      .tcpOpen (e'.conns c).id ∈ e'.enq ∨ e'.loop.pc = .exited := by
  rintro rfl c hlt' hacc'
  by_cases hlt : c < e.numConns
  · rw [(h.id_eq hlt).2]
    by_cases hacc : e.acceptor = .opening c
    · -- the acceptor has just got through its `send_peer`
      cases h.acceptorChange with
      | same hsame => exact absurd (hsame.trans hacc) hacc'
      | @opened d hopen hreg =>
          obtain rfl : d = c := by simpa using hopen.symm.trans hacc
          cases h with
          | sendOpen hopen' => cases hopen.symm.trans hopen'; exact Or.inl (by simp)
          | sendOpenGone => cases hreg
          | wait => cases hopen.symm.trans hreg
      | gone hopen hgone hexit => exact Or.inr hexit
      | accepted hother | registered hother => cases hother.symm.trans hacc
    · rcases ha.announced rfl c hlt hacc with hopen | hexit
      · exact Or.inl (h.mem_enq hopen)
      · exact Or.inr (h.exited hexit)
  · obtain ⟨rfl, _, _, hmakes⟩ := h.makes hlt' hlt
    cases hmakes with
    | accepted _ hopening => exact absurd hopening hacc'
    | dialled hpc => exact absurd hpc (hw.not_dialing _)

/-- An OPEN that the gate has in hand is in hand after the step, or answered. -/
theorem Trans.answers (hw : e.Wf .connect) (h : Trans .connect e a e') {p : Point}
    (hpc : e.loop.pc = .handling ⟨.tcpOpen k, p⟩) :
    (∃ c < e'.numConns, (e'.conns c).id = k) ∨ .tcpClose k ∈ e'.enq ∨
      ∃ p, e'.loop.pc = .handling ⟨.tcpOpen k, p⟩ := by
  cases h with
  | loop hev hl => exact absurd hpc ((Loop.event_frame hl).1 _)
  | recv hpc' => cases hpc'.symm.trans hpc
  | dispatch hpc' =>
      cases hpc'.symm.trans hpc
      exact Or.inr (Or.inr ⟨.dialing, rfl⟩)
  | dialOk hpc' =>
      cases hpc'.symm.trans hpc
      exact Or.inl ⟨e.numConns, by simp, by simp [Frame.connId]⟩
  | dialErr hpc' =>
      cases hpc'.symm.trans hpc
      exact Or.inr (Or.inr ⟨.sendClose, rfl⟩)
  | deliver hpc' | deliverGone hpc' | shutdownGone hpc' =>
      -- an OPEN is not delivered
      cases hpc'.symm.trans hpc
      cases (hw.deliver _ _ _ hpc').2.2.2
  | removeGone hpc' =>
      cases hpc'.symm.trans hpc
      obtain ⟨c, hc, hck, _⟩ := hw.writerGone _ hpc'
      exact Or.inl ⟨c, by simpa using hc, by simpa [Frame.connId] using hck⟩
  | sendClose hpc' hroom =>
      cases hpc'.symm.trans hpc
      exact Or.inr (Or.inl (by simp [Frame.connId]))
  | accept | acceptFull | wait | sendOpen | sendOpenGone | register | conn | sendData
  | sendDataGone | sendEnd | sendEndGone | chanClosed | remove =>
      exact Or.inr (Or.inr ⟨p, hpc⟩)

theorem Accounted.answered_step (hw : e.Wf side) (ha : Accounted side e)
    (h : Trans side e a e') : side = .connect → ∀ k, .tcpOpen k ∈ e'.rcvd →
      (∃ c < e'.numConns, (e'.conns c).id = k) ∨ .tcpClose k ∈ e'.enq ∨
        ∃ p, e'.loop.pc = .handling ⟨.tcpOpen k, p⟩ := by
  rintro rfl k hopen
  have hold : .tcpOpen k ∈ e.rcvd → (∃ c < e'.numConns, (e'.conns c).id = k) ∨
      .tcpClose k ∈ e'.enq ∨ ∃ p, e'.loop.pc = .handling ⟨.tcpOpen k, p⟩ := fun hopen => by
    rcases ha.answered rfl k hopen with ⟨c, hc, hck⟩ | hclose | ⟨p, hpc⟩
    · obtain ⟨hc', hid⟩ := h.id_eq hc
      exact Or.inl ⟨c, hc', hid.trans hck⟩
    · exact Or.inr (Or.inl (h.mem_enq hclose))
    · exact h.answers hw hpc
  rcases h.rcvd_eq with heq | ⟨f, rfl, heq⟩
  · exact hold (heq ▸ hopen)
  · rw [heq, List.mem_append, List.mem_singleton] at hopen
    rcases hopen with hopen | rfl
    · exact hold hopen
    · cases h with
      | recv hpc => exact Or.inr (Or.inr ⟨.start, rfl⟩)
      | wait hsends => cases hsends

theorem Accounted.step (hw : e.Wf side) (ha : Accounted side e) (h : Trans side e a e') :
    Accounted side e' where
  ended := ha.ended_step hw h
  closed := ha.closed_step h
  announced := ha.announced_step hw h
  answered := ha.answered_step hw h

/-! ## What a step that proceeds leaves as it is -/

/-- It leaves the websocket up and the session running. -/
theorem Trans.up_of_proceeds (h : Trans side e a e') (ha : a.proceeds = true)
    (hup : e.loop.pc ≠ .connecting ∧ e.loop.pc ≠ .exited) :
    e'.loop.pc ≠ .connecting ∧ e'.loop.pc ≠ .exited := by
  cases h with
  | @loop ev l hev hl =>
      cases ev with
      | dequeue | sendOk =>
          simp only [Loop.event] at hl
          split at hl <;> cases hl
          simp
      | _ => cases ha
  | @dispatch f hpc =>
      rcases dispatchPc_cases side e.map f with ⟨hd, _⟩ | ⟨hd, _⟩ | ⟨_, _, hd, _⟩ <;> simp [hd]
  | recv | dialOk | dialErr | deliver | deliverGone | shutdownGone | removeGone | sendClose => simp
  | _ => exact hup

/-- At home it accepts nothing. -/
theorem Trans.numConns_of_proceeds (hw : e.Wf .listen) (h : Trans .listen e a e')
    (ha : a.proceeds = true) : e'.numConns = e.numConns := by
  cases h with
  | accept => cases ha
  | dialOk hpc => exact absurd hpc (hw.not_dialing _)
  | _ => rfl

/-- No write fails in it. -/
theorem NoWriteFailed.of_proceeds (hf : NoWriteFailed k e) (h : Trans side e a e')
    (ha : a.proceeds = true) : NoWriteFailed k e' := by
  intro c hlt' hck'
  have hold : c < e.numConns → (e.conns c).writeFailed = false := fun hlt =>
    hf c hlt ((h.id_eq hlt).2 ▸ hck')
  by_cases hlt : c < e.numConns
  · cases h.connChange c with
    | accepted hnew | dialled hnew => exact absurd hnew (Nat.ne_of_lt hlt)
    | @own b hv =>
        have hb : b ≠ .writeErr := fun heq => by
          subst heq
          cases ha
        exact (Conn.step_writeFailed hv hb).trans (hold hlt)
    | same hc | registered _ _ hc | put _ hc | sent _ _ hc | dropped _ _ hc | finished _ hc
    | closed _ _ hc | removed _ _ hc => simpa [hc] using hold hlt
  · obtain ⟨rfl, _, _, hmakes⟩ := h.makes hlt' hlt
    cases hmakes with
    | accepted _ _ _ _ hnew | dialled _ _ hnew => simp [hnew]

end Endpoint

end UsbWs
