import UsbWs.Registration

/-!
# The stream from gate to home

The other way of the same connection. What the gate reads from the socket it
dialled passes through its own outbound queue, the relay and home's session
loop, to the writer of the connection that home accepted.

Two things differ from the way out. The gate knows an id only from the OPEN it
was sent, so its first frame for the id comes after that (`Unanswered`); then
what it enqueues is what its reader read, whatever fails. And home enters a
connection in its map only after it has announced it: it routes what it
receives where no frame is looked up too early (`routed_home`).
-/

namespace UsbWs

open Runs

namespace Endpoint

variable {k : ConnId} {e e' : Endpoint} {a : Act}

/-- The gate has said nothing yet for an OPEN it is still to dial for. -/
def Unanswered (k : ConnId) (e : Endpoint) : Prop :=
  ∀ p, e.loop.pc = .handling ⟨.tcpOpen k, p⟩ → p = .start ∨ p = .dialing →
    framesFor k e.enq = []

theorem Unanswered.step (hw : e.Wf .connect) (ht : Traced .connect e) (ho : OpenedOnce k e)
    (hun : Unanswered k e) (h : Trans .connect e a e')
    (hcount : e'.rcvd.count (.tcpOpen k) ≤ 1) : Unanswered k e' := by
  intro p hp hpoint
  generalize hq : (⟨.tcpOpen k, p⟩ : Handling) = q at hp
  cases h.comes hp with
  | stay hpc hrcvd =>
      subst hq
      have hnil := hun p hpc hpoint
      rcases h.emits with henq | ⟨f, henq, hem⟩
      · rw [henq]
        exact hnil
      · -- no connection has the id yet, so no task of one speaks under it
        have hnone : ∀ c, (e.conns c).reader ≠ .unspawned → (e.conns c).id ≠ k := by
          intro c hstart
          have hlt : c < e.numConns := by
            by_contra hge
            exact hstart (hw.beyond c (by omega)).1
          exact ho.fresh p hpc hpoint c hlt
        have hfk : f.connId ≠ k := by
          cases hem with
          | acceptor hacc => exact absurd hacc (hw.not_opening _)
          | @data c chunk hr => exact hnone c (by simp [hr])
          | @close c hr => exact hnone c (by simp [hr])
          | session _ hsel => cases hsel.symm.trans hp
        rw [henq, framesFor, KeyedLog.on_append, KeyedLog.on_singleton_ne hfk, List.append_nil]
        exact hnil
  | recv hpc hrcvd henq =>
      cases hq
      rw [henq]
      exact KeyedLog.on_eq_nil.2 fun f hf hfk => not_reopened hcount hrcvd (hfk ▸ ht.enq f hf)
  | @dial f hpc hrcvd hside hf =>
      cases hq
      have henq : e'.enq = e.enq := by
        cases h with
        | dispatch => rfl
        | wait hsends => cases hsends
      rw [henq]
      exact hun .start hpc (Or.inl rfl)
  | deliver | gone | close => cases hq; simp at hpoint

/-- What the gate has put on its queue for an id is what its reader has read. -/
structure Answers (k : ConnId) (e : Endpoint) : Prop where
  unanswered : Unanswered k e
  sent : ∀ j, j < e.numConns → (e.conns j).id = k → SentOk k j e

theorem answers_init (k : ConnId) : Answers k (init .connect) where
  unanswered := by simp [Unanswered, init, Loop.init]
  sent := by simp [init]

theorem Answers.step (hw : e.Wf .connect) (ht : Traced .connect e) (ho : OpenedOnce k e)
    (hs : Answers k e) (h : Trans .connect e a e') (ho' : OpenedOnce k e')
    (hcount : e'.rcvd.count (.tcpOpen k) ≤ 1) : Answers k e' where
  unanswered := hs.unanswered.step hw ht ho h hcount
  sent := by
    intro j hj hid
    by_cases hlt : j < e.numConns
    · have hid₀ : (e.conns j).id = k := (h.id_eq hlt).2 ▸ hid
      exact (hs.sent j hlt hid₀).step_old hw h ho'.used hlt hid₀
    · refine SentOk.step_new hw ht h ho'.used (fun f hpc hfk => ?_) hj hlt hid
      have hf := (hw.dialing f hpc).2
      rw [hfk] at hf
      exact hs.unanswered .dialing (hf ▸ hpc) (Or.inr rfl)

end Endpoint

namespace Tunnel

open Endpoint

variable {k : ConnId} {t t' : Tunnel}

/-- In one relay session the gate says for an id that home uses once what its
reader has read, whatever fails. -/
theorem answers (h : Reaches step (fun t sa => oneSession t sa = true) init t)
    (hu : UsedOnce k t.home) : Answers k t.gate := by
  have hback : ∀ {t sa t'}, step t sa = some t' → UsedOnce k t'.home → UsedOnce k t.home :=
    fun hs => usedOnce_of_step hs
  refine h.invariant_of (I := fun t => Answers k t.gate) hback (fun _ => answers_init k) ?_ hu
  rintro t ⟨s, a⟩ t' hreach hC hs hu hi
  have hup := upstream hreach (usedOnce_of_step hs hu)
  have hup' := upstream (hreach.tail hC hs) hu
  have hlink := rcvd_prefix_enq (hreach.tail hC hs)
  obtain ⟨e, htr, rfl, _⟩ := trans_of_step hs
  cases s with
  | listen => exact hi
  | connect =>
      have hcount : e.rcvd.count (.tcpOpen k) ≤ 1 := by
        have hpre := hlink .connect
        rw [put_ends_self] at hpre
        exact OpensFirst.count_le (hup'.opensFirst.of_isPrefix hpre)
      exact hi.step (hup.wf .connect) (hup.traced .connect) hup.opened htr hup'.opened hcount

section Home

variable {n j : Nat}

section Link

variable (hup : Upstream k t) (hrouted : Routed k n t.home)
  (hlink : (t.ends .listen).rcvd <+: (t.ends .connect).enq) (hj : j < t.gate.numConns)
  (hjk : (t.gate.conns j).id = k)

include hrouted hlink

/-- Home's writer takes what the gate has enqueued for its id. -/
theorem got_prefix_msgsFor : (t.home.conns n).got <+: msgsFor k t.gate.enq :=
  ((List.prefix_append _ _).trans hrouted.prefix_msgsFor).trans (prefix_msgsFor hlink)

include hup hj hjk

theorem Upstream.home_prefix_written (hans : Answers k t.gate) :
    (t.home.conns n).written <+: (t.gate.conns j).reads.flatten := by
  have hsent := hans.sent j hj hjk
  have hwr := (hup.wf .listen).writer n
  have hbytes := (got_prefix_msgsFor hrouted hlink).flatMap WrMsg.bytes
  rw [flatMap_bytes_msgsFor] at hbytes
  exact (hwr.prefix_written.trans hbytes).trans hsent.prefix_reads.flatten

theorem Orderly.home_written_eq (ho : Orderly k t) (hnk : (t.home.conns n).id = k)
    (hok : (t.home.conns n).writeFailed = false)
    (hpast : (t.home.conns n).writer.pastLoop = true) :
    (t.gate.conns j).eof = true ∧
      (t.home.conns n).written = (t.gate.conns j).reads.flatten := by
  have hgot := got_prefix_msgsFor hrouted hlink
  have hshut : .shutdown ∈ (t.home.conns n).got :=
    (hup.mapped .listen).shutdown_of_pastLoop hnk hok hpast
  have hclose : Frame.tcpClose k ∈ t.gate.enq := shutdown_mem_msgsFor.1 (hgot.mem hshut)
  have hap : Apart .connect k t.gate := (ho.disciplined .connect).apart
  obtain ⟨_, heof, hall⟩ := hap.closed hclose j hj hjk
  refine ⟨heof, ?_⟩
  -- the writer took the `Shutdown`, which is the last that the gate enqueued
  have hgotAll : (t.home.conns n).got = msgsFor k t.gate.enq := by
    obtain ⟨rest, hrest⟩ := hgot
    have hpair := pairwise_msgsFor hap.closesLast
    rw [← hrest, List.pairwise_append] at hpair
    cases rest with
    | nil => simpa using hrest
    | cons m rest => exact absurd rfl (hpair.2.2 _ hshut m (by simp))
  have hwritten : (t.home.conns n).written = (t.home.conns n).got.flatMap WrMsg.bytes :=
    ((hup.wf .listen).writer n).written_eq hpast hok
  rw [hwritten, hgotAll, flatMap_bytes_msgsFor]
  exact congrArg List.flatten hall

end Link

variable (h : Reaches step (fun t sa => answersRegistered t sa = true) init t)
  (hn : n < t.home.numConns) (hu : UsedOnce (t.home.conns n).id t.home)
  (hj : j < t.gate.numConns) (hid : (t.gate.conns j).id = (t.home.conns n).id)

include h hn hu hj hid

theorem home_prefix_written : (t.home.conns n).written <+: (t.gate.conns j).reads.flatten := by
  have hone := h.weaken fun _ _ hC => oneSession_of_registered hC
  exact (upstream hone hu).home_prefix_written (routed_home h hu n hn rfl)
    (rcvd_prefix_enq hone .listen) hj hid (answers hone hu)

theorem home_written_eq (hf : NoWriteFailed (t.home.conns n).id t)
    (hpast : (t.home.conns n).writer.pastLoop = true) :
    (t.gate.conns j).eof = true ∧
      (t.home.conns n).written = (t.gate.conns j).reads.flatten := by
  have hone := h.weaken fun _ _ hC => oneSession_of_registered hC
  have hok : (t.home.conns n).writeFailed = false := hf .listen n hn rfl
  exact (orderly hone hu hf).home_written_eq (upstream hone hu) (routed_home h hu n hn rfl)
    (rcvd_prefix_enq hone .listen) hj hid rfl hok hpast

end Home

/-- Gate to home, in one relay session in which no frame is looked up before
its connection is registered, for an accepted connection whose id is used once:
what was written to its socket is a prefix of what was read from the socket the
gate dialled for it. And where no write fails, home's writer leaves its loop
only after that socket has ended, with the two byte sequences equal. -/
theorem gate_to_home_integrity {t : Tunnel}
    (h : Reaches step (fun t sa => answersRegistered t sa = true) init t) {n j : Nat}
    (hn : n < t.home.numConns) (hu : UsedOnce (t.home.conns n).id t.home)
    (hj : j < t.gate.numConns) (hid : (t.gate.conns j).id = (t.home.conns n).id) :
    (t.home.conns n).written <+: (t.gate.conns j).reads.flatten ∧
      (NoWriteFailed (t.home.conns n).id t → (t.home.conns n).writer.pastLoop = true →
        (t.gate.conns j).eof = true ∧
          (t.home.conns n).written = (t.gate.conns j).reads.flatten) :=
  ⟨home_prefix_written h hn hu hj hid, home_written_eq h hn hu hj hid⟩

/-- A connection is opened and registered, the gate's socket answers one byte
and ends, and home writes it. -/
def answeredRun : List (Side × Act) :=
  openedRun ++ [(.listen, .register), (.connect, .dialOk), (.connect, .conn 0 (.read [9])),
    (.connect, .sendData 0), (.connect, .conn 0 .readEnd), (.connect, .sendEnd 0),
    (.connect, .loop .dequeue), (.connect, .loop .sendOk), (.connect, .loop .dequeue),
    (.connect, .loop .sendOk), (.listen, .recv (.tcpData 0 [9])), (.listen, .dispatch),
    (.listen, .deliver), (.listen, .recv (.tcpClose 0)), (.listen, .dispatch),
    (.listen, .deliver), (.listen, .conn 0 .pop), (.listen, .conn 0 (.write 1)),
    (.listen, .conn 0 .wrote), (.listen, .conn 0 .pop)]

theorem gate_to_home_integrity_answered :
    ∃ t, Reaches step (fun t sa => answersRegistered t sa = true) init t ∧
      (t.gate.conns 0).reads = [[9]] ∧
      (t.home.conns 0).written <+: (t.gate.conns 0).reads.flatten ∧
      (t.home.conns 0).written = (t.gate.conns 0).reads.flatten := by
  have hrun : (run (guarded step fun t sa => answersRegistered t sa = true) init
      answeredRun).any (fun t => t.home.numConns = 1 ∧ t.gate.numConns = 1 ∧
        (t.gate.conns 0).id = (t.home.conns 0).id ∧ (t.home.conns 0).writer = .exiting ∧
        (t.gate.conns 0).reads = [[9]] ∧ (t.home.conns 0).writeFailed = false ∧
        (t.gate.conns 0).writeFailed = false) = true := by
    decide
  obtain ⟨t, h, hp⟩ := exists_of_run_any hrun
  simp only [decide_eq_true_eq] at hp
  obtain ⟨hhome, hgate, hid, hexit, hreads, hokh, hokg⟩ := hp
  have hf : NoWriteFailed (t.home.conns 0).id t := noWriteFailed_of_single hhome hgate hokh hokg
  have hboth := gate_to_home_integrity h (by omega) (usedOnce_of_single hhome) (by omega) hid
  exact ⟨t, h, hreads, hboth.1, (hboth.2 hf (by rw [hexit]; rfl)).2⟩

end Tunnel

end UsbWs
