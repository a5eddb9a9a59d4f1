import UsbWs.Registration
import UsbWs.Rest

/-!
# The tunnel at rest

Where no step of the two processes and the relay is left, nothing flies and
both sides wait (`atRest_iff`). Then, for a connection whose id is used once
and of which no write failed, nothing is under way either: what was read on
either side has been written on the other, a half that has ended is shut on
the other side too, and a connection the gate did not get is shut at home
(`complete_of_atRest`). It holds after runs in which home looks no frame up
before its connection is registered; an answer that comes earlier is lost.

`comes_to_rest` adds that the tunnel gets there, however its tasks are
scheduled, unless a session task waits forever for a slot of its own queue.
-/

namespace UsbWs

open Runs

namespace Tunnel

open Endpoint

variable {k : ConnId} {t t' : Tunnel} {s : Side}

/-! ## A tunnel at rest -/

/-- Both sides wait in their `select!`, and nothing goes on by itself. -/
structure AtRest (t : Tunnel) : Prop where
  select : ∀ s, (t.ends s).loop.pc = .select
  settled : Settled step (fun _ sa => sa.2.proceeds = true) t

/-- Where nothing goes on by itself, nothing does on either side. -/
theorem resting_of_settled (hr : Settled step (fun _ sa => sa.2.proceeds = true) t) (s : Side) :
    Resting s (t.ends s) := by
  intro a ha hrecv
  have hnone := hr (s, a) ha
  have harr : t.arrives s a = true := by
    cases a with
    | recv f => exact absurd rfl (hrecv f)
    | _ => rfl
  simpa [step, harr] using hnone

theorem AtRest.resting (hr : AtRest t) (s : Side) : Resting s (t.ends s) :=
  resting_of_settled hr.settled s

/-- At rest all that was sent has arrived. -/
theorem AtRest.rcvd_eq_sent (hr : AtRest t) (h : Reaches step Free init t) (s : Side) :
    (t.ends s).rcvd = (t.ends s.peer).loop.sent := by
  obtain ⟨rest, hrest⟩ := rcvd_prefix_sent h s
  cases rest with
  | nil => simpa using hrest
  | cons f rest =>
      have hnext : (t.ends s.peer).loop.sent[(t.ends s).rcvd.length]? = some f := by
        rw [← hrest]
        simp
      have hrecv := hr.settled (s, .recv f) rfl
      simp [step, arrives, hnext, Endpoint.step, hr.select s] at hrecv

/-- At rest, in one relay session, a side has received all that its peer has
ever enqueued. -/
theorem AtRest.rcvd_eq_enq (hr : AtRest t)
    (h : Reaches step (fun t sa => oneSession t sa = true) init t) (s : Side) :
    (t.ends s).rcvd = (t.ends s.peer).enq := by
  have hsel := hr.select s.peer
  have hqueue := (hr.resting s.peer).queue hsel
  have hpend : (t.ends s.peer).loop.pending = [] := by simp [Loop.pending, hsel]
  have hloss : (t.ends s.peer).loop.sent = (t.ends s.peer).loop.dequeued := by
    have hboth := lossless h s.peer
    rwa [Lossless, hpend, List.append_nil] at hboth
  rw [hr.rcvd_eq_sent (h.weaken fun _ _ _ => trivial) s, hloss, enq, Loop.enqueued, hqueue,
    List.append_nil]

/-- A tunnel is at rest exactly if both sides wait and nothing flies. -/
theorem atRest_iff (h : Reaches step Free init t) :
    AtRest t ↔ ∀ s, Waits (t.ends s) ∧ (t.ends s).rcvd = (t.ends s.peer).loop.sent := by
  constructor
  · exact fun hr s =>
      ⟨(hr.resting s).waits (wf_of_reaches h s) (hr.select s), hr.rcvd_eq_sent h s⟩
  · refine fun hall => ⟨fun s => (hall s).1.select, ?_⟩
    rintro ⟨s, a⟩ ha
    by_contra henabled
    obtain ⟨t', hs⟩ := Option.ne_none_iff_exists'.1 henabled
    have hrest := (hall s).1.resting (wf_of_reaches h s)
    simp only [step] at hs
    split at hs
    · next harr =>
        obtain ⟨e, he, _⟩ := Option.map_eq_some_iff.1 hs
        cases a with
        | recv f =>
            -- there is no next frame
            rw [arrives, (hall s).2] at harr
            simp at harr
        | _ => cases (hrest _ ha (by simp)).symm.trans he
    · cases hs

theorem accounted (h : Reaches step Free init t) (s : Side) : Accounted s (t.ends s) := by
  have hall : ∀ s, (t.ends s).Wf s ∧ Accounted s (t.ends s) :=
    ends_invariant (I := fun s e => e.Wf s ∧ Accounted s e)
      (fun s => ⟨wf_init s, accounted_init s⟩)
      (fun hi htr => ⟨hi.1.step htr, hi.2.step hi.1 htr⟩) h
  exact (hall s).2

theorem sourced {C : Tunnel → Side × Act → Prop} (h : Reaches step C init t) (s : Side) :
    Sourced (t.ends s) := by
  have hall : ∀ s, (t.ends s).Wf s ∧ Sourced (t.ends s) :=
    ends_invariant (I := fun s e => e.Wf s ∧ Sourced e) (fun s => ⟨wf_init s, sourced_init s⟩)
      (fun hi htr => ⟨hi.1.step htr, hi.2.step hi.1 htr⟩) h
  exact (hall s).2

/-! ## One id, at both ends -/

section Both

variable (hr : AtRest t) (h : Reaches step (fun t sa => answersRegistered t sa = true) init t)
  (hu : UsedOnce k t.home) (hf : NoWriteFailed k t)

include hr h hu hf

/-- A writer has taken all that the other side has ever enqueued for its id. -/
theorem AtRest.got_eq {j : Nat} (hj : j < (t.ends s).numConns)
    (hjk : ((t.ends s).conns j).id = k) :
    ((t.ends s).conns j).got = msgsFor k (t.ends s.peer).enq := by
  have hone := h.weaken fun _ _ hC => oneSession_of_registered hC
  have hup := upstream hone hu
  have hok := hf s j hj hjk
  have hrouted : Routed k j (t.ends s) := by
    cases s with
    | listen => exact routed_home h hu j hj hjk
    | connect => exact hup.routed j hj hjk
  have hlast := (orderly hone hu hf).closesLast_rcvd hone s
  have hputs := hrouted.all (hup.mapped s) hlast hjk hok
  rw [inHand_nil (by simp [hr.select s]), List.append_nil] at hputs
  have hqueue : ((t.ends s).conns j).queue = [] := by
    rcases (hr.resting s).mapped (hr.select s) (hup.wf s) hj with ⟨_, hq, _⟩ | hdone
    · exact hq
    · -- it ended on a `Shutdown`, which is the last message
      have hshut := (hup.mapped s).shutdown_of_pastLoop hjk hok (by rw [hdone]; rfl)
      have hpair := pairwise_msgsFor hlast
      rw [← hputs, Conn.puts, List.pairwise_append] at hpair
      cases hq : ((t.ends s).conns j).queue with
      | nil => rfl
      | cons m rest => exact absurd rfl (hpair.2.2 _ hshut m (by simp [hq]))
  rw [← hr.rcvd_eq_enq hone s, ← hputs, Conn.puts, hqueue, List.append_nil]

theorem AtRest.written_eq {j : Nat} (hj : j < (t.ends s).numConns)
    (hjk : ((t.ends s).conns j).id = k) :
    ((t.ends s).conns j).written = (payloadsFor k (t.ends s.peer).enq).flatten := by
  have hone := h.weaken fun _ _ hC => oneSession_of_registered hC
  have hup := upstream hone hu
  have hgot := hr.got_eq h hu hf hj hjk
  have hwr := (hup.wf s).writer j
  have htaken : ((t.ends s).conns j).written = ((t.ends s).conns j).got.flatMap WrMsg.bytes := by
    rcases (hr.resting s).mapped (hr.select s) (hup.wf s) hj with ⟨hrecv, _⟩ | hdone
    · simp only [Conn.WriterOk, hrecv] at hwr
      exact hwr.1
    · exact hwr.written_eq (by rw [hdone]; rfl) (hf s j hj hjk)
  rw [htaken, hgot, flatMap_bytes_msgsFor]

/-- A writer has ended exactly if the other side has sent a CLOSE. -/
theorem AtRest.writer_done_iff {j : Nat} (hj : j < (t.ends s).numConns)
    (hjk : ((t.ends s).conns j).id = k) :
    ((t.ends s).conns j).writer = .done ↔ .tcpClose k ∈ (t.ends s.peer).enq := by
  have hone := h.weaken fun _ _ hC => oneSession_of_registered hC
  have hup := upstream hone hu
  rw [← shutdown_mem_msgsFor, ← hr.got_eq h hu hf hj hjk]
  constructor
  · intro hdone
    exact (hup.mapped s).shutdown_of_pastLoop hjk (hf s j hj hjk) (by rw [hdone]; rfl)
  · intro hshut
    rcases (hr.resting s).mapped (hr.select s) (hup.wf s) hj with ⟨hrecv, _⟩ | hdone
    · have hwr := (hup.wf s).writer j
      simp only [Conn.WriterOk, hrecv] at hwr
      exact absurd hshut hwr.2.1
    · exact hdone

omit hf in
theorem AtRest.map_eq {j : Nat} (hj : j < (t.ends s).numConns)
    (hjk : ((t.ends s).conns j).id = k) :
    (t.ends s).map k = if ((t.ends s).conns j).writer = .done then none else some j := by
  have hone := h.weaken fun _ _ hC => oneSession_of_registered hC
  have hw := (upstream hone hu).wf s
  rcases (hr.resting s).mapped (hr.select s) hw hj with ⟨hrecv, _, hmap⟩ | hdone
  · rw [if_neg (by simp [hrecv]), ← hjk]
    exact hmap
  · rw [if_pos hdone]
    -- an entry would be of a writer that runs
    cases hmap : (t.ends s).map k with
    | none => rfl
    | some c =>
        obtain ⟨hc, hck, halive⟩ := hw.mapped k c hmap
        obtain rfl : c = j := (ownId hone hu s).1 c j hc hj hck hjk
        rw [hdone] at halive
        cases halive

/-- A reader has enqueued all it has read, and its CLOSE exactly if the socket
has ended. -/
theorem AtRest.sent {n : Nat} (hn : n < (t.ends s).numConns)
    (hnk : ((t.ends s).conns n).id = k) :
    payloadsFor k (t.ends s).enq = ((t.ends s).conns n).reads ∧
      (.tcpClose k ∈ (t.ends s).enq ↔ ((t.ends s).conns n).eof = true) := by
  have hone := h.weaken fun _ _ hC => oneSession_of_registered hC
  have hdis := (orderly hone hu hf).disciplined s
  have hacc := accounted (hone.weaken fun _ _ _ => trivial) s
  have hlive : (t.ends s).loop.pc ≠ .exited := by simp [hr.select s]
  have hreader := (hr.resting s).reader (hr.select s) hdis.wf hn
  constructor
  · rcases hreader with hread | hdone
    · exact (hdis.sent n hn hnk).reading (Or.inr hread)
    · rcases (hdis.sent n hn hnk).done hdone with ⟨hall, _⟩ | ⟨hexit, _⟩
      · exact hall
      · exact absurd hexit hlive
  · constructor
    · exact fun hclose => (hdis.apart.closed hclose n hn hnk).2.1
    · intro heof
      have hdone : ((t.ends s).conns n).reader = .done := by
        rcases hreader with hread | hdone
        · rcases hacc.ended n heof with hend | hend <;> cases hread.symm.trans hend
        · exact hdone
      rcases hacc.closed n hdone with hclose | hexit
      · exact hnk ▸ hclose
      · exact absurd hexit hlive

end Both

/-! ## Nothing is under way -/

/-- All that was read on side `s` of connection `n` has been written to
connection `j` of the other side, whose write half is shut and whose id is free
exactly if the socket's read half has ended. -/
structure Carried (t : Tunnel) (s : Side) (n j : Nat) : Prop where
  written : ((t.ends s.peer).conns j).written = ((t.ends s).conns n).reads.flatten
  shut : ((t.ends s.peer).conns j).writer = .done ↔ ((t.ends s).conns n).eof = true
  entry : (t.ends s.peer).map ((t.ends s.peer).conns j).id =
    if ((t.ends s).conns n).eof = true then none else some j

/-- The gate has not got connection `n`, and home has shut it without a byte
written. -/
structure Refused (t : Tunnel) (n : Nat) : Prop where
  nowhere : ∀ j, j < t.gate.numConns → (t.gate.conns j).id ≠ (t.home.conns n).id
  written : (t.home.conns n).written = []
  shut : (t.home.conns n).writer = .done
  unmapped : t.home.map (t.home.conns n).id = none

/-- A connection of home is a connection of the gate, both ways, or is refused. -/
def Complete (t : Tunnel) (n : Nat) : Prop :=
  (∃ j < t.gate.numConns, (t.gate.conns j).id = (t.home.conns n).id ∧
    Carried t .listen n j ∧ Carried t .connect j n) ∨ Refused t n

theorem AtRest.carried (hr : AtRest t)
    (h : Reaches step (fun t sa => answersRegistered t sa = true) init t)
    (hu : UsedOnce k t.home) (hf : NoWriteFailed k t) {n j : Nat}
    (hn : n < (t.ends s).numConns) (hnk : ((t.ends s).conns n).id = k)
    (hj : j < (t.ends s.peer).numConns) (hjk : ((t.ends s.peer).conns j).id = k) :
    Carried t s n j := by
  obtain ⟨hsent, hclose⟩ := hr.sent h hu hf hn hnk
  have hwritten := hr.written_eq h hu hf hj hjk
  have hshut := hr.writer_done_iff h hu hf hj hjk
  have hmap := hr.map_eq h hu hj hjk
  rw [Side.peer_peer] at hwritten hshut
  refine ⟨by rw [hwritten, hsent], hshut.trans hclose, ?_⟩
  rw [hjk, hmap]
  exact if_congr (hshut.trans hclose) rfl rfl

theorem AtRest.complete {t : Tunnel} (hr : AtRest t)
    (h : Reaches step (fun t sa => answersRegistered t sa = true) init t) {n : Nat}
    (hn : n < t.home.numConns) (hu : UsedOnce (t.home.conns n).id t.home)
    (hf : NoWriteFailed (t.home.conns n).id t) : Complete t n := by
  have hone := h.weaken fun _ _ hC => oneSession_of_registered hC
  have hfree := hone.weaken fun _ _ _ => trivial
  by_cases hgot : ∃ j < t.gate.numConns, (t.gate.conns j).id = (t.home.conns n).id
  · obtain ⟨j, hj, hjk⟩ := hgot
    exact Or.inl ⟨j, hj, hjk, hr.carried (s := .listen) h hu hf hn rfl hj hjk,
      hr.carried (s := .connect) h hu hf hj hjk hn rfl⟩
  · have hnowhere : ∀ j, j < t.gate.numConns → (t.gate.conns j).id ≠ (t.home.conns n).id :=
      fun j hj hjk => hgot ⟨j, hj, hjk⟩
    -- its OPEN has reached the gate, and has been answered
    have hopen : .tcpOpen (t.home.conns n).id ∈ t.gate.rcvd := by
      have hw := wf_of_reaches hfree .listen
      have hacc := ((hr.resting .listen).acceptor (hr.select .listen) hw n).1
      rcases (accounted hfree .listen).announced rfl n hn hacc with hopen | hexit
      · exact (hr.rcvd_eq_enq hone .connect) ▸ hopen
      · cases (hr.select .listen).symm.trans hexit
    have hclose : .tcpClose (t.home.conns n).id ∈ t.gate.enq := by
      rcases (accounted hfree .connect).answered rfl _ hopen with
        ⟨j, hj, hjk⟩ | hclose | ⟨p, hpc⟩
      · exact absurd hjk (hnowhere j hj)
      · exact hclose
      · cases (hr.select .connect).symm.trans hpc
    have hdone : (t.home.conns n).writer = .done :=
      (hr.writer_done_iff (s := .listen) h hu hf hn rfl).2 hclose
    have hnone : payloadsFor (t.home.conns n).id t.gate.enq = [] := by
      refine List.filterMap_eq_nil_iff.2 fun f hf => ?_
      cases f with
      | tcpData k payload =>
          obtain ⟨j, hj, hjk, _⟩ := (sourced hfree .connect).data k payload hf
          exact if_neg (hjk ▸ hnowhere j hj)
      | tcpOpen | tcpClose => rfl
    refine Or.inr ⟨hnowhere, ?_, hdone, ?_⟩
    · have hwritten : (t.home.conns n).written =
          (payloadsFor (t.home.conns n).id t.gate.enq).flatten :=
        hr.written_eq (s := .listen) h hu hf hn rfl
      rw [hwritten, hnone]
      rfl
    · have hmap := hr.map_eq (s := .listen) h hu hn rfl
      exact hmap.trans (if_pos hdone)

/-- After any run of one relay session in which no frame is looked up before
its connection is registered, the tunnel is at rest exactly if both sides wait
and nothing flies. Then, for an accepted connection whose id is used once and
of which no write failed, nothing is under way. -/
theorem complete_of_atRest {t : Tunnel}
    (h : Reaches step (fun t sa => answersRegistered t sa = true) init t) :
    (AtRest t ↔
      ∀ s, Waits (t.ends s) ∧ (t.ends s).rcvd = (t.ends s.peer).loop.sent) ∧
    (AtRest t → ∀ n, n < t.home.numConns → UsedOnce (t.home.conns n).id t.home →
      NoWriteFailed (t.home.conns n).id t → Complete t n) :=
  ⟨atRest_iff (h.weaken fun _ _ _ => trivial), fun hr _ hn hu hf => hr.complete h hn hu hf⟩

/-- The gate has taken its entry out as well. -/
def endedRun : List (Side × Act) := oneByteRun ++ [(.connect, .remove 0)]

theorem complete_of_atRest_one_byte :
    ∃ t, AtRest t ∧ (t.home.conns 0).reads = [[7]] ∧ (t.home.conns 0).eof = true ∧
      Complete t 0 := by
  have hrun : (run (guarded step fun t sa => answersRegistered t sa = true) init endedRun).any
      (fun t => Waits t.home ∧ Waits t.gate ∧ t.home.rcvd = t.gate.loop.sent ∧
        t.gate.rcvd = t.home.loop.sent ∧ t.home.numConns = 1 ∧ t.gate.numConns = 1 ∧
        (t.home.conns 0).reads = [[7]] ∧ (t.home.conns 0).eof = true ∧
        (t.home.conns 0).writeFailed = false ∧ (t.gate.conns 0).writeFailed = false) = true := by
    decide
  obtain ⟨t, h, hp⟩ := exists_of_run_any hrun
  simp only [decide_eq_true_eq] at hp
  obtain ⟨hhome, hgate, hback, hforth, hnumh, hnumg, hreads, heof, hokh, hokg⟩ := hp
  have hrest := complete_of_atRest h
  have hr : AtRest t := hrest.1.2 fun s => by
    cases s with
    | listen => exact ⟨hhome, hback⟩
    | connect => exact ⟨hgate, hforth⟩
  have hf : NoWriteFailed (t.home.conns 0).id t :=
    noWriteFailed_of_single hnumh hnumg hokh hokg
  exact ⟨t, hr, hreads, heof, hrest.2 hr 0 (by omega) (usedOnce_of_single hnumh) hf⟩

/-! ## Coming to rest -/

/-- A step that proceeds, and looks no frame up before its connection is
registered. -/
def goesOn (t : Tunnel) (sa : Side × Act) : Prop :=
  sa.2.proceeds = true ∧ answersRegistered t sa = true

/-- Where nothing goes on, nothing proceeds: the lookup that is held back is for
a connection about to be registered, or for an id that home has not opened
yet. -/
theorem settled_of_goesOn (h : Reaches step (fun t sa => answersRegistered t sa = true) init t)
    (hu : ∀ k, UsedOnce k t.home) (hset : Settled step goesOn t) :
    Settled step (fun _ sa => sa.2.proceeds = true) t := by
  have hone := h.weaken fun _ _ hC => oneSession_of_registered hC
  have hw := wf_of_reaches hone .listen
  rintro ⟨s, a⟩ ha
  cases hreg : answersRegistered t (s, a) with
  | true => exact hset (s, a) ⟨ha, hreg⟩
  | false =>
      exfalso
      have hsess : oneSession t (s, a) = true := by
        cases a with
        | loop ev => cases ev <;> first | rfl | cases ha
        | _ => rfl
      rw [answersRegistered, hsess, Bool.true_and, Bool.or_eq_false_iff] at hreg
      obtain ⟨hside, hreg⟩ := hreg
      obtain rfl : s = .listen := by
        cases s with
        | listen => rfl
        | connect => cases hside
      cases a with
      | dispatch =>
          simp only [registeredFirst] at hreg
          split at hreg
          · next f c hpc hacc =>
              -- the gate has answered an OPEN that home has not sent
              simp only [Bool.not_eq_false', Bool.and_eq_true, decide_eq_true_eq] at hreg
              obtain ⟨r, hr⟩ := hw.handling _ hpc
              obtain ⟨d, hd, hdk, hnot⟩ := known_of_rcvd hone (f := f) (by
                rw [show t.home.rcvd = _ from hr]
                simp)
              obtain rfl : d = c := hu _ d c hd (hw.opening c (Or.inl hacc)).1 hdk hreg.1
              exact hnot hacc
          · next f c hpc hacc =>
              have hregister := hset (.listen, .register) ⟨rfl, rfl⟩
              have hacc' : (t.ends .listen).acceptor = .registering c := hacc
              simp [step, arrives, Endpoint.step, hacc'] at hregister
          · cases hreg
      | _ => cases hreg

/-- Where nothing goes on, the tunnel is at rest, or stuck. -/
theorem atRest_or_stuck (h : Reaches step (fun t sa => answersRegistered t sa = true) init t)
    (hu : ∀ k, UsedOnce k t.home)
    (hup : ∀ s, (t.ends s).loop.pc ≠ .connecting ∧ (t.ends s).loop.pc ≠ .exited)
    (hset : Settled step goesOn t) : (∃ s, Stuck (t.ends s)) ∨ AtRest t := by
  have hall := settled_of_goesOn h hu hset
  by_cases hstuck : ∃ s, Stuck (t.ends s)
  · exact Or.inl hstuck
  · refine Or.inr ⟨fun s => ?_, hall⟩
    rcases (resting_of_settled hall s).select_or_stuck (wf_of_reaches h s) (hup s).1 (hup s).2 with
      hsel | hst
    · exact hsel
    · exact absurd ⟨s, hst⟩ hstuck

/-- What stays as it is while a tunnel goes on: the websockets are up, home's
connections are those it had, and no write fails. -/
structure GoneOn (t t' : Tunnel) : Prop where
  reached : Reaches step (fun t sa => answersRegistered t sa = true) init t'
  up : ∀ s, (t'.ends s).loop.pc ≠ .connecting ∧ (t'.ends s).loop.pc ≠ .exited
  numConns : t'.home.numConns = t.home.numConns
  ids : ∀ n, n < t.home.numConns → (t'.home.conns n).id = (t.home.conns n).id
  unfailed : ∀ k, NoWriteFailed k t → NoWriteFailed k t'

theorem GoneOn.step {u v : Tunnel} {sa : Side × Act} (hg : GoneOn t u) (hC : goesOn u sa)
    (hs : u.step sa = some v) : GoneOn t v := by
  have hreach := hg.reached.tail hC.2 hs
  obtain ⟨s, a⟩ := sa
  have hw := wf_of_reaches hg.reached
  obtain ⟨e, htr, rfl, _⟩ := trans_of_step hs
  have hhome : (u.put s e).home.numConns = u.home.numConns ∧
      ∀ n, n < u.home.numConns → ((u.put s e).home.conns n).id = (u.home.conns n).id := by
    cases s with
    | listen => exact ⟨htr.numConns_of_proceeds (hw .listen) hC.1, fun n hn => (htr.id_eq hn).2⟩
    | connect => exact ⟨rfl, fun _ _ => rfl⟩
  refine ⟨hreach, ?_, hhome.1.trans hg.numConns, fun n hn => ?_, fun k hf => ?_⟩
  · exact forall_put (I := fun _ e => e.loop.pc ≠ .connecting ∧ e.loop.pc ≠ .exited) hg.up
      (htr.up_of_proceeds hC.1 (hg.up s))
  · exact (hhome.2 n (hg.numConns ▸ hn)).trans (hg.ids n hn)
  · have hold := hg.unfailed k hf
    exact forall_put (I := fun _ e => Endpoint.NoWriteFailed k e) hold
      ((hold s).of_proceeds htr hC.1)

theorem GoneOn.usedOnce (hg : GoneOn t t') (hu : UsedOnce k t.home) : UsedOnce k t'.home := by
  intro c d hc hd hck hdk
  rw [hg.numConns] at hc hd
  exact hu c d hc hd ((hg.ids c hc).symm.trans hck) ((hg.ids d hd).symm.trans hdk)

/-- From a state of one relay session in which no frame was looked up before its
connection was registered, with the websockets up and no id used twice, and
however the tasks and the relay are scheduled from there, while users, sockets
and the network bring nothing more: the tunnel goes on for a bounded number of
steps. As long as no frame is looked up too early, it can come to an end, and
where it does, one of the session tasks is stuck, or all that was read has been
written and every half that has ended is shut on the other side. -/
theorem comes_to_rest {t : Tunnel}
    (h : Reaches step (fun t sa => answersRegistered t sa = true) init t)
    (hu : ∀ k, UsedOnce k t.home)
    (hup : ∀ s, (t.ends s).loop.pc ≠ .connecting ∧ (t.ends s).loop.pc ≠ .exited) :
    (∀ as t', run step t as = some t' → (∀ sa ∈ as, sa.2.proceeds = true) →
      as.length ≤ t.load) ∧
    (∃ t', Reaches step goesOn t t' ∧ Settled step goesOn t') ∧
    ∀ t', Reaches step goesOn t t' → Settled step goesOn t' →
      (∃ s, Stuck (t'.ends s)) ∨
        AtRest t' ∧ ∀ n, n < t'.home.numConns →
          NoWriteFailed (t'.home.conns n).id t → Complete t' n := by
  have hfree : Reaches step Free init t := h.weaken fun _ _ _ => trivial
  refine ⟨fun as t' hrun hall => ?_, paid.exists_settled (fun hC => Act.cost_lt_work hC.1) hfree,
    fun t' hreach hset => ?_⟩
  · have hpay := paid.run_work hfree hrun
    have hwork : as.length + (as.map fun sa => sa.2.cost).sum ≤
        (as.map fun sa => sa.2.work).sum := by
      clear hrun hpay
      induction as with
      | nil => exact Nat.le_refl _
      | cons sa as ih =>
          have hrest := ih fun sb hb => hall sb (List.mem_cons_of_mem _ hb)
          have hfirst := Act.cost_lt_work (hall sa (List.mem_cons_self ..))
          simp only [List.length_cons, List.map_cons, List.sum_cons]
          omega
    omega
  · have hg : GoneOn t t' :=
      hreach.invariant (I := GoneOn t) ⟨h, hup, rfl, fun _ _ => rfl, fun _ hf => hf⟩
        (fun hC hs hg => hg.step hC hs)
    have hu' : ∀ k, UsedOnce k t'.home := fun k => hg.usedOnce (hu k)
    rcases atRest_or_stuck hg.reached hu' hg.up hset with hstuck | hr
    · exact Or.inl hstuck
    · exact Or.inr ⟨hr, fun n hn hf =>
        hr.complete hg.reached hn (hu' _) (hg.unfailed _ hf)⟩

theorem comes_to_rest_opened :
    ∃ t, (t.home.numConns = 1 ∧ t.gate.loop.pc = .handling ⟨.tcpOpen 0, .dialing⟩) ∧
      ∃ t', Reaches step goesOn t t' ∧ ((∃ s, Stuck (t'.ends s)) ∨
        AtRest t' ∧ ∀ n, n < t'.home.numConns →
          NoWriteFailed (t'.home.conns n).id t → Complete t' n) := by
  have hrun : (run (guarded step fun t sa => answersRegistered t sa = true) init openedRun).any
      (fun t => t.home.numConns = 1 ∧ t.home.loop.pc = .select ∧
        t.gate.loop.pc = .handling ⟨.tcpOpen 0, .dialing⟩) = true := by
    decide
  obtain ⟨t, h, hp⟩ := exists_of_run_any hrun
  simp only [decide_eq_true_eq] at hp
  obtain ⟨hnum, hsel, hdial⟩ := hp
  have hup : ∀ s, (t.ends s).loop.pc ≠ .connecting ∧ (t.ends s).loop.pc ≠ .exited := by
    rintro (_ | _)
    · rw [show (t.ends .listen).loop.pc = _ from hsel]
      simp
    · rw [show (t.ends .connect).loop.pc = _ from hdial]
      simp
  obtain ⟨_, ⟨t', hreach, hset⟩, hend⟩ :=
    comes_to_rest h (fun k => usedOnce_of_single (k := k) hnum) hup
  exact ⟨t, ⟨hnum, hdial⟩, t', hreach, hend t' hreach hset⟩

end Tunnel

end UsbWs
