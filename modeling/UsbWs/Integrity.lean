import UsbWs.Tunnel

/-!
# The stream from home to gate

What home reads from an accepted socket passes through the outbound queue, the
relay, the gate's session loop and the writer queue of the connection the gate
dialled. In a relay session the queues between the two sides are one log
(`rcvd_prefix_enq`), so what is left to follow is an id at both ends of it.

`Upstream` does that for an id that home uses once, whatever fails: its OPEN
is the first frame of the id, so the gate dials for it once and routes all its
frames to that one connection. This alone makes what is written a prefix of
what was read.

That the two are equal in the end needs more. `Orderly` adds the grammar of
half-close on both sides, which holds where no write fails: home's CLOSE comes
after its last DATA, so the gate's writer, which leaves its loop on the
`Shutdown` of that CLOSE, has taken everything before. Nothing is asked of the
way back, so the gate may have closed its half at any time.
-/

namespace UsbWs

open Runs

namespace Endpoint

variable {k : ConnId} {e e' : Endpoint} {a : Act}

/-- At the gate, an id that is opened once is dialled for once. -/
structure OpenedOnce (k : ConnId) (e : Endpoint) : Prop where
  fresh : ∀ p, e.loop.pc = .handling ⟨.tcpOpen k, p⟩ → p = .start ∨ p = .dialing →
    ∀ c, c < e.numConns → (e.conns c).id ≠ k
  used : UsedOnce k e

theorem OpenedOnce.step (hw : e.Wf .connect) (ht : Traced .connect e) (ho : OpenedOnce k e)
    (h : Trans .connect e a e') (hcount : e'.rcvd.count (.tcpOpen k) ≤ 1) :
    OpenedOnce k e' := by
  have hnot := hw.not_opening
  -- a connection that is new was dialled for
  have hnew : ∀ c, c < e'.numConns → ¬ c < e.numConns → c = e.numConns ∧
      ((e'.conns c).id = k → e.loop.pc = .handling ⟨.tcpOpen k, .dialing⟩ ∧
        e'.loop.pc = .select) := by
    intro c hlt' hge
    obtain ⟨rfl, _, _, hmakes⟩ := h.makes hlt' hge
    refine ⟨rfl, fun hck => ?_⟩
    cases hmakes with
    | accepted hacc => exact absurd hacc hw.not_accepting
    | @dialled f hpc hpc' hnew =>
        have hfk : f.connId = k := by simpa [hnew] using hck
        have hf := (hw.dialing f hpc).2
        rw [hfk] at hf
        exact ⟨hf ▸ hpc, hpc'⟩
  constructor
  · intro p hp hpoint c hlt' hck
    by_cases hlt : c < e.numConns
    · have hck₀ : (e.conns c).id = k := (h.id_eq hlt).2 ▸ hck
      have hknown := ht.conn c hlt (hnot c)
      rw [hck₀] at hknown
      generalize hq : (⟨.tcpOpen k, p⟩ : Handling) = q at hp
      cases h.comes hp with
      | stay hpc hrcvd => exact ho.fresh p (hq ▸ hpc) hpoint c hlt hck₀
      | recv hpc hrcvd henq =>
          cases hq
          exact not_reopened hcount hrcvd hknown
      | dial hpc hrcvd hside hf =>
          cases hq
          exact ho.fresh .start hpc (Or.inl rfl) c hlt hck₀
      | deliver | gone | close => cases hq; simp at hpoint
    · have hpc' := ((hnew c hlt' hlt).2 hck).2
      rw [hpc'] at hp
      cases hp
  · intro c d hc hd hck hdk
    by_cases hc₀ : c < e.numConns
    · by_cases hd₀ : d < e.numConns
      · exact ho.used c d hc₀ hd₀ ((h.id_eq hc₀).2 ▸ hck) ((h.id_eq hd₀).2 ▸ hdk)
      · have hpc := ((hnew d hd hd₀).2 hdk).1
        exact absurd ((h.id_eq hc₀).2 ▸ hck) (ho.fresh _ hpc (Or.inr rfl) c hc₀)
    · by_cases hd₀ : d < e.numConns
      · have hpc := ((hnew c hc hc₀).2 hck).1
        exact absurd ((h.id_eq hd₀).2 ▸ hdk) (ho.fresh _ hpc (Or.inr rfl) d hd₀)
      · exact (hnew c hc hc₀).1.trans (hnew d hd hd₀).1.symm

/-- A connection the gate has just dialled has all its messages ahead of it. -/
theorem Routed.of_dialled (hw : e.Wf .connect) (h : Trans .connect e a e')
    (hfirst : OpensFirst k e'.rcvd) {n : Nat} (hn : n < e'.numConns) (hge : ¬ n < e.numConns)
    (hid : (e'.conns n).id = k) : Routed k n e' := by
  refine Routed.step_new h ?_ (hw.step h) hn hge
  obtain ⟨rfl, _, hrcvd, hmakes⟩ := h.makes hn hge
  cases hmakes with
  | accepted hacc => exact absurd hacc hw.not_accepting
  | @dialled f hpc hpc' hnew =>
      have hfk : f.connId = k := by simpa [hnew] using hid
      obtain ⟨r, hr⟩ := hw.handling _ hpc
      have hf := (hw.dialing f hpc).2
      rw [hfk] at hf
      subst hf
      rw [hrcvd, hr] at hfirst ⊢
      have hnil := (opensFirst_snoc.1 hfirst).2 rfl
      rw [msgsFor_append, msgsFor_of_framesFor_nil hnil, msgsFor_singleton]
      simp [Frame.msg]

end Endpoint

namespace Tunnel

open Endpoint

variable {k : ConnId} {t t' : Tunnel} {s : Side} {a : Act}

/-! ## What holds of the way from home to gate, whatever fails -/

/-- An id the home side uses once: its OPEN comes first, its DATA frames are
what its reader read, the gate dials for it once and routes what it receives
to the connection it dialled, and on both sides its entry is its own. -/
structure Upstream (k : ConnId) (t : Tunnel) : Prop where
  wf : ∀ s, (t.ends s).Wf s
  traced : ∀ s, Traced s (t.ends s)
  opensFirst : OpensFirst k t.home.enq
  sent : ∀ n, n < t.home.numConns → (t.home.conns n).id = k → SentOk k n t.home
  opened : OpenedOnce k t.gate
  mapped : ∀ s, MapSound k (t.ends s)
  routed : ∀ j, j < t.gate.numConns → (t.gate.conns j).id = k → Routed k j t.gate

theorem usedOnce_of_step {sa : Side × Act} (h : t.step sa = some t')
    (hu : UsedOnce k t'.home) : UsedOnce k t.home := by
  obtain ⟨s, a⟩ := sa
  obtain ⟨e, htr, rfl, _⟩ := trans_of_step h
  cases s with
  | listen => exact UsedOnce.of_step htr hu
  | connect => exact hu

theorem upstream_init (k : ConnId) : Upstream k init where
  wf := wf_init
  traced := traced_init
  opensFirst := KeyedLog.opensFirst_nil
  sent := by simp [home, init, Endpoint.init]
  opened := ⟨by simp [gate, init, Endpoint.init, Loop.init],
    by simp [UsedOnce, gate, init, Endpoint.init]⟩
  mapped := fun s => mapSound_init s k
  routed := by simp [gate, init, Endpoint.init]

/-- A step of the home side. -/
theorem Upstream.home_step {e : Endpoint} {a : Act} (hi : Upstream k t)
    (h : Trans .listen t.home a e) (hu : UsedOnce k e) : Upstream k (t.put .listen e) where
  wf := forall_put (I := fun s e => e.Wf s) hi.wf ((hi.wf .listen).step h)
  traced := forall_put hi.traced ((hi.traced .listen).step (hi.wf .listen) h)
  opensFirst := (hi.traced .listen).opensFirst_step (hi.wf .listen) hi.opensFirst h hu
  sent := by
    have hw := hi.wf .listen
    intro n hn hid
    by_cases hlt : n < t.home.numConns
    · have hid₀ : (t.home.conns n).id = k := (h.id_eq hlt).2 ▸ hid
      exact (hi.sent n hlt hid₀).step_old hw h hu hlt hid₀
    · exact SentOk.step_new hw (hi.traced .listen) h hu
        (fun f hpc _ => absurd hpc (hw.not_dialing f)) hn hlt hid
  opened := hi.opened
  mapped := by
    have hw := hi.wf .listen
    exact forall_put (I := fun _ e => MapSound k e) hi.mapped
      ((hi.mapped .listen).step hw (hu.insertFresh hw h) h)
  routed := hi.routed

/-- The gate looks nothing up for a connection still to be registered: it has
no acceptor. -/
theorem registeredFirst_of_gate {e : Endpoint} (hw : e.Wf .connect) (a : Act) :
    registeredFirst e a = true := by
  cases a with
  | dispatch =>
      simp only [registeredFirst]
      split
      · next hacc => exact absurd hacc (hw.not_opening _)
      · next hacc => exact absurd hacc (hw.not_registering _)
      · rfl
  | _ => rfl

/-- A step of the gate. -/
theorem Upstream.gate_step {e : Endpoint} {a : Act} (hi : Upstream k t)
    (h : Trans .connect t.gate a e) (hfirst : OpensFirst k e.rcvd) :
    Upstream k (t.put .connect e) where
  wf := forall_put (I := fun s e => e.Wf s) hi.wf ((hi.wf .connect).step h)
  traced := forall_put hi.traced ((hi.traced .connect).step (hi.wf .connect) h)
  opensFirst := hi.opensFirst
  sent := hi.sent
  opened := hi.opened.step (hi.wf .connect) (hi.traced .connect) h hfirst.count_le
  mapped := by
    have hw := hi.wf .connect
    have hop := hi.opened.step hw (hi.traced .connect) h hfirst.count_le
    exact forall_put (I := fun _ e => MapSound k e) hi.mapped
      ((hi.mapped .connect).step hw (hop.used.insertFresh hw h) h)
  routed := by
    have hw := hi.wf .connect
    intro j hj hid
    by_cases hlt : j < t.gate.numConns
    · have hid₀ : (t.gate.conns j).id = k := (h.id_eq hlt).2 ▸ hid
      exact (hi.routed j hlt hid₀).step_old hw (hi.mapped .connect)
        (registeredFirst_of_gate hw a) h hi.opened.used hlt hid₀
    · exact Routed.of_dialled hw h hfirst hj hlt hid

/-- A step of either side, where the gate has received nothing but what home
has enqueued. -/
theorem Upstream.side_step {e : Endpoint} (hi : Upstream k t) (h : Trans s (t.ends s) a e)
    (hu : UsedOnce k (t.put s e).home)
    (hlink : ((t.put s e).ends .connect).rcvd <+: ((t.put s e).ends .listen).enq) :
    Upstream k (t.put s e) := by
  cases s with
  | listen => exact hi.home_step h hu
  | connect =>
      refine hi.gate_step h (hi.opensFirst.of_isPrefix ?_)
      rwa [put_ends_self, show (t.put .connect e).ends .listen = t.home from
        put_ends_peer t .connect e] at hlink

theorem upstream (h : Reaches step (fun t sa => oneSession t sa = true) init t)
    (hu : UsedOnce k t.home) : Upstream k t := by
  have hback : ∀ {t sa t'}, step t sa = some t' → UsedOnce k t'.home → UsedOnce k t.home :=
    fun hs => usedOnce_of_step hs
  refine h.invariant_of hback (fun _ => upstream_init k) ?_ hu
  rintro t ⟨s, a⟩ t' hreach hC hs hu hi
  have hlink := rcvd_prefix_enq (hreach.tail hC hs) .connect
  obtain ⟨e, htr, rfl, _⟩ := trans_of_step hs
  exact hi.side_step htr hu hlink

/-! ## Both ways, where no write fails -/

/-- Both sides keep to the grammar of half-close, and put nothing on the writer
queues but what they received. -/
structure Orderly (k : ConnId) (t : Tunnel) : Prop where
  disciplined : ∀ s, Disciplined s k (t.ends s)
  received : ∀ s, Received k (t.ends s)

/-- No write of a connection with id `k` has failed on either side. -/
def NoWriteFailed (k : ConnId) (t : Tunnel) : Prop := ∀ s, Endpoint.NoWriteFailed k (t.ends s)

theorem noWriteFailed_of_step {sa : Side × Act} (h : t.step sa = some t')
    (hf : NoWriteFailed k t') : NoWriteFailed k t := by
  obtain ⟨s, a⟩ := sa
  obtain ⟨e, htr, rfl, _⟩ := trans_of_step h
  intro r
  have hfr := hf r
  rcases r.eq_or_eq_peer s with rfl | rfl
  · rw [put_ends_self] at hfr
    exact hfr.of_step htr
  · rwa [put_ends_peer] at hfr

theorem noWriteFailed_of_single (hhome : t.home.numConns = 1) (hgate : t.gate.numConns = 1)
    (hokh : (t.home.conns 0).writeFailed = false)
    (hokg : (t.gate.conns 0).writeFailed = false) : NoWriteFailed k t := by
  rintro (_ | _) c hc _
  · obtain rfl : c = 0 := by
      have hc' : c < t.home.numConns := hc
      omega
    exact hokh
  · obtain rfl : c = 0 := by
      have hc' : c < t.gate.numConns := hc
      omega
    exact hokg

theorem orderly_init (k : ConnId) : Orderly k init where
  disciplined := fun s => disciplined_init s k
  received := fun s => by cases s <;> simp [Received, init, Endpoint.init]

/-- An id the home side uses once is opened once at the gate. -/
theorem Upstream.ownId (hi : Upstream k t) (hu : UsedOnce k t.home)
    (hlink : (t.ends .connect).rcvd <+: (t.ends .listen).enq) :
    ∀ s, OwnId s k (t.ends s) := by
  rintro (_ | _)
  · exact ⟨hu, fun hs => by cases hs⟩
  · exact ⟨hi.opened.used, fun _ => OpensFirst.count_le (hi.opensFirst.of_isPrefix hlink)⟩

theorem ownId (h : Reaches step (fun t sa => oneSession t sa = true) init t)
    (hu : UsedOnce k t.home) : ∀ s, OwnId s k (t.ends s) :=
  (upstream h hu).ownId hu (rcvd_prefix_enq h .connect)

/-- What a side receives for `k` closes last. -/
theorem Orderly.closesLast_of_link (hi : Orderly k t)
    (hlink : ∀ s, (t.ends s).rcvd <+: (t.ends s.peer).enq) (s : Side) :
    ClosesLast k (t.ends s).rcvd :=
  (hi.disciplined s.peer).apart.closesLast.of_isPrefix (hlink s)

theorem Orderly.closesLast_rcvd (hi : Orderly k t)
    (h : Reaches step (fun t sa => oneSession t sa = true) init t) (s : Side) :
    ClosesLast k (t.ends s).rcvd :=
  hi.closesLast_of_link (rcvd_prefix_enq h) s

theorem Orderly.side_step {e : Endpoint} (hi : Orderly k t) (hup : Upstream k t)
    (hlast : ClosesLast k (t.ends s).rcvd) (hf : NoWriteFailed k t)
    (h : Trans s (t.ends s) a e) (hown : OwnId s k e) : Orderly k (t.put s e) := by
  have hw := (hi.disciplined s).wf
  have hgone := (hi.received s).not_dataGone hw (hup.mapped s) (hf s) hlast a
  constructor
  · exact forall_put (I := fun s e => Disciplined s k e) hi.disciplined
      ((hi.disciplined s).step hgone h hown)
  · exact forall_put (I := fun _ e => Received k e) hi.received ((hi.received s).step hw h)

theorem orderly (h : Reaches step (fun t sa => oneSession t sa = true) init t)
    (hu : UsedOnce k t.home) (hf : NoWriteFailed k t) : Orderly k t := by
  have hback : ∀ {t sa t'}, step t sa = some t' → UsedOnce k t'.home ∧ NoWriteFailed k t' →
      UsedOnce k t.home ∧ NoWriteFailed k t :=
    fun hs hP => ⟨usedOnce_of_step hs hP.1, noWriteFailed_of_step hs hP.2⟩
  refine h.invariant_of hback (fun _ => orderly_init k) ?_ ⟨hu, hf⟩
  rintro t ⟨s, a⟩ t' hreach hC hs ⟨hu, hf⟩ hi
  have hown := ownId (hreach.tail hC hs) hu
  have hup := upstream hreach (usedOnce_of_step hs hu)
  have hfail := noWriteFailed_of_step hs hf
  obtain ⟨e, htr, rfl, _⟩ := trans_of_step hs
  exact hi.side_step hup (hi.closesLast_rcvd hreach s) hfail htr (by simpa using hown s)

/-! ## Home to gate -/

/-- What the gate has written for an id is a prefix of what home has read. -/
theorem Upstream.prefix_written_of_link (hi : Upstream k t)
    (hlink : (t.ends .connect).rcvd <+: (t.ends .listen).enq) {n j : Nat}
    (hn : n < t.home.numConns) (hnk : (t.home.conns n).id = k)
    (hj : j < t.gate.numConns) (hjk : (t.gate.conns j).id = k) :
    (t.gate.conns j).written <+: (t.home.conns n).reads.flatten := by
  have hwritten := ((hi.wf .connect).writer j).prefix_written
  have hgot : (t.gate.conns j).got <+: (t.gate.conns j).puts := List.prefix_append _ _
  have hputs := (hi.routed j hj hjk).prefix_msgsFor
  have hbytes := ((hgot.trans hputs).trans (prefix_msgsFor (k := k) hlink)).flatMap WrMsg.bytes
  rw [flatMap_bytes_msgsFor] at hbytes
  exact (hwritten.trans hbytes).trans (hi.sent n hn hnk).prefix_reads.flatten

theorem Upstream.prefix_written (hi : Upstream k t)
    (h : Reaches step (fun t sa => oneSession t sa = true) init t) {n j : Nat}
    (hn : n < t.home.numConns) (hnk : (t.home.conns n).id = k)
    (hj : j < t.gate.numConns) (hjk : (t.gate.conns j).id = k) :
    (t.gate.conns j).written <+: (t.home.conns n).reads.flatten :=
  hi.prefix_written_of_link (rcvd_prefix_enq h .connect) hn hnk hj hjk

/-- When the gate's writer leaves its loop, home has read all there was, and the
gate has written all of it. -/
theorem Orderly.written_eq_of_link (ho : Orderly k t) (hi : Upstream k t)
    (hlink : (t.ends .connect).rcvd <+: (t.ends .listen).enq) {n j : Nat}
    (hn : n < t.home.numConns) (hnk : (t.home.conns n).id = k)
    (hj : j < t.gate.numConns) (hjk : (t.gate.conns j).id = k)
    (hok : (t.gate.conns j).writeFailed = false)
    (hpast : (t.gate.conns j).writer.pastLoop = true) :
    (t.home.conns n).eof = true ∧
      (t.gate.conns j).written = (t.home.conns n).reads.flatten := by
  have hshut : .shutdown ∈ (t.gate.conns j).got :=
    (hi.mapped .connect).shutdown_of_pastLoop hjk hok hpast
  have hgot : (t.gate.conns j).got <+: msgsFor k t.home.enq :=
    ((List.prefix_append _ _).trans (hi.routed j hj hjk).prefix_msgsFor).trans
      (prefix_msgsFor hlink)
  have hclose : Frame.tcpClose k ∈ t.home.enq :=
    shutdown_mem_msgsFor.1 (hgot.mem hshut)
  have hap : Apart .listen k t.home := (ho.disciplined .listen).apart
  obtain ⟨_, heof, hall⟩ := hap.closed hclose n hn hnk
  refine ⟨heof, ?_⟩
  -- the writer took everything home enqueued: it took the `Shutdown`, which is last
  have hgotAll : (t.gate.conns j).got = msgsFor k t.home.enq := by
    obtain ⟨rest, hrest⟩ := hgot
    have hpair := pairwise_msgsFor hap.closesLast
    rw [← hrest, List.pairwise_append] at hpair
    cases rest with
    | nil => simpa using hrest
    | cons m rest => exact absurd rfl (hpair.2.2 _ hshut m (by simp))
  have hwritten : (t.gate.conns j).written = (t.gate.conns j).got.flatMap WrMsg.bytes :=
    ((hi.wf .connect).writer j).written_eq hpast hok
  rw [hwritten, hgotAll, flatMap_bytes_msgsFor]
  exact congrArg List.flatten hall

theorem Orderly.written_eq (ho : Orderly k t) (hi : Upstream k t)
    (h : Reaches step (fun t sa => oneSession t sa = true) init t) {n j : Nat}
    (hn : n < t.home.numConns) (hnk : (t.home.conns n).id = k)
    (hj : j < t.gate.numConns) (hjk : (t.gate.conns j).id = k)
    (hok : (t.gate.conns j).writeFailed = false)
    (hpast : (t.gate.conns j).writer.pastLoop = true) :
    (t.home.conns n).eof = true ∧
      (t.gate.conns j).written = (t.home.conns n).reads.flatten :=
  ho.written_eq_of_link hi (rcvd_prefix_enq h .connect) hn hnk hj hjk hok hpast

/-- Home to gate, in one relay session, for an accepted connection whose id is
used once: what was written to the socket the gate dialled for it is a prefix
of what was read from the home socket. And where no write fails, the gate's
writer leaves its loop only after the home socket has ended, with the two
byte sequences equal. -/
theorem home_to_gate_integrity {t : Tunnel}
    (h : Reaches step (fun t sa => oneSession t sa = true) init t) {n j : Nat}
    (hn : n < t.home.numConns) (hu : UsedOnce (t.home.conns n).id t.home)
    (hj : j < t.gate.numConns) (hid : (t.gate.conns j).id = (t.home.conns n).id) :
    (t.gate.conns j).written <+: (t.home.conns n).reads.flatten ∧
      (NoWriteFailed (t.home.conns n).id t → (t.gate.conns j).writer.pastLoop = true →
        (t.home.conns n).eof = true ∧
          (t.gate.conns j).written = (t.home.conns n).reads.flatten) := by
  have hi := upstream h hu
  refine ⟨hi.prefix_written h hn rfl hj hid, fun hf hpast => ?_⟩
  have hok : (t.gate.conns j).writeFailed = false := hf .connect j hj hid
  exact (orderly h hu hf).written_eq hi h hn rfl hj hid hok hpast

/-- A connection is accepted, dialled for and registered, reads one byte and
then the end, and all its frames go over the relay to the gate's socket. -/
def oneByteRun : List (Side × Act) :=
  [(.listen, .loop .relayUp), (.connect, .loop .relayUp), (.listen, .accept),
    (.listen, .sendOpen), (.listen, .register), (.listen, .conn 0 (.read [7])),
    (.listen, .sendData 0), (.listen, .conn 0 .readEnd), (.listen, .sendEnd 0),
    (.listen, .loop .dequeue), (.listen, .loop .sendOk), (.listen, .loop .dequeue),
    (.listen, .loop .sendOk), (.listen, .loop .dequeue), (.listen, .loop .sendOk),
    (.connect, .recv (.tcpOpen 0)), (.connect, .dispatch), (.connect, .dialOk),
    (.connect, .recv (.tcpData 0 [7])), (.connect, .dispatch), (.connect, .deliver),
    (.connect, .recv (.tcpClose 0)), (.connect, .dispatch), (.connect, .deliver),
    (.connect, .conn 0 .pop), (.connect, .conn 0 (.write 1)), (.connect, .conn 0 .wrote),
    (.connect, .conn 0 .pop), (.connect, .conn 0 .shutdown)]

theorem home_to_gate_integrity_one_byte :
    ∃ t, Reaches step (fun t sa => oneSession t sa = true) init t ∧
      (t.gate.conns 0).writer = .shut ∧ (t.home.conns 0).eof = true ∧
      (t.gate.conns 0).written = (t.home.conns 0).reads.flatten := by
  have hrun : (run (guarded step fun t sa => oneSession t sa = true) init oneByteRun).any
      (fun t => t.home.numConns = 1 ∧ t.gate.numConns = 1 ∧
        (t.gate.conns 0).id = (t.home.conns 0).id ∧ (t.gate.conns 0).writer = .shut ∧
        (t.home.conns 0).writeFailed = false ∧ (t.gate.conns 0).writeFailed = false) =
      true := by
    decide
  obtain ⟨t, h, hp⟩ := exists_of_run_any hrun
  simp only [decide_eq_true_eq] at hp
  obtain ⟨hhome, hgate, hid, hshut, hokh, hokg⟩ := hp
  have hu : UsedOnce (t.home.conns 0).id t.home := usedOnce_of_single hhome
  have hf : NoWriteFailed (t.home.conns 0).id t := noWriteFailed_of_single hhome hgate hokh hokg
  have hend := (home_to_gate_integrity h (by omega) hu (by omega) hid).2 hf
    (by rw [hshut]; rfl)
  exact ⟨t, h, hshut, hend⟩

end Tunnel

end UsbWs
