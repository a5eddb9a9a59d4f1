import UsbWs.Emission

/-!
# The frames an endpoint emits for one conn id

The tasks that put frames of one conn id on the outbound queue take turns,
where the id is used once (`OwnId`), with one exception: the CLOSE for a
writer that is gone is sent while the reader may still be at work.

`Apart` is the turn taking: the session task has nothing to send once the
connection exists, and after a CLOSE nobody has. It holds in every run
without that exception (`dataGone`). With what is known of any run it makes
the log `Disciplined`, and `HalfCloseGrammar` is then a property of the log
alone.
-/

namespace UsbWs

open Runs

namespace Endpoint

variable {side : Side} {k : ConnId} {e e' : Endpoint} {a : Act}

/-! ## Taking turns -/

/-- Conn id `k` is used once: by one connection at most, and at the gate for
one OPEN at most. -/
def OwnId (side : Side) (k : ConnId) (e : Endpoint) : Prop :=
  UsedOnce k e ∧ (side = .connect → e.rcvd.count (.tcpOpen k) ≤ 1)

theorem OwnId.of_step (h : Trans side e a e') (ho : OwnId side k e') :
    OwnId side k e :=
  ⟨ho.1.of_step h, fun hs => (h.prefix_rcvd.sublist.count_le _).trans (ho.2 hs)⟩

/-- A known id of the gate is not opened again. -/
theorem not_reopened (hcount : e'.rcvd.count (.tcpOpen k) ≤ 1)
    (hr : e'.rcvd = e.rcvd ++ [.tcpOpen k]) (hk : Known .connect k e) : False := by
  rw [hr, List.count_append, List.count_singleton_self] at hcount
  have hpos : 0 < e.rcvd.count (.tcpOpen k) := List.count_pos_iff.2 hk
  omega

/-- The DATA arm finds that the writer of the connection with id `k` is gone. -/
def dataGone (k : ConnId) (e : Endpoint) : Act → Bool
  | .deliver =>
      match e.loop.pc with
      | .handling ⟨f, .deliver c (.data _)⟩ => f.connId = k && (e.conns c).writer = .done
      | _ => false
  | _ => false

/-- From here the session task may come to send a CLOSE, other than for a
writer it is still to find gone. -/
def mayClose (side : Side) (p : Handling) : Bool :=
  p.point.closes || (side = .connect && p.point = .start && p.frame.isOpen)

/-- The session task gets there from there, by receiving an OPEN at the gate,
or by finding a writer gone. -/
theorem Trans.mayClose_from (h : Trans side e a e') {p : Handling}
    (hp : e'.loop.pc = .handling p) (hc : mayClose side p = true) :
    (∃ p₀, e.loop.pc = .handling p₀ ∧ p₀.frame = p.frame ∧ mayClose side p₀ = true) ∨
      (side = .connect ∧ p.frame = .tcpOpen p.frame.connId ∧
        e'.rcvd = e.rcvd ++ [p.frame] ∧ e'.enq = e.enq) ∨
      dataGone p.frame.connId e a = true := by
  cases h.comes hp with
  | stay hpc hrcvd => exact Or.inl ⟨p, hpc, rfl, hc⟩
  | @recv f hpc hrcvd henq =>
      simp only [mayClose, Point.closes, Bool.false_or, decide_true, Bool.and_true,
        Bool.and_eq_true, decide_eq_true_eq] at hc
      refine Or.inr (Or.inl ⟨hc.1, ?_, hrcvd, henq⟩)
      cases f with
      | tcpOpen j => rfl
      | tcpData j payload => cases hc.2
      | tcpClose j => cases hc.2
  | @dial f hpc hrcvd hside hf =>
      refine Or.inl ⟨_, hpc, rfl, ?_⟩
      rw [hf, hside]
      rfl
  | deliver hpc hrcvd hmap hm =>
      simp [mayClose, Point.closes] at hc
  | gone hpc hrcvd hdone =>
      refine Or.inr (Or.inr ?_)
      simp [dataGone, hpc, hdone]
  | close hpc hrcvd hq =>
      refine Or.inl ⟨_, hpc, rfl, ?_⟩
      rcases hq with ⟨_, rfl⟩ | ⟨_, rfl⟩ <;> rfl

structure Apart (side : Side) (k : ConnId) (e : Endpoint) : Prop where
  quiet : ∀ c, c < e.numConns → (e.conns c).id = k → ∀ p, e.loop.pc = .handling p →
    p.frame.connId = k → mayClose side p = false
  first : ∀ p, e.loop.pc = .handling p → p.frame = .tcpOpen k → mayClose side p = true →
    framesFor k e.enq = []
  closed : .tcpClose k ∈ e.enq → ∀ c, c < e.numConns → (e.conns c).id = k →
    (e.conns c).reader = .done ∧ (e.conns c).eof = true ∧
      payloadsFor k e.enq = (e.conns c).reads
  closedSession : .tcpClose k ∈ e.enq → ∀ p, e.loop.pc = .handling p →
    p.frame.connId = k → mayClose side p = false
  closesLast : ClosesLast k e.enq

theorem apart_init (side : Side) (k : ConnId) : Apart side k (init side) := by
  constructor
  all_goals cases side <;>
    simp [init, Loop.init, enq, Loop.enqueued, ClosesLast, KeyedLog.ClosesLast]

/-- Where the session task may close, the id is known; at the home side a
connection has it. -/
theorem Traced.known_of_mayClose (hw : e.Wf side) (ht : Traced side e) {p : Handling}
    (hpc : e.loop.pc = .handling p) (hc : mayClose side p = true) :
    Known side p.frame.connId e := by
  rw [mayClose, Bool.or_eq_true] at hc
  rcases hc with hcl | hopen
  · exact ht.known_of_closes hw hpc hcl
  · simp only [Bool.and_eq_true, decide_eq_true_eq] at hopen
    obtain ⟨⟨rfl, _⟩, ho⟩ := hopen
    obtain ⟨r, hr⟩ := hw.handling p hpc
    obtain ⟨f, point⟩ := p
    cases f with
    | tcpOpen j => simp [Known, hr, Frame.connId]
    | tcpData j payload => cases ho
    | tcpClose j => cases ho

theorem Apart.quiet_step (hw : e.Wf side) (ht : Traced side e) (hp : Apart side k e)
    (hC : dataGone k e a = false) (h : Trans side e a e') (ho : OwnId side k e') :
    ∀ c, c < e'.numConns → (e'.conns c).id = k → ∀ p, e'.loop.pc = .handling p →
      p.frame.connId = k → mayClose side p = false := by
  intro c hlt' hck p hpc' hpk
  rw [Bool.eq_false_iff]
  intro hc
  by_cases hlt : c < e.numConns
  · have hck₀ : (e.conns c).id = k := (h.id_eq hlt).2 ▸ hck
    rcases h.mayClose_from hpc' hc with ⟨p₀, hpc, hf, hc₀⟩ | ⟨rfl, hopen, hrcvd, _⟩ | hgone
    · rw [hp.quiet c hlt hck₀ p₀ hpc (hf ▸ hpk)] at hc₀
      cases hc₀
    · rw [hopen, hpk] at hrcvd
      refine not_reopened (ho.2 rfl) hrcvd ?_
      have hk := ht.conn c hlt (hw.not_opening c)
      rwa [hck₀] at hk
    · rw [hpk, hC] at hgone
      cases hgone
  · -- a connection just accepted; the session task is where it was
    obtain ⟨rfl, henq, _, hmakes⟩ := h.makes hlt' hlt
    cases hmakes with
    | accepted hacc hacc' hpc hfree hnew =>
        have hknown := ht.known_of_mayClose hw (hpc ▸ hpc') hc
        cases side with
        | listen =>
            obtain ⟨d, hd, hdk, _⟩ := hknown
            exact ho.1.new_conn h hlt' hlt hck hd (hdk.trans hpk)
        | connect => exact absurd hacc hw.not_accepting
    | dialled hpc hpcs hnew => rw [hpcs] at hpc'; cases hpc'

/-- Who emits a frame for `k` while the session task may close `k`: only that
task, which is then back in its `select!`. -/
theorem Apart.emits_mayClose (hw : e.Wf side) (hp : Apart side k e)
    {p : Handling} (hpc : e.loop.pc = .handling p) (hpk : p.frame.connId = k)
    (hc : mayClose side p = true) {f : Frame} (hem : Emits e e' f) (hfk : f.connId = k) :
    e'.loop.pc = .select := by
  have hnone : ∀ c, (e.conns c).writer ≠ .unspawned → (e.conns c).id ≠ k := by
    intro c hstart hck
    have hlt : c < e.numConns := by
      by_contra hge
      exact hstart (hw.beyond c (by omega)).2
    rw [hp.quiet c hlt hck p hpc hpk] at hc
    cases hc
  cases hem with
  | @acceptor c hacc hacc' =>
      have hlt := (hw.opening c (Or.inl hacc)).1
      rw [hp.quiet c hlt hfk p hpc hpk] at hc
      cases hc
  | @data c chunk hr hconns =>
      exact absurd hfk (hnone c fun hun => by rw [(hw.spawned c).2 hun] at hr; cases hr)
  | @close c hr hpc hconns =>
      exact absurd hfk (hnone c fun hun => by rw [(hw.spawned c).2 hun] at hr; cases hr)
  | session hpc₀ hpc' hconns => exact hpc'

theorem Apart.first_step (hw : e.Wf side) (ht : Traced side e) (hp : Apart side k e)
    (hC : dataGone k e a = false) (h : Trans side e a e') (ho : OwnId side k e') :
    ∀ p, e'.loop.pc = .handling p → p.frame = .tcpOpen k → mayClose side p = true →
      framesFor k e'.enq = [] := by
  intro p hpc' hf hc
  have hpk : p.frame.connId = k := by rw [hf]; rfl
  rcases h.mayClose_from hpc' hc with ⟨p₀, hpc, hf₀, hc₀⟩ | ⟨rfl, hopen, hrcvd, henq⟩ | hgone
  · have hnil := hp.first p₀ hpc (hf₀.trans hf) hc₀
    rcases h.emits with henq | ⟨f, henq, hem⟩
    · rw [henq]
      exact hnil
    · by_cases hfk : f.connId = k
      · have hsel := hp.emits_mayClose hw hpc (hf₀ ▸ hpk) hc₀ hem hfk
        rw [hsel] at hpc'
        cases hpc'
      · rw [henq, framesFor, KeyedLog.on_append, KeyedLog.on_singleton_ne hfk,
          List.append_nil]
        exact hnil
  · -- an OPEN that was just received: the gate did not know the id before
    rw [hopen, hpk] at hrcvd
    rw [henq]
    exact KeyedLog.on_eq_nil.2 fun f hfm hfk => not_reopened (ho.2 rfl) hrcvd (hfk ▸ ht.enq f hfm)
  · rw [hpk, hC] at hgone
    cases hgone

/-- A reader that has ended stays ended and reads nothing. -/
theorem Trans.reader_done (hw : e.Wf side) (h : Trans side e a e') {c : Nat}
    (hlt : c < e.numConns) (hdone : (e.conns c).reader = .done) :
    (e'.conns c).reader = .done ∧ (e'.conns c).eof = (e.conns c).eof ∧
      (e'.conns c).reads = (e.conns c).reads := by
  cases h.connChange c with
  | accepted hnew | dialled hnew => exact absurd hnew (Nat.ne_of_lt hlt)
  | registered hacc =>
      have hun := (hw.spawned c).2 (hw.opening c (Or.inr hacc)).2
      cases hdone.symm.trans hun
  | own hv =>
      rcases Conn.step_reader hv with ⟨_, _, hr, _⟩ | ⟨hr, _⟩ | ⟨hr, hreads, heof⟩
      · cases hdone.symm.trans hr
      · cases hdone.symm.trans hr
      · exact ⟨hr.trans hdone, heof, hreads⟩
  | sent hr | dropped hr | finished hr => cases hdone.symm.trans hr
  | same hc | put _ hc | closed _ _ hc | removed _ _ hc => simp [hc, hdone]

/-- After a CLOSE for `k` was emitted no frame for `k` is. -/
theorem Apart.not_emits (hw : e.Wf side) (hp : Apart side k e) (hclose : .tcpClose k ∈ e.enq)
    {f : Frame} (hem : Emits e e' f) : f.connId ≠ k := by
  have hdone : ∀ c, (e.conns c).reader ≠ .unspawned → (e.conns c).id = k →
      (e.conns c).reader = .done := by
    intro c hstart hck
    refine (hp.closed hclose c ?_ hck).1
    by_contra hge
    exact hstart (hw.beyond c (by omega)).1
  intro hfk
  cases hem with
  | @acceptor c hacc hacc' =>
      obtain ⟨hlt, hun⟩ := hw.opening c (Or.inl hacc)
      have hd := (hp.closed hclose c hlt hfk).1
      rw [(hw.spawned c).2 hun] at hd
      cases hd
  | @data c chunk hr hconns =>
      have hd := hdone c (by simp [hr]) hfk
      rw [hr] at hd
      cases hd
  | @close c hr hpc hconns =>
      have hd := hdone c (by simp [hr]) hfk
      rw [hr] at hd
      cases hd
  | session hpc hpc' hconns =>
      have hq := hp.closedSession hclose _ hpc hfk
      cases hq

/-- A CLOSE for `k` was emitted before this step, or in it, by a reader or by
the session task. -/
theorem Trans.close_from (h : Trans side e a e') (hclose : .tcpClose k ∈ e'.enq) :
    .tcpClose k ∈ e.enq ∨
      (e'.enq = e.enq ++ [.tcpClose k] ∧ Emits e e' (.tcpClose k)) := by
  rcases h.emits with henq | ⟨f, henq, hem⟩
  · exact Or.inl (henq ▸ hclose)
  · rw [henq, List.mem_append, List.mem_singleton] at hclose
    rcases hclose with hold | rfl
    · exact Or.inl hold
    · exact Or.inr ⟨henq, hem⟩

theorem Apart.closed_step (hw : e.Wf side) (ht : Traced side e) (hp : Apart side k e)
    (hs : ∀ n, n < e.numConns → (e.conns n).id = k → SentOk k n e)
    (h : Trans side e a e') (ho : OwnId side k e') (hclose : .tcpClose k ∈ e'.enq) :
    ∀ c, c < e'.numConns → (e'.conns c).id = k → (e'.conns c).reader = .done ∧
      (e'.conns c).eof = true ∧ payloadsFor k e'.enq = (e'.conns c).reads := by
  intro c hlt' hck
  rcases h.close_from hclose with hold | ⟨henq, hem⟩
  · by_cases hlt : c < e.numConns
    · obtain ⟨hdone, heof, hall⟩ := hp.closed hold c hlt ((h.id_eq hlt).2 ▸ hck)
      obtain ⟨hdone', heof', hreads'⟩ := h.reader_done hw hlt hdone
      refine ⟨hdone', heof'.trans heof, ?_⟩
      rw [hreads', ← hall]
      rcases h.emits with henq | ⟨f, henq, hem⟩
      · rw [henq]
      · rw [henq, payloadsFor_append, payloadsFor_singleton_ne (hp.not_emits hw hold hem),
          List.append_nil]
    · obtain ⟨rfl, henq, _, hmakes⟩ := h.makes hlt' hlt
      cases hmakes with
      | accepted hacc hacc' hpc hfree hnew =>
          have hknown := ht.enq _ hold
          cases side with
          | listen =>
              obtain ⟨d, hd, hdk, _⟩ := hknown
              exact absurd hdk (ho.1.new_conn h hlt' hlt hck hd)
          | connect => exact absurd hacc hw.not_accepting
      | @dialled f hpc hpc' hnew =>
          have hfk : f.connId = k := by simpa [hnew] using hck
          have hq := hp.closedSession hold _ hpc hfk
          cases hq
  · have hlt : c < e.numConns := by
      by_contra hge
      have hsame := (h.makes hlt' hge).2.1
      simp [henq] at hsame
    have hck₀ : (e.conns c).id = k := (h.id_eq hlt).2 ▸ hck
    generalize hf : Frame.tcpClose k = f at hem
    cases hem with
    | acceptor hacc hacc' => cases hf
    | data hr hconns => cases hf
    | @close d hr hpc hconns =>
        cases hf
        have hd : d < e.numConns := by
          by_contra hge
          rw [(hw.beyond d (by omega)).1] at hr
          cases hr
        obtain rfl : c = d := (ho.of_step h).1 c d hlt hd hck₀ rfl
        rw [hconns c, if_pos rfl, henq]
        rcases (hs c hlt rfl).closing hr with ⟨hall, heof⟩ | ⟨hexit, _⟩
        · exact ⟨rfl, heof, by simpa using hall⟩
        · exact absurd hexit hpc
    | @session f hpc hpc' hconns =>
        have hfk : f.connId = k := by cases hf; rfl
        have hq := hp.quiet c hlt hck₀ _ hpc hfk
        cases hq

theorem Apart.closedSession_step (hw : e.Wf side) (ht : Traced side e) (hp : Apart side k e)
    (hC : dataGone k e a = false) (h : Trans side e a e') (ho : OwnId side k e')
    (hclose : .tcpClose k ∈ e'.enq) :
    ∀ p, e'.loop.pc = .handling p → p.frame.connId = k → mayClose side p = false := by
  intro p hpc' hpk
  rcases h.close_from hclose with hold | ⟨hne, hem⟩
  · rw [Bool.eq_false_iff]
    intro hc
    rcases h.mayClose_from hpc' hc with ⟨p₀, hpc, hf, hc₀⟩ | ⟨rfl, hopen, hrcvd, _⟩ | hgone
    · rw [hp.closedSession hold p₀ hpc (hf ▸ hpk)] at hc₀
      cases hc₀
    · rw [hopen, hpk] at hrcvd
      exact not_reopened (ho.2 rfl) hrcvd (ht.enq _ hold)
    · rw [hpk, hC] at hgone
      cases hgone
  · generalize hf : Frame.tcpClose k = f at hem
    cases hem with
    | acceptor hacc hacc' => cases hf
    | data hr hconns => cases hf
    | @close d hr hpcs hconns =>
        have hd : d < e.numConns := by
          by_contra hge
          rw [(hw.beyond d (by omega)).1] at hr
          cases hr
        obtain ⟨hd', hdid⟩ := h.id_eq hd
        refine hp.quiet_step hw ht hC h ho d hd' ?_ p hpc' hpk
        rw [hdid]
        cases hf
        rfl
    | session hpc hsel hconns => rw [hsel] at hpc'; cases hpc'

theorem Apart.step (hw : e.Wf side) (ht : Traced side e) (hp : Apart side k e)
    (hs : ∀ n, n < e.numConns → (e.conns n).id = k → SentOk k n e)
    (hC : dataGone k e a = false) (h : Trans side e a e') (ho : OwnId side k e') :
    Apart side k e' where
  quiet := hp.quiet_step hw ht hC h ho
  first := hp.first_step hw ht hC h ho
  closed := hp.closed_step hw ht hs h ho
  closedSession := hp.closedSession_step hw ht hC h ho
  closesLast := by
    rcases h.emits with henq | ⟨f, henq, hem⟩
    · exact henq ▸ hp.closesLast
    · rw [henq, closesLast_snoc]
      exact ⟨hp.closesLast, fun hfk hclose => hp.not_emits hw hclose hem hfk⟩

/-! ## The grammar -/

/-- The frames emitted for connection `n`: at most one OPEN, then DATA in the
order of its reads, then at most one CLOSE, which waits for the end of the
socket's read side and for all of its data. -/
def HalfCloseGrammar (e : Endpoint) (n : Nat) : Prop :=
  ∃ opening sent close,
    framesFor (e.conns n).id e.enq =
      opening ++ sent.map (Frame.tcpData (e.conns n).id) ++ close ∧
    (opening = [] ∨ opening = [.tcpOpen (e.conns n).id]) ∧
    (close = [] ∨ close = [.tcpClose (e.conns n).id]) ∧
    sent <+: (e.conns n).reads ∧
    (close ≠ [] → (e.conns n).reader = .done ∧ (e.conns n).eof = true ∧
      sent = (e.conns n).reads)

/-- Everything an endpoint's log satisfies for an id that is used once. -/
structure Disciplined (side : Side) (k : ConnId) (e : Endpoint) : Prop where
  wf : e.Wf side
  traced : Traced side e
  apart : Apart side k e
  opensFirst : OpensFirst k e.enq
  sent : ∀ n, n < e.numConns → (e.conns n).id = k → SentOk k n e

theorem disciplined_init (side : Side) (k : ConnId) : Disciplined side k (init side) where
  wf := wf_init side
  traced := traced_init side
  apart := apart_init side k
  opensFirst := by cases side <;> exact KeyedLog.opensFirst_nil
  sent := by cases side <;> simp [init]

theorem Disciplined.step (hd : Disciplined side k e) (hC : dataGone k e a = false)
    (h : Trans side e a e') (ho : OwnId side k e') : Disciplined side k e' where
  wf := hd.wf.step h
  traced := hd.traced.step hd.wf h
  apart := hd.apart.step hd.wf hd.traced hd.sent hC h ho
  opensFirst := hd.traced.opensFirst_step hd.wf hd.opensFirst h ho.1
  sent := by
    intro n hn hid
    by_cases hlt : n < e.numConns
    · have hid₀ : (e.conns n).id = k := (h.id_eq hlt).2 ▸ hid
      exact (hd.sent n hlt hid₀).step_old hd.wf h ho.1 hlt hid₀
    · refine SentOk.step_new hd.wf hd.traced h ho.1 (fun f hpc hfk => ?_) hn hlt hid
      exact hd.apart.first _ hpc (hfk ▸ (hd.wf.dialing f hpc).2) rfl

theorem Disciplined.grammar (hd : Disciplined side k e) {n : Nat} (hn : n < e.numConns)
    (hid : (e.conns n).id = k) : HalfCloseGrammar e n := by
  subst hid
  obtain ⟨opening, close, hframes, hopening, hclose⟩ :=
    framesFor_eq hd.opensFirst hd.apart.closesLast
  refine ⟨opening, _, close, hframes, hopening, hclose, (hd.sent n hn rfl).prefix_reads, ?_⟩
  intro hne
  refine hd.apart.closed ?_ n hn rfl
  rcases hclose with hnil | rfl
  · exact absurd hnil hne
  · have hmem : Frame.tcpClose (e.conns n).id ∈ framesFor (e.conns n).id e.enq := by
      rw [hframes]
      simp
    exact (KeyedLog.mem_on.1 hmem).1

/-- On both sides, in every run in which `handle_incoming` never finds the
writer of a connection gone on a DATA frame, the connection with an id of its
own keeps to the grammar of half-close. -/
theorem halfCloseGrammar_of_not_dataGone {side : Side} {k : ConnId} {e : Endpoint} {n : Nat}
    (h : Reaches (step side) (fun e a => dataGone k e a = false) (init side) e)
    (ho : OwnId side k e) (hn : n < e.numConns) (hid : (e.conns n).id = k) :
    HalfCloseGrammar e n := by
  have hd : Disciplined side k e := by
    have hback : ∀ {u a v}, Endpoint.step side u a = some v →
        OwnId side k v → OwnId side k u := fun hs => OwnId.of_step (trans_of_step hs)
    exact h.invariant_of hback (fun _ => disciplined_init side k)
      (fun _ hC hs ho hd => hd.step hC (trans_of_step hs) ho) ho
  exact hd.grammar hn hid

theorem usedOnce_of_single {e : Endpoint} (h : e.numConns = 1) : UsedOnce k e :=
  fun c d hc hd _ _ => by omega

/-- A connection of the home side, from its accept to the end of its socket. -/
def halfCloseRun : List Act :=
  [.loop .relayUp, .accept, .sendOpen, .register, .conn 0 (.read [7]), .sendData 0,
    .conn 0 .readEnd, .sendEnd 0]

theorem halfCloseGrammar_of_eof :
    ∃ e, Reaches (step .listen) (fun e a => dataGone 0 e a = false) (init .listen) e ∧
      e.enq = [.tcpOpen 0, .tcpData 0 [7], .tcpClose 0] ∧ HalfCloseGrammar e 0 := by
  have hrun : (run (guarded (step .listen) fun e a => dataGone 0 e a = false) (init .listen)
      halfCloseRun).any (fun e => e.enq = [.tcpOpen 0, .tcpData 0 [7], .tcpClose 0] ∧
        e.numConns = 1 ∧ (e.conns 0).id = 0) = true := by
    decide
  obtain ⟨e, h, hp⟩ := exists_of_run_any hrun
  simp only [decide_eq_true_eq] at hp
  obtain ⟨henq, hnum, hid⟩ := hp
  have ho : OwnId .listen 0 e := ⟨usedOnce_of_single hnum, fun hs => by cases hs⟩
  exact ⟨e, h, henq, halfCloseGrammar_of_not_dataGone h ho (by omega) hid⟩

/-- A write to the local socket fails while `handle_incoming` holds a clone of
the sender of its queue: the session task then sends a CLOSE for a connection
whose reader is still at work. -/
def goneRun : List Act :=
  [.loop .relayUp, .accept, .sendOpen, .register, .recv (.tcpData 0 [1]), .dispatch,
    .deliver, .conn 0 .pop, .conn 0 .writeErr, .recv (.tcpData 0 [2]), .dispatch,
    .conn 0 .shutdown, .remove 0, .deliver, .removeGone, .sendClose]

theorem not_halfCloseGrammar_of_writeErr :
    ∃ e, Reaches (step .listen) Free (init .listen) e ∧ OwnId .listen 0 e ∧
      0 < e.numConns ∧ (e.conns 0).id = 0 ∧ ¬ HalfCloseGrammar e 0 := by
  have hrun : (run (guarded (step .listen) Free) (init .listen) goneRun).any (fun e =>
      framesFor 0 e.enq = [.tcpOpen 0, .tcpClose 0] ∧ (e.conns 0).reader = .reading ∧
        e.numConns = 1 ∧ (e.conns 0).id = 0) = true := by
    decide
  obtain ⟨e, h, hp⟩ := exists_of_run_any hrun
  simp only [decide_eq_true_eq] at hp
  obtain ⟨hframes, hreading, hnum, hid⟩ := hp
  refine ⟨e, h, ⟨usedOnce_of_single hnum, fun hs => by cases hs⟩, by omega, hid, ?_⟩
  rintro ⟨opening, sent, close, heq, hopening, hclose, _, hend⟩
  rw [hid] at heq hopening hclose
  rw [hframes] at heq
  rcases hclose with rfl | rfl
  · rcases hopening with rfl | rfl
    · cases sent <;> simp at heq
    · cases sent <;> simp at heq
  · have hdone := (hend (by simp)).1
    rw [hreading] at hdone
    cases hdone

end Endpoint

end UsbWs
