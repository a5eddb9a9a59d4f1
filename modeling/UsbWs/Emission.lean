import UsbWs.Ownership

/-!
# What an endpoint puts on its outbound queue

Three tasks put frames on the outbound queue: the acceptor its OPEN, a reader
its DATA and its CLOSE, and the session task a CLOSE of its own, for a failed
dial or for a writer it found gone. `Emits` is that inventory.

Two facts follow for any run. `Traced` says that a frame never comes before
the connection, or before the OPEN it answers; so where an id is used once
its OPEN is its first frame. And `SentOk` says how far a reader has come: the
DATA frames of an id that is used once are the chunks its reader read, in
order, up to the one in its hands.
-/

namespace UsbWs

open Runs

/-- The points of `handle_incoming` on the way to a CLOSE of its own. -/
def Point.closes : Point → Bool
  | .dialing | .writerGone | .sendClose => true
  | _ => false

namespace Endpoint

variable {side : Side} {k : ConnId} {e e' : Endpoint} {a : Act}

/-! ## What puts a frame on the outbound queue -/

/-- Who put frame `f` on the queue in a step from `e` to `e'`. -/
inductive Emits (e e' : Endpoint) : Frame → Prop where
  | acceptor {c : Nat} (hacc : e.acceptor = .opening c) (hacc' : e'.acceptor = .registering c) :
      Emits e e' (.tcpOpen (e.conns c).id)
  | data {c : Nat} {chunk : Bytes} (hr : (e.conns c).reader = .sending chunk)
      (hconns : ∀ d, e'.conns d = if d = c then { e.conns c with reader := .reading }
        else e.conns d) : Emits e e' (.tcpData (e.conns c).id chunk)
  | close {c : Nat} (hr : (e.conns c).reader = .closing) (hpc : e.loop.pc ≠ .exited)
      (hconns : ∀ d, e'.conns d = if d = c then { e.conns c with reader := .done }
        else e.conns d) : Emits e e' (.tcpClose (e.conns c).id)
  | session {f : Frame} (hpc : e.loop.pc = .handling ⟨f, .sendClose⟩)
      (hpc' : e'.loop.pc = .select) (hconns : ∀ d, e'.conns d = e.conns d) :
      Emits e e' (.tcpClose f.connId)

/-- A step appends at most one frame to what was ever enqueued. -/
theorem Trans.emits (h : Trans side e a e') :
    e'.enq = e.enq ∨ ∃ f, e'.enq = e.enq ++ [f] ∧ Emits e e' f := by
  cases h with
  | loop hev hl => exact Or.inl (Loop.event_frame hl).2.2.2
  | sendOpen hacc hgone hroom =>
      exact Or.inr ⟨_, by simp, .acceptor hacc rfl⟩
  | sendClose hpc hroom => exact Or.inr ⟨_, by simp, .session hpc rfl (by simp)⟩
  | sendData hr hgone hroom => exact Or.inr ⟨_, by simp, .data hr (by simp)⟩
  | sendEnd hr hgone hroom =>
      exact Or.inr ⟨_, by simp, .close hr (by simpa [outGone] using hgone) (by simp)⟩
  | _ => exact Or.inl (by simp)

/-! ## Frames have a reason -/

/-- The home side knows an id once it has sent the OPEN of a connection with
that id, or is past trying; the gate knows it once it has received one. -/
def Known (side : Side) (k : ConnId) (e : Endpoint) : Prop :=
  match side with
  | .listen => ∃ c < e.numConns, (e.conns c).id = k ∧ e.acceptor ≠ .opening c
  | .connect => .tcpOpen k ∈ e.rcvd

theorem Known.step (hw : e.Wf side) (h : Trans side e a e') (hk : Known side k e) :
    Known side k e' := by
  cases side with
  | listen =>
      obtain ⟨c, hlt, hid, hacc⟩ := hk
      obtain ⟨hlt', hid'⟩ := h.id_eq hlt
      refine ⟨c, hlt', hid'.trans hid, fun hacc' => ?_⟩
      cases h.acceptorChange with
      | same hsame => exact hacc (hsame.symm.trans hacc')
      | accepted _ hopen =>
          obtain rfl : e.numConns = c := by simpa using hopen.symm.trans hacc'
          exact absurd hlt (Nat.lt_irrefl _)
      | opened _ hreg => cases hreg.symm.trans hacc'
      | gone _ hgone => cases hgone.symm.trans hacc'
      | registered _ hdone => cases hdone.symm.trans hacc'
  | connect => exact h.prefix_rcvd.mem hk

structure Traced (side : Side) (e : Endpoint) : Prop where
  enq : ∀ f ∈ e.enq, Known side f.connId e
  conn : ∀ c, c < e.numConns → e.acceptor ≠ .opening c → Known side (e.conns c).id e
  closing : ∀ f, e.loop.pc = .handling ⟨f, .sendClose⟩ → Known side f.connId e

theorem traced_init (side : Side) : Traced side (init side) := by
  constructor
  all_goals cases side <;> simp [init, Loop.init, enq, Loop.enqueued]

theorem Traced.conn_step (hw : e.Wf side) (ht : Traced side e) (h : Trans side e a e') :
    ∀ c, c < e'.numConns → e'.acceptor ≠ .opening c → Known side (e'.conns c).id e' := by
  intro c hlt hacc
  cases side with
  | listen => exact ⟨c, hlt, rfl, hacc⟩
  | connect =>
      by_cases hc : c < e.numConns
      · have hk := (ht.conn c hc (hw.not_opening c)).step hw h
        rwa [(h.id_eq hc).2]
      · obtain ⟨rfl, _, hrcvd, hmakes⟩ := h.makes hlt hc
        cases hmakes with
        | accepted hacc₀ => exact absurd hacc₀ hw.not_accepting
        | @dialled f hpc hpc' hnew =>
            -- the OPEN that is dialled for is the frame at hand
            obtain ⟨r, hr⟩ := hw.handling _ hpc
            have hf := (hw.dialing f hpc).2
            simp [Known, hnew, hrcvd, hr, ← hf]

/-- A connection whose tasks have started is known. -/
theorem Traced.known_of_started (hw : e.Wf side) (ht : Traced side e) {c : Nat}
    (hstart : (e.conns c).writer ≠ .unspawned) : Known side (e.conns c).id e := by
  refine ht.conn c ?_ fun hacc => hstart (hw.opening c (Or.inl hacc)).2
  by_contra hlt
  exact hstart (hw.beyond c (by omega)).2

/-- On the way to a CLOSE that `handle_incoming` sends itself, the id is known. -/
theorem Traced.known_of_closes (hw : e.Wf side) (ht : Traced side e) {p : Handling}
    (hpc : e.loop.pc = .handling p) (hp : p.point.closes = true) :
    Known side p.frame.connId e := by
  obtain ⟨f, point⟩ := p
  cases point with
  | start | deliver c m => cases hp
  | dialing =>
      obtain ⟨rfl, hf⟩ := hw.dialing f hpc
      obtain ⟨r, hr⟩ := hw.handling _ hpc
      simp [Known, hr, ← hf]
  | writerGone =>
      obtain ⟨c, hlt, hid, hdone⟩ := hw.writerGone f hpc
      exact hid ▸ ht.known_of_started hw (by rw [hdone]; simp)
  | sendClose => exact ht.closing f hpc

theorem Traced.closing_step (hw : e.Wf side) (ht : Traced side e) (h : Trans side e a e') :
    ∀ f, e'.loop.pc = .handling ⟨f, .sendClose⟩ → Known side f.connId e' := by
  intro f hp
  refine Known.step hw h ?_
  cases h.comes hp with
  | stay hpc hrcvd => exact ht.closing f hpc
  | close hpc hrcvd hq =>
      rcases hq with ⟨_, rfl⟩ | ⟨_, rfl⟩
      · exact ht.known_of_closes hw hpc rfl
      · exact ht.known_of_closes hw hpc rfl

theorem Traced.enq_step (hw : e.Wf side) (ht : Traced side e) (h : Trans side e a e') :
    ∀ f ∈ e'.enq, Known side f.connId e' := by
  intro f hf
  have hold : f ∈ e.enq → Known side f.connId e' := fun hf => (ht.enq f hf).step hw h
  rcases h.emits with henq | ⟨g, henq, hem⟩
  · exact hold (henq ▸ hf)
  · rw [henq, List.mem_append, List.mem_singleton] at hf
    rcases hf with hf | rfl
    · exact hold hf
    · cases hem with
      | @acceptor c hacc hacc' =>
          cases side with
          | listen =>
              obtain ⟨hlt, hid⟩ := h.id_eq (hw.opening c (Or.inl hacc)).1
              exact ⟨c, hlt, hid, by simp [hacc']⟩
          | connect => exact absurd hacc (hw.not_opening c)
      | @data c chunk hr hconns =>
          refine (ht.known_of_started hw fun hun => ?_).step hw h
          rw [(hw.spawned c).2 hun] at hr
          cases hr
      | @close c hr hpc hconns =>
          refine (ht.known_of_started hw fun hun => ?_).step hw h
          rw [(hw.spawned c).2 hun] at hr
          cases hr
      | session hpc hpc' hconns => exact (ht.closing _ hpc).step hw h

theorem Traced.step (hw : e.Wf side) (ht : Traced side e) (h : Trans side e a e') :
    Traced side e' where
  enq := ht.enq_step hw h
  conn := ht.conn_step hw h
  closing := ht.closing_step hw h

/-! ## Ids that are used once -/

/-- A connection that is new has an id no connection had. -/
theorem UsedOnce.new_conn (h : Trans side e a e') (hu : UsedOnce k e')
    {c d : Nat} (hlt' : c < e'.numConns) (hge : ¬ c < e.numConns) (hck : (e'.conns c).id = k)
    (hd : d < e.numConns) : (e.conns d).id ≠ k := by
  intro hdk
  obtain ⟨hd', hdid⟩ := h.id_eq hd
  have heq := hu c d hlt' hd' hck (hdid.trans hdk)
  omega

/-- While the acceptor is in the `send_peer` of an OPEN, no frame has the id. -/
theorem Traced.unsent_of_opening (hw : e.Wf side) (ht : Traced side e) {c : Nat}
    (hacc : e.acceptor = .opening c) (hu : UsedOnce (e.conns c).id e) :
    framesFor (e.conns c).id e.enq = [] := by
  refine KeyedLog.on_eq_nil.2 fun f hf hfk => ?_
  have hknown := ht.enq f hf
  cases side with
  | listen =>
      obtain ⟨d, hd, hdk, hne⟩ := hknown
      have heq := hu d c hd (hw.opening c (Or.inl hacc)).1 (hdk.trans hfk) rfl
      exact hne (heq ▸ hacc)
  | connect => exact absurd hacc (hw.not_opening c)

/-- The OPEN of an id that is used once is its first frame. -/
theorem Traced.opensFirst_step (hw : e.Wf side) (ht : Traced side e) (hf : OpensFirst k e.enq)
    (h : Trans side e a e') (hu : UsedOnce k e') : OpensFirst k e'.enq := by
  rcases h.emits with henq | ⟨f, henq, hem⟩
  · exact henq ▸ hf
  · rw [henq, opensFirst_snoc]
    refine ⟨hf, ?_⟩
    rintro rfl
    generalize hf : Frame.tcpOpen k = f at hem
    cases hem with
    | @acceptor c hacc hacc' =>
        cases hf
        exact ht.unsent_of_opening hw hacc (hu.of_step h)
    | data hr hconns => cases hf
    | close hr hpc hconns => cases hf
    | session hpc hpc' hconns => cases hf

/-! ## How far the reader has come -/

/-- What of the chunks it read the reader of connection `n`, with id `k`, has
put on the queue. A reader that ends before its socket does has found the
session gone. -/
structure SentOk (k : ConnId) (n : Nat) (e : Endpoint) : Prop where
  reading : (e.conns n).reader = .unspawned ∨ (e.conns n).reader = .reading →
    payloadsFor k e.enq = (e.conns n).reads
  sending : ∀ chunk, (e.conns n).reader = .sending chunk →
    payloadsFor k e.enq ++ [chunk] = (e.conns n).reads
  closing : (e.conns n).reader = .closing →
    payloadsFor k e.enq = (e.conns n).reads ∧ (e.conns n).eof = true ∨
      e.loop.pc = .exited ∧ payloadsFor k e.enq <+: (e.conns n).reads
  done : (e.conns n).reader = .done →
    payloadsFor k e.enq = (e.conns n).reads ∧ (e.conns n).eof = true ∨
      e.loop.pc = .exited ∧ payloadsFor k e.enq <+: (e.conns n).reads

theorem SentOk.of_reading {n : Nat}
    (hr : (e.conns n).reader = .unspawned ∨ (e.conns n).reader = .reading)
    (hsent : payloadsFor k e.enq = (e.conns n).reads) : SentOk k n e := by
  constructor
  · exact fun _ => hsent
  all_goals rcases hr with hr | hr <;> simp [hr]

theorem SentOk.of_sending {n : Nat} {chunk : Bytes} (hr : (e.conns n).reader = .sending chunk)
    (hsent : payloadsFor k e.enq ++ [chunk] = (e.conns n).reads) : SentOk k n e := by
  constructor <;> simp [hr, hsent]

theorem SentOk.of_ended {n : Nat}
    (hr : (e.conns n).reader = .closing ∨ (e.conns n).reader = .done)
    (hsent : payloadsFor k e.enq = (e.conns n).reads ∧ (e.conns n).eof = true ∨
      e.loop.pc = .exited ∧ payloadsFor k e.enq <+: (e.conns n).reads) : SentOk k n e := by
  constructor
  case closing => exact fun _ => hsent
  case done => exact fun _ => hsent
  all_goals rcases hr with hr | hr <;> simp [hr]

/-- Nothing happened to the reader, and none of its frames was queued. -/
theorem SentOk.of_eq {n : Nat} (hs : SentOk k n e) (h : Trans side e a e')
    (hsent : payloadsFor k e'.enq = payloadsFor k e.enq)
    (hr : (e'.conns n).reader = (e.conns n).reader)
    (hreads : (e'.conns n).reads = (e.conns n).reads)
    (heof : (e'.conns n).eof = (e.conns n).eof) : SentOk k n e' := by
  constructor <;> rw [hr, hreads, hsent]
  · exact hs.reading
  · exact hs.sending
  · rw [heof]
    exact fun hc => (hs.closing hc).imp_right (And.imp_left h.exited)
  · rw [heof]
    exact fun hd => (hs.done hd).imp_right (And.imp_left h.exited)

/-- The DATA frames of an id are those of its readers. -/
theorem Trans.payloads_cases (h : Trans side e a e') :
    payloadsFor k e'.enq = payloadsFor k e.enq ∨ ∃ c chunk,
      (e.conns c).reader = .sending chunk ∧ (e.conns c).id = k ∧
        payloadsFor k e'.enq = payloadsFor k e.enq ++ [chunk] ∧
        e'.conns c = { e.conns c with reader := .reading } := by
  rcases h.emits with henq | ⟨f, henq, hem⟩
  · exact Or.inl (by rw [henq])
  · rw [henq]
    cases hem with
    | acceptor => exact Or.inl (payloadsFor_snoc_open ..)
    | @data c chunk hr hconns =>
        rw [payloadsFor_snoc_data]
        split
        · next hk => exact Or.inr ⟨c, chunk, hr, hk, rfl, by simp [hconns]⟩
        · exact Or.inl rfl
    | close | session => exact Or.inl (payloadsFor_snoc_close ..)

theorem SentOk.step_old (hw : e.Wf side) {n : Nat} (hs : SentOk k n e)
    (h : Trans side e a e') (hu : UsedOnce k e') (hn : n < e.numConns)
    (hid : (e.conns n).id = k) : SentOk k n e' := by
  rcases h.payloads_cases (k := k) with hsent | ⟨c, chunk, hr, hck, hsent, hc⟩
  · cases h.connChange n with
    | accepted hnew | dialled hnew => exact absurd hnew (Nat.ne_of_lt hn)
    | registered hacc _ hc =>
        have hun := (hw.spawned n).2 (hw.opening n (Or.inr hacc)).2
        refine .of_reading (Or.inr (by simp [hc])) ?_
        rw [hsent, hs.reading (Or.inl hun), hc]
        rfl
    | own hv =>
        rcases Conn.step_reader hv with
          ⟨chunk, _, hr, hr', hreads, _⟩ | ⟨hr, hr', hreads, heof⟩ | ⟨hr, hreads, heof⟩
        · exact .of_sending hr' (by rw [hsent, hs.reading (Or.inr hr), hreads])
        · refine .of_ended (Or.inl hr') (Or.inl ⟨?_, heof⟩)
          rw [hsent, hs.reading (Or.inr hr), hreads]
        · exact hs.of_eq h hsent hr hreads heof
    | @sent chunk hr henq hc =>
        rw [henq, payloadsFor_snoc_data, if_pos hid] at hsent
        simp at hsent
    | @dropped chunk hr hgone hc =>
        refine .of_ended (Or.inl (by rw [hc])) (Or.inr ⟨h.exited hgone, [chunk], ?_⟩)
        rw [hsent, hs.sending chunk hr, hc]
    | finished hr hc =>
        refine .of_ended (Or.inr (by rw [hc])) ?_
        rw [hsent, hc]
        exact (hs.closing hr).imp_right (And.imp_left h.exited)
    | same hc | put _ hc | closed _ _ hc | removed _ _ hc =>
        exact hs.of_eq h hsent (by simp [hc]) (by simp [hc]) (by simp [hc])
  · -- the reader whose chunk was queued is that of `n`
    have hlt : c < e.numConns := by
      by_contra hge
      rw [(hw.beyond c (by omega)).1] at hr
      cases hr
    obtain rfl : c = n := hu.of_step h c n hlt hn hck hid
    exact .of_reading (Or.inr (by rw [hc])) (by rw [hsent, hs.sending chunk hr, hc])

/-- A connection that is new has sent nothing, nor has anyone under its id. -/
theorem SentOk.step_new (hw : e.Wf side) (ht : Traced side e) (h : Trans side e a e')
    (hu : UsedOnce k e')
    (hdial : ∀ f, e.loop.pc = .handling ⟨f, .dialing⟩ → f.connId = k →
      framesFor k e.enq = [])
    {n : Nat} (hn : n < e'.numConns) (hge : ¬ n < e.numConns) (hid : (e'.conns n).id = k) :
    SentOk k n e' := by
  obtain ⟨rfl, henq, _, hmakes⟩ := h.makes hn hge
  have hnil : payloadsFor k e'.enq = [] := by
    rw [henq]
    apply payloadsFor_of_framesFor_nil
    cases hmakes with
    | accepted hacc hacc' hpc hfree hnew =>
        refine KeyedLog.on_eq_nil.2 fun f hf hfk => ?_
        have hknown := ht.enq f hf
        cases side with
        | listen =>
            obtain ⟨d, hd, hdk, _⟩ := hknown
            exact hu.new_conn h hn hge hid hd (hdk.trans hfk)
        | connect => exact absurd hacc hw.not_accepting
    | @dialled f hpc hpc' hnew =>
        have hfk : f.connId = k := by simpa [hnew] using hid
        exact hdial f hpc hfk
  have hreads : (e'.conns e.numConns).reads = [] ∧
      ((e'.conns e.numConns).reader = .unspawned ∨
        (e'.conns e.numConns).reader = .reading) := by
    cases hmakes with
    | accepted hacc hacc' hpc hfree hnew => simp [hnew]
    | dialled hpc hpc' hnew => simp [hnew]
  exact .of_reading hreads.2 (hnil.trans hreads.1.symm)

theorem SentOk.prefix_reads {n : Nat} (hs : SentOk k n e) :
    payloadsFor k e.enq <+: (e.conns n).reads := by
  cases hr : (e.conns n).reader with
  | unspawned => exact hs.reading (Or.inl hr) ▸ List.prefix_rfl
  | reading => exact hs.reading (Or.inr hr) ▸ List.prefix_rfl
  | sending chunk => exact ⟨[chunk], hs.sending chunk hr⟩
  | closing =>
      rcases hs.closing hr with ⟨heq, _⟩ | ⟨_, hpre⟩
      · exact heq ▸ List.prefix_rfl
      · exact hpre
  | done =>
      rcases hs.done hr with ⟨heq, _⟩ | ⟨_, hpre⟩
      · exact heq ▸ List.prefix_rfl
      · exact hpre

end Endpoint

end UsbWs
