import UsbWs.Integrity

/-!
# The answer to an OPEN

The acceptor sends the OPEN of a connection before `spawn_connection` enters
it in the map. The gate may answer before that: with the first bytes of its
socket, or with the CLOSE of a dial that failed. `handle_incoming` drops the
answer when it looks it up too early, and the connection never learns.

That is the only way a frame of the gate gets lost in a relay session without
failed writes: in every run in which no frame is looked up between the
`alloc_conn_id` and the insertion of its connection (`registeredFirst`), what
home received for a connection was put on its writer's queue or is in hand,
frame by frame.
-/

namespace UsbWs

open Runs

/-- The frame that asks for a message. -/
def WrMsg.frame (k : ConnId) : WrMsg → Frame
  | .data bytes => .tcpData k bytes
  | .shutdown => .tcpClose k

theorem WrMsg.frame_of_msg {f : Frame} {m : WrMsg} (h : f.msg = some m) :
    m.frame f.connId = f := by
  cases f with
  | tcpOpen k => cases h
  | tcpData k payload =>
      simp only [Frame.msg] at h
      split at h <;> cases h
      rfl
  | tcpClose k => cases h; rfl

/-- In a log in which every frame asks for a message, the messages are the
frames. -/
theorem map_frame_msgsFor {k : ConnId} {log : List Frame}
    (h : ∀ f ∈ log, f.msg ≠ none) : (msgsFor k log).map (WrMsg.frame k) = framesFor k log := by
  induction log with
  | nil => rfl
  | cons f log ih =>
      rw [← List.singleton_append, msgsFor_append, List.map_append, framesFor,
        KeyedLog.on_append, ih fun g hg => h g (by simp [hg])]
      congr 1
      by_cases hk : f.connId = k
      · subst hk
        obtain ⟨m, hm⟩ := Option.ne_none_iff_exists'.1 (h f (by simp))
        rw [msgsFor_singleton_self, KeyedLog.on_singleton_self, hm]
        exact congrArg (fun f => [f]) (WrMsg.frame_of_msg hm)
      · rw [msgsFor_singleton_ne hk, KeyedLog.on_singleton_ne hk]
        rfl

namespace Endpoint

variable {k : ConnId} {side : Side} {e e' : Endpoint} {a : Act}

/-! ## What the gate emits -/

/-- A chunk that was read is not empty, and neither is a DATA frame. -/
structure Asks (e : Endpoint) : Prop where
  chunk : ∀ c chunk, (e.conns c).reader = .sending chunk → chunk ≠ []
  enq : ∀ f ∈ e.enq, f.msg ≠ none

theorem asks_init : Asks (init .connect) where
  chunk := by simp [init]
  enq := by simp [init, Endpoint.enq, Loop.enqueued, Loop.init]

theorem Asks.step (hw : e.Wf .connect) (ha : Asks e) (h : Trans .connect e a e') : Asks e' where
  chunk := by
    intro c chunk hr'
    have hold := ha.chunk c chunk
    cases h.connChange c with
    | own hv =>
        rcases Conn.step_reader hv with
          ⟨chunk', hne, _, hread, _⟩ | ⟨_, hread, _⟩ | ⟨hread, _⟩
        · cases hread.symm.trans hr'
          exact hne
        · cases hread.symm.trans hr'
        · exact hold (hread.symm.trans hr')
    | accepted _ _ _ hc | dialled _ _ _ hc | registered _ _ hc | sent _ _ hc
    | dropped _ _ hc | finished _ hc =>
        rw [hc] at hr'
        cases hr'
    | same hc | put _ hc | closed _ _ hc | removed _ _ hc =>
        rw [hc] at hr'
        exact hold hr'
  enq := by
    intro f hf
    rcases h.emits with henq | ⟨g, henq, hem⟩
    · exact ha.enq f (henq ▸ hf)
    · rw [henq, List.mem_append, List.mem_singleton] at hf
      rcases hf with hf | rfl
      · exact ha.enq f hf
      · cases hem with
        | acceptor hacc => exact absurd hacc (hw.not_opening _)
        | data hr hconns => simpa [Frame.msg] using ha.chunk _ _ hr
        | close hr hpc hconns => simp [Frame.msg]
        | session hpc hpc' hconns => simp [Frame.msg]

end Endpoint

namespace Tunnel

open Endpoint

variable {k : ConnId} {t t' : Tunnel}

/-! ## Gate to home -/

/-- The relay session goes on, and home looks no frame up before its connection
is registered. -/
def answersRegistered (t : Tunnel) (sa : Side × Act) : Bool :=
  oneSession t sa && (sa.1 = .connect || registeredFirst t.home sa.2)

theorem oneSession_of_registered {t : Tunnel} {sa : Side × Act}
    (hC : answersRegistered t sa = true) : oneSession t sa = true := by
  rw [answersRegistered, Bool.and_eq_true] at hC
  exact hC.1

/-- What home received for connection `n` was put on its writer's queue, frame
by frame, save the message in hand. -/
def FramesRouted (t : Tunnel) (n : Nat) : Prop :=
  ((t.home.conns n).puts ++ inHand (t.home.conns n).id t.home).map
      (WrMsg.frame (t.home.conns n).id) =
    framesFor (t.home.conns n).id t.home.rcvd

/-- The gate speaks of an id only after home has opened it. -/
theorem known_of_link (ht : ∀ s, Traced s (t.ends s))
    (hlink : ∀ s, (t.ends s).rcvd <+: (t.ends s.peer).enq) {f : Frame} (hf : f ∈ t.home.rcvd) :
    Known .listen f.connId t.home := by
  have hgate : Frame.tcpOpen f.connId ∈ t.gate.rcvd :=
    (ht .connect).enq f ((hlink .listen).mem hf)
  exact (ht .listen).enq (.tcpOpen f.connId) ((hlink .connect).mem hgate)

theorem known_of_rcvd (h : Reaches step (fun t sa => oneSession t sa = true) init t)
    {f : Frame} (hf : f ∈ t.home.rcvd) : Known .listen f.connId t.home := by
  have hbase : ∀ s, (t.ends s).Wf s ∧ Traced s (t.ends s) :=
    ends_invariant (I := fun s e => e.Wf s ∧ Traced s e)
      (fun s => ⟨wf_init s, traced_init s⟩)
      (fun hi htr => ⟨hi.1.step htr, hi.2.step hi.1 htr⟩) h
  exact known_of_link (fun s => (hbase s).2) (rcvd_prefix_enq h) hf

theorem asks_rcvd (h : Reaches step (fun t sa => oneSession t sa = true) init t) :
    ∀ f ∈ t.home.rcvd, f.msg ≠ none := by
  have hgate : ∀ s, (t.ends s).Wf s ∧ (s = .connect → Asks (t.ends s)) :=
    ends_invariant (I := fun s e => e.Wf s ∧ (s = .connect → Asks e))
      (fun s => ⟨wf_init s, fun hs => hs ▸ asks_init⟩)
      (fun hi htr => ⟨hi.1.step htr, fun hs => by
        subst hs
        exact (hi.2 rfl).step hi.1 htr⟩) h
  exact fun f hf => ((hgate .connect).2 rfl).enq f ((rcvd_prefix_enq h .listen).mem hf)

/-- A step in which no frame is looked up too early. -/
theorem Upstream.routed_step {e : Endpoint} {a : Act} (hup : Upstream k t)
    (hknown : ∀ f ∈ t.home.rcvd, Known .listen f.connId t.home)
    (hi : ∀ n, n < t.home.numConns → (t.home.conns n).id = k → Routed k n t.home)
    (hfirst : registeredFirst t.home a = true) (h : Trans .listen t.home a e)
    (hu : UsedOnce k e) : ∀ n, n < e.numConns → (e.conns n).id = k → Routed k n e := by
  intro n hn hid
  have hw := hup.wf .listen
  by_cases hlt : n < t.home.numConns
  · have hid₀ : (t.home.conns n).id = k := (h.id_eq hlt).2 ▸ hid
    exact (hi n hlt hid₀).step_old hw (hup.mapped .listen) hfirst h (hu.of_step h) hlt hid₀
  · refine Routed.step_new h ?_ (hw.step h) hn hlt
    rw [(h.makes hn hlt).2.2.1]
    refine msgsFor_of_framesFor_nil (KeyedLog.on_eq_nil.2 fun f hf hfk => ?_)
    obtain ⟨d, hd, hdk, _⟩ := hknown f hf
    exact hu.new_conn h hn hlt hid hd (hdk.trans hfk)

/-- Where no frame is looked up too early, home routes what it receives for an
id it uses once. -/
theorem routed_home (h : Reaches step (fun t sa => answersRegistered t sa = true) init t)
    (hu : UsedOnce k t.home) :
    ∀ n, n < t.home.numConns → (t.home.conns n).id = k → Routed k n t.home := by
  have hback : ∀ {t sa t'}, step t sa = some t' → UsedOnce k t'.home → UsedOnce k t.home :=
    fun hs => usedOnce_of_step hs
  refine h.invariant_of (I := fun t => ∀ n, n < t.home.numConns → (t.home.conns n).id = k →
    Routed k n t.home) hback (fun _ => by simp [home, init, Endpoint.init]) ?_ hu
  rintro t ⟨s, a⟩ t' hreach hC hs hu hi
  have hone := hreach.weaken fun _ _ hC => oneSession_of_registered hC
  have hup := upstream hone (usedOnce_of_step hs hu)
  obtain ⟨e, htr, rfl, _⟩ := trans_of_step hs
  cases s with
  | connect => exact hi
  | listen =>
      have hfirst : registeredFirst t.home a = true := by
        rw [answersRegistered, Bool.and_eq_true] at hC
        simpa using hC.2
      exact hup.routed_step (fun f hf => known_of_rcvd hone hf) hi hfirst htr hu

/-- Every frame home received is for a connection it accepted, and where the id
of the connection is used once and no write fails, none was dropped. -/
structure AnswersRouted (t : Tunnel) : Prop where
  accepted : ∀ f ∈ t.home.rcvd, ∃ n, n < t.home.numConns ∧ (t.home.conns n).id = f.connId
  routed : ∀ n, n < t.home.numConns → UsedOnce (t.home.conns n).id t.home →
    NoWriteFailed (t.home.conns n).id t → FramesRouted t n

/-- Gate to home, in every run of one relay session in which no frame is looked
up before its connection is registered. -/
theorem answersRouted_of_registered {t : Tunnel}
    (h : Reaches step (fun t sa => answersRegistered t sa = true) init t) :
    AnswersRouted t := by
  have hone := h.weaken (D := fun t sa => oneSession t sa = true) fun t sa hC => by
    rw [answersRegistered, Bool.and_eq_true] at hC
    exact hC.1
  constructor
  · intro f hf
    obtain ⟨n, hn, hid, _⟩ := known_of_rcvd hone hf
    exact ⟨n, hn, hid⟩
  · intro n hn hu hf
    have hlast := (orderly hone hu hf).closesLast_rcvd hone .listen
    have hall : (t.home.conns n).puts ++ inHand (t.home.conns n).id t.home =
        msgsFor (t.home.conns n).id t.home.rcvd :=
      (routed_home h hu n hn rfl).all ((upstream hone hu).mapped .listen) hlast rfl
        (hf .listen n hn rfl)
    rw [FramesRouted, hall]
    exact map_frame_msgsFor (asks_rcvd hone)

/-- Home accepts a connection and its OPEN reaches the gate. -/
def openedRun : List (Side × Act) :=
  [(.listen, .loop .relayUp), (.connect, .loop .relayUp), (.listen, .accept),
    (.listen, .sendOpen), (.listen, .loop .dequeue), (.listen, .loop .sendOk),
    (.connect, .recv (.tcpOpen 0)), (.connect, .dispatch)]

/-- The gate's dial fails, and its CLOSE reaches home. -/
def refusedRun : List (Side × Act) :=
  [(.connect, .dialErr), (.connect, .sendClose), (.connect, .loop .dequeue),
    (.connect, .loop .sendOk), (.listen, .recv (.tcpClose 0)), (.listen, .dispatch)]

theorem answersRouted_of_refused :
    ∃ t, Reaches step (fun t sa => answersRegistered t sa = true) init t ∧
      (t.home.conns 0).queue = [.shutdown] ∧ AnswersRouted t := by
  have hrun : (run (guarded step fun t sa => answersRegistered t sa = true) init
      (openedRun ++ [(.listen, .register)] ++ refusedRun ++ [(.listen, .deliver)])).any
        (fun t => (t.home.conns 0).queue = [.shutdown]) = true := by
    decide
  obtain ⟨t, h, hq⟩ := exists_of_run_any hrun
  exact ⟨t, h, by simpa using hq, answersRouted_of_registered h⟩

/-- The dial fails and its CLOSE is back before the acceptor has registered the
connection: no `Shutdown` ever reaches its writer. -/
theorem not_answersRouted_of_refused :
    ∃ t, Reaches step (fun t sa => oneSession t sa = true) init t ∧
      (∀ k, UsedOnce k t.home) ∧ (∀ k, NoWriteFailed k t) ∧ ¬ AnswersRouted t := by
  have hrun : (run (guarded step fun t sa => oneSession t sa = true) init
      (openedRun ++ refusedRun ++ [(.listen, .register)])).any (fun t =>
        t.home.numConns = 1 ∧ t.gate.numConns = 0 ∧ (t.home.conns 0).id = 0 ∧
          (t.home.conns 0).puts = [] ∧ (t.home.conns 0).writeFailed = false ∧
          inHand 0 t.home = [] ∧ t.home.rcvd = [.tcpClose 0]) = true := by
    decide
  obtain ⟨t, h, hp⟩ := exists_of_run_any hrun
  simp only [decide_eq_true_eq] at hp
  obtain ⟨hnum, hgate, hid, hputs, hok, hin, hrcvd⟩ := hp
  have hu : ∀ k, UsedOnce k t.home := fun k c d hc hd _ _ => by omega
  have hf : ∀ k, NoWriteFailed k t := by
    rintro k (_ | _) c hc hck
    · obtain rfl : c = 0 := by
        have hc' : c < t.home.numConns := hc
        omega
      exact hok
    · have hc' : c < t.gate.numConns := hc
      omega
  refine ⟨t, h, hu, hf, fun hrouted => ?_⟩
  have hframes := hrouted.routed 0 (by omega) (hu _) (hf _)
  rw [FramesRouted, hid, hputs, hin, hrcvd] at hframes
  exact absurd hframes (by decide)

end Tunnel

end UsbWs
