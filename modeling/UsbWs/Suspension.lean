import UsbWs.EndpointWf

/-!
# Where the session task waits

The session task is the only consumer of the outbound queue and the only one
that takes frames off the websocket. While it waits inside `handle_incoming`
it does neither. Two waits are by design: for a slot of the writer queue of
the connection a frame is addressed to, and for a dial. The third is for a
slot of the outbound queue itself, in the CLOSE the task sends for a dial
that failed or a writer that is gone; nobody is left to free that slot, and
`Stuck` is forever.

`never_stuck_iff` says which runs get there: those in which such a CLOSE
finds no slot, because each is filled or belongs to a task that got in line
before, which has only to fill it (`Stuck.fills`). `session_waits_for_own` says
what the two waits by design amount to: they hold up every connection, but only
while a frame of their own connection is being handled.
-/

namespace UsbWs

open Runs

namespace Endpoint

variable {side : Side} {e e' : Endpoint} {a b : Act} {p : Sender}

/-! ## The session task and its own queue -/

/-- The session task waits in line for a slot of the outbound queue, whose only
consumer it is. The queue is full as its senders see it: a slot that is not
filled belongs to a task further up in the line. -/
def Stuck (e : Endpoint) : Prop :=
  (∃ f, e.loop.pc = .handling ⟨f, .sendClose⟩) ∧ .session ∈ e.waiting ∧
    e.outRoom .session = false

/-- Where `handle_incoming` sends a CLOSE itself, the outbound queue has a slot
that is neither filled nor promised to a task in line. -/
def closesWithRoom (e : Endpoint) : Act → Bool
  | .sendClose => e.loop.queue.length + e.waiting.length < outQueue
  | _ => true

/-- The session task is in line only while there is no slot for it. -/
def WaitsFull (e : Endpoint) : Prop := .session ∈ e.waiting → e.outRoom .session = false

/-- Who waits in line goes on waiting when another task takes a slot. -/
theorem outRoom_enqueue {q : Sender} (hne : q ≠ p) (hroom : e.outRoom q = false) (f : Frame) :
    (e.enqueue p f).outRoom q = false := by
  rw [outRoom_eq_false] at *
  rw [enqueue_queue, List.length_append]
  exact Line.not_served_take hne hroom

/-- The deadlock is for good: no step of any task leaves it. -/
theorem Stuck.step (hs : Stuck e) (h : Trans side e a e') : Stuck e' := by
  obtain ⟨⟨f, hpc⟩, hmem, hroom⟩ := hs
  have hlive : e.outGone = false := by simp [outGone, hpc]
  have htake : ∀ p, p ≠ .session → .session ∈ e.waiting.erase p := fun p hne =>
    (List.mem_erase_of_ne hne.symm).2 hmem
  cases h with
  | loop hev hl => exact absurd hpc ((Loop.event_frame hl).1 _)
  | accept | acceptFull | register | conn | chanClosed | remove => exact ⟨⟨f, hpc⟩, hmem, hroom⟩
  | sendOpenGone _ hgone | sendDataGone _ hgone | sendEndGone _ hgone =>
      cases hlive.symm.trans hgone
  | wait hsends hgone hnone hnew =>
      refine ⟨⟨f, hpc⟩, List.mem_append_left _ hmem, ?_⟩
      rw [outRoom_eq_false] at *
      exact fun hserved => hroom ((Line.served_concat hmem).1 hserved)
  | sendOpen | sendData | sendEnd =>
      exact ⟨⟨f, hpc⟩, htake _ (by simp), outRoom_enqueue (by simp) hroom _⟩
  | sendClose _ hfree => cases hroom.symm.trans hfree
  | recv hpc' | dispatch hpc' | dialOk hpc' | dialErr hpc' | deliver hpc' | deliverGone hpc'
  | shutdownGone hpc' | removeGone hpc' => cases hpc'.symm.trans hpc

/-- A session task in line stands at its CLOSE. -/
theorem Lined.closing (hl : e.Lined) (hmem : .session ∈ e.waiting) :
    ∃ f, e.loop.pc = .handling ⟨f, .sendClose⟩ := by
  obtain ⟨b, hb⟩ := hl.sends _ hmem
  cases hb with
  | sendClose hpc => exact ⟨_, hpc⟩

/-- What is needed for the session task to be in line: it was, or this step is
its CLOSE and finds no slot. -/
theorem Trans.session_waits (h : Trans side e a e') (hmem : .session ∈ e'.waiting) :
    .session ∈ e.waiting ∨ a = .sendClose ∧ e' = e.wait .session ∧ e.outRoom .session = false ∧
      .session ∉ e.waiting := by
  cases h.lineChange with
  | same hline => exact Or.inl (hline ▸ hmem)
  | left hsends hline => exact Or.inl (List.mem_of_mem_erase (hline ▸ hmem))
  | joined hsends hgone hroom hnew heq =>
      subst heq
      rcases List.mem_append.1 hmem with hold | hself
      · exact Or.inl hold
      · obtain rfl := List.mem_singleton.1 hself
        cases hsends with
        | sendClose => exact Or.inr ⟨rfl, rfl, hroom, hnew⟩

/-- A session task that finds no slot gets in line behind those who wait. -/
theorem wait_outRoom (hnew : p ∉ e.waiting) (hroom : e.outRoom p = false) :
    (e.wait p).outRoom p = false := by
  rw [outRoom_eq_false] at *
  exact Line.not_served_concat_self hnew hroom

theorem WaitsFull.step (hw : e.Wf side) (hfull : WaitsFull e) (h : Trans side e a e') :
    WaitsFull e' := by
  intro hmem
  rcases h.session_waits hmem with hold | ⟨_, rfl, hroom, hnew⟩
  · exact (Stuck.step ⟨hw.lined.closing hold, hold, hfull hold⟩ h).2.2
  · exact wait_outRoom hnew hroom

/-- A step leads into the deadlock exactly when it is a CLOSE of the session
task that finds no slot. -/
theorem stuck_step_iff (hw : e.Wf side) (hfull : WaitsFull e) (h : Trans side e a e')
    (hs : ¬ Stuck e) : ¬ Stuck e' ↔ closesWithRoom e a = true := by
  have hout : .session ∉ e.waiting := fun hmem =>
    hs ⟨hw.lined.closing hmem, hmem, hfull hmem⟩
  have hcount : e.outRoom .session = true ↔ e.loop.queue.length + e.waiting.length < outQueue :=
    outRoom_eq_true.trans (Line.served_of_not_mem hout)
  constructor
  · intro hs'
    cases h with
    | sendClose hpc hroom => exact decide_eq_true (hcount.1 hroom)
    | wait hsends hgone hroom hnew =>
        cases hsends with
        | sendClose hpc =>
            refine absurd ⟨⟨_, hpc⟩, ?_, wait_outRoom hnew hroom⟩ hs'
            exact List.mem_append_right _ (List.mem_singleton_self _)
        | _ => rfl
    | _ => rfl
  · rintro hC ⟨_, hmem, _⟩
    rcases h.session_waits hmem with hold | ⟨rfl, _, hroom, _⟩
    · exact hout hold
    · cases hroom.symm.trans (hcount.2 (of_decide_eq_true hC))

/-- A run is free of the deadlock exactly when every CLOSE that
`handle_incoming` sends in it itself finds a slot that is neither filled nor
promised. -/
theorem never_stuck_iff (side : Side) (as : List Act) :
    AllStates (step side) (fun e => ¬ Stuck e) (init side) as ↔
      AllSteps (step side) (fun e a => closesWithRoom e a = true) (init side) as := by
  have hinit : .session ∉ (init side).waiting := by cases side <;> simp [init]
  have hkeep : ∀ {u a v}, step side u a = some v → u.Wf side ∧ WaitsFull u →
      v.Wf side ∧ WaitsFull v :=
    fun hs hinv => ⟨hinv.1.step (trans_of_step hs), hinv.2.step hinv.1 (trans_of_step hs)⟩
  have hiff : ∀ {u a v}, step side u a = some v → u.Wf side ∧ WaitsFull u → ¬ Stuck u →
      (¬ Stuck v ↔ closesWithRoom u a = true) :=
    fun hs hinv hns => stuck_step_iff hinv.1 hinv.2 (trans_of_step hs) hns
  exact allStates_iff_allSteps hkeep hiff ⟨wf_init side, fun hmem => absurd hmem hinit⟩
    fun hs => hinit hs.2.1

/-- A task at a send puts its frame on the queue once there is a slot for it. -/
theorem Sends.step_of_room (side : Side) (hp : Sends e b p) (hlive : e.outGone = false)
    (hroom : e.outRoom p = true) : ∃ e₁ f, e.step side b = some e₁ ∧
      e₁.loop.queue = e.loop.queue ++ [f] := by
  cases hp with
  | sendOpen hacc => exact ⟨_, _, by simp [Endpoint.step, hacc, hlive, hroom]; rfl, rfl⟩
  | sendClose hpc => exact ⟨_, _, by simp [Endpoint.step, hpc, hroom]; rfl, rfl⟩
  | sendData hr => exact ⟨_, _, by simp [Endpoint.step, hr, hlive, hroom]; rfl, rfl⟩
  | sendEnd hr => exact ⟨_, _, by simp [Endpoint.step, hr, hlive, hroom]; rfl, rfl⟩

/-- Those ahead of the session task have only to take their slots for the queue
to be filled to the last one. -/
theorem Stuck.fills (n : Nat) : ∀ {e : Endpoint}, e.Wf side → Stuck e →
    outQueue ≤ e.loop.queue.length + n →
    ∃ e', Reaches (Endpoint.step side) Free e e' ∧ Stuck e' ∧
      outQueue ≤ e'.loop.queue.length := by
  induction n with
  | zero => exact fun _ hs hlen => ⟨_, Reaches.refl _, hs, hlen⟩
  | succ n ih =>
      intro e hw hs hlen
      by_cases hfull : outQueue ≤ e.loop.queue.length
      · exact ⟨e, Reaches.refl e, hs, hfull⟩
      obtain ⟨⟨f, hpc⟩, hmem, hroom⟩ := hs
      have hlive : e.outGone = false := by simp [outGone, hpc]
      -- the first in line has a slot, so it is not the session task
      obtain ⟨p, rest, hline⟩ := List.exists_cons_of_ne_nil (List.ne_nil_of_mem hmem)
      have hfirst : e.outRoom p = true := by
        rw [outRoom_eq_true, hline]
        exact Line.served_head (by omega)
      obtain ⟨b, hb⟩ := hw.lined.sends p (hline ▸ List.mem_cons_self)
      obtain ⟨e₁, g, h₁, hq⟩ := hb.step_of_room side hlive hfirst
      have hlen₁ : e₁.loop.queue.length = e.loop.queue.length + 1 := by simp [hq]
      have htr := trans_of_step h₁
      obtain ⟨e', h', hs', hfull'⟩ :=
        ih (hw.step htr) (Stuck.step ⟨⟨f, hpc⟩, hmem, hroom⟩ htr) (by omega)
      exact ⟨e', ((Reaches.refl e).tail trivial h₁).trans h', hs', hfull'⟩

/-- A reader at work fills the outbound queue, wherever the session task is. -/
theorem fill_queue (side : Side) {c : Nat} (n : Nat) : ∀ {e : Endpoint}, e.outGone = false →
    e.waiting = [] → (e.conns c).reader = .reading → e.loop.queue.length + n ≤ outQueue →
    ∃ e', Reaches (step side) Free e e' ∧ e'.loop.pc = e.loop.pc ∧ e'.waiting = [] ∧
      e'.loop.queue.length = e.loop.queue.length + n := by
  induction n with
  | zero => exact fun _ hline _ _ => ⟨_, Reaches.refl _, rfl, hline, rfl⟩
  | succ n ih =>
      intro e hgone hline hread hlen
      let e₁ := e.setConn c
        { e.conns c with reader := .sending [0], reads := (e.conns c).reads ++ [[0]] }
      let e₂ := (e₁.enqueue (.reader c) (.tcpData (e₁.conns c).id [0])).setConn c
        { e₁.conns c with reader := .reading }
      have h₁ : step side e (.conn c (.read [0])) = some e₁ := by
        simp [step, Conn.step, hread, readChunk, e₁]
      have hlt : e.loop.queue.length < outQueue := by omega
      have hroom : e₁.outRoom (.reader c) = true := outRoom_of_nil hline hlt
      have h₂ : step side e₁ (.sendData c) = some e₂ := by
        have hsend : (e₁.conns c).reader = .sending [0] := by simp [e₁]
        have hgone₁ : e₁.outGone = false := hgone
        simp [step, hsend, hgone₁, hroom, e₂]
      have hline₂ : e₂.waiting = [] := by simp [e₂, e₁, hline]
      have hread₂ : (e₂.conns c).reader = .reading := by simp [e₂]
      have hlen₂ : e₂.loop.queue.length = e.loop.queue.length + 1 := by simp [e₂, e₁]
      obtain ⟨e', h', hpc, hline', hq⟩ := ih (e := e₂) hgone hline₂ hread₂ (by omega)
      refine ⟨e', ?_, hpc, hline', by omega⟩
      exact (((Reaches.refl e).tail trivial h₁).tail trivial h₂).trans h'

/-- The gate dials for a second connection while the first fills the queue, and
the dial fails. -/
theorem stuck_of_dialErr : ∃ e, Reaches (step .connect) Free (init .connect) e ∧
    e.loop.queue.length = outQueue ∧ Stuck e := by
  have hrun : (run (guarded (step .connect) Free) (init .connect)
      [.loop .relayUp, .recv (.tcpOpen 0), .dispatch, .dialOk, .recv (.tcpOpen 1),
        .dispatch]).any (fun e => e.loop.pc = .handling ⟨.tcpOpen 1, .dialing⟩ ∧
          e.waiting = [] ∧ (e.conns 0).reader = .reading ∧ e.loop.queue = []) = true := by
    decide
  obtain ⟨e, h, hp⟩ := exists_of_run_any hrun
  simp only [decide_eq_true_eq] at hp
  obtain ⟨hpc, hline, hread, hq⟩ := hp
  have hgone : e.outGone = false := by simp [outGone, hpc]
  obtain ⟨e₁, h₁, hpc₁, hline₁, hlen₁⟩ :=
    fill_queue .connect outQueue hgone hline hread (by simp [hq])
  rw [hpc] at hpc₁
  have hfull : e₁.loop.queue.length = outQueue := by simpa [hq] using hlen₁
  let e₂ := e₁.goto (.handling ⟨.tcpOpen 1, .sendClose⟩)
  have hs : step .connect e₁ .dialErr = some e₂ := by simp [step, hpc₁, e₂]
  have hpc₂ : e₂.loop.pc = .handling ⟨.tcpOpen 1, .sendClose⟩ := rfl
  have hnew : .session ∉ e₂.waiting := by simp [e₂, hline₁]
  have hroom : e₂.outRoom .session = false := by
    rw [outRoom_eq_false, goto_queue, goto_waiting, hline₁, hfull]
    exact Nat.lt_irrefl _
  have hwait : step .connect e₂ .sendClose = some (e₂.wait .session) := by
    simp [step, hpc₂, hroom, lineUp, hnew]
  refine ⟨_, ((h.trans h₁).tail trivial hs).tail trivial hwait, hfull, ⟨_, hpc₂⟩, ?_,
    wait_outRoom hnew hroom⟩
  exact List.mem_append_right _ (List.mem_singleton_self _)

/-! ## The two waits by design -/

/-- `handle_incoming` waits for a slot of the writer queue of connection `c`. -/
def AwaitsQueue (side : Side) (e : Endpoint) (c : Nat) : Prop :=
  (∃ f m, e.loop.pc = .handling ⟨f, .deliver c m⟩) ∧ e.step side .deliver = none

/-- `handle_incoming` waits for the dial of conn id `k`. -/
def AwaitsDial (e : Endpoint) (k : ConnId) : Prop :=
  ∃ f, e.loop.pc = .handling ⟨f, .dialing⟩ ∧ f.connId = k

/-- The session task is able to deliver the next incoming frame of connection
`c`, given room in its queue, and to send the next outbound frame. -/
structure Serves (side : Side) (e : Endpoint) (c : Nat) : Prop where
  incoming : ∀ f m, f.connId = (e.conns c).id → f.msg = some m →
    (e.conns c).queue.length < connQueue →
    ∃ e', run (step side) e [.recv f, .dispatch, .deliver] = some e' ∧
      e'.conns c = (e.conns c).put m
  outgoing : ∀ f rest, e.loop.queue = f :: rest →
    ∃ e', run (step side) e [.loop .dequeue, .loop .sendOk] = some e' ∧
      e'.loop.queue = rest ∧ e'.loop.wire = e.loop.wire ++ [f]

theorem dispatchPc_of_msg {map : ConnId → Option Nat} {f : Frame} {c : Nat} {m : WrMsg}
    (hmap : map f.connId = some c) (hm : f.msg = some m) :
    dispatchPc side map f = .handling ⟨f, .deliver c m⟩ := by
  rcases dispatchPc_cases side map f with
    ⟨_, hnone | hnone⟩ | ⟨_, _, hf⟩ | ⟨d, m', hd, hmap', hm'⟩
  · rw [hm] at hnone
    cases hnone
  · rw [hmap] at hnone
    cases hnone
  · rw [hf] at hm
    cases hm
  · rw [hmap] at hmap'
    rw [hm] at hm'
    cases hmap'
    cases hm'
    exact hd

/-- From its `select!` the session task takes a frame to the queue of the
connection that is mapped. -/
theorem incoming_run {f : Frame} {c : Nat} {m : WrMsg} (hpc : e.loop.pc = .select)
    (hmap : e.map f.connId = some c) (hm : f.msg = some m)
    (hw : (e.conns c).writer ≠ .done) (hroom : (e.conns c).queue.length < connQueue) :
    ∃ e', run (step side) e [.recv f, .dispatch, .deliver] = some e' ∧
      e'.loop.pc = .select ∧ e'.map = e.map ∧
      ∀ d, e'.conns d = if d = c then (e.conns c).put m else e.conns d := by
  let e₁ := (e.receive f).goto (.handling ⟨f, .start⟩)
  let e₂ := e₁.goto (.handling ⟨f, .deliver c m⟩)
  have h₁ : e.step side (.recv f) = some e₁ := by simp [step, hpc, e₁]
  have h₂ : e₁.step side .dispatch = some e₂ := by
    have hd : dispatchPc side e₁.map f = .handling ⟨f, .deliver c m⟩ :=
      dispatchPc_of_msg hmap hm
    simp [step, e₁, e₂] at hd ⊢
    rw [hd]
  let e₃ := (e₂.setConn c ((e₂.conns c).put m)).goto .select
  have h₃ : e₂.step side .deliver = some e₃ := by
    have hw₂ : (e₂.conns c).writer ≠ .done := hw
    have hroom₂ : (e₂.conns c).queue.length < connQueue := hroom
    have hpc₂ : e₂.loop.pc = .handling ⟨f, .deliver c m⟩ := rfl
    simp only [step, hpc₂, if_neg hw₂, if_pos hroom₂, e₃]
  refine ⟨e₃, ?_, rfl, rfl, ?_⟩
  · simp only [run, h₁, Option.bind_some, h₂, h₃]
  · intro d
    simp [e₃, e₂, e₁]

/-- From its `select!` the session task puts the next outbound frame on the
wire. -/
theorem outgoing_run {f : Frame} {rest : List Frame} (hpc : e.loop.pc = .select)
    (hq : e.loop.queue = f :: rest) :
    ∃ e', run (step side) e [.loop .dequeue, .loop .sendOk] = some e' ∧
      e'.loop.queue = rest ∧ e'.loop.wire = e.loop.wire ++ [f] := by
  let l₁ : Loop Frame Frame Handling :=
    { e.loop with pc := .sending f, queue := rest, dequeued := e.loop.dequeued ++ [f] }
  let l₂ : Loop Frame Frame Handling :=
    { l₁ with pc := .select, wire := e.loop.wire ++ [f] }
  have h₁ : e.step side (.loop .dequeue) = some (e.setLoop l₁) := by
    simp [step, Loop.event, hpc, hq, l₁]
  have h₂ : (e.setLoop l₁).step side (.loop .sendOk) = some ((e.setLoop l₁).setLoop l₂) := by
    simp [step, Loop.event, l₁, l₂]
  refine ⟨(e.setLoop l₁).setLoop l₂, ?_, rfl, rfl⟩
  simp only [run, h₁, Option.bind_some, h₂]

/-- The send to a writer queue waits exactly while the queue is full and the
writer has not ended. -/
theorem deliver_eq_none_iff {f : Frame} {c : Nat} {m : WrMsg}
    (hpc : e.loop.pc = .handling ⟨f, .deliver c m⟩) :
    e.step side .deliver = none ↔
      connQueue ≤ (e.conns c).queue.length ∧ (e.conns c).writer ≠ .done := by
  simp only [step, hpc]
  split
  · next hd => cases m <;> simp [hd]
  · next hd =>
      split
      · next hroom => simp [hroom]
      · next hroom => simp [hd]; omega

/-- What the session task's waits amount to. -/
structure WaitsForOwn (side : Side) (e : Endpoint) : Prop where
  /-- In its `select!` the task serves every registered connection, whatever
  the sockets and the dials of the others do. -/
  serves : e.loop.pc = .select → ∀ c, e.map (e.conns c).id = some c → Serves side e c
  /-- It waits for the queue of a connection only with a frame for that
  connection in hand, the queue being full and its writer not ended. -/
  queue : ∀ c, AwaitsQueue side e c →
    (∃ r f, e.rcvd = r ++ [f] ∧ f.connId = (e.conns c).id) ∧
      connQueue ≤ (e.conns c).queue.length ∧ (e.conns c).writer ≠ .done
  /-- It waits for a dial only with the OPEN of that conn id in hand. -/
  dial : ∀ k, AwaitsDial e k → side = .connect ∧ ∃ r, e.rcvd = r ++ [.tcpOpen k]
  /-- A slot in the queue, or the end of the writer, ends the first wait. -/
  queueEnds : ∀ f c m, e.loop.pc = .handling ⟨f, .deliver c m⟩ →
    (e.conns c).queue.length < connQueue ∨ (e.conns c).writer = .done →
    ∃ e', e.step side .deliver = some e' ∧ ∀ d, ¬ AwaitsQueue side e' d
  /-- The dial's end is the end of the second: after a success the task is back
  in its `select!`, after a failure it goes on to the CLOSE of that conn id. -/
  dialEnds : ∀ k, AwaitsDial e k →
    (∃ e', e.step side .dialOk = some e' ∧ e'.loop.pc = .select) ∧
    ∃ e', e.step side .dialErr = some e' ∧
      e'.loop.pc = .handling ⟨.tcpOpen k, .sendClose⟩
  /-- As long as it is inside `handle_incoming`, it takes no frame off the
  websocket and none off the outbound queue, of any connection. -/
  stalls : ∀ p, e.loop.pc = .handling p →
    (∀ f, e.step side (.recv f) = none) ∧ ∀ ev, e.step side (.loop ev) = none

/-- In every reachable state of an endpoint the session task waits for
nothing but what the frame in hand is addressed to, and only as long as that
connection makes it. -/
theorem session_waits_for_own {e : Endpoint} (h : Reaches (step side) Free (init side) e) :
    WaitsForOwn side e := by
  have hw := Wf.of_reaches h
  refine ⟨?_, ?_, ?_, ?_, ?_, ?_⟩
  · intro hpc c hmap
    have hdone : (e.conns c).writer ≠ .done := by
      intro hd
      have halive := (hw.mapped _ c hmap).2.2
      rw [hd] at halive
      cases halive
    constructor
    · intro f m hf hm hroom
      obtain ⟨e', hrun, _, _, hconns⟩ := incoming_run hpc (hf ▸ hmap) hm hdone hroom
      exact ⟨e', hrun, by simp [hconns]⟩
    · exact fun f rest hq => outgoing_run hpc hq
  · rintro c ⟨⟨f, m, hpc⟩, hnone⟩
    obtain ⟨r, hr⟩ := hw.handling _ hpc
    exact ⟨⟨r, f, hr, (hw.deliver f c m hpc).2.1.symm⟩, (deliver_eq_none_iff hpc).1 hnone⟩
  · rintro k ⟨f, hpc, rfl⟩
    obtain ⟨rfl, hf⟩ := hw.dialing f hpc
    obtain ⟨r, hr⟩ := hw.handling _ hpc
    exact ⟨rfl, r, hf ▸ hr⟩
  · intro f c m hpc hfree
    cases hs : e.step side .deliver with
    | none =>
        have hfull := (deliver_eq_none_iff hpc).1 hs
        rcases hfree with hroom | hdone
        · omega
        · exact absurd hdone hfull.2
    | some e' =>
        refine ⟨e', rfl, ?_⟩
        rintro d ⟨⟨g, m', hpc'⟩, _⟩
        have htr := trans_of_step hs
        cases htr with
        | deliver | deliverGone | shutdownGone => cases hpc'
        | wait hsends => cases hsends
  · rintro k ⟨f, hpc, rfl⟩
    have hok : e.step side .dialOk =
        some (((e.newConn f.connId).spawnConnection e.numConns).goto .select) := by
      simp [step, hpc]
    have herr : e.step side .dialErr = some (e.goto (.handling ⟨f, .sendClose⟩)) := by
      simp [step, hpc]
    refine ⟨⟨_, hok, rfl⟩, _, herr, ?_⟩
    rw [goto_pc, ← (hw.dialing f hpc).2]
  · intro p hpc
    refine ⟨fun f => by simp [step, hpc], fun ev => ?_⟩
    cases hs : e.step side (.loop ev) with
    | none => rfl
    | some e' =>
        cases trans_of_step hs with
        | loop hev hl => exact absurd hpc ((Loop.event_frame hl).1 p)
        | wait hsends => cases hsends

/-- The gate has dialled for conn id 0 and dials for conn id 1. -/
def secondDialRun : List Act :=
  [.loop .relayUp, .recv (.tcpOpen 0), .dispatch, .dialOk, .recv (.tcpOpen 1), .dispatch]

theorem session_waits_for_own_dial :
    ∃ e, Reaches (step .connect) Free (init .connect) e ∧ AwaitsDial e 1 ∧
      WaitsForOwn .connect e := by
  have hrun : (run (guarded (step .connect) Free) (init .connect) secondDialRun).any (fun e =>
      e.loop.pc = .handling ⟨.tcpOpen 1, .dialing⟩) = true := by
    decide
  obtain ⟨e, h, hpc⟩ := exists_of_run_any hrun
  exact ⟨e, h, ⟨_, by simpa using hpc, rfl⟩, session_waits_for_own h⟩

/-- Inside `handle_incoming` no connection is served. -/
theorem not_serves_of_handling {c : Nat} {p : Handling} (hpc : e.loop.pc = .handling p)
    (hroom : (e.conns c).queue = []) : ¬ Serves side e c := by
  intro hs
  obtain ⟨e', hrun, _⟩ := hs.incoming (.tcpData (e.conns c).id [1]) (.data [1]) rfl rfl
    (by rw [hroom]; decide)
  have hnone : e.step side (.recv (.tcpData (e.conns c).id [1])) = none := by
    simp [step, hpc]
  simp [run, hnone] at hrun

/-- A peer that keeps sending fills the writer queue of a connection whose
socket takes nothing, and leaves every other connection alone. -/
theorem fill_writer (side : Side) {k : ConnId} {c : Nat} (n : Nat) : ∀ {e : Endpoint},
    e.loop.pc = .select → e.map k = some c → (e.conns c).writer = .recv →
    (e.conns c).queue.length + n ≤ connQueue →
    ∃ e', Reaches (step side) Free e e' ∧ e'.loop.pc = .select ∧ e'.map = e.map ∧
      (e'.conns c).writer = .recv ∧ (∀ d, d ≠ c → e'.conns d = e.conns d) ∧
      (e'.conns c).queue.length = (e.conns c).queue.length + n := by
  induction n with
  | zero => exact fun hpc _ hw _ => ⟨_, Reaches.refl _, hpc, rfl, hw, fun _ _ => rfl, rfl⟩
  | succ n ih =>
      intro e hpc hmap hw hlen
      obtain ⟨e₁, hrun, hpc₁, hmap₁, hconns⟩ := @incoming_run side e
        (.tcpData k [1]) c (.data [1]) hpc hmap rfl (by simp [hw]) (by omega)
      have hc : e₁.conns c = (e.conns c).put (.data [1]) := by simp [hconns]
      have hlen₁ : (e₁.conns c).queue.length = (e.conns c).queue.length + 1 := by
        simp [hc, Conn.put]
      obtain ⟨e', h', hpc', hmap', hw', hothers, hlen'⟩ :=
        ih hpc₁ (hmap₁ ▸ hmap) (by simp [hc, hw]) (by omega)
      refine ⟨e', (Reaches.of_run hrun).trans h', hpc', hmap'.trans hmap₁, hw', ?_, by omega⟩
      intro d hd
      rw [hothers d hd, hconns d, if_neg hd]

/-- While the gate dials for one connection, and while one connection's queue is
full, nothing is done for another connection that has all the room it needs. -/
theorem session_waits_for_others :
    (∃ e, Reaches (step .connect) Free (init .connect) e ∧ AwaitsDial e 1 ∧
      e.map (e.conns 0).id = some 0 ∧ (e.conns 0).id ≠ 1 ∧ ¬ Serves .connect e 0) ∧
    (∃ e, Reaches (step .connect) Free (init .connect) e ∧ AwaitsQueue .connect e 0 ∧
      e.map (e.conns 1).id = some 1 ∧ ¬ Serves .connect e 1) := by
  constructor
  · have hrun : (run (guarded (step .connect) Free) (init .connect) secondDialRun).any (fun e =>
        e.loop.pc = .handling ⟨.tcpOpen 1, .dialing⟩ ∧ e.map 0 = some 0 ∧
          (e.conns 0).id = 0 ∧ (e.conns 0).queue = []) = true := by
      decide
    obtain ⟨e, h, hp⟩ := exists_of_run_any hrun
    simp only [decide_eq_true_eq] at hp
    obtain ⟨hpc, hmap, hid, hq⟩ := hp
    exact ⟨e, h, ⟨_, hpc, rfl⟩, hid ▸ hmap, by rw [hid]; decide,
      not_serves_of_handling hpc hq⟩
  · have hrun : (run (guarded (step .connect) Free) (init .connect)
        (secondDialRun ++ [.dialOk])).any (fun e => e.loop.pc = .select ∧ e.map 0 = some 0 ∧
          e.map 1 = some 1 ∧ (e.conns 0).writer = .recv ∧ (e.conns 0).queue = [] ∧
          (e.conns 1).id = 1 ∧ (e.conns 1).queue = []) = true := by
      decide
    obtain ⟨e, h, hp⟩ := exists_of_run_any hrun
    simp only [decide_eq_true_eq] at hp
    obtain ⟨hpc, hmap₀, hmap₁, hw, hq₀, hid₁, hq₁⟩ := hp
    obtain ⟨e₁, h₁, hpc₁, hm, hw₁, hothers, hlen⟩ :=
      fill_writer .connect connQueue hpc hmap₀ hw (by simp [hq₀])
    let f : Frame := .tcpData 0 [1]
    let e₂ := (e₁.receive f).goto (.handling ⟨f, .start⟩)
    let e₃ := e₂.goto (.handling ⟨f, .deliver 0 (.data [1])⟩)
    have h₂ : step .connect e₁ (.recv f) = some e₂ := by simp [step, hpc₁, e₂]
    have h₃ : step .connect e₂ .dispatch = some e₃ := by
      have hd : dispatchPc .connect e₂.map f = .handling ⟨f, .deliver 0 (.data [1])⟩ :=
        dispatchPc_of_msg (show e₁.map 0 = some 0 from hm ▸ hmap₀) rfl
      simp only [step, e₂, goto_pc, e₃] at hd ⊢
      rw [hd]
    have hpc₃ : e₃.loop.pc = .handling ⟨f, .deliver 0 (.data [1])⟩ := rfl
    have hc₁ : e₃.conns 1 = e.conns 1 := hothers 1 (by decide)
    have hnone : e₃.step .connect .deliver = none := by
      refine (deliver_eq_none_iff hpc₃).2 ⟨?_, ?_⟩
      · have hlen₃ : (e₃.conns 0).queue.length = (e.conns 0).queue.length + connQueue := hlen
        omega
      · have hw₃ : (e₃.conns 0).writer = .recv := hw₁
        simp [hw₃]
    refine ⟨e₃, ((h.trans h₁).tail trivial h₂).tail trivial h₃, ⟨⟨_, _, hpc₃⟩, hnone⟩, ?_, ?_⟩
    · rw [hc₁, hid₁]
      exact (congrFun hm 1).trans hmap₁
    · exact not_serves_of_handling hpc₃ (by rw [hc₁, hq₁])

end Endpoint

end UsbWs
