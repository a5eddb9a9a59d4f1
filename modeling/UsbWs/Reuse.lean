import UsbWs.Tunnel

/-!
# Conn ids that are used again

`alloc_conn_id` hands out an id as soon as the home map has no entry for it,
and the entry goes with the connection's writer. Its reader, the two tasks at
the gate and the frames under way do not count. `Quiet k` is what a reuse of
`k` would need: no task of a connection with that id runs on either side, and
no frame with that id is anywhere between two sockets.

An id of which nothing is left stays that way until it is handed out
(`Quiet.step`), so it is enough that whenever a writer of the home side takes
its entry out of the map, it is the last of its connection (`endsLast`). That
is the whole condition: `Retired` carries it through every run, up to the next
allocation of the id.

The last part is a run that breaks it. The acceptor can fill all ids in turn
(`exists_filled`), so 255 connections after one that lost its entry its id is
under the cursor again.
-/

namespace UsbWs

open Runs

namespace Endpoint

variable {side : Side} {k : ConnId} {e e' : Endpoint} {a : Act}

/-- The frame `handle_incoming` has in hand. -/
def handled (e : Endpoint) : List Frame :=
  match e.loop.pc with
  | .handling p => [p.frame]
  | _ => []

/-- The frames an endpoint holds: queued, being sent, being handled. -/
def held (e : Endpoint) : List Frame := e.loop.queue ++ e.loop.pending ++ e.handled

/-- No task of a connection with id `k` runs, and no frame of `k` is held. -/
structure Idle (k : ConnId) (e : Endpoint) : Prop where
  ended : ∀ c, c < e.numConns → (e.conns c).id = k →
    (e.conns c).reader.alive = false ∧ (e.conns c).writer.alive = false
  held : ∀ f ∈ e.held, f.connId ≠ k

instance (k : ConnId) (e : Endpoint) : Decidable (Idle k e) :=
  decidable_of_iff ((∀ c, c < e.numConns → (e.conns c).id = k →
      (e.conns c).reader.alive = false ∧ (e.conns c).writer.alive = false) ∧
      ∀ f ∈ e.held, f.connId ≠ k)
    ⟨fun ⟨hc, hf⟩ => ⟨hc, hf⟩, fun h => ⟨h.ended, h.held⟩⟩

/-- A connection whose tasks have both ended, or not started, takes no step. -/
theorem alive_of_conn_step {c c' : Conn} {a : ConnAct} (h : c.step a = some c') :
    c.reader.alive = true ∨ c.writer.alive = true := by
  cases a <;> simp only [Conn.step] at h <;> split at h <;>
    first
      | (cases h; done)
      | (next hpc => simp [hpc, Reader.alive])
      | (next hpc => simp [hpc, Writer.alive])
      | (next hpc _ => simp [hpc, Writer.alive])

theorem held_of_handling {p : Handling} (h : e.loop.pc = .handling p) :
    e.held = e.loop.queue ++ [p.frame] := by
  simp [held, handled, Loop.pending, h]

theorem held_of_select (h : e.loop.pc = .select) : e.held = e.loop.queue := by
  simp [held, handled, Loop.pending, h]

/-- An event of the loop lets go of frames at most. -/
theorem held_of_event {ev : LoopEvent} {l : Loop Frame Frame Handling}
    (h : e.loop.event id ev = some l) : ∀ f ∈ (e.setLoop l).held, f ∈ e.held := by
  intro f hf
  cases ev with
  | dequeue =>
      simp only [Loop.event] at h
      split at h <;> cases h
      next hpc hq =>
        rw [held_of_select hpc, hq]
        simpa [held, handled, Loop.pending, setLoop, or_comm] using hf
  | _ =>
      simp only [Loop.event] at h
      split at h <;> cases h <;>
        simp_all [held, handled, Loop.pending, setLoop, Loop.disconnect]

/-- Only the frame whose send is under way is put on the wire. -/
theorem Trans.sent_eq (h : Trans side e a e') :
    e'.loop.sent = e.loop.sent ∨ ∃ f ∈ e.held, e'.loop.sent = e.loop.sent ++ [f] := by
  cases h with
  | @loop ev l hev hl =>
      cases ev with
      | sendOk =>
          simp only [Loop.event] at hl
          split at hl <;> cases hl
          next f hpc =>
            exact Or.inr ⟨f, by simp [held, Loop.pending, hpc], Loop.sent_wire_append⟩
      | wsClosed | sendErr =>
          simp only [Loop.event] at hl
          split at hl <;> cases hl
          exact Or.inl Loop.sent_disconnect
      | relayUp | relayDown | dequeue | outClosed | ctrlC =>
          simp only [Loop.event] at hl
          split at hl <;> cases hl <;> exact Or.inl rfl
  | _ => exact Or.inl rfl

theorem Idle.ended_step (hw : e.Wf side) (hi : Idle k e) (h : Trans side e a e')
    (hreg : a = .register → ∀ c, e.acceptor = .registering c → (e.conns c).id ≠ k) :
    ∀ c, c < e'.numConns → (e'.conns c).id = k →
      (e'.conns c).reader.alive = false ∧ (e'.conns c).writer.alive = false := by
  intro c hlt' hck'
  have hhand : ∀ f p, e.loop.pc = .handling ⟨f, p⟩ → f.connId ≠ k := fun f p hp =>
    hi.held f (by simp [Endpoint.held, handled, hp])
  by_cases hlt : c < e.numConns
  · have hck : (e.conns c).id = k := (h.id_eq hlt).2.symm.trans hck'
    obtain ⟨hrd, hwr⟩ := hi.ended c hlt hck
    cases h.connChange c with
    | accepted hnew | dialled hnew => exact absurd hnew (Nat.ne_of_lt hlt)
    | registered hacc => exact absurd hck (hreg rfl c hacc)
    | @put f m hpc =>
        exact absurd ((hw.deliver f c m hpc).2.1.symm.trans hck) (hhand f _ hpc)
    | own hv =>
        rcases alive_of_conn_step hv with halive | halive
        · cases hrd.symm.trans halive
        · cases hwr.symm.trans halive
    | sent hr | dropped hr | finished hr =>
        rw [hr] at hrd
        cases hrd
    | closed hend | removed hend =>
        rw [hend] at hwr
        cases hwr
    | same hc =>
        rw [hc]
        exact ⟨hrd, hwr⟩
  · obtain ⟨rfl, _, _, hmakes⟩ := h.makes hlt' hlt
    cases hmakes with
    | accepted hacc hacc' hpc hfree hnew =>
        rw [hnew]
        exact ⟨rfl, rfl⟩
    | @dialled f hpc hpc' hnew =>
        rw [hnew] at hck'
        exact absurd hck' (hhand f _ hpc)

theorem mem_held_enqueue (p : Sender) {f g : Frame} (h : g ∈ (e.enqueue p f).held) :
    g ∈ e.held ∨ g = f := by
  simp only [held, enqueue, handled, Loop.pending, List.mem_append, List.mem_singleton] at h ⊢
  tauto

/-- What an endpoint holds after a step it held before, or it is a frame of a
connection with a running task, of the frame in hand, or just received. -/
theorem Trans.held_cases (h : Trans side e a e') :
    ∀ f ∈ e'.held, f ∈ e.held ∨ a = .recv f ∨ (∃ g ∈ e.held, f = .tcpClose g.connId) ∨
      (∃ c, e.acceptor = .opening c ∧ e'.acceptor = .registering c ∧
        f = .tcpOpen (e.conns c).id) ∨
      ∃ c, (e.conns c).reader.alive = true ∧ f.connId = (e.conns c).id := by
  intro f hf
  cases h with
  | loop hev hl => exact Or.inl (held_of_event hl f hf)
  | recv hpc =>
      rw [held_of_handling rfl] at hf
      rw [held_of_select hpc]
      rcases List.mem_append.1 hf with hq | hq
      · exact Or.inl hq
      · rw [List.mem_singleton] at hq
        exact Or.inr (Or.inl (by rw [hq]))
  | @dispatch g hpc =>
      refine Or.inl ?_
      rw [held_of_handling hpc]
      rcases dispatchPc_cases side e.map g with ⟨hd, _⟩ | ⟨hd, _⟩ | ⟨c, m, hd, _⟩
      · rw [held_of_select (by rw [goto_pc, hd])] at hf
        exact List.mem_append_left _ hf
      · rwa [held_of_handling (by rw [goto_pc, hd])] at hf
      · rwa [held_of_handling (by rw [goto_pc, hd])] at hf
  | dialOk hpc | deliver hpc hdone hroom | shutdownGone hpc hdone =>
      rw [held_of_select rfl] at hf
      rw [held_of_handling hpc]
      exact Or.inl (List.mem_append_left _ hf)
  | deliverGone hpc | dialErr hpc | removeGone hpc =>
      rw [held_of_handling rfl] at hf
      rw [held_of_handling hpc]
      exact Or.inl hf
  | @sendClose g hpc hroom =>
      rw [held_of_handling hpc]
      rw [held_of_select rfl] at hf
      rcases List.mem_append.1 hf with hq | hq
      · exact Or.inl (List.mem_append_left _ hq)
      · rw [List.mem_singleton] at hq
        exact Or.inr (Or.inr (Or.inl ⟨g, by simp, hq⟩))
  | @sendOpen c hacc hgone hroom =>
      rcases mem_held_enqueue .acceptor hf with hq | rfl
      · exact Or.inl hq
      · exact Or.inr (Or.inr (Or.inr (Or.inl ⟨c, hacc, rfl, rfl⟩)))
  | @sendData c chunk hr hgone hroom =>
      rcases mem_held_enqueue (.reader c) hf with hq | rfl
      · exact Or.inl hq
      · exact Or.inr (Or.inr (Or.inr (Or.inr ⟨c, by rw [hr]; rfl, rfl⟩)))
  | @sendEnd c hr hgone hroom =>
      rcases mem_held_enqueue (.reader c) hf with hq | rfl
      · exact Or.inl hq
      · exact Or.inr (Or.inr (Or.inr (Or.inr ⟨c, by rw [hr]; rfl, rfl⟩)))
  | _ => exact Or.inl hf

theorem Idle.step (hw : e.Wf side) (hi : Idle k e) (h : Trans side e a e')
    (hrecv : ∀ f, a = .recv f → f.connId ≠ k)
    (hopen : ∀ c, e.acceptor = .opening c → e'.acceptor = .registering c → (e.conns c).id ≠ k)
    (hreg : a = .register → ∀ c, e.acceptor = .registering c → (e.conns c).id ≠ k) :
    Idle k e' where
  ended := hi.ended_step hw h hreg
  held := by
    intro f hf
    rcases h.held_cases f hf with hold | ha | ⟨g, hg, rfl⟩ | ⟨c, hacc, hacc', rfl⟩ | ⟨c, hal, hfc⟩
    · exact hi.held f hold
    · exact hrecv f ha
    · exact hi.held g hg
    · exact hopen c hacc hacc'
    · intro hck
      have hlt : c < e.numConns := by
        by_contra hge
        rw [(hw.beyond c (by omega)).1] at hal
        cases hal
      rw [(hi.ended c hlt (hfc.symm.trans hck)).1] at hal
      cases hal

end Endpoint

namespace Tunnel

open Endpoint

variable {k : ConnId} {t t' : Tunnel} {s : Side} {a : Act}

/-- Nothing of any connection with id `k` is left: no task of one runs on
either side, and no frame of one is held by a side or on its way to it. -/
structure Quiet (k : ConnId) (t : Tunnel) : Prop where
  idle : ∀ s, Idle k (t.ends s)
  flying : ∀ s, ∀ f ∈ (t.ends s.peer).loop.sent.drop (t.ends s).rcvd.length, f.connId ≠ k

theorem forall_side {P : Side → Prop} : (∀ s, P s) ↔ P .listen ∧ P .connect :=
  ⟨fun h => ⟨h _, h _⟩, fun h s => by cases s <;> simp [h]⟩

instance (k : ConnId) (t : Tunnel) : Decidable (Quiet k t) :=
  decidable_of_iff ((Idle k (t.ends .listen) ∧ Idle k (t.ends .connect)) ∧
      (∀ f ∈ (t.ends Side.listen.peer).loop.sent.drop (t.ends .listen).rcvd.length,
        f.connId ≠ k) ∧
      ∀ f ∈ (t.ends Side.connect.peer).loop.sent.drop (t.ends .connect).rcvd.length,
        f.connId ≠ k)
    ⟨fun ⟨hi, hf⟩ => ⟨forall_side.2 hi, forall_side.2 hf⟩,
      fun h => ⟨forall_side.1 h.idle, forall_side.1 h.flying⟩⟩

/-- Of an id of which nothing is left nothing comes back, until it is opened or
registered again. -/
theorem Quiet.step (hw : (t.ends s).Wf s) (hq : Quiet k t) (hs : t.step (s, a) = some t')
    (hopen : ∀ c, (t.ends s).acceptor = .opening c → (t'.ends s).acceptor = .registering c →
      ((t.ends s).conns c).id ≠ k)
    (hreg : a = .register → ∀ c, (t.ends s).acceptor = .registering c →
      ((t.ends s).conns c).id ≠ k) : Quiet k t' := by
  obtain ⟨e, htr, rfl, harr⟩ := trans_of_step hs
  constructor
  · rw [put_ends_self] at hopen
    refine forall_put (I := fun _ e => Idle k e) hq.idle
      ((hq.idle s).step hw htr ?_ hopen hreg)
    rintro f rfl
    simp only [arrives, decide_eq_true_eq] at harr
    refine hq.flying s f (List.mem_of_getElem? (i := 0) ?_)
    rw [List.getElem?_drop, Nat.add_zero, harr]
  · intro r f hf
    rcases r.eq_or_eq_peer s with rfl | rfl
    · rw [put_ends_self, put_ends_peer] at hf
      refine hq.flying r f ((List.drop_sublist_drop_left _ ?_).subset hf)
      exact htr.prefix_rcvd.length_le
    · rw [put_ends_peer, Side.peer_peer, put_ends_self] at hf
      have hfly := hq.flying s.peer
      rw [Side.peer_peer] at hfly
      rcases htr.sent_eq with heq | ⟨g, hg, heq⟩
      · exact hfly f (heq ▸ hf)
      · rw [heq, List.drop_append] at hf
        rcases List.mem_append.1 hf with hold | hnew
        · exact hfly f hold
        · obtain rfl : f = g := by simpa using List.mem_of_mem_drop hnew
          exact (hq.idle s).held f hg

/-! ## Handing an id out again -/

/-- When a writer of the home side takes its entry out of the map, nothing else
of its connection is left. -/
def endsLast (t : Tunnel) : Side × Act → Bool
  | (.listen, .remove c) =>
      decide (Quiet (t.home.conns c).id
        (t.put .listen (t.home.setConn c { t.home.conns c with writer := .done })))
  | _ => true

/-- What is left of an id does not depend on the map. -/
theorem Quiet.unmap {e : Endpoint} (hq : Quiet k (t.put .listen e)) (j : ConnId) :
    Quiet k (t.put .listen (e.unmap j)) where
  idle := by
    rintro (_ | _)
    · exact ⟨(hq.idle .listen).ended, (hq.idle .listen).held⟩
    · exact hq.idle .connect
  flying := by
    rintro (_ | _)
    · exact hq.flying .listen
    · exact hq.flying .connect

structure Retired (k : ConnId) (t : Tunnel) : Prop where
  wf : ∀ s, (t.ends s).Wf s
  mapped : MapSound k t.home
  pending : ∀ c, t.home.acceptor = .opening c ∨ t.home.acceptor = .registering c →
    (t.home.conns c).id = k → t.home.map k = none
  delivering : ∀ f c m, t.home.loop.pc = .handling ⟨f, .deliver c m⟩ → f.connId = k →
    t.home.map k = some c
  removing : ∀ f, t.home.loop.pc = .handling ⟨f, .writerGone⟩ → f.connId ≠ k
  quiet : t.home.map k = none →
    (∀ c, t.home.acceptor = .registering c → (t.home.conns c).id ≠ k) → Quiet k t

theorem quiet_init (k : ConnId) : Quiet k init where
  idle := fun s => by
    constructor
    all_goals cases s <;> simp [init, Endpoint.init, held, handled, Loop.pending, Loop.init]
  flying := fun s => by cases s <;> simp [init, Endpoint.init, Loop.init, Loop.sent, Side.peer]

theorem retired_init (k : ConnId) : Retired k init where
  wf := wf_init
  mapped := mapSound_init .listen k
  pending := by simp [home, init, Endpoint.init]
  delivering := by simp [home, init, Endpoint.init, Loop.init]
  removing := by simp [home, init, Endpoint.init, Loop.init]
  quiet := fun _ _ => quiet_init k

theorem Retired.insertFresh (hr : Retired k t) (a : Act) : InsertFresh k t.home a := by
  cases a with
  | register =>
      intro c hacc hck
      have hnone := hr.pending c (Or.inr hacc) hck
      refine ⟨hnone, ?_⟩
      rintro ⟨f, point⟩ hpc hfk
      cases point with
      | deliver d m => rw [hr.delivering f d m hpc hfk] at hnone; cases hnone
      | writerGone => exact absurd hfk (hr.removing f hpc)
      | _ => rfl
  | dialOk =>
      intro f hpc _
      exact absurd hpc ((hr.wf .listen).not_dialing f)
  | _ => trivial

/-- The frame in hand keeps the writer from taking the entry of its id. -/
theorem not_remove_of_handled {c : Nat} {p : Handling}
    (hC : endsLast t (.listen, .remove c) = true)
    (hpc : t.home.loop.pc = .handling p) : p.frame.connId ≠ (t.home.conns c).id := by
  have hq : Quiet _ _ := of_decide_eq_true hC
  have hidle := hq.idle .listen
  rw [put_ends_self] at hidle
  exact hidle.held p.frame (by simp [held, handled, hpc])

theorem Retired.pending_step {e : Endpoint} (hr : Retired k t)
    (h : Trans .listen t.home a e) : ∀ c, e.acceptor = .opening c ∨ e.acceptor = .registering c →
      (e.conns c).id = k → e.map k = none := by
  intro c hacc' hck'
  -- a connection the acceptor already held finds its id still unmapped
  have hold : t.home.acceptor = .opening c ∨ t.home.acceptor = .registering c →
      e.acceptor ≠ .accepting → e.map k = none := by
    intro hacc hne
    have hck := (h.id_eq ((hr.wf .listen).opening c hacc).1).2.symm.trans hck'
    cases h.mapChange k with
    | same hsame => exact hsame.trans (hr.pending c hacc hck)
    | registered _ hdone => exact absurd hdone hne
    | dialled hpc => exact absurd hpc ((hr.wf .listen).not_dialing _)
    | removed _ _ hnone | gone _ _ hnone => exact hnone
  have hne : e.acceptor ≠ .accepting := by
    rcases hacc' with hacc' | hacc' <;> simp [hacc']
  cases h.acceptorChange with
  | same hsame => exact hold (hsame ▸ hacc') hne
  | accepted hacc hopen hlt hc hfree =>
      rw [hopen] at hacc'
      obtain rfl : _ = c := by simpa using hacc'
      rw [hc] at hck'
      cases h.mapChange k with
      | same hsame => exact hsame.trans (hck' ▸ hfree)
  | opened hacc hreg =>
      rw [hreg] at hacc'
      obtain rfl : _ = c := by simpa using hacc'
      exact hold (Or.inl hacc) hne
  | gone hacc hgone => simp [hgone] at hacc'
  | registered hacc hdone => exact absurd hdone hne

theorem Retired.delivering_step {e : Endpoint} (hr : Retired k t)
    (hC : endsLast t (.listen, a) = true) (h : Trans .listen t.home a e) :
    ∀ f c m, e.loop.pc = .handling ⟨f, .deliver c m⟩ → f.connId = k → e.map k = some c := by
  intro f c m hp hk
  cases h.comes hp with
  | stay hpc hrcvd =>
      have hold := hr.delivering f c m hpc hk
      cases h.mapChange k with
      | same hsame => exact hsame.trans hold
      | registered hacc _ hid => cases (hr.pending _ (Or.inr hacc) hid).symm.trans hold
      | dialled hdial => exact absurd hdial ((hr.wf .listen).not_dialing _)
      | removed hshut hid => exact absurd (hk.trans hid.symm) (not_remove_of_handled hC hpc)
      | gone hgone => cases hpc.symm.trans hgone
  | deliver hpc hrcvd hmap hm =>
      exact (h.map_eq_of_handling (Or.inl rfl) k).trans (hk ▸ hmap)

theorem Retired.removing_step {e : Endpoint} (hr : Retired k t)
    (h : Trans .listen t.home a e) :
    ∀ f, e.loop.pc = .handling ⟨f, .writerGone⟩ → f.connId ≠ k := by
  intro f hp hk
  cases h.comes hp with
  | stay hpc hrcvd => exact hr.removing f hpc hk
  | @gone f c bytes hpc hrcvd hdone =>
      have halive : (t.home.conns c).writer.alive = true :=
        ((hr.wf .listen).mapped k c (hr.delivering f c _ hpc hk)).2.2
      rw [hdone] at halive
      cases halive

theorem Retired.quiet_step {e : Endpoint} (hr : Retired k t)
    (hC : endsLast t (.listen, a) = true) (hs : t.step (.listen, a) = some (t.put .listen e))
    (h : Trans .listen t.home a e) (hmap : e.map k = none)
    (hacc : ∀ c, e.acceptor = .registering c → (e.conns c).id ≠ k) :
    Quiet k (t.put .listen e) := by
  by_cases hunused : t.home.map k = none ∧
      ∀ c, t.home.acceptor = .registering c → (t.home.conns c).id ≠ k
  · -- the id was unused before: it is not opened or registered in this step
    refine (hr.quiet hunused.1 hunused.2).step (hr.wf .listen) hs ?_ ?_
    · intro c hopen hreg hck
      rw [put_ends_self] at hreg
      have hlt := ((hr.wf .listen).opening c (Or.inl hopen)).1
      exact hacc c hreg ((h.id_eq hlt).2.trans hck)
    · exact fun _ => hunused.2
  · -- its entry was taken out in this step, by a writer
    cases h.mapChange k with
    | registered _ _ _ hsome => cases hmap.symm.trans hsome
    | dialled hpc => exact absurd hpc ((hr.wf .listen).not_dialing _)
    | gone hpc hk => exact absurd hk (hr.removing _ hpc)
    | @removed c hshut hck =>
        cases h with
        | wait hsends => cases hsends
        | remove =>
            have hq : Quiet (t.home.conns c).id _ := of_decide_eq_true hC
            rw [hck] at hq
            exact hq.unmap (t.home.conns c).id
    | same hsame =>
        -- no entry went, so the acceptor was about to register and did not
        refine absurd ⟨hsame.symm.trans hmap, fun c hreg hck => ?_⟩ hunused
        have hlt := ((hr.wf .listen).opening c (Or.inr hreg)).1
        cases h.acceptorChange with
        | same hkept => exact hacc c (hkept.trans hreg) ((h.id_eq hlt).2.trans hck)
        | @registered d hreg' _ _ hsome =>
            obtain rfl : d = c := by simpa using hreg'.symm.trans hreg
            cases hmap.symm.trans (hck ▸ hsome)
        | accepted hother | opened hother | gone hother => cases hother.symm.trans hreg

theorem Retired.home_step {e : Endpoint} (hr : Retired k t)
    (hC : endsLast t (.listen, a) = true) (hs : t.step (.listen, a) = some (t.put .listen e))
    (h : Trans .listen t.home a e) : Retired k (t.put .listen e) where
  wf := forall_put (I := fun s e => e.Wf s) hr.wf ((hr.wf .listen).step h)
  mapped := hr.mapped.step (hr.wf .listen) (hr.insertFresh a) h
  pending := hr.pending_step h
  delivering := hr.delivering_step hC h
  removing := hr.removing_step h
  quiet := hr.quiet_step hC hs h

theorem Retired.gate_step {e : Endpoint} (hr : Retired k t)
    (hs : t.step (.connect, a) = some (t.put .connect e))
    (h : Trans .connect t.gate a e) : Retired k (t.put .connect e) where
  wf := forall_put (I := fun s e => e.Wf s) hr.wf ((hr.wf .connect).step h)
  mapped := hr.mapped
  pending := hr.pending
  delivering := hr.delivering
  removing := hr.removing
  quiet := by
    intro hmap hacc
    refine (hr.quiet hmap hacc).step (hr.wf .connect) hs ?_ ?_
    · exact fun c hopen => absurd hopen ((hr.wf .connect).not_opening c)
    · exact fun _ c hreg => absurd hreg ((hr.wf .connect).not_registering c)

theorem retired (h : Reaches step (fun t sa => endsLast t sa = true) init t) (k : ConnId) :
    Retired k t := by
  refine h.invariant (retired_init k) ?_
  rintro t ⟨s, a⟩ t' hC hs hr
  obtain ⟨e, htr, rfl, _⟩ := trans_of_step hs
  cases s with
  | listen => exact hr.home_step hC hs htr
  | connect => exact hr.gate_step hs htr

end Tunnel

/-! ## A full lap of the ids -/

namespace Endpoint

/-- A step of the acceptor task. -/
def ofAcceptor : Act → Bool
  | .accept | .sendOpen | .register => true
  | _ => false

/-- With a free id under the cursor and a slot in the outbound queue, the
acceptor takes a connection all the way into the map. -/
theorem exists_accepted {e : Endpoint} (hacc : e.acceptor = .accepting)
    (hfree : e.map e.nextId = none) (hgone : e.outGone = false) (hline : e.waiting = [])
    (hroom : e.loop.queue.length < outQueue) :
    ∃ e', Reaches (step .listen) (fun _ a => ofAcceptor a = true) e e' ∧
      e'.acceptor = .accepting ∧ e'.nextId = e.nextId + 1 ∧
      (∀ j, e'.map j = if j = e.nextId then some e.numConns else e.map j) ∧
      e'.outGone = false ∧ e'.waiting = [] ∧ e'.loop.queue.length = e.loop.queue.length + 1 ∧
      e'.numConns = e.numConns + 1 ∧ ∀ c, c < e.numConns → e'.conns c = e.conns c := by
  have haccept : step .listen e .accept = some (((e.setNextId (e.nextId + 1)).newConn
      e.nextId).setAcceptor (.opening e.numConns)) := by
    simp [step, hacc, allocConnId_of_free hfree]
  generalize hopen : ((e.setNextId (e.nextId + 1)).newConn e.nextId).setAcceptor
    (.opening e.numConns) = e₁ at haccept
  have hsend : step .listen e₁ .sendOpen =
      some ((e₁.enqueue .acceptor (.tcpOpen e.nextId)).setAcceptor
        (.registering e.numConns)) := by
    have hgone₁ : e₁.outGone = false := hopen ▸ hgone
    have hroom₁ : e₁.outRoom .acceptor = true := hopen ▸ outRoom_of_nil hline hroom
    have hacc₁ : e₁.acceptor = .opening e.numConns := hopen ▸ rfl
    have hid₁ : (e₁.conns e.numConns).id = e.nextId := by simp [← hopen, newConn, Conn.fresh]
    simp [step, hgone₁, hroom₁, hacc₁, hid₁]
  refine ⟨_, (((Reaches.refl e).tail (a := Act.accept) rfl haccept).tail (a := Act.sendOpen)
    rfl hsend).tail (a := Act.register) rfl rfl, rfl, ?_, ?_, ?_, ?_, ?_, ?_, ?_⟩ <;> subst hopen
  · rfl
  · intro j
    simp [newConn, Conn.fresh]
  · exact hgone
  · simp [hline]
  · simp [enqueue, spawnConnection, setAcceptor, setConn, insert, newConn, setNextId]
  · rfl
  · intro c hc
    simp [newConn, spawnConnection, Nat.ne_of_lt hc]

/-- The acceptor fills the ids from the cursor on. -/
theorem exists_filled {n : Nat} : ∀ {m : Nat} {e : Endpoint}, e.acceptor = .accepting →
    e.nextId = UInt8.ofNat m → (∀ j : ConnId, m ≤ j.toNat → e.map j = none) →
    m + n ≤ 256 → e.outGone = false → e.waiting = [] →
    e.loop.queue.length + n ≤ outQueue →
    ∃ e', Reaches (step .listen) (fun _ a => ofAcceptor a = true) e e' ∧
      e'.acceptor = .accepting ∧ e'.nextId = UInt8.ofNat (m + n) ∧
      (∀ j : ConnId, j.toNat < m → e'.map j = e.map j) ∧ e.numConns ≤ e'.numConns ∧
      ∀ c, c < e.numConns → e'.conns c = e.conns c := by
  induction n with
  | zero =>
      intro m e hacc hnext _ _ _ _ _
      exact ⟨e, Reaches.refl e, hacc, hnext, fun _ _ => rfl, Nat.le_refl _, fun _ _ => rfl⟩
  | succ n ih =>
      intro m e hacc hnext hfree hle hgone hline hqueue
      have hm : e.nextId.toNat = m := by
        rw [hnext, UInt8.toNat_ofNat']
        omega
      obtain ⟨e₁, h₁, hacc₁, hnext₁, hmap₁, hgone₁, hline₁, hqueue₁, hnum₁, hconns₁⟩ :=
        exists_accepted hacc (hfree _ (Nat.le_of_eq hm.symm)) hgone hline (by omega)
      have hne : ∀ j : ConnId, j.toNat ≠ m → e₁.map j = e.map j := fun j hj => by
        rw [hmap₁, if_neg]
        rintro rfl
        exact hj hm
      obtain ⟨e₂, h₂, hacc₂, hnext₂, hmap₂, hnum₂, hconns₂⟩ :=
        ih (m := m + 1) hacc₁ (by rw [hnext₁, hnext, UInt8.ofNat_add]; rfl)
          (fun j hj => (hne j (by omega)).trans (hfree j (by omega))) (by omega) hgone₁
          hline₁ (by omega)
      refine ⟨e₂, h₁.trans h₂, hacc₂, ?_, ?_, by omega, ?_⟩
      · rw [hnext₂, Nat.add_assoc, Nat.add_comm 1 n]
      · exact fun j hj => (hmap₂ j (by omega)).trans (hne j (by omega))
      · exact fun c hc => (hconns₂ c (by omega)).trans (hconns₁ c hc)

end Endpoint

namespace Tunnel

open Endpoint

variable {k : ConnId} {t t' : Tunnel} {s : Side} {a : Act} {C : Tunnel → Side × Act → Prop}

/-- What the acceptor does by itself it does in the tunnel. -/
theorem lift_acceptor {e e' : Endpoint} (hC : ∀ t a, ofAcceptor a = true → C t (.listen, a))
    (h : Reaches (Endpoint.step .listen) (fun _ a => ofAcceptor a = true) e e') :
    ∀ {t : Tunnel}, t.home = e → Reaches step C t (t.put .listen e') := by
  induction h with
  | refl =>
      rintro t rfl
      have hput : t.put .listen t.home = t := by simp [put, home]
      rw [hput]
      exact Reaches.refl t
  | @tail u v _ hst ih =>
      rintro t rfl
      obtain ⟨a, ha, hs⟩ := hst
      have harr : (t.put .listen u).arrives .listen a = true := by
        cases a <;> first | rfl | cases ha
      refine (ih rfl).tail (hC _ a ha) (a := (.listen, a)) ?_
      simp only [step, harr, put_ends_self, hs, if_true, Option.map_some]
      simp [put]

/-- After the first connection's writer has ended and 255 more connections were
accepted, `alloc_conn_id` is back at the first id. -/
theorem exists_lap_put (hC : ∀ t a, ofAcceptor a = true → C t (.listen, a))
    (h : Reaches step C init t) (hacc : t.home.acceptor = .accepting)
    (hnext : t.home.nextId = 1) (hnum : t.home.numConns = 1)
    (hended : (t.home.conns 0).writer.alive = false) (hgone : t.home.outGone = false)
    (hline : t.home.waiting = []) (hqueue : t.home.loop.queue.length ≤ 1) :
    ∃ e, Reaches step C init (t.put .listen e) ∧ e.acceptor = .accepting ∧
      allocConnId e.map e.nextId = (some 0, 1) ∧ 0 < e.numConns ∧
      e.conns 0 = t.home.conns 0 := by
  have hw : t.home.Wf .listen :=
    ends_invariant (I := fun s e => e.Wf s) wf_init (fun hi htr => hi.step htr) h .listen
  have hnone : ∀ j, t.home.map j = none := by
    intro j
    cases hj : t.home.map j with
    | none => rfl
    | some c =>
        obtain ⟨hc, _, halive⟩ := hw.mapped j c hj
        obtain rfl : c = 0 := by omega
        rw [hended] at halive
        cases halive
  obtain ⟨e, hfill, hacc', hnext', hmap', hnum', hconns'⟩ :=
    exists_filled (n := 255) (m := 1) hacc hnext (fun j _ => hnone j) (by omega) hgone
      hline (by rw [outQueue]; omega)
  refine ⟨e, h.trans (lift_acceptor hC hfill rfl), hacc', ?_, ?_, hconns' 0 (by omega)⟩
  · have hcursor : e.nextId = 0 := hnext'
    have hfree : e.map e.nextId = none := by
      rw [hcursor, hmap' 0 (by decide)]
      exact hnone 0
    calc allocConnId e.map e.nextId = (some e.nextId, e.nextId + 1) := allocConnId_of_free hfree
      _ = (some 0, 1) := by rw [hcursor]; rfl
  · exact Nat.lt_of_lt_of_le (by omega) hnum'

theorem exists_lap (hC : ∀ t a, ofAcceptor a = true → C t (.listen, a))
    (h : Reaches step C init t) (hacc : t.home.acceptor = .accepting)
    (hnext : t.home.nextId = 1) (hnum : t.home.numConns = 1)
    (hended : (t.home.conns 0).writer.alive = false) (hgone : t.home.outGone = false)
    (hline : t.home.waiting = []) (hqueue : t.home.loop.queue.length ≤ 1) :
    ∃ t', Reaches step C init t' ∧ t'.home.acceptor = .accepting ∧
      allocConnId t'.home.map t'.home.nextId = (some 0, 1) ∧ 0 < t'.home.numConns ∧
      t'.home.conns 0 = t.home.conns 0 := by
  obtain ⟨e, hlap⟩ := exists_lap_put hC h hacc hnext hnum hended hgone hline hqueue
  exact ⟨t.put .listen e, hlap⟩

/-- In every run in which each writer of the home side that takes its entry out
of the map is the last of its connection, an id that `alloc_conn_id` hands out
has nothing left of an earlier connection. -/
theorem quiet_of_alloc {t : Tunnel} {k next : ConnId}
    (h : Reaches step (fun t sa => endsLast t sa = true) init t)
    (hacc : t.home.acceptor = .accepting)
    (halloc : allocConnId t.home.map t.home.nextId = (some k, next)) : Quiet k t := by
  refine (retired h k).quiet (allocConnId_free halloc) fun c hreg => ?_
  rw [hacc] at hreg
  cases hreg

/-- Home accepts a connection, the gate's dial fails, and its CLOSE ends the
writer up to the removal of its entry. -/
def refusedLap : List (Side × Act) :=
  [(.listen, .loop .relayUp), (.connect, .loop .relayUp), (.listen, .accept),
    (.listen, .sendOpen), (.listen, .register), (.listen, .loop .dequeue),
    (.listen, .loop .sendOk), (.connect, .recv (.tcpOpen 0)), (.connect, .dispatch),
    (.connect, .dialErr), (.connect, .sendClose), (.connect, .loop .dequeue),
    (.connect, .loop .sendOk), (.listen, .recv (.tcpClose 0)), (.listen, .dispatch),
    (.listen, .deliver), (.listen, .conn 0 .pop), (.listen, .conn 0 .shutdown)]

/-- The socket at home ends too, and its CLOSE is handled at the gate. -/
def endedLap : List (Side × Act) :=
  [(.listen, .conn 0 .readEnd), (.listen, .sendEnd 0), (.listen, .loop .dequeue),
    (.listen, .loop .sendOk), (.connect, .recv (.tcpClose 0)), (.connect, .dispatch)]

theorem quiet_of_alloc_lap :
    ∃ t, Reaches step (fun t sa => endsLast t sa = true) init t ∧
      (t.home.conns 0).reads = [] ∧ (t.home.conns 0).id = 0 ∧ 0 < t.home.numConns ∧
      allocConnId t.home.map t.home.nextId = (some 0, 1) ∧ Quiet 0 t := by
  have hrun : (run (guarded step fun t sa => endsLast t sa = true) init
      (refusedLap ++ endedLap ++ [(.listen, .remove 0)])).any (fun t =>
        t.home.acceptor = .accepting ∧ t.home.nextId = 1 ∧ t.home.numConns = 1 ∧
          (t.home.conns 0).writer.alive = false ∧ t.home.outGone = false ∧
          t.home.waiting = [] ∧ t.home.loop.queue.length ≤ 1 ∧ (t.home.conns 0).reads = [] ∧
          (t.home.conns 0).id = 0) = true := by
    decide
  obtain ⟨t, h, hp⟩ := exists_of_run_any hrun
  simp only [decide_eq_true_eq] at hp
  obtain ⟨hacc, hnext, hnum, hended, hgone, hline, hqueue, hreads, hid⟩ := hp
  obtain ⟨t', h', hacc', halloc, hnum', hconn⟩ :=
    exists_lap (fun _ a ha => by cases a <;> first | rfl | cases ha) h hacc hnext hnum hended
      hgone hline hqueue
  exact ⟨t', h', hconn ▸ hreads, hconn ▸ hid, hnum', halloc, quiet_of_alloc h' hacc' halloc⟩

/-- A refused connection loses its entry while its socket at home stays open.
255 connections later its id is handed out again, and its reader still runs. -/
theorem not_quiet_of_refused :
    ∃ t, Reaches step (fun t sa => oneSession t sa = true) init t ∧
      t.home.acceptor = .accepting ∧
      allocConnId t.home.map t.home.nextId = (some 0, 1) ∧ 0 < t.home.numConns ∧
      (t.home.conns 0).id = 0 ∧ (t.home.conns 0).reader = .reading ∧ ¬ Quiet 0 t := by
  have hrun : (run (guarded step fun t sa => oneSession t sa = true) init
      (refusedLap ++ [(.listen, .remove 0)])).any (fun t =>
        t.home.acceptor = .accepting ∧ t.home.nextId = 1 ∧ t.home.numConns = 1 ∧
          (t.home.conns 0).writer.alive = false ∧ t.home.outGone = false ∧
          t.home.waiting = [] ∧ t.home.loop.queue.length ≤ 1 ∧ (t.home.conns 0).reader = .reading ∧
          (t.home.conns 0).id = 0) = true := by
    decide
  obtain ⟨t, h, hp⟩ := exists_of_run_any hrun
  simp only [decide_eq_true_eq] at hp
  obtain ⟨hacc, hnext, hnum, hended, hgone, hline, hqueue, hreader, hid⟩ := hp
  obtain ⟨t', h', hacc', halloc, hnum', hconn⟩ :=
    exists_lap (fun _ a ha => by cases a <;> first | rfl | cases ha) h hacc hnext hnum hended
      hgone hline hqueue
  rw [← hconn] at hreader hid
  refine ⟨t', h', hacc', halloc, hnum', hid, hreader, fun hq => ?_⟩
  have hstopped := ((hq.idle .listen).ended 0 hnum' hid).1
  rw [show ((t'.ends .listen).conns 0).reader = .reading from hreader] at hstopped
  cases hstopped

end Tunnel

end UsbWs
