import UsbWs.EndpointWf

/-!
# Who owns a map entry

The comment in `spawn_connection` says that the writer is its entry's owner.
The code removes entries by conn id alone, though, in the writer's last line
and in the error path of the DATA arm, so the entry that goes may be another
connection's. `MapSound k` is what ownership would mean for conn id `k`:
every running writer is mapped, `handle_incoming` never holds the sender of a
connection while another one is mapped, the entry is gone by the time the
error path removes it, and a writer leaves its loop because of a `Shutdown`
or a failed write and for no other reason.

All of that is inductive as soon as an insertion finds the id unmapped and
the session task past its last use of an older entry (`InsertFresh k`). At
the gate the session task makes the insertions itself, so only the first half
is a condition there: a dial must not succeed for a conn id that is still
mapped. It does after a restart of the home process, and then the old
connection's writer, whose channel the insertion closed, takes the new entry
away.
-/

namespace UsbWs

open Runs

/-- Between the lookup of an entry and its last use in `handle_incoming`. -/
def Point.usesEntry : Point → Bool
  | .deliver _ _ | .writerGone => true
  | _ => false

namespace Endpoint

/-- A connection is registered under `k` only where `k` is unmapped and
`handle_incoming` is done with older entries of `k`. -/
def InsertFresh (k : ConnId) (e : Endpoint) : Act → Prop
  | .register => ∀ c, e.acceptor = .registering c → (e.conns c).id = k →
      e.map k = none ∧ ∀ p, e.loop.pc = .handling p → p.frame.connId = k →
        p.point.usesEntry = false
  | .dialOk => ∀ f, e.loop.pc = .handling ⟨f, .dialing⟩ → f.connId = k → e.map k = none
  | _ => True

structure MapSound (k : ConnId) (e : Endpoint) : Prop where
  mapped : ∀ c, (e.conns c).id = k → (e.conns c).writer.alive = true → e.map k = some c
  delivering : ∀ f c m, e.loop.pc = .handling ⟨f, .deliver c m⟩ → f.connId = k →
    e.map k = some c ∨ e.map k = none
  removing : ∀ f, e.loop.pc = .handling ⟨f, .writerGone⟩ → f.connId = k → e.map k = none
  ended : ∀ c, (e.conns c).id = k → (e.conns c).writer.pastLoop = true →
    .shutdown ∈ (e.conns c).got ∨ (e.conns c).writeFailed = true

theorem mapSound_init (side : Side) (k : ConnId) : MapSound k (init side) := by
  constructor
  all_goals cases side <;> simp [init, Loop.init, Conn.fresh, Writer.alive, Writer.pastLoop]

variable {side : Side} {k : ConnId} {e e' : Endpoint} {a : Act}

/-- An entry of `k` is not replaced, and only its own writer takes it out. -/
theorem MapSound.map_step (hm : MapSound k e) (hC : InsertFresh k e a)
    (h : Trans side e a e') {c : Nat} (hmap : e.map k = some c)
    (halive : (e'.conns c).writer.alive = true) : e'.map k = some c := by
  cases h.mapChange k with
  | same hsame => exact hsame.trans hmap
  | registered hacc _ hid => cases (hC _ hacc hid).1.symm.trans hmap
  | dialled hpc hk => cases (hC _ hpc hk).symm.trans hmap
  | @removed d hshut hid hnone hdone =>
      have hentry := hm.mapped d hid (by rw [hshut]; rfl)
      obtain rfl : d = c := by simpa using hentry.symm.trans hmap
      rw [hdone] at halive
      cases halive
  | gone hpc hk => cases (hm.removing _ hpc hk).symm.trans hmap

theorem MapSound.mapped_step (hm : MapSound k e) (hC : InsertFresh k e a)
    (h : Trans side e a e') : ∀ c, (e'.conns c).id = k →
      (e'.conns c).writer.alive = true → e'.map k = some c := by
  intro c hid' halive'
  have hkept : (e.conns c).id = k → (e.conns c).writer.alive = true → e'.map k = some c :=
    fun hid halive => hm.map_step hC h (hm.mapped c hid halive) halive'
  cases h.connChange c with
  | accepted _ _ _ hc | removed _ _ hc =>
      rw [hc] at halive'
      cases halive'
  | dialled _ _ _ hc hmap | registered _ _ hc hmap =>
      rw [hc] at hid'
      exact hid' ▸ hmap
  | own hv =>
      obtain ⟨hid, halive, _⟩ := Conn.step_frame hv
      exact hkept (hid.symm.trans hid') (halive.symm.trans halive')
  | closed hrecv hno hc =>
      rw [hc] at hid'
      exact hkept hid' (by rw [hrecv]; rfl)
  | same hc | put _ hc | sent _ _ hc | dropped _ _ hc | finished _ hc =>
      rw [hc] at hid' halive'
      exact hkept hid' halive'

/-- While `handle_incoming` uses an entry of `k`, none is put in its place. -/
theorem map_of_usesEntry (hC : InsertFresh k e a) (h : Trans side e a e') {p : Handling}
    (hpc : e.loop.pc = .handling p) (hk : p.frame.connId = k) (hp : p.point.usesEntry = true) :
    e'.map k = e.map k ∨ e'.map k = none := by
  cases h.mapChange k with
  | same hsame => exact Or.inl hsame
  | registered hacc _ hid => cases ((hC _ hacc hid).2 p hpc hk).symm.trans hp
  | dialled hdial =>
      obtain rfl : _ = p := by simpa using hdial.symm.trans hpc
      cases hp
  | removed hshut hid hnone => exact Or.inr hnone
  | gone hgone hk' hnone => exact Or.inr hnone

/-- Looking a frame up, and finding its writer gone, leave the map alone. -/
theorem Trans.map_eq_of_handling (h : Trans side e a e') (ha : a = .dispatch ∨ a = .deliver)
    (j : ConnId) : e'.map j = e.map j := by
  cases h.mapChange j with
  | same hsame => exact hsame
  | registered | dialled | removed | gone => simp at ha

theorem MapSound.delivering_step (hm : MapSound k e) (hC : InsertFresh k e a)
    (h : Trans side e a e') : ∀ f c m, e'.loop.pc = .handling ⟨f, .deliver c m⟩ →
      f.connId = k → e'.map k = some c ∨ e'.map k = none := by
  intro f c m hp hk
  cases h.comes hp with
  | stay hpc hrcvd =>
      rcases map_of_usesEntry hC h hpc hk rfl with heq | hnone
      · exact heq ▸ hm.delivering f c m hpc hk
      · exact Or.inr hnone
  | deliver hpc hrcvd hmap _ =>
      exact Or.inl ((h.map_eq_of_handling (Or.inl rfl) k).trans (hk ▸ hmap))

theorem MapSound.removing_step (hw : e.Wf side) (hm : MapSound k e) (hC : InsertFresh k e a)
    (h : Trans side e a e') : ∀ f, e'.loop.pc = .handling ⟨f, .writerGone⟩ →
      f.connId = k → e'.map k = none := by
  intro f hp hk
  cases h.comes hp with
  | stay hpc hrcvd =>
      rcases map_of_usesEntry hC h hpc hk rfl with heq | hnone
      · exact heq.trans (hm.removing f hpc hk)
      · exact hnone
  | @gone f c bytes hpc hrcvd hdone =>
      -- an ended writer is not mapped, so the entry that was looked up is gone
      have hnone : e.map k = none := by
        rcases hm.delivering f c _ hpc hk with hsome | hnone
        · have halive := (hw.mapped k c hsome).2.2
          rw [hdone] at halive
          cases halive
        · exact hnone
      exact (h.map_eq_of_handling (Or.inr rfl) k).trans hnone

theorem MapSound.ended_step (hm : MapSound k e) (h : Trans side e a e') : ∀ c,
    (e'.conns c).id = k → (e'.conns c).writer.pastLoop = true →
      .shutdown ∈ (e'.conns c).got ∨ (e'.conns c).writeFailed = true := by
  intro c hid' hpast'
  have hold := hm.ended c
  cases h.connChange c with
  | accepted _ _ _ hc | dialled _ _ _ hc | registered _ _ hc =>
      rw [hc] at hpast'
      cases hpast'
  | own hv =>
      have hid := (Conn.step_frame hv).1.symm.trans hid'
      rcases Conn.step_pastLoop hv hpast' with ⟨hpast, hgot, hfail⟩ | hend
      · rw [hgot, hfail]
        exact hold hid hpast
      · exact hend
  | closed hrecv hno hc =>
      -- a running writer is mapped, and the map holds a sender of its queue
      rw [hc] at hid'
      have hmap := hm.mapped c hid' (by rw [hrecv]; rfl)
      simp only [noSender, Bool.and_eq_true, decide_eq_true_eq] at hno
      exact absurd (hid' ▸ hmap) hno.1
  | removed hshut hmap hc =>
      rw [hc] at hid' ⊢
      exact hold hid' (by rw [hshut]; rfl)
  | same hc | put _ hc | sent _ _ hc | dropped _ _ hc | finished _ hc =>
      rw [hc] at hid' hpast' ⊢
      exact hold hid' hpast'

theorem MapSound.step (hw : e.Wf side) (hm : MapSound k e) (hC : InsertFresh k e a)
    (h : Trans side e a e') : MapSound k e' where
  mapped := hm.mapped_step hC h
  delivering := hm.delivering_step hC h
  removing := hm.removing_step hw hC h
  ended := hm.ended_step h

/-- A writer that left its loop without a failed write has got a `Shutdown`. -/
theorem MapSound.shutdown_of_pastLoop (hm : MapSound k e) {c : Nat}
    (hid : (e.conns c).id = k) (hok : (e.conns c).writeFailed = false)
    (hpast : (e.conns c).writer.pastLoop = true) : .shutdown ∈ (e.conns c).got := by
  rcases hm.ended c hid hpast with hs | hf
  · exact hs
  · rw [hok] at hf
    cases hf

/-- What ownership comes to for one connection: until it gets a `Shutdown` or
a write fails, its writer runs and the map entry is its own. -/
theorem MapSound.entry (hm : MapSound k e) {c : Nat}
    (hstart : (e.conns c).writer ≠ .unspawned) (hid : (e.conns c).id = k)
    (hgot : .shutdown ∉ (e.conns c).got) (hok : (e.conns c).writeFailed = false) :
    e.map k = some c ∧ (e.conns c).writer.alive = true ∧
      (e.conns c).writer.pastLoop = false := by
  have hpast : (e.conns c).writer.pastLoop = false := by
    cases hp : (e.conns c).writer.pastLoop with
    | false => rfl
    | true => exact absurd (hm.shutdown_of_pastLoop hid hok hp) hgot
  have halive : (e.conns c).writer.alive = true := by
    cases hc : (e.conns c).writer with
    | unspawned => exact absurd hc hstart
    | done => rw [hc] at hpast; cases hpast
    | _ => rfl
  exact ⟨hm.mapped c hid halive, halive, hpast⟩

/-! ## Conn ids that are used once -/

/-- At most one connection was ever given conn id `k`. -/
def UsedOnce (k : ConnId) (e : Endpoint) : Prop :=
  ∀ c d, c < e.numConns → d < e.numConns → (e.conns c).id = k → (e.conns d).id = k → c = d

theorem UsedOnce.of_step (h : Trans side e a e') (hu : UsedOnce k e') :
    UsedOnce k e := by
  intro c d hc hd hck hdk
  obtain ⟨hc', hcid⟩ := h.id_eq hc
  obtain ⟨hd', hdid⟩ := h.id_eq hd
  exact hu c d hc' hd' (hcid.trans hck) (hdid.trans hdk)

/-- An id that is used once is never registered over an older entry. -/
theorem UsedOnce.insertFresh (hw : e.Wf side) (h : Trans side e a e')
    (hu : UsedOnce k e') : InsertFresh k e a := by
  cases h with
  | @register c hacc =>
      intro c' hacc' hck
      obtain rfl : c = c' := by simpa using hacc.symm.trans hacc'
      obtain ⟨hlt, hun⟩ := hw.opening c (Or.inr hacc)
      have hstep : Trans side e .register _ := .register hacc
      -- the connection is the only one with the id, and has not started
      have hself : ∀ d, d < e.numConns → (e.conns d).id = k →
          (e.conns d).writer = .unspawned := fun d hd hdk =>
        hu.of_step hstep d c hd hlt hdk hck ▸ hun
      constructor
      · cases hk : e.map k with
        | none => rfl
        | some d =>
            obtain ⟨hd, hdk, halive⟩ := hw.mapped k d hk
            rw [hself d hd hdk] at halive
            cases halive
      · rintro ⟨f, point⟩ hpc hpk
        cases point with
        | start | dialing | sendClose => rfl
        | deliver d m =>
            obtain ⟨hd, hdk, hstart, _⟩ := hw.deliver f d m hpc
            exact absurd (hself d hd (hdk.trans hpk)) hstart
        | writerGone =>
            obtain ⟨d, hd, hdk, hdone⟩ := hw.writerGone f hpc
            cases hdone.symm.trans (hself d hd (hdk.trans hpk))
  | @dialOk f hpc =>
      intro f' hpc' hfk
      obtain rfl : f = f' := by simpa using hpc.symm.trans hpc'
      have hstep : Trans side e .dialOk _ := .dialOk hpc
      cases hk : e.map k with
      | none => rfl
      | some d =>
          obtain ⟨hd, hdk, _⟩ := hw.mapped k d hk
          obtain ⟨hd', hdid⟩ := hstep.id_eq hd
          have heq : d = e.numConns :=
            hu d e.numConns hd' (by simp) (hdid.trans hdk) (by simpa using hfk)
          exact absurd heq (Nat.ne_of_lt hd)
  | wait hsends => cases hsends <;> trivial
  | _ => trivial

/-! ## The gate -/

/-- A dial that succeeds finds its conn id unmapped. -/
def dialFresh (e : Endpoint) : Act → Bool
  | .dialOk =>
      match e.loop.pc with
      | .handling ⟨f, .dialing⟩ => (e.map f.connId).isNone
      | _ => true
  | _ => true

/-- At the gate the acceptor inserts nothing, so fresh dials are enough. -/
theorem insertFresh_of_dialFresh (hw : e.Wf .connect) (h : Trans .connect e a e')
    (hC : dialFresh e a = true) : InsertFresh k e a := by
  cases h with
  | @register c hacc => exact absurd hacc (hw.not_registering c)
  | @dialOk f hpc =>
      intro f' hpc' hfk
      simp only [dialFresh, hpc', Option.isNone_iff_eq_none] at hC
      exact hfk ▸ hC
  | wait hsends => cases hsends <;> trivial
  | _ => trivial

/-- Connection `c` was the last to be registered under `k`. -/
def LastUnder (e : Endpoint) (k : ConnId) (c : Nat) : Prop :=
  c < e.numConns ∧ (e.conns c).id = k ∧ ∀ d, c < d → d < e.numConns → (e.conns d).id ≠ k

/-- Until its writer gets a `Shutdown` or one of its writes fails, the last
connection registered under an id has the entry of that id, and its writer
runs and stays in its loop. -/
def EntriesOwned (e : Endpoint) : Prop :=
  ∀ k c, LastUnder e k c → .shutdown ∉ (e.conns c).got → (e.conns c).writeFailed = false →
    e.map k = some c ∧ (e.conns c).writer.alive = true ∧
      (e.conns c).writer.pastLoop = false

/-- In every run of the gate whose successful dials find their conn id
unmapped, no writer and no error path takes an entry that is not its own. -/
theorem entriesOwned_of_dialFresh {e : Endpoint}
    (h : Reaches (step .connect) (fun e a => dialFresh e a = true) (init .connect) e) :
    EntriesOwned e := by
  intro k c hlast hgot hok
  have hinv : e.Wf .connect ∧ MapSound k e := by
    apply h.invariant
    · exact ⟨wf_init _, mapSound_init _ k⟩
    · intro u a v hC hs hinv
      have htr := trans_of_step hs
      exact ⟨hinv.1.step htr,
        hinv.2.step hinv.1 (insertFresh_of_dialFresh hinv.1 htr hC) htr⟩
  obtain ⟨hw, hm⟩ := hinv
  exact hm.entry ((hw.gate rfl).2 c hlast.1) hlast.2.1 hgot hok

/-- The gate dials for an OPEN. -/
def openRun (k : ConnId) : List Act := [.recv (.tcpOpen k), .dispatch, .dialOk]

/-- A CLOSE ends the writer of the first connection, which takes its entry out. -/
def closeRun (k : ConnId) : List Act :=
  [.recv (.tcpClose k), .dispatch, .deliver, .conn 0 .pop, .conn 0 .shutdown, .remove 0]

/-- A conn id that comes round belongs to the connection dialled for it last. -/
theorem entriesOwned_after_dial :
    ∃ e, Reaches (step .connect) (fun e a => dialFresh e a = true) (init .connect) e ∧
      (e.conns 0).writer = .done ∧ (e.conns 0).id = 0 ∧ (e.conns 1).id = 0 ∧
      e.map 0 = some 1 ∧ EntriesOwned e := by
  have hrun : (run (guarded (step .connect) fun e a => dialFresh e a = true) (init .connect)
      (.loop .relayUp :: openRun 0 ++ closeRun 0 ++ openRun 0)).any (fun e =>
        e.numConns = 2 ∧ (e.conns 0).writer = .done ∧ (e.conns 0).id = 0 ∧
          (e.conns 1).id = 0 ∧ (e.conns 1).got = [] ∧
          (e.conns 1).writeFailed = false) = true := by
    decide
  obtain ⟨e, h, hp⟩ := exists_of_run_any hrun
  simp only [decide_eq_true_eq] at hp
  obtain ⟨hnum, hdone, hid₀, hid₁, hgot, hok⟩ := hp
  have howned := entriesOwned_of_dialFresh h
  have hlast : LastUnder e 0 1 := ⟨by omega, hid₁, fun d _ _ => by omega⟩
  exact ⟨e, h, hdone, hid₀, hid₁, (howned 0 1 hlast (by simp [hgot]) hok).1, howned⟩

/-- A second OPEN for a mapped conn id: the insertion closes the channel of the
first connection, and the end of that connection's writer removes the entry of
the second, which nobody shut down. -/
theorem not_entriesOwned_of_reopen :
    ∃ e, Reaches (step .connect) Free (init .connect) e ∧ ¬ EntriesOwned e := by
  have hrun : (run (guarded (step .connect) Free) (init .connect)
      (.loop .relayUp :: openRun 0 ++ openRun 0 ++
        [.chanClosed 0, .conn 0 .shutdown, .remove 0])).any (fun e =>
          e.numConns = 2 ∧ (e.conns 1).id = 0 ∧ (e.conns 1).got = [] ∧
            (e.conns 1).writeFailed = false ∧ e.map 0 = none) = true := by
    decide
  obtain ⟨e, h, hp⟩ := exists_of_run_any hrun
  simp only [decide_eq_true_eq] at hp
  obtain ⟨hnum, hid, hgot, hok, hmap⟩ := hp
  refine ⟨e, h, fun howned => ?_⟩
  have hlast : LastUnder e 0 1 := ⟨by omega, hid, fun d _ _ => by omega⟩
  have hentry := (howned 0 1 hlast (by simp [hgot]) hok).1
  rw [hmap] at hentry
  cases hentry

end Endpoint

end UsbWs
