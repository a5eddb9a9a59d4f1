import UsbWs.Grammar

/-!
# What becomes of the frames an endpoint receives

A frame the websocket brings asks something of one writer (`Frame.msg`), and
`handle_incoming` moves that message from its hand to the writer's queue, or
drops it: because the conn id is not mapped, or because the writer is gone.
`Moves` says what each step does to the messages of one conn id.

So what was ever put on a writer's queue is, with the message in hand, a
sublist of what the received frames ask for (`Received`). It is all of it,
and in order, as long as the connection was registered before its first
frame was looked at and its writer runs (`Routed`). And a writer that ends
without a failed write has taken a `Shutdown`, after which a peer that keeps
to the grammar of half-close sends nothing: then `handle_incoming` never
finds a writer gone at all.
-/

namespace UsbWs

open Runs

namespace Endpoint

variable {side : Side} {k : ConnId} {e e' : Endpoint} {a : Act}

/-- The message for conn id `k` that `handle_incoming` has in hand. -/
def inHand (k : ConnId) (e : Endpoint) : List WrMsg :=
  match e.loop.pc with
  | .handling ⟨f, .start⟩ => msgsFor k [f]
  | .handling ⟨f, .deliver _ m⟩ => if f.connId = k then [m] else []
  | _ => []

theorem inHand_nil (h : ∀ p, e.loop.pc ≠ .handling p) : inHand k e = [] := by
  cases hpc : e.loop.pc with
  | handling p => exact absurd hpc (h p)
  | _ => simp [inHand, hpc]

theorem inHand_start {f : Frame} (h : e.loop.pc = .handling ⟨f, .start⟩) :
    inHand k e = if f.connId = k then f.msg.toList else [] := by
  simp only [inHand, h, msgsFor_singleton]

theorem inHand_deliver {f : Frame} {c : Nat} {m : WrMsg}
    (h : e.loop.pc = .handling ⟨f, .deliver c m⟩) :
    inHand k e = if f.connId = k then [m] else [] := by
  simp only [inHand, h]

theorem inHand_closes {p : Handling} (h : e.loop.pc = .handling p)
    (hp : p.point.closes = true) : inHand k e = [] := by
  obtain ⟨f, point⟩ := p
  cases point with
  | start | deliver c m => cases hp
  | _ => simp [inHand, h]

/-- Only a delivery puts a message on a writer's queue. -/
theorem Trans.puts_eq (h : Trans side e a e') (ha : a ≠ .deliver) {c : Nat}
    (hlt : c < e.numConns) : (e'.conns c).puts = (e.conns c).puts := by
  cases h.connChange c with
  | accepted hnew | dialled hnew => exact absurd hnew (Nat.ne_of_lt hlt)
  | put => exact absurd rfl ha
  | own hv => exact (Conn.step_frame hv).2.2.2.2.1
  | registered _ _ hc => rw [hc, Conn.spawn_puts]
  | same hc | sent _ _ hc | dropped _ _ hc | finished _ hc | closed _ _ hc | removed _ _ hc =>
      simp [hc, Conn.puts]

/-- What a step does to the messages for conn id `k`. -/
inductive Moves (k : ConnId) (e e' : Endpoint) : Act → Prop where
  | same {a : Act} (hrcvd : e'.rcvd = e.rcvd) (hin : inHand k e' = inHand k e)
      (hputs : ∀ c, c < e.numConns → (e.conns c).id = k →
        (e'.conns c).puts = (e.conns c).puts) : Moves k e e' a
  | recv {f : Frame} (hrcvd : e'.rcvd = e.rcvd ++ [f]) (hin : inHand k e = [])
      (hin' : inHand k e' = msgsFor k [f])
      (hputs : ∀ c, (e'.conns c).puts = (e.conns c).puts) : Moves k e e' (.recv f)
  | unmapped {f : Frame} {m : WrMsg} (hpc : e.loop.pc = .handling ⟨f, .start⟩)
      (hk : f.connId = k) (hm : f.msg = some m) (hmap : e.map k = none)
      (hrcvd : e'.rcvd = e.rcvd) (hin : inHand k e = [m]) (hin' : inHand k e' = [])
      (hputs : ∀ c, (e'.conns c).puts = (e.conns c).puts) : Moves k e e' .dispatch
  | gone {f : Frame} {c : Nat} {m : WrMsg} (hpc : e.loop.pc = .handling ⟨f, .deliver c m⟩)
      (hk : f.connId = k) (hdone : (e.conns c).writer = .done)
      (hrcvd : e'.rcvd = e.rcvd) (hin : inHand k e = [m]) (hin' : inHand k e' = [])
      (hputs : ∀ c, (e'.conns c).puts = (e.conns c).puts) : Moves k e e' .deliver
  | put {f : Frame} {c : Nat} {m : WrMsg} (hpc : e.loop.pc = .handling ⟨f, .deliver c m⟩)
      (hk : f.connId = k) (hdone : (e.conns c).writer ≠ .done)
      (hrcvd : e'.rcvd = e.rcvd) (hin : inHand k e = [m]) (hin' : inHand k e' = [])
      (hputs : ∀ d, (e'.conns d).puts =
        if d = c then (e.conns c).puts ++ [m] else (e.conns d).puts) : Moves k e e' .deliver

theorem Trans.moves (hw : e.Wf side) (h : Trans side e a e') : Moves k e e' a := by
  have hputs : a ≠ .deliver → ∀ c, c < e.numConns → (e.conns c).id = k →
      (e'.conns c).puts = (e.conns c).puts := fun ha _ hlt _ => h.puts_eq ha hlt
  cases h with
  | loop hev hl =>
      have hf := Loop.event_frame hl
      exact .same rfl ((inHand_nil hf.2.1).trans (inHand_nil hf.1).symm) fun _ _ _ => rfl
  | @recv f hpc =>
      exact .recv rfl (inHand_nil fun p hp => by rw [hpc] at hp; cases hp) rfl fun _ => rfl
  | @dispatch f hpc =>
      have hin := inHand_start (k := k) hpc
      rcases dispatchPc_cases side e.map f with
        ⟨hd, hnone⟩ | ⟨hd, _, hf⟩ | ⟨c, m, hd, hmap, hm⟩ <;> rw [hd]
      · by_cases hk : f.connId = k
        · rw [if_pos hk] at hin
          cases hm : f.msg with
          | none => exact .same rfl (by rw [hin, hm]; rfl) fun _ _ _ => rfl
          | some m =>
              have hmap : e.map k = none := by
                rcases hnone with hnone | hnone
                · rw [hm] at hnone
                  cases hnone
                · exact hk ▸ hnone
              exact .unmapped hpc hk hm hmap rfl (by rw [hin, hm]; rfl) rfl fun _ => rfl
        · exact .same rfl (by rw [hin, if_neg hk]; rfl) fun _ _ _ => rfl
      · refine .same rfl ?_ fun _ _ _ => rfl
        rw [hin, hf]
        exact (ite_self _).symm
      · refine .same rfl ?_ fun _ _ _ => rfl
        rw [hin, hm]
        rfl
  | dialOk hpc => exact .same rfl (inHand_closes hpc rfl).symm (hputs (by simp))
  | @deliver f c m hpc hdone hroom =>
      have hin := inHand_deliver (k := k) hpc
      by_cases hk : f.connId = k
      · refine .put hpc hk hdone rfl (by rw [hin, if_pos hk]) rfl fun d => ?_
        simp only [goto_conns, setConn_conns]
        split
        · exact Conn.put_puts _ _
        · rfl
      · refine .same rfl (by rw [hin, if_neg hk]; rfl) fun d _ hdk => ?_
        have hne : d ≠ c := by
          rintro rfl
          exact hk ((hw.deliver f d m hpc).2.1.symm.trans hdk)
        simp [hne]
  | @deliverGone f c bytes hpc hdone =>
      have hin := inHand_deliver (k := k) hpc
      by_cases hk : f.connId = k
      · exact .gone hpc hk hdone rfl (by rw [hin, if_pos hk]) rfl fun _ => rfl
      · exact .same rfl (by rw [hin, if_neg hk]; rfl) fun _ _ _ => rfl
  | @shutdownGone f c hpc hdone =>
      have hin := inHand_deliver (k := k) hpc
      by_cases hk : f.connId = k
      · exact .gone hpc hk hdone rfl (by rw [hin, if_pos hk]) rfl fun _ => rfl
      · exact .same rfl (by rw [hin, if_neg hk]; rfl) fun _ _ _ => rfl
  | dialErr hpc | removeGone hpc | sendClose hpc =>
      exact .same rfl (inHand_closes hpc rfl).symm fun _ _ _ => rfl
  | wait => exact .same rfl rfl fun _ _ _ => rfl
  | accept | acceptFull | sendOpen | sendOpenGone | register | conn | sendData | sendDataGone
  | sendEnd | sendEndGone | chanClosed | remove =>
      exact .same rfl rfl (hputs (by simp))

/-! ## Nothing but what was received -/

/-- What was put on the queues for `k`, and what is in hand, was asked for by
received frames, in that order. -/
def Received (k : ConnId) (e : Endpoint) : Prop :=
  ∀ c, c < e.numConns → (e.conns c).id = k →
    ((e.conns c).puts ++ inHand k e).Sublist (msgsFor k e.rcvd)

theorem inHand_sublist (hw : e.Wf side) : (inHand k e).Sublist (msgsFor k e.rcvd) := by
  cases hpc : e.loop.pc with
  | handling p =>
      obtain ⟨r, hr⟩ := hw.handling p hpc
      have hlast : (msgsFor k [p.frame]).Sublist (msgsFor k e.rcvd) := by
        rw [hr, msgsFor_append]
        exact List.sublist_append_right _ _
      obtain ⟨f, point⟩ := p
      cases point with
      | start =>
          rw [inHand_start hpc, ← msgsFor_singleton]
          exact hlast
      | deliver c m =>
          rw [msgsFor_singleton, (hw.deliver f c m hpc).2.2.2] at hlast
          rw [inHand_deliver hpc]
          exact hlast
      | dialing | writerGone | sendClose =>
          rw [inHand_closes hpc rfl]
          exact List.nil_sublist _
  | _ => simp [inHand, hpc]

/-- A connection that is new has no messages yet. -/
theorem Makes.puts_nil {e e' : Endpoint} (h : Makes e e') :
    (e'.conns e.numConns).puts = [] := by
  cases h with
  | accepted hacc hacc' hpc hfree hnew => simp [hnew]
  | dialled hpc hpc' hnew => simp [hnew]

theorem Received.step (hw : e.Wf side) (hr : Received k e) (h : Trans side e a e') :
    Received k e' := by
  intro c hlt' hck
  by_cases hlt : c < e.numConns
  · have hck₀ : (e.conns c).id = k := (h.id_eq hlt).2 ▸ hck
    have hold := hr c hlt hck₀
    cases h.moves (k := k) hw with
    | same hrcvd hin hputs => rwa [hrcvd, hin, hputs c hlt hck₀]
    | recv hrcvd hin hin' hputs =>
        rw [hrcvd, hin', hputs, msgsFor_append]
        rw [hin, List.append_nil] at hold
        exact hold.append_right _
    | unmapped hpc hk hm hmap hrcvd hin hin' hputs =>
        rw [hrcvd, hin', hputs, List.append_nil]
        exact (List.sublist_append_left _ _).trans hold
    | gone hpc hk hdone hrcvd hin hin' hputs =>
        rw [hrcvd, hin', hputs, List.append_nil]
        exact (List.sublist_append_left _ _).trans hold
    | put hpc hk hdone hrcvd hin hin' hputs =>
        rw [hrcvd, hin', hputs, List.append_nil]
        split
        · next heq => exact heq ▸ hin ▸ hold
        · exact (List.sublist_append_left _ _).trans hold
  · obtain ⟨rfl, _, _, hmakes⟩ := h.makes hlt' hlt
    rw [hmakes.puts_nil, List.nil_append]
    exact inHand_sublist (hw.step h)

/-- No write of a connection with id `k` has failed. -/
def NoWriteFailed (k : ConnId) (e : Endpoint) : Prop :=
  ∀ c, c < e.numConns → (e.conns c).id = k → (e.conns c).writeFailed = false

theorem NoWriteFailed.of_step (h : Trans side e a e') (hf : NoWriteFailed k e') :
    NoWriteFailed k e := by
  intro c hlt hck
  obtain ⟨hlt', hid'⟩ := h.id_eq hlt
  have hok := hf c hlt' (hid'.trans hck)
  cases h.connChange c with
  | accepted hnew | dialled hnew => exact absurd hnew (Nat.ne_of_lt hlt)
  | own hv =>
      by_contra hfail
      rw [(Conn.step_frame hv).2.2.2.2.2 (by simpa using hfail)] at hok
      cases hok
  | same hc | registered _ _ hc | put _ hc | sent _ _ hc | dropped _ _ hc | finished _ hc
  | closed _ _ hc | removed _ _ hc => simpa [hc] using hok

/-- Where no write fails and the peer's CLOSE comes last, `handle_incoming`
finds no writer gone. -/
theorem Received.not_dataGone (hw : e.Wf side) (hm : MapSound k e) (hr : Received k e)
    (hf : NoWriteFailed k e) (hlast : ClosesLast k e.rcvd) (a : Act) :
    dataGone k e a = false := by
  rw [Bool.eq_false_iff]
  intro hgone
  simp only [dataGone] at hgone
  split at hgone
  · split at hgone
    · next f c bytes hpc =>
        simp only [Bool.and_eq_true, decide_eq_true_eq] at hgone
        obtain ⟨hk, hdone⟩ := hgone
        obtain ⟨hlt, hid, _⟩ := hw.deliver f c _ hpc
        have hck := hid.trans hk
        have hgot := hm.shutdown_of_pastLoop hck (hf c hlt hck) (by rw [hdone]; rfl)
        have hsub := hr c hlt hck
        rw [inHand_deliver hpc, if_pos hk] at hsub
        have hpair := (pairwise_msgsFor hlast).sublist hsub
        rw [List.pairwise_append] at hpair
        exact hpair.2.2 _ (List.mem_append_left _ hgot) _ (List.mem_singleton_self _) rfl
    · cases hgone
  · cases hgone

/-! ## All that was received -/

/-- No DATA or CLOSE frame is looked at while the acceptor still has to register
the connection with its id. -/
def registeredFirst (e : Endpoint) : Act → Bool
  | .dispatch =>
      match e.loop.pc, e.acceptor with
      | .handling ⟨f, .start⟩, .opening c | .handling ⟨f, .start⟩, .registering c =>
          !((e.conns c).id = f.connId && f.msg.isSome)
      | _, _ => true
  | _ => true

/-- All messages for connection `n`, with id `k`, are on its queue or in hand,
in order; only after its writer ended were some dropped. -/
def Routed (k : ConnId) (n : Nat) (e : Endpoint) : Prop :=
  (e.conns n).puts ++ inHand k e = msgsFor k e.rcvd ∨
    (e.conns n).writer = .done ∧ ∃ m rest, msgsFor k e.rcvd = (e.conns n).puts ++ m :: rest

theorem Routed.prefix_msgsFor {n : Nat} (h : Routed k n e) :
    (e.conns n).puts <+: msgsFor k e.rcvd := by
  rcases h with heq | ⟨_, m, rest, heq⟩
  · exact ⟨_, heq⟩
  · exact ⟨_, heq.symm⟩

theorem Routed.step_old (hw : e.Wf side) (hm : MapSound k e) {n : Nat} (hr : Routed k n e)
    (hC : registeredFirst e a = true) (h : Trans side e a e') (hu : UsedOnce k e)
    (hn : n < e.numConns) (hid : (e.conns n).id = k) : Routed k n e' := by
  have hdone' : (e.conns n).writer = .done → (e'.conns n).writer = .done := fun hdone =>
    (hw.done_step h hn hdone).2.2
  cases h.moves (k := k) hw with
  | same hrcvd hin hputs =>
      rw [Routed, hrcvd, hin, hputs n hn hid]
      exact hr.imp_right (And.imp_left hdone')
  | @recv f hrcvd hin hin' hputs =>
      rw [Routed, hrcvd, hin', hputs, msgsFor_append]
      rw [Routed, hin, List.append_nil] at hr
      rcases hr with heq | ⟨hdone, m, rest, heq⟩
      · exact Or.inl (by rw [heq])
      · exact Or.inr ⟨hdone' hdone, m, rest ++ msgsFor k [f], by simp [heq]⟩
  | @unmapped f m hpc hk hmsg hmap hrcvd hin hin' hputs =>
      -- an id that is not mapped has no running writer
      have hdone : (e.conns n).writer = .done := by
        have hdead : (e.conns n).writer.alive ≠ true := fun halive => by
          rw [hm.mapped n hid halive] at hmap
          cases hmap
        cases hwr : (e.conns n).writer with
        | done => rfl
        | unspawned =>
            rcases hw.waiting n hn hwr with hacc | hacc | hexit
            · simp [registeredFirst, hpc, hacc, hk, hid, hmsg] at hC
            · simp [registeredFirst, hpc, hacc, hk, hid, hmsg] at hC
            · rw [hpc] at hexit
              cases hexit
        | _ => simp [hwr, Writer.alive] at hdead
      rw [Routed, hrcvd, hin', hputs]
      rcases hr with heq | ⟨_, hmore⟩
      · exact Or.inr ⟨hdone' hdone, m, [], by rw [← heq, hin]⟩
      · exact Or.inr ⟨hdone' hdone, hmore⟩
  | @gone f c m hpc hk hdone hrcvd hin hin' hputs =>
      obtain ⟨hlt, hcid, _⟩ := hw.deliver f c m hpc
      obtain rfl : c = n := hu c n hlt hn (hcid.trans hk) hid
      rw [Routed, hrcvd, hin', hputs]
      rcases hr with heq | ⟨_, hmore⟩
      · exact Or.inr ⟨hdone' hdone, m, [], by rw [← heq, hin]⟩
      · exact Or.inr ⟨hdone' hdone, hmore⟩
  | @put f c m hpc hk hdone hrcvd hin hin' hputs =>
      obtain ⟨hlt, hcid, _⟩ := hw.deliver f c m hpc
      obtain rfl : c = n := hu c n hlt hn (hcid.trans hk) hid
      rw [Routed, hrcvd, hin', hputs, if_pos rfl]
      rcases hr with heq | ⟨hd, _⟩
      · exact Or.inl (by rw [← heq, hin, List.append_nil])
      · exact absurd hd hdone

theorem Routed.step_new (h : Trans side e a e') (hnone : msgsFor k e'.rcvd = [])
    (hw : e'.Wf side) {n : Nat} (hn : n < e'.numConns) (hge : ¬ n < e.numConns) :
    Routed k n e' := by
  obtain ⟨rfl, _, _, hmakes⟩ := h.makes hn hge
  have hin : inHand k e' = [] := List.sublist_nil.1 (hnone ▸ inHand_sublist hw)
  exact Or.inl (by rw [hmakes.puts_nil, hin, hnone]; rfl)

/-- Where no write fails and the peer's CLOSE comes last, nothing is dropped. -/
theorem Routed.all (hm : MapSound k e) {n : Nat} (hr : Routed k n e)
    (hlast : ClosesLast k e.rcvd) (hid : (e.conns n).id = k)
    (hok : (e.conns n).writeFailed = false) :
    (e.conns n).puts ++ inHand k e = msgsFor k e.rcvd := by
  rcases hr with heq | ⟨hdone, m, rest, heq⟩
  · exact heq
  · have hgot := hm.shutdown_of_pastLoop hid hok (by rw [hdone]; rfl)
    have hpair := pairwise_msgsFor hlast
    rw [heq, List.pairwise_append] at hpair
    exact absurd rfl (hpair.2.2 _ (List.mem_append_left _ hgot) m (by simp))

end Endpoint

end UsbWs
