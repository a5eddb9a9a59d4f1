import UsbWs.Return
import UsbWs.Since

/-!
# The turns of a conn id

A turn of `k` begins where nothing of `k` is left (`Quiet`) and goes on while
home uses the id once. Since its beginning the id is used once, so what holds
of such an id holds here: `Carries` is that, and every step of the turn keeps
it (`Turn.carries`). In a turn what one socket is written is what the other
one was read (`Turn.feeds`, `Turn.feeds_back`).
-/

namespace UsbWs

open Runs

namespace Endpoint

variable {side : Side} {k : ConnId} {e e' : Endpoint} {a : Act} {m : Mark}

/-! ## An id without connections and frames -/

theorem Unused.framesFor_nil (hu : Unused k e) : framesFor k e.enq = [] :=
  KeyedLog.on_eq_nil.2 hu.enq

theorem Unused.opensFirst (hu : Unused k e) : OpensFirst k e.enq :=
  List.pairwise_of_forall_mem_list fun f hf _ _ _ _ => hu.enq f hf

theorem Unused.closesLast (hu : Unused k e) : ClosesLast k e.enq :=
  List.pairwise_of_forall_mem_list fun _ _ g hg _ _ => hu.enq g hg

theorem Unused.mapSound (hw : e.Wf side) (hu : Unused k e) : MapSound k e := by
  -- a task has been started only for a connection that exists
  have hnone : ∀ c, (e.conns c).id = k → (e.conns c).writer = .unspawned := by
    intro c hck
    by_cases hc : c < e.numConns
    · exact absurd hck (hu.conns c hc)
    · exact (hw.beyond c (Nat.not_lt.1 hc)).2
  constructor
  · intro c hck halive
    rw [hnone c hck] at halive
    cases halive
  · exact fun f c m hpc hfk => absurd hfk (hu.hand _ hpc)
  · exact fun f hpc hfk => absurd hfk (hu.hand _ hpc)
  · intro c hck hpast
    rw [hnone c hck] at hpast
    cases hpast

theorem Unused.disciplined (hw : e.Wf side) (ht : Traced side e) (hu : Unused k e) :
    Disciplined side k e where
  wf := hw
  traced := ht
  apart :=
    { quiet := fun c hc hck => absurd hck (hu.conns c hc)
      first := fun _ _ _ _ => hu.framesFor_nil
      closed := fun hclose => absurd rfl (hu.enq _ hclose)
      closedSession := fun hclose => absurd rfl (hu.enq _ hclose)
      closesLast := hu.closesLast }
  opensFirst := hu.opensFirst
  sent := fun n hn hnk => absurd hnk (hu.conns n hn)

theorem Unused.received (hu : Unused k e) : Received k e :=
  fun c hc hck => absurd hck (hu.conns c hc)

theorem Unused.answers (hu : Unused k e) : Answers k e where
  unanswered := fun _ _ _ => hu.framesFor_nil
  sent := fun j hj hjk => absurd hjk (hu.conns j hj)

theorem Unused.openedOnce (hu : Unused k e) : OpenedOnce k e where
  fresh := fun _ _ _ c hc => hu.conns c hc
  used := fun c _ hc _ hck => absurd hck (hu.conns c hc)

/-- From number `n` on, one connection at most has id `k`. -/
def UsedOnceFrom (n : Nat) (k : ConnId) (e : Endpoint) : Prop :=
  ∀ c d, n ≤ c → n ≤ d → c < e.numConns → d < e.numConns →
    (e.conns c).id = k → (e.conns d).id = k → c = d

theorem UsedOnceFrom.of_step {n : Nat} (h : Trans side e a e') (hu : UsedOnceFrom n k e') :
    UsedOnceFrom n k e := by
  intro c d hc hd hlt hlt' hck hdk
  obtain ⟨hc', hcid⟩ := h.id_eq hlt
  obtain ⟨hd', hdid⟩ := h.id_eq hlt'
  exact hu c d hc hd hc' hd' (hcid.trans hck) (hdid.trans hdk)

/-- Since the mark only the connections after it can have id `k`. -/
theorem since_id_eq {c : Nat} (hck : ((e.since k m).conns c).id = k) :
    m.conns ≤ c ∧ (e.conns c).id = k := by
  have hge : m.conns ≤ c := Nat.not_lt.1 fun hlt => since_id_ne hlt hck
  exact ⟨hge, since_conns_of_ge hge ▸ hck⟩

theorem UsedOnceFrom.since (hu : UsedOnceFrom m.conns k e) : UsedOnce k (e.since k m) := by
  intro c d hc hd hck hdk
  obtain ⟨hcm, hck⟩ := since_id_eq hck
  obtain ⟨hdm, hdk⟩ := since_id_eq hdk
  exact hu c d hcm hdm hc hd hck hdk

/-- The DATA frames of an id come from a connection that has it. -/
def Silent (k : ConnId) (e : Endpoint) : Prop :=
  (∀ c, c < e.numConns → (e.conns c).id ≠ k) → payloadsFor k e.enq = []

theorem Silent.step (hw : e.Wf side) (hs : Silent k e) (h : Trans side e a e') :
    Silent k e' := by
  intro hnone'
  have hnone : ∀ c, c < e.numConns → (e.conns c).id ≠ k := fun c hc hck => by
    obtain ⟨hc', hid⟩ := h.id_eq hc
    exact hnone' c hc' (hid.trans hck)
  rcases h.payloads_cases (k := k) with heq | ⟨c, chunk, hr, hck, _⟩
  · exact heq.trans (hs hnone)
  · refine absurd hck (hnone c (Nat.not_le.1 fun hle => ?_))
    rw [(hw.beyond c hle).1] at hr
    cases hr

theorem registeredFirst_since (hp : Past k m e) (a : Act) :
    registeredFirst (e.since k m) a = registeredFirst e a := by
  cases a with
  | dispatch =>
      simp only [registeredFirst, since_pc, since_acceptor]
      split
      · next f c hpc hacc => rw [since_conns_eq (hp.after_or_ne fun hg => hg.opening hacc)]
      · next f c hpc hacc => rw [since_conns_eq (hp.after_or_ne fun hg => hg.registering hacc)]
      · rfl
  | _ => rfl

end Endpoint

namespace Tunnel

open Endpoint

variable {k : ConnId} {t t₀ t' : Tunnel} {s : Side} {a : Act} {e : Endpoint}
  {C : Tunnel → Side × Act → Prop}

/-! ## What holds of an id that home uses once -/

structure Carries (k : ConnId) (t : Tunnel) : Prop where
  upstream : Upstream k t
  answers : Answers k t.gate
  silent : Silent k t.gate
  orderly : NoWriteFailed k t → Orderly k t

theorem carries_of_unused (hw : ∀ s, (t.ends s).Wf s) (ht : ∀ s, Traced s (t.ends s))
    (hu : ∀ s, Unused k (t.ends s)) : Carries k t where
  upstream :=
    { wf := hw
      traced := ht
      opensFirst := (hu .listen).opensFirst
      sent := fun n hn hnk => absurd hnk ((hu .listen).conns n hn)
      opened := (hu .connect).openedOnce
      mapped := fun s => (hu s).mapSound (hw s)
      routed := fun j hj hjk => absurd hjk ((hu .connect).conns j hj) }
  answers := (hu .connect).answers
  silent := fun _ => payloadsFor_of_framesFor_nil (hu .connect).framesFor_nil
  orderly := fun _ =>
    { disciplined := fun s => (hu s).disciplined (hw s) (ht s)
      received := fun s => (hu s).received }

theorem noWriteFailed_of_put (h : Trans s (t.ends s) a e) (hf : NoWriteFailed k (t.put s e)) :
    NoWriteFailed k t := by
  intro r
  have hfr := hf r
  rcases r.eq_or_eq_peer s with rfl | rfl
  · rw [put_ends_self] at hfr
    exact hfr.of_step h
  · rwa [put_ends_peer] at hfr

theorem Carries.side_step (hi : Carries k t)
    (hlink : ∀ s, (t.ends s).rcvd <+: (t.ends s.peer).enq) (h : Trans s (t.ends s) a e)
    (hu : UsedOnce k (t.put s e).home)
    (hlink' : ((t.put s e).ends .connect).rcvd <+: ((t.put s e).ends .listen).enq) :
    Carries k (t.put s e) := by
  have hup := hi.upstream.side_step h hu hlink'
  have hown := hup.ownId hu hlink'
  refine ⟨hup, ?_, ?_, fun hf => ?_⟩
  · cases s with
    | listen => exact hi.answers
    | connect =>
        exact hi.answers.step (hi.upstream.wf .connect) (hi.upstream.traced .connect)
          hi.upstream.opened h hup.opened ((hown .connect).2 rfl)
  · cases s with
    | listen => exact hi.silent
    | connect => exact hi.silent.step (hi.upstream.wf .connect) h
  · have hf₀ := noWriteFailed_of_put h hf
    have ho := hi.orderly hf₀
    exact ho.side_step hi.upstream (ho.closesLast_of_link hlink s) hf₀ h
      (by simpa using hown s)

/-! ## A turn -/

/-- How far both sides have come. -/
def marks (t : Tunnel) (s : Side) : Mark := (t.ends s).mark (t.ends s.peer).rcvd.length

def since (k : ConnId) (m : Side → Mark) (t : Tunnel) : Tunnel :=
  ⟨fun s => (t.ends s).since k (m s)⟩

theorem since_put (m : Side → Mark) :
    (t.put s e).since k m = (t.since k m).put s (e.since k (m s)) := by
  simp only [since, put, Tunnel.mk.injEq]
  funext r
  by_cases hr : r = s
  · subst hr
    simp
  · simp [hr]

/-- A run from a state in which nothing of `k` is left, in which home uses `k`
once. -/
structure Turn (C : Tunnel → Side × Act → Prop) (k : ConnId) (t₀ t : Tunnel) : Prop where
  start : Reaches step C init t₀
  quiet : Quiet k t₀
  free : ∀ c, t₀.home.acceptor = .opening c ∨ t₀.home.acceptor = .registering c →
    (t₀.home.conns c).id ≠ k
  run : Reaches step C t₀ t
  once : UsedOnceFrom t₀.home.numConns k t.home

theorem usedOnceFrom_of_step {n : Nat} {sa : Side × Act} (hs : t.step sa = some t')
    (hu : UsedOnceFrom n k t'.home) : UsedOnceFrom n k t.home := by
  obtain ⟨s, a⟩ := sa
  obtain ⟨e, htr, rfl, _⟩ := trans_of_step hs
  cases s with
  | listen => exact hu.of_step htr
  | connect => exact hu

/-- Where a turn begins the earlier connections with its id are over. -/
theorem Turn.over (hC : ∀ t sa, C t sa → oneSession t sa = true) (ht : Turn C k t₀ t)
    (s : Side) : Over k (t₀.ends s.peer).rcvd.length (t₀.ends s) := by
  have h₀ := ht.start.weaken hC
  have hw := ends_invariant (I := fun s e => e.Wf s) wf_init (fun hi htr => hi.step htr) h₀
  have hidle := ht.quiet.idle s
  have hsent : (t₀.ends s.peer).rcvd <+: (t₀.ends s).loop.sent := by
    have hpre := rcvd_prefix_sent h₀ s.peer
    rwa [Side.peer_peer] at hpre
  have hless : (t₀.ends s).loop.sent ++ (t₀.ends s).loop.pending =
    (t₀.ends s).loop.dequeued := lossless h₀ s
  refine ⟨fun c hc hck => ?_, fun h hpc => ?_, ?_, fun f hf => ?_⟩
  · obtain ⟨hrd, hwr⟩ := hidle.ended c hc hck
    cases s with
    | listen =>
        exact ⟨hrd, hwr, fun hacc => ht.free c (Or.inl hacc) hck,
          fun hacc => ht.free c (Or.inr hacc) hck⟩
    | connect => exact ⟨hrd, hwr, (hw .connect).not_opening c, (hw .connect).not_registering c⟩
  · exact hidle.held _ (by simp [held, handled, hpc])
  · rw [← hless, List.length_append]
    exact Nat.le_trans hsent.length_le (Nat.le_add_right _ _)
  · rw [enq, Loop.enqueued, ← hless, List.append_assoc,
      List.drop_append_of_le_length hsent.length_le, List.mem_append] at hf
    rcases hf with hfly | hheld
    · have hflying := ht.quiet.flying s.peer
      rw [Side.peer_peer] at hflying
      exact hflying f hfly
    · refine hidle.held f ?_
      simp only [held, List.mem_append] at hheld ⊢
      tauto

section Turn

variable (hC : ∀ t sa, C t sa → oneSession t sa = true)

include hC

theorem Turn.reaches (ht : Turn C k t₀ t) :
    Reaches step (fun t sa => oneSession t sa = true) init t :=
  (ht.start.trans ht.run).weaken hC

theorem Turn.wf (ht : Turn C k t₀ t) : ∀ s, (t.ends s).Wf s :=
  ends_invariant (I := fun s e => e.Wf s) wf_init (fun hi htr => hi.step htr) (ht.reaches hC)

theorem Turn.past (ht : Turn C k t₀ t) : ∀ s, Past k (t₀.marks s) (t.ends s) := by
  have hfirst : ∀ s, Past k (t₀.marks s) (t₀.ends s) := fun s => (ht.over hC s).past
  have hw₀ := ends_invariant (I := fun s e => e.Wf s) wf_init (fun hi htr => hi.step htr) ht.start
  have hall : ∀ s, (t.ends s).Wf s ∧ Past k (t₀.marks s) (t.ends s) := by
    refine ht.run.invariant (I := fun t => ∀ s, (t.ends s).Wf s ∧ Past k (t₀.marks s) (t.ends s))
      (fun s => ⟨hw₀ s, hfirst s⟩) ?_
    rintro t ⟨s, a⟩ t' _ hs hall
    obtain ⟨e, htr, rfl, _⟩ := trans_of_step hs
    exact forall_put (I := fun s e => e.Wf s ∧ Past k (t₀.marks s) e) hall
      ⟨(hall s).1.step htr, (hall s).2.step (hall s).1 htr⟩
  exact fun s => (hall s).2

/-- Since the beginning of a turn, too, a side has received what its peer has
enqueued. -/
theorem Turn.link (ht : Turn C k t₀ t) (s : Side) :
    ((t.since k t₀.marks).ends s).rcvd <+: ((t.since k t₀.marks).ends s.peer).enq := by
  have hlink := rcvd_prefix_enq (ht.reaches hC) s
  have hpast := ht.past hC
  simp only [since]
  rw [since_enq (hpast s.peer).sent,
    show (t₀.marks s.peer).sent = (t₀.marks s).rcvd by simp [marks, mark]]
  exact KeyedLog.recast_isPrefix hlink (hpast s).rcvd

theorem Turn.carries (ht : Turn C k t₀ t) : Carries k (t.since k t₀.marks) := by
  refine ht.run.invariant_of (I := fun t => Carries k (t.since k t₀.marks))
    (fun hs => usedOnceFrom_of_step hs) ?_ ?_ ht.once
  · intro _
    have hw₀ := ends_invariant (I := fun s e => e.Wf s ∧ Traced s e)
      (fun s => ⟨wf_init s, traced_init s⟩)
      (fun hi htr => ⟨hi.1.step htr, hi.2.step hi.1 htr⟩) ht.start
    exact carries_of_unused (fun s => (ht.over hC s).wf (hw₀ s).1)
      (fun s => (ht.over hC s).traced (hw₀ s).2) (fun s => (ht.over hC s).unused)
  · rintro u ⟨s, a⟩ v hreach hCu hs hv hi
    have hu : Turn C k t₀ u := { ht with run := hreach, once := usedOnceFrom_of_step hs hv }
    have hv' : Turn C k t₀ v := { ht with run := hreach.tail hCu hs, once := hv }
    have hlink' := hv'.link hC .connect
    have honce : UsedOnce k (v.since k t₀.marks).home := UsedOnceFrom.since hv
    obtain ⟨e, htr, rfl, _⟩ := trans_of_step hs
    rw [since_put] at hlink' honce ⊢
    exact hi.side_step (hu.link hC) (htr.since (hu.wf hC s) (hu.past hC s)) honce hlink'

end Turn

/-! ## What a turn carries -/

/-- Connection `c` of side `s` has id `k` in the turn from `t₀` to `t`. -/
structure InTurn (k : ConnId) (t₀ t : Tunnel) (s : Side) (c : Nat) : Prop where
  ge : (t₀.ends s).numConns ≤ c
  lt : c < (t.ends s).numConns
  id_eq : ((t.ends s).conns c).id = k

theorem InTurn.since_conn {c : Nat} (hc : InTurn k t₀ t s c) :
    ((t.since k t₀.marks).ends s).conns c = (t.ends s).conns c := since_conns_of_ge hc.ge

theorem InTurn.since_id {c : Nat} (hc : InTurn k t₀ t s c) :
    (((t.since k t₀.marks).ends s).conns c).id = k := hc.since_conn ▸ hc.id_eq

theorem inTurn_of_since {c : Nat} (hlt : c < (t.ends s).numConns)
    (hck : (((t.since k t₀.marks).ends s).conns c).id = k) : InTurn k t₀ t s c :=
  ⟨(since_id_eq hck).1, hlt, (since_id_eq hck).2⟩

section Turn

variable (hC : ∀ t sa, C t sa → oneSession t sa = true) (ht : Turn C k t₀ t) {n j : Nat}

include hC ht

/-- The gate dials once in a turn. -/
theorem Turn.gate_once {i : Nat} (hi : InTurn k t₀ t .connect i)
    (hj : InTurn k t₀ t .connect j) : i = j :=
  (ht.carries hC).upstream.opened.used i j hi.lt hj.lt hi.since_id hj.since_id

/-- The gate dials for a connection that home has accepted in the same turn. -/
theorem Turn.exists_home (hj : InTurn k t₀ t .connect j) : ∃ n, InTurn k t₀ t .listen n := by
  have htraced := (ht.carries hC).upstream.traced
  have hopened : Frame.tcpOpen k ∈ ((t.since k t₀.marks).ends .connect).rcvd := by
    have hknown := (htraced .connect).conn j hj.lt ((ht.wf hC .connect).not_opening j)
    rwa [hj.since_id] at hknown
  obtain ⟨n, hn, hnk, _⟩ := (htraced .listen).enq _ ((ht.link hC .connect).mem hopened)
  exact ⟨n, inTurn_of_since hn hnk⟩

end Turn

end Tunnel

namespace Tunnel

open Endpoint

variable {k : ConnId} {t t₀ t' : Tunnel} {s : Side} {a : Act} {e : Endpoint}
  {C : Tunnel → Side × Act → Prop}

section Turn

variable (ht : Turn C k t₀ t) {n j : Nat} (hn : InTurn k t₀ t .listen n)

include ht hn

omit hn in
/-- Where no frame is looked up too early, home routes what it receives in a
turn. -/
theorem Turn.routed (hC : ∀ t sa, C t sa → answersRegistered t sa = true) :
    ∀ n, n < (t.since k t₀.marks).home.numConns →
      ((t.since k t₀.marks).home.conns n).id = k → Routed k n (t.since k t₀.marks).home := by
  have hone : ∀ t sa, C t sa → oneSession t sa = true :=
    fun t sa h => oneSession_of_registered (hC t sa h)
  refine ht.run.invariant_of (I := fun t => ∀ n, n < (t.since k t₀.marks).home.numConns →
    ((t.since k t₀.marks).home.conns n).id = k → Routed k n (t.since k t₀.marks).home)
    (fun hs => usedOnceFrom_of_step hs) ?_ ?_ ht.once
  · intro _ n hn hnk
    exact absurd hnk ((ht.over hone .listen).unused.conns n hn)
  · rintro u ⟨s, a⟩ v hreach hCu hs hv hi
    have hu : Turn C k t₀ u := { ht with run := hreach, once := usedOnceFrom_of_step hs hv }
    have hcar := hu.carries hone
    have honce : UsedOnce k (v.since k t₀.marks).home := UsedOnceFrom.since hv
    obtain ⟨e, htr, rfl, _⟩ := trans_of_step hs
    rw [since_put] at honce ⊢
    cases s with
    | connect => exact hi
    | listen =>
        have hpast := hu.past hone .listen
        have hfirst : registeredFirst u.home a = true := by
          have hreg := hC _ _ hCu
          rw [answersRegistered, Bool.and_eq_true] at hreg
          simpa using hreg.2
        exact hcar.upstream.routed_step
          (fun f hf => known_of_link hcar.upstream.traced (hu.link hone) hf) hi
          ((registeredFirst_since hpast a).trans hfirst)
          (htr.since (hu.wf hone .listen) hpast) honce

end Turn

end Tunnel

end UsbWs
