import Mathlib.Data.List.Induction
import UsbWs.Lib.Runs

/-!
# A machine with an inbox

A machine acts by itself and, where it is ready, receives messages. An inbox
holds raw items, each of which decodes to a message or to nothing; the machine
takes them in order, and an item that is nothing changes nothing.

`Effect` is what can come of an inbox: what the machine did, the messages it
received among its own acts, and the state it got to. It depends on no more
than the messages of the inbox (`effect_iff`).
-/

namespace Inbox

open Runs

variable {σ α μ β : Type*}

structure Machine (σ α μ : Type*) where
  step : σ → α → Option σ
  /-- The act of receiving a message, and the acts that are one. -/
  recv : μ → α
  msg : α → Option μ
  msg_recv : ∀ m, msg (recv m) = some m
  eq_recv : ∀ {a m}, msg a = some m → a = recv m
  /-- Where the machine waits for a message. -/
  ready : σ → Bool
  ready_of_recv : ∀ {s m t}, step s (recv m) = some t → ready s = true

/-- The machine, what is left in its inbox, and what it did. -/
structure State (σ α β : Type*) where
  machine : σ
  inbox : List β
  log : List α

/-- The machine does something of its own, or takes the next item. -/
inductive Act (α : Type*) where
  | own (a : α)
  | take

variable (M : Machine σ α μ) (decode : β → Option μ)

def step (s : State σ α β) : Act α → Option (State σ α β)
  | .own a =>
      match M.msg a with
      | some _ => none
      | none => (M.step s.machine a).map fun t => { s with machine := t, log := s.log ++ [a] }
  | .take =>
      match s.inbox with
      | [] => none
      | b :: rest =>
          match decode b with
          | some m =>
              (M.step s.machine (M.recv m)).map fun t =>
                { machine := t, inbox := rest, log := s.log ++ [M.recv m] }
          | none => if M.ready s.machine then some { s with inbox := rest } else none

/-- With this inbox the machine can do this and get there. -/
def Effect (inbox : List β) (s : σ) (log : List α) (t : σ) : Prop :=
  ∃ acts rest, run (step M decode) ⟨s, inbox, []⟩ acts = some ⟨t, rest, log⟩

variable {M decode}

/-- What was done is a run of the machine, and what was received are the
messages that have left the inbox. -/
theorem log_of_run {s : σ} {inbox : List β} {acts : List (Act α)} {u : State σ α β}
    (h : run (step M decode) ⟨s, inbox, []⟩ acts = some u) :
    run M.step s u.log = some u.machine ∧
      u.log.filterMap M.msg ++ u.inbox.filterMap decode = inbox.filterMap decode := by
  refine (Reaches.of_run h).invariant (I := fun u : State σ α β =>
    run M.step s u.log = some u.machine ∧
      u.log.filterMap M.msg ++ u.inbox.filterMap decode = inbox.filterMap decode)
    ⟨rfl, rfl⟩ ?_
  rintro ⟨t, rest, log⟩ a v - hs ⟨hrun, hmsgs⟩
  cases a with
  | own a =>
      simp only [step] at hs
      split at hs
      · cases hs
      · next hmsg =>
          obtain ⟨t', ht', rfl⟩ := Option.map_eq_some_iff.1 hs
          exact ⟨by rw [run_snoc, hrun]; exact ht', by simpa [hmsg] using hmsgs⟩
  | take =>
      simp only [step] at hs
      split at hs
      · cases hs
      · next b rest =>
          split at hs
          · next m hm =>
              obtain ⟨t', ht', rfl⟩ := Option.map_eq_some_iff.1 hs
              refine ⟨by rw [run_snoc, hrun]; exact ht', ?_⟩
              simpa [M.msg_recv, hm] using hmsgs
          · next hm =>
              split at hs
              · cases hs
                exact ⟨hrun, by simpa [hm] using hmsgs⟩
              · cases hs

/-- A machine that is ready takes items that are nothing until it comes to a
message. -/
theorem run_skip {t : σ} (hready : M.ready t = true) {m : μ} {ms : List μ} (log : List α) :
    ∀ {rest : List β}, rest.filterMap decode = m :: ms →
      ∃ acts b rest', run (step M decode) ⟨t, rest, log⟩ acts = some ⟨t, b :: rest', log⟩ ∧
        decode b = some m ∧ rest'.filterMap decode = ms := by
  intro rest
  induction rest with
  | nil => exact fun h => by cases h
  | cons b rest ih =>
      intro h
      cases hb : decode b with
      | some m' =>
          rw [List.filterMap_cons_some hb] at h
          cases h
          exact ⟨[], b, rest, rfl, hb, rfl⟩
      | none =>
          rw [List.filterMap_cons_none hb] at h
          obtain ⟨acts, b', rest', hrun, hb', hms⟩ := ih h
          refine ⟨.take :: acts, b', rest', ?_, hb', hms⟩
          simpa [run, step, hb, hready] using hrun

/-- What can come of an inbox is what can come of receiving its messages one
after the other. -/
theorem effect_iff {inbox : List β} {s t : σ} {log : List α} :
    Effect M decode inbox s log t ↔
      run M.step s log = some t ∧ log.filterMap M.msg <+: inbox.filterMap decode := by
  constructor
  · rintro ⟨acts, rest, h⟩
    obtain ⟨hrun, hmsgs⟩ := log_of_run h
    exact ⟨hrun, _, hmsgs⟩
  · rintro ⟨hrun, hmsgs⟩
    induction log using List.reverseRecOn generalizing t with
    | nil =>
        cases hrun
        exact ⟨[], inbox, rfl⟩
    | append_singleton log a ih =>
        rw [run_snoc, Option.bind_eq_some_iff] at hrun
        obtain ⟨u, hu, hstep⟩ := hrun
        rw [List.filterMap_append] at hmsgs
        obtain ⟨acts, rest, hacts⟩ := ih hu ((List.prefix_append _ _).trans hmsgs)
        obtain ⟨-, hrest⟩ := log_of_run hacts
        cases hmsg : M.msg a with
        | none =>
            refine ⟨acts ++ [.own a], rest, ?_⟩
            rw [run_snoc, hacts]
            simp [step, hmsg, hstep]
        | some m =>
            -- what is left in the inbox goes on with this message
            obtain rfl := M.eq_recv hmsg
            rw [← hrest, List.prefix_append_right_inj, List.filterMap_cons_some hmsg] at hmsgs
            obtain ⟨ms, hms⟩ := hmsgs
            obtain ⟨skips, b, rest', hskips, hb, -⟩ :=
              run_skip (M.ready_of_recv hstep) log hms.symm
            refine ⟨acts ++ (skips ++ [.take]), rest', ?_⟩
            rw [run_append, hacts, Option.bind_some, run_snoc, hskips]
            simp [step, hb, hstep]

/-- Inboxes of the same messages have the same effects. -/
theorem effect_congr {inbox inbox' : List β}
    (h : inbox.filterMap decode = inbox'.filterMap decode) (s : σ) (log : List α) (t : σ) :
    Effect M decode inbox s log t ↔ Effect M decode inbox' s log t := by
  rw [effect_iff, effect_iff, h]

end Inbox
