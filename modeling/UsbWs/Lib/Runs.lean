import Mathlib.Logic.Relation
import Mathlib.Tactic.Common

/-!
# Runs of a partial step function

A system is a partial step function `step : σ → α → Option σ`: `none` means
the action is not enabled. `run` executes a list of actions, and `Reaches`
is the reachability relation of the runs all of whose steps meet a condition
`C` on the state they start from and the action they take. `Free` is the
condition that asks for nothing.

The rules below are the only inductions over runs a development needs:
`Reaches.invariant`, its variant under a hypothesis `P` about the *last* state
of a run that every earlier state inherits, and the equivalence of a condition
on the states of a run with one on its steps.
-/

namespace Runs

variable {σ : Type*} {α : Type*} {step : σ → α → Option σ}
  {C D : σ → α → Prop}

/-- Execute the actions one after the other; `none` as soon as one of them is
not enabled. -/
def run (step : σ → α → Option σ) : σ → List α → Option σ
  | s, [] => some s
  | s, a :: as => (step s a).bind fun t => run step t as

theorem run_append (s : σ) (as bs : List α) :
    run step s (as ++ bs) = (run step s as).bind fun t => run step t bs := by
  induction as generalizing s with
  | nil => rfl
  | cons a as ih =>
      simp only [List.cons_append, run]
      cases step s a with
      | none => rfl
      | some t => exact ih t

/-- A run, one action at a time from its end. -/
theorem run_snoc (s : σ) (as : List α) (a : α) :
    run step s (as ++ [a]) = (run step s as).bind fun t => step t a := by
  rw [run_append]
  cases run step s as with
  | none => rfl
  | some t =>
      simp only [Option.bind_some, run]
      cases step t a <;> rfl

/-- The condition every step meets. -/
def Free : σ → α → Prop := fun _ _ => True

/-- One step that meets `C`. -/
def StepOn (step : σ → α → Option σ) (C : σ → α → Prop) (s t : σ) : Prop :=
  ∃ a, C s a ∧ step s a = some t

/-- Some run leads from the first state to the second, each of its steps
meeting `C`. -/
def Reaches (step : σ → α → Option σ) (C : σ → α → Prop) : σ → σ → Prop :=
  Relation.ReflTransGen (StepOn step C)

theorem Reaches.refl (s : σ) : Reaches step C s s := Relation.ReflTransGen.refl

theorem Reaches.tail {s t u : σ} {a : α} (h : Reaches step C s t)
    (hC : C t a) (hs : step t a = some u) : Reaches step C s u :=
  Relation.ReflTransGen.tail h ⟨a, hC, hs⟩

theorem Reaches.trans {s t u : σ} (h₁ : Reaches step C s t)
    (h₂ : Reaches step C t u) : Reaches step C s u :=
  Relation.ReflTransGen.trans h₁ h₂

/-- A weaker condition admits every run a stronger one does. -/
theorem Reaches.weaken {s t : σ} (h : Reaches step C s t)
    (hCD : ∀ u a, C u a → D u a) : Reaches step D s t :=
  Relation.ReflTransGen.mono (p := StepOn step D)
    (fun _ _ ⟨a, hC, hs⟩ => ⟨a, hCD _ a hC, hs⟩) _ _ h

/-- Executing a list of actions is a run. -/
theorem Reaches.of_run {s t : σ} {as : List α} (h : run step s as = some t) :
    Reaches step Free s t := by
  induction as generalizing s with
  | nil =>
      cases h
      exact Reaches.refl _
  | cons a as ih =>
      simp only [run, Option.bind_eq_some_iff] at h
      obtain ⟨u, hs, hr⟩ := h
      exact Relation.ReflTransGen.head ⟨a, trivial, hs⟩ (ih hr)

/-- What holds initially and is kept by every step holds in every state
reached. -/
theorem Reaches.invariant {I : σ → Prop} {s t : σ} (h : Reaches step C s t)
    (h0 : I s) (hstep : ∀ {u a v}, C u a → step u a = some v → I u → I v) :
    I t := by
  induction h with
  | refl => exact h0
  | tail _ hst ih =>
      obtain ⟨a, hC, hs⟩ := hst
      exact hstep hC hs ih

/-- The invariant rule under a hypothesis on the last state that every
earlier state inherits. -/
theorem Reaches.invariant_of {P I : σ → Prop} {s t : σ}
    (h : Reaches step C s t)
    (hP : ∀ {u a v}, step u a = some v → P v → P u) (h0 : P s → I s)
    (hstep : ∀ {u a v}, Reaches step C s u → C u a → step u a = some v →
      P v → I u → I v) (ht : P t) : I t := by
  induction h with
  | refl => exact h0 ht
  | tail hu hst ih =>
      obtain ⟨a, hC, hs⟩ := hst
      exact hstep hu hC hs ht (ih (hP hs ht))

/-- `P` holds in every state a run passes through, its first and last
included. -/
def AllStates (step : σ → α → Option σ) (P : σ → Prop) : σ → List α → Prop
  | s, [] => P s
  | s, a :: as => P s ∧ ∀ t, step s a = some t → AllStates step P t as

/-- Every step a run takes meets `C`. -/
def AllSteps (step : σ → α → Option σ) (C : σ → α → Prop) : σ → List α → Prop
  | _, [] => True
  | s, a :: as => ∀ t, step s a = some t → C s a ∧ AllSteps step C t as

theorem AllStates.head {P : σ → Prop} {s : σ} {as : List α}
    (h : AllStates step P s as) : P s := by
  cases as with
  | nil => exact h
  | cons a as => exact h.1

/-- When, under an invariant `I`, a step out of a `P` state meets `C` exactly
when it ends in a `P` state, a run stays in `P` exactly when all its steps
meet `C`. -/
theorem allStates_iff_allSteps {P I : σ → Prop}
    (hI : ∀ {u a v}, step u a = some v → I u → I v)
    (hC : ∀ {u a v}, step u a = some v → I u → P u → (P v ↔ C u a)) :
    ∀ {as : List α} {s : σ}, I s → P s →
      (AllStates step P s as ↔ AllSteps step C s as) := by
  intro as
  induction as with
  | nil => exact fun _ hs => ⟨fun _ => trivial, fun _ => hs⟩
  | cons a as ih =>
      intro s hIs hPs
      constructor
      · rintro ⟨_, hall⟩ t ht
        have hPt := (hall t ht).head
        exact ⟨(hC ht hIs hPs).1 hPt, (ih (hI ht hIs) hPt).1 (hall t ht)⟩
      · refine fun hall => ⟨hPs, fun t ht => ?_⟩
        obtain ⟨hCa, hrest⟩ := hall t ht
        exact (ih (hI ht hIs) ((hC ht hIs hPs).2 hCa)).2 hrest

/-- The system in which a step that does not meet `C` is not enabled. -/
def guarded (step : σ → α → Option σ) (C : σ → α → Prop) [∀ s a, Decidable (C s a)] :
    σ → α → Option σ :=
  fun s a => if C s a then step s a else none

instance (s : σ) (a : α) : Decidable (Free s a) := inferInstanceAs (Decidable True)

theorem Reaches.of_guarded [∀ s a, Decidable (C s a)] {s t : σ} {as : List α}
    (h : run (guarded step C) s as = some t) : Reaches step C s t := by
  induction as generalizing s with
  | nil =>
      cases h
      exact Reaches.refl _
  | cons a as ih =>
      simp only [run, Option.bind_eq_some_iff, guarded] at h
      obtain ⟨u, hs, hr⟩ := h
      split at hs
      · next hC => exact Relation.ReflTransGen.head ⟨a, hC, hs⟩ (ih hr)
      · cases hs

/-- An executed run, each step of which meets a decidable condition and whose
last state has a decidable property: the form in which a concrete run is
evaluated. -/
theorem exists_of_run_any [∀ s a, Decidable (C s a)] {s : σ} {as : List α} {p : σ → Bool}
    (h : (run (guarded step C) s as).any p = true) :
    ∃ t, Reaches step C s t ∧ p t = true := by
  cases hr : run (guarded step C) s as with
  | none => rw [hr] at h; cases h
  | some t =>
      rw [hr] at h
      exact ⟨t, Reaches.of_guarded hr, h⟩

end Runs
