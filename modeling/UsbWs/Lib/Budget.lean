import Mathlib.Algebra.BigOperators.Group.List.Basic
import Mathlib.Algebra.GroupWithZero.Nat
import UsbWs.Lib.Runs

/-!
# Work that is paid for

A system with a potential: an action may bring something in from outside, at
a cost, and an action may be work, which uses potential up. If every step pays
for its work, then a run cannot do more work than what was there at first and
what came in (`run_work`), whatever the order of the steps. In particular work
alone comes to an end, so from every state the system can go on working until
no work is left (`exists_settled`).
-/

namespace Runs

variable {σ : Type*} {α : Type*} {step : σ → α → Option σ}

/-- Every step out of a state that meets `I` leads to one, and pays for its
work out of the potential and of what the action brings in. -/
structure Paid (step : σ → α → Option σ) (I : σ → Prop) (potential : σ → Nat)
    (cost work : α → Nat) : Prop where
  keeps : ∀ {s a t}, step s a = some t → I s → I t
  pays : ∀ {s a t}, step s a = some t → I s → potential t + work a ≤ potential s + cost a

variable {I : σ → Prop} {potential : σ → Nat} {cost work : α → Nat}

/-- The work of a run is paid for by the potential it starts from and by what
comes in. -/
theorem Paid.run_work (hp : Paid step I potential cost work) {as : List α} :
    ∀ {s t : σ}, I s → run step s as = some t →
      potential t + (as.map work).sum ≤ potential s + (as.map cost).sum := by
  induction as with
  | nil =>
      intro s t _ h
      cases h
      exact Nat.le_refl _
  | cons a as ih =>
      intro s t hs h
      simp only [run, Option.bind_eq_some_iff] at h
      obtain ⟨u, hstep, hrest⟩ := h
      have hfirst := hp.pays hstep hs
      have hthen := ih (hp.keeps hstep hs) hrest
      simp only [List.map_cons, List.sum_cons]
      omega

/-- No action that meets `D` is enabled. -/
def Settled (step : σ → α → Option σ) (D : σ → α → Prop) (s : σ) : Prop :=
  ∀ a, D s a → step s a = none

/-- Actions that are all work and bring nothing in come to an end: a run of
them leads to a state in which none is enabled. -/
theorem Paid.exists_settled (hp : Paid step I potential cost work) {D : σ → α → Prop}
    (hwork : ∀ {s a}, D s a → cost a < work a) {s : σ} (hs : I s) :
    ∃ t, Reaches step D s t ∧ Settled step D t := by
  induction hn : potential s using Nat.strongRecOn generalizing s with
  | ind n ih =>
      by_cases hset : Settled step D s
      · exact ⟨s, Reaches.refl s, hset⟩
      · simp only [Settled, not_forall] at hset
        obtain ⟨a, ha, henabled⟩ := hset
        obtain ⟨u, hstep⟩ := Option.ne_none_iff_exists'.1 henabled
        have hpay := hp.pays hstep hs
        have hless := hwork ha
        obtain ⟨t, hreach, ht⟩ := ih (potential u) (by omega) (hp.keeps hstep hs) rfl
        exact ⟨t, ((Reaches.refl s).tail ha hstep).trans hreach, ht⟩

end Runs
