import Mathlib.Tactic.Common

/-!
# Machines that answer

A machine takes one operation at a time, gives an answer and goes on in a new
state; `runs` collects the answers of a sequence. A concrete machine refines
an abstract one when a relation between their states is kept by every
operation and the two answer alike. The relation then holds after every
sequence, and the answers are the same (`Refines.runs`).

The operations may be subject to a precondition, which is asked of each
operation by itself.
-/

namespace Machine

variable {σ τ ι ω : Type*}

/-- The answers to a sequence of operations, and the state after it. -/
def runs (step : σ → ι → ω × σ) : σ → List ι → List ω × σ
  | s, [] => ([], s)
  | s, i :: is =>
      let (answer, s') := step s i
      let (answers, last) := runs step s' is
      (answer :: answers, last)

/-- Under the precondition `P`, every operation keeps `R` and gives the same
answer on both sides. -/
def Refines (P : ι → Prop) (R : σ → τ → Prop) (concrete : σ → ι → ω × σ)
    (abstract : τ → ι → ω × τ) : Prop :=
  ∀ {s t} (i : ι), P i → R s t →
    (concrete s i).1 = (abstract t i).1 ∧ R (concrete s i).2 (abstract t i).2

/-- Refinement of whole sequences. -/
theorem Refines.runs {P : ι → Prop} {R : σ → τ → Prop} {concrete : σ → ι → ω × σ}
    {abstract : τ → ι → ω × τ} (h : Refines P R concrete abstract) {is : List ι}
    (hP : ∀ i ∈ is, P i) {s : σ} {t : τ} (hR : R s t) :
    (Machine.runs concrete s is).1 = (Machine.runs abstract t is).1 ∧
      R (Machine.runs concrete s is).2 (Machine.runs abstract t is).2 := by
  induction is generalizing s t with
  | nil => exact ⟨rfl, hR⟩
  | cons i is ih =>
      obtain ⟨hanswer, hnext⟩ := h i (hP i (by simp)) hR
      obtain ⟨hanswers, hlast⟩ := ih (fun j hj => hP j (by simp [hj])) hnext
      exact ⟨by simp only [Machine.runs, hanswer, hanswers], hlast⟩

end Machine
