import UsbWs.Lib.Machine
import Mathlib.Data.List.Iterate
import Mathlib.Dynamics.PeriodicPts.Defs

/-!
# A cursor that goes round

The state of the machine is a cursor, and each of its steps visits some values
one after the other, from the cursor on, and leaves the cursor behind the last
of them. A sequence of steps then does the same (`Sweeps.runs`), so a cursor
that comes back to where it was has been everywhere it can get to
(`Sweeps.mem_of_return`), however the steps are cut.
-/

namespace Sweep

variable {α ι ω : Type*} {f : α → α} {step : α → ι → ω × α} {visits : α → ι → List α}

/-- A step visits the values from the cursor on, in the order of `f`, and moves
the cursor behind them. -/
def Sweeps (f : α → α) (step : α → ι → ω × α) (visits : α → ι → List α) : Prop :=
  ∀ c i, ∃ n, visits c i = List.iterate f c n ∧ (step c i).2 = f^[n] c

/-- The visits of a sequence of steps. -/
def allVisits (step : α → ι → ω × α) (visits : α → ι → List α) : α → List ι → List α
  | _, [] => []
  | c, i :: is => visits c i ++ allVisits step visits (step c i).2 is

theorem Sweeps.runs (h : Sweeps f step visits) (c : α) (is : List ι) :
    ∃ n, allVisits step visits c is = List.iterate f c n ∧
      (Machine.runs step c is).2 = f^[n] c := by
  induction is generalizing c with
  | nil => exact ⟨0, rfl, rfl⟩
  | cons i is ih =>
      obtain ⟨m, hvisits, hcursor⟩ := h c i
      obtain ⟨n, hrest, hlast⟩ := ih (step c i).2
      refine ⟨m + n, ?_, ?_⟩
      · rw [allVisits, hvisits, hrest, hcursor, List.iterate_add]
      · rw [Machine.runs, Nat.add_comm, Function.iterate_add_apply, ← hcursor]
        exact hlast

/-- A full turn leaves nothing out. -/
theorem mem_iterate_of_return {c k : α} {n m : Nat} (hreturn : f^[n] c = c) (hn : 0 < n)
    (hk : f^[m] c = k) : k ∈ List.iterate f c n := by
  have hperiod : Function.IsPeriodicPt f n c := hreturn
  rw [List.mem_iterate]
  exact ⟨m % n, Nat.mod_lt m hn, by rw [hperiod.iterate_mod_apply, hk]⟩

theorem Sweeps.mem_of_return (h : Sweeps f step visits) {c k : α} {m : Nat} {is : List ι}
    (hreturn : (Machine.runs step c is).2 = c) (hvisits : allVisits step visits c is ≠ [])
    (hk : f^[m] c = k) : k ∈ allVisits step visits c is := by
  obtain ⟨n, hall, hcursor⟩ := h.runs c is
  rw [hall] at hvisits ⊢
  refine mem_iterate_of_return (hcursor ▸ hreturn) ?_ hk
  exact Nat.pos_of_ne_zero fun hn => hvisits (List.iterate_eq_nil.2 hn)

end Sweep
