import Mathlib.Data.List.Basic

/-!
# A line for slots

Tasks share a fixed number of slots. Who finds none free gets in line, and a slot
that is freed belongs to the first in line that has none yet, though this task
may take it only later. So of `cap` slots, `used` of them taken, `p` may take one
if there are enough for those ahead of it as well (`Line.Served`); for who is not
in the line, everybody in it is ahead.

First come, first served: where a slot is free the first in line may take it
(`served_head`), and who finds none waits for one to be freed, whoever else takes
a slot (`not_served_take`) or gets in line (`served_concat`).
-/

namespace Line

variable {α : Type*} [DecidableEq α] {cap used : Nat} {line : List α} {p q : α}

/-- There is a slot for `p`. -/
def Served (cap used : Nat) (line : List α) (p : α) : Prop := used + line.idxOf p < cap

instance : Decidable (Served cap used line p) := inferInstanceAs (Decidable (_ < _))

/-- When `p` leaves the line, those behind it move up by one. -/
theorem idxOf_erase (hne : q ≠ p) :
    (line.erase p).idxOf q =
      if line.idxOf p < line.idxOf q then line.idxOf q - 1 else line.idxOf q := by
  induction line with
  | nil => rfl
  | cons r line ih =>
      by_cases hr : r = p
      · subst hr
        rw [List.erase_cons_head, List.idxOf_cons_self, List.idxOf_cons_ne _ hne.symm,
          if_pos (Nat.succ_pos _)]
        rfl
      · have herase : (r :: line).erase p = r :: line.erase p :=
          List.erase_cons_tail (by simpa using hr)
        rw [herase, List.idxOf_cons_ne _ hr]
        by_cases hq : r = q
        · subst hq
          rw [List.idxOf_cons_self, List.idxOf_cons_self, if_neg (Nat.not_lt_zero _)]
        · rw [List.idxOf_cons_ne _ hq, List.idxOf_cons_ne _ hq, ih]
          split <;> split <;> omega

/-- Who gets in line is behind the others. -/
theorem served_concat (hq : q ∈ line) :
    Served cap used (line ++ [p]) q ↔ Served cap used line q := by
  rw [Served, Served, List.idxOf_append, if_pos hq]

/-- Who is in line and has to wait goes on waiting when another takes a slot. -/
theorem not_served_take (hne : q ≠ p) (hwait : ¬ Served cap used line q) :
    ¬ Served cap (used + 1) (line.erase p) q := by
  rw [Served] at *
  rw [idxOf_erase hne]
  split <;> omega

/-- Where a slot is free, the first in line may take it. -/
theorem served_head (hfree : used < cap) : Served cap used (p :: line) p := by
  rwa [Served, List.idxOf_cons_self, Nat.add_zero]

theorem served_nil (hfree : used < cap) : Served cap used ([] : List α) p := by
  rwa [Served, List.idxOf_nil, Nat.add_zero]

/-- For who is not in line there is a slot once there is one more than those in
line. -/
theorem served_of_not_mem (hnew : p ∉ line) :
    Served cap used line p ↔ used + line.length < cap := by
  rw [Served, List.idxOf_eq_length hnew]

/-- Who gets in line and has to wait is behind all others. -/
theorem not_served_concat_self (hnew : p ∉ line) (hwait : ¬ Served cap used line p) :
    ¬ Served cap used (line ++ [p]) p := by
  rw [served_of_not_mem hnew] at hwait
  rw [Served, List.idxOf_append, if_neg hnew]
  simpa using hwait

end Line
