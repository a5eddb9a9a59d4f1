import Mathlib.Data.List.Infix
import Mathlib.Tactic.Common

/-!
# A lossless FIFO

A channel that loses, repeats and reorders nothing hands the reader the entry
after those it has got. What was read is then the beginning of what was
written, after each transfer again.
-/

namespace Fifo

variable {α : Type*} {rcvd sent : List α} {x : α}

theorem prefix_snoc (h : rcvd <+: sent) (hx : sent[rcvd.length]? = some x) :
    rcvd ++ [x] <+: sent := by
  obtain ⟨rest, rfl⟩ := h
  rw [List.getElem?_append_right (Nat.le_refl _), Nat.sub_self] at hx
  cases rest with
  | nil => cases hx
  | cons y rest =>
      cases hx
      exact ⟨rest, by simp⟩

end Fifo
