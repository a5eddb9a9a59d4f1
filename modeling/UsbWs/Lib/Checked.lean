import Mathlib.Tactic.Common

/-!
# Operations that may panic

Indexing a slice, cutting it, subtracting lengths and unwrapping an option
abort a Rust program when what they ask for is not there. A program that uses
them is a computation in `Checked`, and that it never panics is to say that
its result is always `ok`. Each operation has one rule, with the bound it
asks for as the hypothesis.
-/

universe u

inductive Panic where
  | outOfRange
  | overflow
  | unwrapNone
  deriving DecidableEq, Repr

abbrev Checked (α : Type u) := Except Panic α

namespace Checked

variable {α β : Type u} {v : List α} {m n : Nat}

/-- `&v[..n]`. -/
def sliceTo (v : List α) (n : Nat) : Checked (List α) :=
  if n ≤ v.length then .ok (v.take n) else .error .outOfRange

/-- `&v[n..]`. -/
def sliceFrom (v : List α) (n : Nat) : Checked (List α) :=
  if n ≤ v.length then .ok (v.drop n) else .error .outOfRange

/-- `&v[m..n]`. -/
def slice (v : List α) (m n : Nat) : Checked (List α) :=
  if m ≤ n ∧ n ≤ v.length then .ok ((v.take n).drop m) else .error .outOfRange

/-- `v.split_at(n)`. -/
def splitAt (v : List α) (n : Nat) : Checked (List α × List α) :=
  if n ≤ v.length then .ok (v.take n, v.drop n) else .error .outOfRange

/-- `v[n]`. -/
def index (v : List α) (n : Nat) : Checked α :=
  match v[n]? with
  | some a => .ok a
  | none => .error .outOfRange

/-- `m - n`. -/
def sub (m n : Nat) : Checked Nat := if n ≤ m then .ok (m - n) else .error .overflow

/-- `o.unwrap()`. -/
def unwrap : Option α → Checked α
  | some a => .ok a
  | none => .error .unwrapNone

@[simp] theorem ok_bind (a : α) (f : α → Checked β) :
    ((Except.ok a : Checked α) >>= f) = f a := rfl

theorem sliceTo_of_le (h : n ≤ v.length) : sliceTo v n = .ok (v.take n) := if_pos h

theorem sliceFrom_of_le (h : n ≤ v.length) : sliceFrom v n = .ok (v.drop n) := if_pos h

theorem slice_of_le (hm : m ≤ n) (hn : n ≤ v.length) : slice v m n = .ok ((v.take n).drop m) :=
  if_pos ⟨hm, hn⟩

theorem splitAt_of_le (h : n ≤ v.length) : splitAt v n = .ok (v.take n, v.drop n) := if_pos h

theorem index_of_lt (h : n < v.length) : index v n = .ok v[n] := by
  rw [index, List.getElem?_eq_getElem h]

theorem sub_of_le (h : n ≤ m) : sub m n = .ok (m - n) := if_pos h

@[simp] theorem unwrap_some (a : α) : unwrap (some a) = .ok a := rfl

/-! ## Cutting a concatenation at its seam -/

theorem sliceTo_append {a b : List α} (h : a.length = n) : sliceTo (a ++ b) n = .ok a := by
  rw [sliceTo_of_le (by rw [List.length_append]; omega), List.take_left' h]

theorem sliceFrom_append {a b : List α} (h : a.length = n) : sliceFrom (a ++ b) n = .ok b := by
  rw [sliceFrom_of_le (by rw [List.length_append]; omega), List.drop_left' h]

theorem slice_append {a b c : List α} (ha : a.length = m) (hb : m + b.length = n) :
    slice (a ++ (b ++ c)) m n = .ok b := by
  have hn : (a ++ b).length = n := by rw [List.length_append, ha, hb]
  rw [slice_of_le (by omega) (by simp only [List.length_append] at hn ⊢; omega),
    ← List.append_assoc, List.take_left' hn, List.drop_left' ha]

theorem splitAt_append {a b : List α} (h : a.length = n) : splitAt (a ++ b) n = .ok (a, b) := by
  rw [splitAt_of_le (by rw [List.length_append]; omega), List.take_left' h, List.drop_left' h]

end Checked
