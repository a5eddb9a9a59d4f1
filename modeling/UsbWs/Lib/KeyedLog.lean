import Mathlib.Data.List.Basic
import Mathlib.Data.List.Infix

/-!
# Logs of keyed entries

A log is a list of entries, each with a key; several conversations share the
log, and `on key k` is the conversation of one key. Two disciplines shape a
conversation. `OpensFirst k` says that an opening entry of key `k` is the
first of its key: whoever reads the log meets the opening before anything
else. And `ClosesLast k` says that a closing entry of key `k` is the last of
its key.

Both are pairwise conditions. So they pass to every prefix of a log, which
is the form in which a reader holds what a writer has written, and appending
one entry asks for one fact about the entries before it.
-/

namespace KeyedLog

variable {φ κ : Type*} {key : φ → κ} {isOpen isClose : φ → Bool} {k : κ}
  {log a b : List φ} {f : φ}

/-- No entry of key `k` comes before an opening entry of key `k`. -/
def OpensFirst (key : φ → κ) (isOpen : φ → Bool) (k : κ) (log : List φ) : Prop :=
  log.Pairwise fun f g => isOpen g = true → key g = k → key f ≠ k

/-- No entry of key `k` comes after a closing entry of key `k`. -/
def ClosesLast (key : φ → κ) (isClose : φ → Bool) (k : κ) (log : List φ) : Prop :=
  log.Pairwise fun f g => isClose f = true → key f = k → key g ≠ k

theorem OpensFirst.of_isPrefix (h : OpensFirst key isOpen k b) (hab : a <+: b) :
    OpensFirst key isOpen k a := List.Pairwise.sublist hab.sublist h

theorem ClosesLast.of_isPrefix (h : ClosesLast key isClose k b) (hab : a <+: b) :
    ClosesLast key isClose k a := List.Pairwise.sublist hab.sublist h

theorem opensFirst_nil : OpensFirst key isOpen k ([] : List φ) := List.Pairwise.nil

theorem closesLast_snoc :
    ClosesLast key isClose k (log ++ [f]) ↔
      ClosesLast key isClose k log ∧
        (key f = k → ∀ g ∈ log, isClose g = true → key g ≠ k) := by
  simp only [ClosesLast, List.pairwise_append, List.pairwise_singleton, true_and,
    List.mem_singleton, forall_eq]
  exact and_congr_right fun _ =>
    ⟨fun h hf g hg hc hk => h g hg hc hk hf, fun h g hg hc hk hf => h hf g hg hc hk⟩

/-- A log of one key that closes last is its open part, then at most one
closing entry. -/
theorem ClosesLast.split (h : ClosesLast key isClose k log)
    (hk : ∀ f ∈ log, key f = k) :
    ∃ rest close, log = rest ++ close ∧ (∀ f ∈ rest, isClose f = false) ∧
      (close = [] ∨ ∃ c, close = [c] ∧ isClose c = true) := by
  induction log with
  | nil => exact ⟨[], [], rfl, by simp, Or.inl rfl⟩
  | cons f log ih =>
      obtain ⟨hf, hlog⟩ := List.pairwise_cons.1 h
      cases hc : isClose f with
      | true =>
          have hnil : log = [] := List.eq_nil_iff_forall_not_mem.2 fun g hg =>
            hf g hg hc (hk f (by simp)) (hk g (by simp [hg]))
          exact ⟨[], [f], by simp [hnil], by simp, Or.inr ⟨f, rfl, hc⟩⟩
      | false =>
          obtain ⟨rest, close, hsplit, hrest, hclose⟩ :=
            ih hlog fun g hg => hk g (by simp [hg])
          refine ⟨f :: rest, close, by simp [hsplit], ?_, hclose⟩
          intro g hg
          rcases List.mem_cons.1 hg with rfl | hg
          · exact hc
          · exact hrest g hg

/-- A log of one key that opens first is at most one opening entry, then
entries that open nothing. -/
theorem OpensFirst.split (h : OpensFirst key isOpen k log) (hk : ∀ f ∈ log, key f = k) :
    ∃ opening rest, log = opening ++ rest ∧ (∀ f ∈ rest, isOpen f = false) ∧
      (opening = [] ∨ ∃ o, opening = [o] ∧ isOpen o = true) := by
  cases log with
  | nil => exact ⟨[], [], rfl, by simp, Or.inl rfl⟩
  | cons f rest =>
      have hrest : ∀ g ∈ rest, isOpen g = false := by
        intro g hg
        cases ho : isOpen g with
        | false => rfl
        | true =>
            have hfk := (List.pairwise_cons.1 h).1 g hg ho (hk g (by simp [hg]))
            exact absurd (hk f (by simp)) hfk
      cases ho : isOpen f with
      | true => exact ⟨[f], rest, rfl, hrest, Or.inr ⟨f, rfl, ho⟩⟩
      | false =>
          refine ⟨[], f :: rest, rfl, ?_, Or.inl rfl⟩
          intro g hg
          rcases List.mem_cons.1 hg with rfl | hg
          · exact ho
          · exact hrest g hg

/-! ## The conversation of one key -/

variable [DecidableEq κ]

/-- The entries of one key, in the order of the log. -/
def on (key : φ → κ) (k : κ) (log : List φ) : List φ :=
  log.filter fun f => key f = k

@[simp] theorem on_nil : on key k ([] : List φ) = [] := rfl

@[simp] theorem on_append : on key k (a ++ b) = on key k a ++ on key k b :=
  List.filter_append ..

theorem on_singleton_self : on key (key f) [f] = [f] := by
  simp [on]

theorem on_singleton_ne (h : key f ≠ k) : on key k [f] = [] := by
  simp [on, h]

theorem mem_on : f ∈ on key k log ↔ f ∈ log ∧ key f = k := by
  simp [on]

theorem on_eq_nil : on key k log = [] ↔ ∀ f ∈ log, key f ≠ k := by
  simp [on, List.filter_eq_nil_iff]

theorem opensFirst_snoc :
    OpensFirst key isOpen k (log ++ [f]) ↔
      OpensFirst key isOpen k log ∧ (isOpen f = true → key f = k → on key k log = []) := by
  simp only [OpensFirst, List.pairwise_append, List.pairwise_singleton, true_and,
    List.mem_singleton, forall_eq, on_eq_nil]
  exact and_congr_right fun _ =>
    ⟨fun h hf hk g hg => h g hg hf hk, fun h g hg hf hk => h hf hk g hg⟩

/-- The conversation of `k` opens first on its own when it does in the log. -/
theorem OpensFirst.on (h : OpensFirst key isOpen k log) :
    OpensFirst key isOpen k (on key k log) :=
  List.Pairwise.sublist List.filter_sublist h

/-- The conversation of `k` closes last on its own when it does in the log. -/
theorem ClosesLast.on (h : ClosesLast key isClose k log) :
    ClosesLast key isClose k (on key k log) :=
  List.Pairwise.sublist List.filter_sublist h

/-! ## A past under another key

`recast g p log` is the log with `g` applied to its first `p` entries. What is
appended later is left as it is. -/

def recast (g : φ → φ) (p : Nat) (log : List φ) : List φ :=
  (log.take p).map g ++ log.drop p

variable {g : φ → φ} {p : Nat}

theorem recast_append (hp : p ≤ a.length) : recast g p (a ++ b) = recast g p a ++ b := by
  rw [recast, recast, List.take_append_of_le_length hp, List.drop_append_of_le_length hp,
    List.append_assoc]

theorem recast_isPrefix (hab : a <+: b) (hp : p ≤ a.length) :
    recast g p a <+: recast g p b := by
  obtain ⟨rest, rfl⟩ := hab
  rw [recast_append hp]
  exact List.prefix_append _ _

/-- Where `g` leaves the entries after the first `p` alone, it may as well be
applied to all. -/
theorem recast_eq_map (hid : ∀ f ∈ log.drop p, g f = f) : recast g p log = log.map g := by
  have hrest : (log.drop p).map g = log.drop p := List.map_congr_left hid |>.trans (List.map_id _)
  rw [recast, ← hrest, ← List.map_append, List.take_append_drop]

end KeyedLog
