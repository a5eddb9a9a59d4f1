import Mathlib.Data.List.Nodup

/-!
# Allowlists with trust on first use

An allowlist is a list of keys, each with a name, in the order they were
listed and no key twice. A key gets onto the list by being authorized, or by
being the first to introduce itself: whoever comes to an empty list is let in
and listed, and from then on only the keys on the list are let in.
-/

structure Allowlist (κ ν : Type*) where
  entries : List (κ × ν)
  nodup : (entries.map Prod.fst).Nodup

namespace Allowlist

variable {κ ν : Type*} [DecidableEq κ] (l : Allowlist κ ν)

def empty : Allowlist κ ν := ⟨[], List.nodup_nil⟩

def Lists (x : κ) : Prop := x ∈ l.entries.map Prod.fst

instance (x : κ) : Decidable (l.Lists x) := inferInstanceAs (Decidable (x ∈ _))

/-- List a key at the end, unless it is listed. -/
def authorize (x : κ) (name : ν) : Allowlist κ ν :=
  if h : l.Lists x then l
  else
    { entries := l.entries ++ [(x, name)]
      nodup := by
        rw [List.map_append]
        refine l.nodup.append (List.nodup_singleton _) ?_
        simpa [Lists] using h }

/-- Whether a key that introduces itself is let in, and the list after that. -/
def introduce (x : κ) (name : ν) : Bool × Allowlist κ ν :=
  if l.entries = [] then (true, l.authorize x name) else (decide (l.Lists x), l)

theorem authorize_of_lists {x : κ} (h : l.Lists x) (name : ν) : l.authorize x name = l :=
  dif_pos h

theorem entries_authorize {x : κ} (h : ¬ l.Lists x) (name : ν) :
    (l.authorize x name).entries = l.entries ++ [(x, name)] := by
  rw [authorize, dif_neg h]

theorem lists_authorize {x y : κ} {name : ν} :
    (l.authorize x name).Lists y ↔ l.Lists y ∨ y = x := by
  by_cases h : l.Lists x
  · rw [l.authorize_of_lists h]
    exact ⟨Or.inl, fun hy => hy.elim id fun heq => heq ▸ h⟩
  · rw [Lists, l.entries_authorize h, List.map_append, List.mem_append, List.map_singleton,
      List.mem_singleton]
    rfl

/-- The first on a list stays the first. -/
theorem head?_authorize {x y : κ} {name : ν} (h : l.entries.head?.map Prod.fst = some y) :
    (l.authorize x name).entries.head?.map Prod.fst = some y := by
  by_cases hx : l.Lists x
  · rwa [l.authorize_of_lists hx]
  · rw [l.entries_authorize hx]
    cases hl : l.entries with
    | nil => rw [hl] at h; cases h
    | cons e es => rw [hl] at h; exact h

omit [DecidableEq κ] in
theorem not_lists_of_nil {x : κ} (h : l.entries = []) : ¬ l.Lists x := by
  rw [Lists, h]
  exact List.not_mem_nil

theorem introduce_cases (x : κ) (name : ν) :
    (l.entries = [] ∧ l.introduce x name = (true, l.authorize x name)) ∨
      (l.entries ≠ [] ∧ l.introduce x name = (decide (l.Lists x), l)) := by
  rw [introduce]
  split
  · next h => exact Or.inl ⟨h, rfl⟩
  · next h => exact Or.inr ⟨h, rfl⟩

end Allowlist
