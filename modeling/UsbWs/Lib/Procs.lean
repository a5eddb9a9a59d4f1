import UsbWs.Lib.Runs

/-!
# Processes that share a state

Any number of processes work on one shared state, each at a place of its own. A
step is an action of one of them: it goes by the shared state and the place of
this process, and leaves the places of the others alone.

An `Outline` asserts something of the shared state, of each process at its place,
and of any two processes. It holds throughout a run (`Holds.run`) if a process
that acts keeps what is asserted of itself and does not interfere with what is
asserted of another. A process that acts alone is a machine of its own
(`reaches_alone`).
-/

namespace Runs

structure Procs (σ π : Type*) where
  shared : σ
  pcs : Nat → π

namespace Procs

variable {σ π α : Type*} {act : σ → π → α → Option (σ × π)} {t t' : Procs σ π} {p : Nat} {a : α}

def init (s : σ) (pc : π) : Procs σ π := ⟨s, fun _ => pc⟩

def goto (t : Procs σ π) (p : Nat) (s : σ) (pc : π) : Procs σ π := ⟨s, Function.update t.pcs p pc⟩

@[simp] theorem goto_shared (t : Procs σ π) (p : Nat) (s : σ) (pc : π) :
    (t.goto p s pc).shared = s := rfl

@[simp] theorem goto_pcs (t : Procs σ π) (p : Nat) (s : σ) (pc : π) (q : Nat) :
    (t.goto p s pc).pcs q = if q = p then pc else t.pcs q := Function.update_apply ..

variable (act) in
/-- One action of one process. -/
def step (t : Procs σ π) (pa : Nat × α) : Option (Procs σ π) :=
  (act t.shared (t.pcs pa.1) pa.2).map fun (s, pc) => t.goto pa.1 s pc

theorem exists_of_step (h : step act t (p, a) = some t') :
    ∃ s pc, act t.shared (t.pcs p) a = some (s, pc) ∧ t' = t.goto p s pc := by
  obtain ⟨⟨s, pc⟩, hact, rfl⟩ := Option.map_eq_some_iff.1 h
  exact ⟨s, pc, hact, rfl⟩

variable {C : σ → π → α → Prop} {I : σ → Prop} {L : σ → π → Prop} {M : π → π → Prop}

/-- What is asserted of the shared state, of each process and of any two. -/
structure Holds (I : σ → Prop) (L : σ → π → Prop) (M : π → π → Prop) (t : Procs σ π) : Prop where
  shared : I t.shared
  each : ∀ q, L t.shared (t.pcs q)
  apart : ∀ q r, q ≠ r → M (t.pcs q) (t.pcs r)

/-- An action that meets `C` keeps the assertions about the process that takes it,
and does not interfere with those about another. -/
structure Outline (act : σ → π → α → Option (σ × π)) (C : σ → π → α → Prop) (I : σ → Prop)
    (L : σ → π → Prop) (M : π → π → Prop) : Prop where
  symm : ∀ {pc pc₂}, M pc pc₂ → M pc₂ pc
  self : ∀ {s pc a s' pc'}, I s → L s pc → C s pc a → act s pc a = some (s', pc') →
    I s' ∧ L s' pc'
  other : ∀ {s pc a s' pc' pc₂}, I s → L s pc → L s pc₂ → M pc pc₂ → C s pc a →
    act s pc a = some (s', pc') → L s' pc₂ ∧ M pc' pc₂

theorem Holds.step (h : Holds I L M t) (ho : Outline act C I L M) (hC : C t.shared (t.pcs p) a)
    (hs : step act t (p, a) = some t') : Holds I L M t' := by
  obtain ⟨s, pc, hact, rfl⟩ := exists_of_step hs
  obtain ⟨hI, hself⟩ := ho.self h.shared (h.each p) hC hact
  have hother : ∀ q, q ≠ p → L s (t.pcs q) ∧ M pc (t.pcs q) := fun q hq =>
    ho.other h.shared (h.each p) (h.each q) (h.apart p q (Ne.symm hq)) hC hact
  refine ⟨hI, fun q => ?_, fun q r hqr => ?_⟩
  · rw [goto_pcs]
    split
    · exact hself
    · next hq => exact (hother q hq).1
  · rw [goto_pcs, goto_pcs]
    split
    · next hq =>
        rw [if_neg fun hr => hqr (hq.trans hr.symm)]
        exact (hother r fun hr => hqr (hq.trans hr.symm)).2
    · next hq =>
        split
        · exact ho.symm (hother q hq).2
        · exact h.apart q r hqr

theorem Holds.run {t₀ : Procs σ π} (h : Holds I L M t₀) (ho : Outline act C I L M)
    (hreach : Reaches (Procs.step act) (fun t pa => C t.shared (t.pcs pa.1) pa.2) t₀ t) :
    Holds I L M t := by
  refine hreach.invariant (I := Holds I L M) h ?_
  rintro t ⟨p, a⟩ t' hC hs h
  exact h.step ho hC hs

/-- A process that acts alone. -/
theorem reaches_alone {t₀ : Procs σ π}
    (h : Reaches (Procs.step act) (fun _ pa => pa.1 = p) t₀ t) :
    Reaches (fun x a => act x.1 x.2 a) Free (t₀.shared, t₀.pcs p) (t.shared, t.pcs p) := by
  refine h.invariant (I := fun t =>
    Reaches (fun x a => act x.1 x.2 a) Free (t₀.shared, t₀.pcs p) (t.shared, t.pcs p))
    (Reaches.refl _) ?_
  rintro t ⟨q, a⟩ t' rfl hs hreach
  obtain ⟨s, pc, hact, rfl⟩ := exists_of_step hs
  rw [goto_pcs, if_pos rfl]
  exact hreach.tail trivial hact

end Procs

end Runs
