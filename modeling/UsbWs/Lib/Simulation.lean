import UsbWs.Lib.Runs

/-!
# One system simulated by another

A relation `R` between the states of two systems is a simulation when every
step of the first, from related states, is matched by a run of the second that
leads to related states again; a run of no steps is a stutter. Then every state
the first system reaches is related to one that the second reaches
(`Simulation.reaches`), so what is known of the runs of the second holds, as
far as `R` carries it, of the runs of the first.

The steps of either side may be limited by a condition, as in `Reaches`.
-/

namespace Runs

variable {σ τ : Type*} {α β : Type*} {step : σ → α → Option σ} {step' : τ → β → Option τ}
  {C : σ → α → Prop} {D : τ → β → Prop} {R : σ → τ → Prop}

/-- Every step that meets `C` is matched by a run whose steps meet `D`. -/
def Simulation (step : σ → α → Option σ) (C : σ → α → Prop) (step' : τ → β → Option τ)
    (D : τ → β → Prop) (R : σ → τ → Prop) : Prop :=
  ∀ s a s' t, C s a → step s a = some s' → R s t → ∃ t', Reaches step' D t t' ∧ R s' t'

theorem Reaches.single {s t : σ} {a : α} (hC : C s a) (hs : step s a = some t) :
    Reaches step C s t := (Reaches.refl s).tail hC hs

theorem Simulation.reaches (hsim : Simulation step C step' D R) {s s' : σ} {t : τ}
    (h : Reaches step C s s') (hR : R s t) : ∃ t', Reaches step' D t t' ∧ R s' t' := by
  refine h.invariant (I := fun s' => ∃ t', Reaches step' D t t' ∧ R s' t')
    ⟨t, Reaches.refl t, hR⟩ ?_
  rintro u a v hC hs ⟨t', hreach, hR'⟩
  obtain ⟨t'', hmatch, hR''⟩ := hsim u a v t' hC hs hR'
  exact ⟨t'', hreach.trans hmatch, hR''⟩

end Runs
