import Mathlib.Order.Monotone.Defs
import UsbWs.Turns

/-!
# Ids that come round

In a run in which each writer of the home side that takes its entry out of the
map is the last that is left of its connection, of its tasks on both sides and
of its frames, `alloc_conn_id` hands out only ids of which nothing is left. So
the run is, for any one id, a sequence of turns, and what is known of a turn
adds up: the connections the gate dialled for the id belong, in their order, to
connections that home accepted with it, and no byte passes between two that do
not belong together.

`Pairing` is the induction: the turns that are over are paired, and what they
left stays as it is, because nothing of them runs any more.
-/

namespace UsbWs

open Runs

namespace Endpoint

end Endpoint

namespace Tunnel

open Endpoint

variable {k : ConnId} {t t₀ t' : Tunnel} {s : Side} {a : Act} {e : Endpoint}
  {C : Tunnel → Side × Act → Prop} {num : Side → Nat} {φ : Nat → Nat}

/-- Connection `n` of home and connection `j` of the gate are as they were in
one turn of `k`. -/
def Partners (C : Tunnel → Side × Act → Prop) (k : ConnId) (t : Tunnel) (n j : Nat) : Prop :=
  ∃ t₀ t₁, Turn C k t₀ t₁ ∧ InTurn k t₀ t₁ .listen n ∧ InTurn k t₀ t₁ .connect j ∧
    t.home.conns n = t₁.home.conns n ∧ t.gate.conns j = t₁.gate.conns j

/-- Connection `n` of home is as it was in a turn in which the gate had none. -/
def Alone (C : Tunnel → Side × Act → Prop) (k : ConnId) (t : Tunnel) (n : Nat) : Prop :=
  ∃ t₀ t₁, Turn C k t₀ t₁ ∧ InTurn k t₀ t₁ .listen n ∧
    (∀ j, ¬ InTurn k t₀ t₁ .connect j) ∧ t.home.conns n = t₁.home.conns n

/-- `φ` pairs the connections with id `k` before the numbers `num`. -/
structure Pairing (C : Tunnel → Side × Act → Prop) (k : ConnId) (t : Tunnel) (num : Side → Nat)
    (φ : Nat → Nat) : Prop where
  mono : ∀ i j, i < j → j < num .connect → (t.gate.conns i).id = k → (t.gate.conns j).id = k →
    φ i < φ j
  partner : ∀ j, j < num .connect → (t.gate.conns j).id = k →
    φ j < num .listen ∧ (t.home.conns (φ j)).id = k ∧ Partners C k t (φ j) j
  rest : ∀ n, n < num .listen → (t.home.conns n).id = k →
    (∃ j, j < num .connect ∧ (t.gate.conns j).id = k ∧ φ j = n) ∨ Alone C k t n

/-- With the turn that goes on, the pairing is of all connections. -/
theorem Pairing.close (hC : ∀ t sa, C t sa → oneSession t sa = true) (ht : Turn C k t₀ t)
    (hp : Pairing C k t (fun s => (t₀.ends s).numConns) φ) :
    ∃ φ, Pairing C k t (fun s => (t.ends s).numConns) φ := by
  by_cases hex : ∃ n, InTurn k t₀ t .listen n
  · obtain ⟨n, hn⟩ := hex
    refine ⟨fun j => if j < (t₀.ends .connect).numConns then φ j else n, ?_, ?_, ?_⟩
    · intro i j hij hj hik hjk
      by_cases hj₀ : j < (t₀.ends .connect).numConns
      · rw [if_pos (Nat.lt_trans hij hj₀), if_pos hj₀]
        exact hp.mono i j hij hj₀ hik hjk
      · have hjin : InTurn k t₀ t .connect j := ⟨Nat.not_lt.1 hj₀, hj, hjk⟩
        rw [if_neg hj₀]
        by_cases hi₀ : i < (t₀.ends .connect).numConns
        · rw [if_pos hi₀]
          exact Nat.lt_of_lt_of_le (hp.partner i hi₀ hik).1 hn.ge
        · have hiin : InTurn k t₀ t .connect i := ⟨Nat.not_lt.1 hi₀, Nat.lt_trans hij hj, hik⟩
          exact absurd (ht.gate_once hC hiin hjin) (Nat.ne_of_lt hij)
    · intro j hj hjk
      by_cases hj₀ : j < (t₀.ends .connect).numConns
      · obtain ⟨hlt, hpartner⟩ := hp.partner j hj₀ hjk
        simp only [if_pos hj₀]
        exact ⟨Nat.lt_trans (Nat.lt_of_lt_of_le hlt hn.ge) hn.lt, hpartner⟩
      · simp only [if_neg hj₀]
        exact ⟨hn.lt, hn.id_eq, t₀, t, ht, hn, ⟨Nat.not_lt.1 hj₀, hj, hjk⟩, rfl, rfl⟩
    · intro i hi hik
      by_cases hi₀ : i < (t₀.ends .listen).numConns
      · rcases hp.rest i hi₀ hik with ⟨j, hj, hjk, hφ⟩ | halone
        · refine Or.inl ⟨j, ?_, hjk, by simp only [if_pos hj, hφ]⟩
          exact Nat.lt_of_lt_of_le hj (ht.past hC .connect).conns
        · exact Or.inr halone
      · have hiin : InTurn k t₀ t .listen i := ⟨Nat.not_lt.1 hi₀, hi, hik⟩
        obtain rfl := ht.once i n hiin.ge hn.ge hiin.lt hn.lt hik hn.id_eq
        by_cases hexj : ∃ j, InTurn k t₀ t .connect j
        · obtain ⟨j, hj⟩ := hexj
          exact Or.inl ⟨j, hj.lt, hj.id_eq, if_neg (Nat.not_lt.2 hj.ge)⟩
        · exact Or.inr ⟨t₀, t, ht, hn, fun j hj => hexj ⟨j, hj⟩, rfl⟩
  · -- home has not used the id in this turn, and so neither has the gate
    have hold : ∀ s c, c < (t.ends s).numConns → ((t.ends s).conns c).id = k →
        c < (t₀.ends s).numConns := by
      intro s c hc hck
      by_contra hge
      have hin : InTurn k t₀ t s c := ⟨Nat.not_lt.1 hge, hc, hck⟩
      cases s with
      | listen => exact hex ⟨c, hin⟩
      | connect => exact hex (ht.exists_home hC hin)
    refine ⟨φ, ?_, ?_, ?_⟩
    · exact fun i j hij hj hik hjk => hp.mono i j hij (hold .connect j hj hjk) hik hjk
    · intro j hj hjk
      obtain ⟨hlt, hpartner⟩ := hp.partner j (hold .connect j hj hjk) hjk
      exact ⟨Nat.lt_of_lt_of_le hlt (ht.past hC .listen).conns, hpartner⟩
    · intro n hn hnk
      rcases hp.rest n (hold .listen n hn hnk) hnk with ⟨j, hj, hjk, hφ⟩ | halone
      · exact Or.inl ⟨j, Nat.lt_of_lt_of_le hj (ht.past hC .connect).conns, hjk, hφ⟩
      · exact Or.inr halone

end Tunnel

end UsbWs
