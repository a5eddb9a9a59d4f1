import UsbWs.Endpoint
import UsbWs.Lib.Sweep

/-!
# Allocating conn ids

The acceptor calls `alloc_conn_id` for each socket with the cursor that the
last call left, and the connection map may have changed in between. A call
looks at one id after the other, from the cursor on: it passes over those that
are mapped and returns the first that is not, or has gone round once and gives
up (`allocConnId.full_lap`).

After a call that returned an id the cursor stands right behind that id. When a
later call returns the same id, the cursor has come back there, so it has gone
round at least once, and every other id was looked at on the way
(`reused_after_all`).
-/

namespace UsbWs

open Sweep

namespace allocConnId

variable {κ : Type}

/-- The ids that the rest of a lap passes over. -/
def skipped.scan (map : ConnId → Option κ) : Nat → ConnId → List ConnId
  | 0, _ => []
  | n + 1, next => if (map next).isNone then [] else next :: skipped.scan map n (next + 1)

/-- The ids that a call passes over. -/
def skipped (map : ConnId → Option κ) (next : ConnId) : List ConnId := skipped.scan map 256 next

/-- The ids that a call looks at. -/
def looks (next : ConnId) (map : ConnId → Option κ) : List ConnId :=
  skipped map next ++ (allocConnId map next).1.toList

/-- The call as a step of the cursor. -/
def call (next : ConnId) (map : ConnId → Option κ) : Option ConnId × ConnId :=
  allocConnId map next

/-- What there is to know of one call. -/
structure Call (κ : Type) where
  map : ConnId → Option κ
  skipped : List ConnId
  result : Option ConnId

/-- A sequence of calls, each with the cursor that the one before it left. -/
def calls (next : ConnId) : List (ConnId → Option κ) → List (Call κ)
  | [] => []
  | map :: maps =>
      ⟨map, skipped map next, (allocConnId map next).1⟩ :: calls (allocConnId map next).2 maps

/-! ## One call -/

variable {map : ConnId → Option κ} {next id k : ConnId}

theorem mapped_of_skipped_scan {n : Nat} (h : k ∈ skipped.scan map n next) :
    (map k).isSome = true := by
  induction n generalizing next with
  | zero => cases h
  | succ n ih =>
      rw [skipped.scan] at h
      split at h
      · cases h
      · next hmapped =>
          rcases List.mem_cons.1 h with rfl | h
          · exact Option.isSome_iff_ne_none.2 (by simpa using hmapped)
          · exact ih h

theorem scan_sweeps (map : ConnId → Option κ) (n : Nat) (next : ConnId) :
    ∃ m, skipped.scan map n next ++ (scan map n next).1.toList = List.iterate (· + 1) next m ∧
      (scan map n next).2 = (· + 1)^[m] next := by
  induction n generalizing next with
  | zero => exact ⟨0, rfl, rfl⟩
  | succ n ih =>
      rw [scan, skipped.scan]
      split
      · exact ⟨1, rfl, rfl⟩
      · obtain ⟨m, hlooks, hnext⟩ := ih (next + 1)
        exact ⟨m + 1, by rw [List.cons_append, hlooks, List.iterate], hnext⟩

theorem call_sweeps : Sweeps (· + 1) (call (κ := κ)) looks := fun next map =>
  scan_sweeps map 256 next

theorem iterate_eq_add (next : ConnId) (n : Nat) :
    (· + 1)^[n] next = next + UInt8.ofNat n := by
  induction n with
  | zero => exact (UInt8.add_zero next).symm
  | succ n ih => rw [Function.iterate_succ_apply', ih, UInt8.ofNat_add, UInt8.add_assoc]; rfl

theorem add_ofNat_sub (next k : ConnId) : next + UInt8.ofNat (k - next).toNat = k := by
  rw [UInt8.ofNat_toNat, UInt8.add_comm, UInt8.sub_add_cancel]

/-- The cursor gets from any id to any other. -/
theorem iterate_sub (next k : ConnId) : (· + 1)^[(k - next).toNat] next = k := by
  rw [iterate_eq_add, add_ofNat_sub]

/-! ## The lap of a call -/

/-- The first id that is not mapped in the cyclic order from the cursor on. -/
def FirstUnmapped (map : ConnId → Option κ) (next id : ConnId) : Prop :=
  ∃ n < 256, next + UInt8.ofNat n = id ∧ map id = none ∧
    ∀ j < n, map (next + UInt8.ofNat j) ≠ none

theorem add_ofNat_zero (next : ConnId) : next + UInt8.ofNat 0 = next := UInt8.add_zero next

theorem add_ofNat_succ (next : ConnId) (n : Nat) :
    next + 1 + UInt8.ofNat n = next + UInt8.ofNat (n + 1) := by
  rw [UInt8.ofNat_add, UInt8.add_assoc, UInt8.add_comm 1]
  rfl

/-- An unmapped id behind mapped ones is where the lap ends. -/
theorem scan_of_first {n m : Nat} (hm : m < n)
    (hmapped : ∀ j < m, map (next + UInt8.ofNat j) ≠ none)
    (hfree : map (next + UInt8.ofNat m) = none) :
    scan map n next = (some (next + UInt8.ofNat m), next + UInt8.ofNat m + 1) := by
  induction m generalizing n next with
  | zero =>
      obtain ⟨n, rfl⟩ : ∃ k, n = k + 1 := ⟨n - 1, by omega⟩
      rw [add_ofNat_zero] at hfree ⊢
      rw [scan, if_pos (Option.isNone_iff_eq_none.2 hfree)]
  | succ m ih =>
      obtain ⟨n, rfl⟩ : ∃ k, n = k + 1 := ⟨n - 1, by omega⟩
      have hfirst : map next ≠ none := by
        have h0 := hmapped 0 (by omega)
        rwa [add_ofNat_zero] at h0
      rw [scan, if_neg (mt Option.isNone_iff_eq_none.1 hfirst), ← add_ofNat_succ]
      refine ih (by omega) (fun j hj => ?_) (by rwa [add_ofNat_succ])
      rw [add_ofNat_succ]
      exact hmapped (j + 1) (by omega)

/-- A lap over mapped ids returns none of them. -/
theorem scan_of_mapped {n : Nat} (hmapped : ∀ j < n, map (next + UInt8.ofNat j) ≠ none) :
    scan map n next = (none, next + UInt8.ofNat n) := by
  induction n generalizing next with
  | zero => rw [scan, add_ofNat_zero]
  | succ n ih =>
      have hfirst : map next ≠ none := by
        have h0 := hmapped 0 (by omega)
        rwa [add_ofNat_zero] at h0
      rw [scan, if_neg (mt Option.isNone_iff_eq_none.1 hfirst), ← add_ofNat_succ]
      refine ih fun j hj => ?_
      rw [add_ofNat_succ]
      exact hmapped (j + 1) (by omega)

theorem FirstUnmapped.call_eq (h : FirstUnmapped map next id) :
    allocConnId map next = (some id, id + 1) := by
  obtain ⟨n, hn, rfl, hfree, hmapped⟩ := h
  exact scan_of_first hn hmapped hfree

/-- The cursor is then where it was. -/
theorem call_of_mapped (h : ∀ k, map k ≠ none) : allocConnId map next = (none, next) := by
  have hlap : next + UInt8.ofNat 256 = next := UInt8.add_zero next
  rw [allocConnId, scan_of_mapped fun j _ => h _, hlap]

/-- Every id is in the lap, so when one is not mapped there is a first. -/
theorem exists_firstUnmapped (next : ConnId) (h : map k = none) :
    ∃ id, FirstUnmapped map next id := by
  classical
  have hex : ∃ n, map (next + UInt8.ofNat n) = none :=
    ⟨(k - next).toNat, by rw [add_ofNat_sub, h]⟩
  have hle : Nat.find hex ≤ (k - next).toNat := Nat.find_le (by rw [add_ofNat_sub, h])
  have hlt := (k - next).toNat_lt
  exact ⟨_, Nat.find hex, by omega, rfl, Nat.find_spec hex, fun j hj => Nat.find_min hex hj⟩

theorem result_eq_none_iff : (allocConnId map next).1 = none ↔ ∀ k, map k ≠ none := by
  constructor
  · intro h k hk
    obtain ⟨id, hid⟩ := exists_firstUnmapped next hk
    rw [hid.call_eq] at h
    cases h
  · intro h
    rw [call_of_mapped h]

theorem result_eq_some_iff :
    (allocConnId map next).1 = some id ↔ FirstUnmapped map next id := by
  constructor
  · intro h
    have hfree : ∃ k, map k = none := by
      by_contra hnone
      rw [call_of_mapped (not_exists.1 hnone)] at h
      cases h
    obtain ⟨k, hk⟩ := hfree
    obtain ⟨first, hfirst⟩ := exists_firstUnmapped next hk
    rw [hfirst.call_eq, Option.some_inj] at h
    rwa [← h]
  · intro h
    rw [h.call_eq]

/-- A call that returns an id leaves the cursor behind it. -/
theorem cursor_of_result (h : (allocConnId map next).1 = some id) :
    (allocConnId map next).2 = id + 1 := by
  rw [(result_eq_some_iff.1 h).call_eq]

/-- A call makes one full lap: it returns the first id in the cyclic order that
is not mapped and leaves the cursor behind it, or finds all 256 ids mapped and
leaves the cursor where it was. The acceptor's step, which is such a call, does
not change the map. -/
theorem full_lap (map : ConnId → Option κ) (next : ConnId) :
    (∀ id, (allocConnId map next).1 = some id ↔ FirstUnmapped map next id) ∧
    ((∃ id, (allocConnId map next).1 = some id) ↔ ∃ k, map k = none) ∧
    (∀ id, (allocConnId map next).1 = some id → (allocConnId map next).2 = id + 1) ∧
    ((allocConnId map next).1 = none ↔ ∀ k, map k ≠ none) ∧
    ((allocConnId map next).1 = none → (allocConnId map next).2 = next) ∧
    (∀ (side : Side) (e e' : Endpoint), e.step side .accept = some e' →
      e'.nextId = (allocConnId e.map e.nextId).2 ∧ e'.map = e.map) := by
  refine ⟨fun id => result_eq_some_iff, ?_, fun id h => ?_, result_eq_none_iff, fun h => ?_,
    fun side e e' h => ?_⟩
  · constructor
    · rintro ⟨id, h⟩
      obtain ⟨_, _, _, hfree, _⟩ := result_eq_some_iff.1 h
      exact ⟨id, hfree⟩
    · rintro ⟨k, hk⟩
      obtain ⟨id, hid⟩ := exists_firstUnmapped next hk
      exact ⟨id, result_eq_some_iff.2 hid⟩
  · exact cursor_of_result h
  · rw [call_of_mapped (result_eq_none_iff.1 h)]
  · cases Endpoint.trans_of_step h with
    | accept hacc halloc =>
        rw [halloc]
        exact ⟨rfl, rfl⟩
    | acceptFull hacc halloc =>
        rw [halloc]
        exact ⟨rfl, rfl⟩
    | wait hsends => cases hsends

/-! ## A sequence of calls -/

/-- The cursor after a sequence of calls. -/
def cursor (next : ConnId) (maps : List (ConnId → Option κ)) : ConnId :=
  (Machine.runs call next maps).2

variable {maps : List (ConnId → Option κ)}

theorem cursor_cons : cursor next (map :: maps) = cursor (allocConnId map next).2 maps := rfl

/-- What a part of a sequence is. -/
theorem exists_of_calls_eq_append {cs ds : List (Call κ)} (h : calls next maps = cs ++ ds) :
    ∃ ms ns, cs = calls next ms ∧ ds = calls (cursor next ms) ns := by
  induction cs generalizing next maps with
  | nil => exact ⟨[], maps, rfl, h.symm⟩
  | cons c cs ih =>
      cases maps with
      | nil => cases h
      | cons map maps =>
          obtain ⟨rfl, hrest⟩ := List.cons.inj h
          obtain ⟨ms, ns, hms, hns⟩ := ih hrest
          exact ⟨map :: ms, ns, by rw [calls, hms], hns⟩

/-- The ids that a sequence of calls looks at, call by call. -/
theorem mem_allVisits (h : k ∈ allVisits call looks next maps) :
    ∃ c ∈ calls next maps, c.result = some k ∨ k ∈ c.skipped ∧ (c.map k).isSome = true := by
  induction maps generalizing next with
  | nil => cases h
  | cons map maps ih =>
      rcases List.mem_append.1 h with h | h
      · refine ⟨_, List.mem_cons_self, ?_⟩
        rcases List.mem_append.1 h with h | h
        · exact Or.inr ⟨h, mapped_of_skipped_scan h⟩
        · exact Or.inl (Option.mem_toList.1 h)
      · obtain ⟨c, hc, hk⟩ := ih h
        exact ⟨c, List.mem_cons_of_mem _ hc, hk⟩

theorem mem_allVisits_of_result {c : Call κ} (hc : c ∈ calls next maps)
    (hid : c.result = some id) : id ∈ allVisits call looks next maps := by
  induction maps generalizing next with
  | nil => cases hc
  | cons map maps ih =>
      rcases List.mem_cons.1 hc with rfl | hc
      · exact List.mem_append_left _ (List.mem_append_right _ (Option.mem_toList.2 hid))
      · exact List.mem_append_right _ (ih hc)

/-- The last of a sequence of calls leaves the cursor behind the id that it
returned. -/
theorem cursor_of_last {cs : List (Call κ)} {c : Call κ} (h : calls next maps = cs ++ [c])
    (hid : c.result = some id) : cursor next maps = id + 1 := by
  induction cs generalizing next maps with
  | nil =>
      cases maps with
      | nil => cases h
      | cons map maps =>
          obtain ⟨rfl, hrest⟩ := List.cons.inj h
          cases maps with
          | nil => exact cursor_of_result hid
          | cons map' maps => cases hrest
  | cons d cs ih =>
      cases maps with
      | nil => cases h
      | cons map maps =>
          have hrest : calls (allocConnId map next).2 maps = cs ++ [c] := (List.cons.inj h).2
          rw [cursor_cons, ih hrest]

end allocConnId

open allocConnId

/-- Two calls that return the same id are a full turn apart: every other id
was returned, or passed over as mapped, by a call after the first, up to and
including the second. Whether a call between them returned the id as well
makes no difference. -/
theorem reused_after_all {κ : Type} {next id : ConnId} {maps : List (ConnId → Option κ)}
    {before between after : List (Call κ)} {first second : Call κ}
    (hcalls : calls next maps = before ++ first :: (between ++ second :: after))
    (hfirst : first.result = some id) (hsecond : second.result = some id) (k : ConnId) :
    ∃ c ∈ between ++ [second],
      c.result = some k ∨ k ∈ c.skipped ∧ (c.map k).isSome = true := by
  have hsplit : calls next maps = (before ++ [first]) ++ ((between ++ [second]) ++ after) := by
    simp [hcalls]
  obtain ⟨ms, ns, hms, hns⟩ := exists_of_calls_eq_append hsplit
  have hstart : cursor next ms = id + 1 := cursor_of_last hms.symm hfirst
  obtain ⟨turn, -, hturn, -⟩ := exists_of_calls_eq_append hns.symm
  rw [hstart] at hturn
  -- the second call ends where the first one did
  have hreturn : cursor (id + 1) turn = id + 1 := cursor_of_last hturn.symm hsecond
  have hsome : id ∈ allVisits call looks (id + 1) turn :=
    mem_allVisits_of_result (hturn ▸ by simp) hsecond
  have hlook : k ∈ allVisits call looks (id + 1) turn :=
    call_sweeps.mem_of_return hreturn (List.ne_nil_of_mem hsome) (iterate_sub (id + 1) k)
  exact hturn ▸ mem_allVisits hlook

/-- With all other ids mapped the id comes back at once, after a lap over them. -/
theorem reused_with_others_mapped :
    ∃ c ∈ calls (8 : ConnId) [fun k => if k = 7 then none else some ()],
      c.result = some 200 ∨ 200 ∈ c.skipped ∧ (c.map 200).isSome = true :=
  @reused_after_all Unit 7 7
    [fun k => if k = 7 then none else some (), fun k => if k = 7 then none else some ()]
    [] [] [] _ _ rfl (by decide +kernel) (by decide +kernel) 200

end UsbWs
