import UsbWs.IdFile
import UsbWs.Qr
import UsbWs.Lib.Procs

/-!
# Several processes and one identity file

Every process of a machine begins with `load_or_create`. Here it is taken apart
into its file operations, any number of processes are at it at once, and each may
be stopped at any point. A write may go through in parts.

A process alone does what `loadOrCreate` says (`loadOrCreate_of_alone`). Several
of them share one identity, whatever fails and wherever a write is cut off, as
long as nobody opens the file for writing that has come into being since it was
looked for (`one_identity`): `exists` and `open` are two operations, and two first
starts that overlap may end with two identities (`two_identities`).
-/

namespace UsbWs

open Runs Text Authorized

namespace IdFile

variable {SK VK : Type} {C : Crypto SK VK} {H : HexCodec}

/-- Where a process stands in `load_or_create`; the seeds are drawn when the file
was missing. -/
inductive StartPc where
  | idle
  | reading
  | making (xSeed edSeed : U8Array 32)
  | opening (xSeed edSeed : U8Array 32)
  | writing (xSeed edSeed : U8Array 32) (done : Nat)
  | loaded (xSeed edSeed : U8Array 32) (created : Bool)
  | failed (e : IdError)
  | stopped
  deriving DecidableEq

inductive StartAct where
  | lookFor (xSeed edSeed : U8Array 32)
  | read (readable : Bool)
  | createDir (ok : Bool)
  | openFile (ok : Bool)
  | write (n : Nat)
  | wrote
  | writeErr
  | stop

variable (H) in
/-- What `write_identity` writes. -/
abbrev body (xSeed edSeed : U8Array 32) : List UInt8 := utf8 (identityText H xSeed edSeed)

/-- The bytes that a write at a position leaves, with zeros where there was
nothing before it. -/
def overwrite (old : List UInt8) (pos : Nat) (bytes : List UInt8) : List UInt8 :=
  old.take pos ++ List.replicate (pos - old.length) 0 ++ bytes ++ old.drop (pos + bytes.length)

/-- A write at the end of what was written goes on with the text. -/
theorem overwrite_take (text : List UInt8) {n m : Nat} (h : n + m ≤ text.length) :
    overwrite (text.take n) n ((text.drop n).take m) = text.take (n + m) := by
  have hlen : (text.take n).length = n := by rw [List.length_take]; omega
  have htake : (text.take n).take n = text.take n := by rw [List.take_take, Nat.min_self]
  have hdrop : (text.take n).drop (n + ((text.drop n).take m).length) = [] :=
    List.drop_eq_nil_of_le (by omega)
  rw [overwrite, hlen, Nat.sub_self, htake, hdrop, List.replicate_zero, List.append_nil,
    List.append_nil, List.take_add]

namespace StartPc

variable (H) in
/-- One file operation of a process: the file after it, and where the process goes. -/
def act (file : Option (List UInt8)) :
    StartPc → StartAct → Option (Option (List UInt8) × StartPc)
  | .idle, .lookFor x e => some (file, if file.isSome then .reading else .making x e)
  | .reading, .read readable =>
      match file with
      | none => some (file, .failed (.file .readToString))
      | some bytes =>
          match readIdentity H readable bytes with
          | .ok (x, e) => some (file, .loaded x e false)
          | .error err => some (file, .failed err)
  | .making x e, .createDir ok =>
      some (file, if ok then .opening x e else .failed (.file .createDirAll))
  | .opening x e, .openFile ok =>
      some (if ok then (some [], .writing x e 0) else (file, .failed (.file .openOptions)))
  | .writing x e done, .write n =>
      if 0 < n ∧ done + n ≤ (body H x e).length then
        some (some (overwrite (file.getD []) done (((body H x e).drop done).take n)),
          .writing x e (done + n))
      else none
  | .writing x e done, .wrote =>
      if done = (body H x e).length then some (file, .loaded x e true) else none
  | .writing x e done, .writeErr =>
      if done < (body H x e).length then some (file, .failed (.file .writeAll)) else none
  | _, .stop => some (file, .stopped)
  | _, _ => none

variable (H) in
/-- What an action does, one case for each way a file operation comes out. -/
inductive Acts (file : Option (List UInt8)) :
    StartPc → StartAct → Option (List UInt8) → StartPc → Prop where
  | found {x e} (hfile : file.isSome = true) : Acts file .idle (.lookFor x e) file .reading
  | missing {x e} (hfile : file = none) : Acts file .idle (.lookFor x e) file (.making x e)
  | read {readable bytes x e} (hfile : file = some bytes)
      (hread : readIdentity H readable bytes = .ok (x, e)) :
      Acts file .reading (.read readable) file (.loaded x e false)
  | readErr {readable bytes err} (hfile : file = some bytes)
      (hread : readIdentity H readable bytes = .error err) :
      Acts file .reading (.read readable) file (.failed err)
  | readNone {readable} (hfile : file = none) :
      Acts file .reading (.read readable) file (.failed (.file .readToString))
  | made {x e} : Acts file (.making x e) (.createDir true) file (.opening x e)
  | makeErr {x e} :
      Acts file (.making x e) (.createDir false) file (.failed (.file .createDirAll))
  | opened {x e} : Acts file (.opening x e) (.openFile true) (some []) (.writing x e 0)
  | openErr {x e} :
      Acts file (.opening x e) (.openFile false) file (.failed (.file .openOptions))
  | write {x e done n} (hn : 0 < n) (hle : done + n ≤ (body H x e).length) :
      Acts file (.writing x e done) (.write n)
        (some (overwrite (file.getD []) done (((body H x e).drop done).take n)))
        (.writing x e (done + n))
  | wrote {x e done} (hdone : done = (body H x e).length) :
      Acts file (.writing x e done) .wrote file (.loaded x e true)
  | writeErr {x e done} (hlt : done < (body H x e).length) :
      Acts file (.writing x e done) .writeErr file (.failed (.file .writeAll))
  | stop {pc} : Acts file pc .stop file .stopped

variable {file file' : Option (List UInt8)} {pc pc' : StartPc} {a : StartAct}

theorem acts_of_act (h : act H file pc a = some (file', pc')) : Acts H file pc a file' pc' := by
  cases a with
  | lookFor x e =>
      cases pc <;> simp only [act] at h <;> cases h
      cases hfile : file with
      | none => exact .missing rfl
      | some bytes => exact .found rfl
  | read readable =>
      cases pc <;> simp only [act] at h <;> try cases h
      split at h
      · cases h
        exact .readNone rfl
      · split at h <;> cases h
        · next hread => exact .read rfl hread
        · next hread => exact .readErr rfl hread
  | createDir ok =>
      cases pc <;> simp only [act] at h <;> cases h
      cases ok with
      | false => exact .makeErr
      | true => exact .made
  | openFile ok =>
      cases pc <;> simp only [act] at h <;> try cases h
      cases ok with
      | false =>
          cases h
          exact .openErr
      | true =>
          cases h
          exact .opened
  | write n =>
      cases pc <;> simp only [act] at h <;> try cases h
      split at h <;> cases h
      next hn => exact .write hn.1 hn.2
  | wrote =>
      cases pc <;> simp only [act] at h <;> try cases h
      split at h <;> cases h
      next hdone => exact .wrote hdone
  | writeErr =>
      cases pc <;> simp only [act] at h <;> try cases h
      split at h <;> cases h
      next hlt => exact .writeErr hlt
  | stop =>
      cases pc <;> simp only [act] at h <;> cases h <;> exact .stop

/-! ## A process alone -/

section Alone

variable (C H)

/-- What `load_or_create` has returned. -/
def outcome : StartPc → Option (Except IdError (Identity C × Bool))
  | .loaded x e created => some (.ok (.fromSeeds C x e, created))
  | .failed err => some (.error err)
  | _ => none

/-- What there is to say of a process that has had the machine for itself since
the file was `file₀`. -/
def Solo (file₀ file : Option (List UInt8)) : StartPc → Prop
  | .idle => file = file₀
  | .reading => file = file₀ ∧ file₀.isSome = true
  | .making _ _ | .opening _ _ => file = file₀ ∧ file₀ = none
  | .writing x e done =>
      file = some ((body H x e).take done) ∧ file₀ = none ∧ done ≤ (body H x e).length
  | .loaded x e created => ∃ ops x₀ e₀,
      loadOrCreate C H ops x₀ e₀ file₀ = (.ok (.fromSeeds C x e, created), file)
  | .failed err => ∃ ops x₀ e₀, loadOrCreate C H ops x₀ e₀ file₀ = (.error err, file)
  | .stopped => True

variable {C H} {file₀ : Option (List UInt8)}

theorem Solo.act (h : Solo C H file₀ file pc) (ha : Acts H file pc a file' pc') :
    Solo C H file₀ file' pc' := by
  cases ha with
  | found hfile => exact ⟨h, h ▸ hfile⟩
  | stop => trivial
  | missing hfile => exact ⟨h, h.symm.trans hfile⟩
  | @read readable bytes x e hfile hread =>
      have hfile₀ : file₀ = some bytes := h.1.symm.trans hfile
      refine ⟨{ FileOps.succeed with readToString := readable }, x, e, ?_⟩
      simp [loadOrCreate, hfile₀, hread, hfile]
  | @readErr readable bytes err hfile hread =>
      have hfile₀ : file₀ = some bytes := h.1.symm.trans hfile
      refine ⟨{ FileOps.succeed with readToString := readable }, .zero 32, .zero 32, ?_⟩
      simp [loadOrCreate, hfile₀, hread, hfile]
  | readNone hfile =>
      rw [← h.1, hfile] at h
      cases h.2
  | made => exact h
  | @makeErr x e =>
      obtain ⟨hfile, rfl⟩ := h
      refine ⟨{ FileOps.succeed with createDirAll := false }, x, e, ?_⟩
      simp [loadOrCreate, hfile]
  | opened =>
      obtain ⟨-, hnone⟩ := h
      exact ⟨by rw [List.take_zero], hnone, Nat.zero_le _⟩
  | @openErr x e =>
      obtain ⟨hfile, rfl⟩ := h
      refine ⟨{ FileOps.succeed with openOptions := false }, x, e, ?_⟩
      simp [loadOrCreate, writeIdentity, FileOps.succeed, hfile]
  | write hn hle =>
      obtain ⟨hfile, hnone, -⟩ := h
      refine ⟨?_, hnone, hle⟩
      rw [hfile, Option.getD_some, overwrite_take _ hle]
  | @wrote x e done hdone =>
      obtain ⟨hfile, rfl, -⟩ := h
      refine ⟨.succeed, x, e, ?_⟩
      rw [hfile, hdone, List.take_length]
      rfl
  | @writeErr x e done hlt =>
      obtain ⟨hfile, rfl, -⟩ := h
      refine ⟨{ FileOps.succeed with writeAll := .error done }, x, e, ?_⟩
      rw [hfile]
      rfl

/-- A process alone does what `loadOrCreate` does, for some way in which the file
operations come out. -/
theorem loadOrCreate_of_alone {t₀ t : Procs (Option (List UInt8)) StartPc} {p : Nat}
    {r : Except IdError (Identity C × Bool)}
    (h : Reaches (Procs.step (StartPc.act H)) (fun _ pa => pa.1 = p) t₀ t)
    (hidle : t₀.pcs p = .idle) (hr : outcome C (t.pcs p) = some r) :
    ∃ ops x₀ e₀, loadOrCreate C H ops x₀ e₀ t₀.shared = (r, t.shared) := by
  have hsolo : Solo C H t₀.shared t.shared (t.pcs p) := by
    refine (Procs.reaches_alone h).invariant
      (I := fun x => Solo C H t₀.shared x.1 x.2) ?_ ?_
    · rw [hidle]
      rfl
    · rintro ⟨file, pc⟩ a ⟨file', pc'⟩ - hs hsolo
      exact hsolo.act (acts_of_act hs)
  cases hpc : t.pcs p with
  | loaded x e created | failed err =>
      rw [hpc] at hr hsolo
      cases hr
      exact hsolo
  | _ =>
      rw [hpc] at hr
      cases hr

end Alone

/-! ## Assertions about many processes -/

variable {x e : U8Array 32}

def isWriting : StartPc → Bool
  | .writing _ _ _ => true
  | _ => false

/-- Where a process can be that has found the file with these bytes. -/
def Finds (H : HexCodec) (bytes : List UInt8) : StartPc → Prop
  | .idle | .reading | .failed _ | .stopped => True
  | .loaded x e created => created = false ∧ readIdentity H true bytes = .ok (x, e)
  | .making _ _ | .opening _ _ | .writing _ _ _ => False

/-- Where a process can be while the file is missing. -/
def Misses : StartPc → Prop
  | .writing _ _ _ | .loaded _ _ _ => False
  | _ => True

/-- Where a process can be when one has opened the file to write the seeds. -/
def Shares (H : HexCodec) (x e : U8Array 32) (file : Option (List UInt8)) : StartPc → Prop
  | .writing x' e' done => x' = x ∧ e' = e ∧ file = some ((body H x e).take done)
  | .loaded x' e' created => x' = x ∧ e' = e ∧ (created = true → file = some (body H x e))
  | _ => True

/-- At most one of two processes writes. -/
def Alternate (pc pc₂ : StartPc) : Prop := pc.isWriting = true → pc₂.isWriting = false

/-- Who opens the file for writing finds it missing still. -/
def opensMissing (file : Option (List UInt8)) (_ : StartPc) : StartAct → Bool
  | .openFile _ => file.isNone
  | _ => true

theorem readIdentity_ok {readable : Bool} {bytes : List UInt8} {seeds : U8Array 32 × U8Array 32}
    (h : readIdentity H readable bytes = .ok seeds) : readIdentity H true bytes = .ok seeds := by
  cases readable with
  | false => cases h
  | true => exact h

/-- A file that was there before is not written. -/
theorem finds_outline (H : HexCodec) (bytes : List UInt8) :
    Procs.Outline (act H) (fun file pc a => opensMissing file pc a = true)
      (fun file => file = some bytes) (fun _ pc => Finds H bytes pc) fun _ _ => True where
  symm := fun h => h
  self := by
    rintro file pc a file' pc' rfl hpc - ha
    cases acts_of_act ha with
    | found | stop | readErr => exact ⟨rfl, trivial⟩
    | missing hfile | readNone hfile => cases hfile
    | read hfile hread =>
        cases hfile
        exact ⟨rfl, rfl, readIdentity_ok hread⟩
    | made | makeErr | opened | openErr | write | wrote | writeErr => exact hpc.elim
  other := fun _ _ h₂ _ _ _ => ⟨h₂, trivial⟩

/-- The file stays missing until it is opened. -/
theorem misses_outline (H : HexCodec) :
    Procs.Outline (act H) (fun _ _ a => a ≠ .openFile true) (fun file => file = none)
      (fun _ pc => Misses pc) fun _ _ => True where
  symm := fun h => h
  self := by
    rintro file pc a file' pc' rfl hpc hopen ha
    cases acts_of_act ha with
    | found hfile => cases hfile
    | read hfile | readErr hfile => cases hfile
    | opened => exact absurd rfl hopen
    | write | wrote => exact hpc.elim
    | missing | readNone | made | makeErr | openErr | writeErr | stop => exact ⟨rfl, trivial⟩
  other := fun _ _ h₂ _ _ _ => ⟨h₂, trivial⟩

/-- One process has opened the file, and it holds what this one has written so far
of its text. -/
theorem shares_outline (H : HexCodec) (x e : U8Array 32) :
    Procs.Outline (act H) (fun file pc a => opensMissing file pc a = true)
      (fun file => ∃ n, file = some ((body H x e).take n)) (Shares H x e) Alternate where
  symm := by
    intro pc pc₂ h h₂
    rw [← Bool.not_eq_true]
    intro hpc
    rw [h hpc] at h₂
    cases h₂
  self := by
    rintro file pc a file' pc' ⟨n, hfile⟩ hpc hopen ha
    cases acts_of_act ha with
    | found | made | makeErr | openErr | writeErr | readErr | readNone | stop =>
        exact ⟨⟨n, hfile⟩, trivial⟩
    | missing hnone => rw [hfile] at hnone; cases hnone
    | opened => rw [opensMissing, hfile] at hopen; cases hopen
    | read hbytes hread =>
        cases hfile.symm.trans hbytes
        rcases readIdentity_take (H := H) x e _ n with ⟨err, herr⟩ | hok
        · rw [herr] at hread
          cases hread
        · cases hok.symm.trans hread
          exact ⟨⟨n, hfile⟩, rfl, rfl, fun hc => by cases hc⟩
    | write hn hle =>
        obtain ⟨rfl, rfl, hdone⟩ := hpc
        rw [hdone, Option.getD_some, overwrite_take _ hle]
        exact ⟨⟨_, rfl⟩, rfl, rfl, rfl⟩
    | wrote hdone =>
        obtain ⟨rfl, rfl, hall⟩ := hpc
        rw [hdone, List.take_length] at hall
        exact ⟨⟨n, hfile⟩, rfl, rfl, fun _ => hall⟩
  other := by
    rintro file pc a file' pc' pc₂ ⟨n, hfile⟩ hpc hpc₂ hM hopen ha
    cases acts_of_act ha with
    | found | made | makeErr | openErr | writeErr | readErr | readNone | stop | read | wrote =>
        exact ⟨hpc₂, fun h => by cases h⟩
    | missing hnone => rw [hfile] at hnone; cases hnone
    | opened => rw [opensMissing, hfile] at hopen; cases hopen
    | write hn hle =>
        obtain ⟨rfl, rfl, hdone⟩ := hpc
        refine ⟨?_, fun _ => hM rfl⟩
        cases pc₂ with
        | writing => cases hM rfl
        | loaded x' e' created =>
            refine ⟨hpc₂.1, hpc₂.2.1, fun hcreated => ?_⟩
            -- the file of a process that has made it is complete
            have hall := Option.some.inj (hdone.symm.trans (hpc₂.2.2 hcreated))
            have hlen := congrArg List.length hall
            rw [List.length_take] at hlen
            omega
        | _ => trivial

end StartPc

/-! ## Runs -/

/-- The machine: its identity file, and where each process stands. -/
abbrev Starts := Procs (Option (List UInt8)) StartPc

namespace Starts

open StartPc

variable {t t' : Starts} {p : Nat} {a : StartAct}

variable (H) in
abbrev step : Starts → Nat × StartAct → Option Starts := Procs.step (StartPc.act H)

/-- Who opens the file for writing finds it missing still. -/
abbrev opensMissing (t : Starts) (pa : Nat × StartAct) : Bool :=
  StartPc.opensMissing t.shared (t.pcs pa.1) pa.2

abbrev Untouched (t : Starts) : Prop :=
  t.Holds (fun file => file = none) (fun _ pc => Misses pc) fun _ _ => True

abbrev Shared (H : HexCodec) (x e : U8Array 32) (t : Starts) : Prop :=
  t.Holds (fun file => ∃ n, file = some ((body H x e).take n)) (Shares H x e) Alternate

theorem step_read {readable : Bool} {bytes : List UInt8} {x e : U8Array 32}
    (hpc : t.pcs p = .reading) (hfile : t.shared = some bytes)
    (hread : readIdentity H readable bytes = .ok (x, e)) :
    step H t (p, .read readable) = some (t.goto p t.shared (.loaded x e false)) := by
  have hact : StartPc.act H t.shared (t.pcs p) (.read readable) =
      some (t.shared, .loaded x e false) := by
    simp only [hpc, hfile, StartPc.act, hread]
  rw [Starts.step, Procs.step, hact, Option.map_some]

/-- The file is opened for the first time. -/
theorem Untouched.opened (h : Untouched t) (x e : U8Array 32) :
    Shared H x e (t.goto p (some []) (.writing x e 0)) where
  shared := ⟨0, by rw [List.take_zero]; rfl⟩
  each := by
    intro q
    have hq := h.each q
    rw [Procs.goto_pcs]
    split
    · exact ⟨rfl, rfl, by rw [List.take_zero]; rfl⟩
    · cases hpc : t.pcs q with
      | writing | loaded =>
          rw [hpc] at hq
          exact hq.elim
      | _ => trivial
  apart := by
    intro q r hqr hq
    have hnot : ∀ {q}, (t.pcs q).isWriting = false := fun {q} => by
      have hq := h.each q
      cases hpc : t.pcs q with
      | writing =>
          rw [hpc] at hq
          exact hq.elim
      | _ => rfl
    rw [Procs.goto_pcs] at hq ⊢
    split at hq
    · next heq => rw [if_neg fun hr => hqr (heq.trans hr.symm), hnot]
    · rw [hnot] at hq
      cases hq

theorem Untouched.step (h : Untouched t) (hs : Starts.step H t (p, a) = some t') :
    Untouched t' ∨ ∃ x e, Shared H x e t' := by
  by_cases ha : a = .openFile true
  · subst ha
    obtain ⟨file, pc, hact, rfl⟩ := Procs.exists_of_step hs
    have hacts := acts_of_act hact
    generalize t.pcs p = pc₀ at hacts
    cases hacts
    exact Or.inr ⟨_, _, h.opened _ _⟩
  · exact Or.inl (Procs.Holds.step h (misses_outline H) ha hs)

theorem shared_of_reaches
    (h : Reaches (step H) (fun t pa => opensMissing t pa = true) (Procs.init none .idle) t) :
    Untouched t ∨ ∃ x e, Shared H x e t := by
  refine h.invariant (I := fun t => Untouched t ∨ ∃ x e, Shared H x e t)
    (Or.inl ⟨rfl, fun _ => trivial, fun _ _ _ => trivial⟩) ?_
  rintro t ⟨p, a⟩ t' ha hs (hnone | ⟨x, e, hshared⟩)
  · exact hnone.step hs
  · exact Or.inr ⟨x, e, Procs.Holds.step hshared (shares_outline H x e) ha hs⟩

/-- All that get an identity get the same seeds; if one of them has made it, there
was no file at first, and the file has all of its text. -/
theorem seeds_of_reaches {file₀ : Option (List UInt8)}
    (h : Reaches (step H) (fun t pa => opensMissing t pa = true) (Procs.init file₀ .idle) t) :
    ∃ seeds : U8Array 32 × U8Array 32, ∀ p x e created, t.pcs p = .loaded x e created →
      (x, e) = seeds ∧ (created = true → file₀ = none ∧ t.shared = some (body H x e)) := by
  cases file₀ with
  | some bytes =>
      have hfirst : (Procs.init (some bytes) idle).Holds (fun file => file = some bytes)
          (fun _ pc => Finds H bytes pc) fun _ _ => True :=
        ⟨rfl, fun _ => trivial, fun _ _ _ => trivial⟩
      have hfinds := hfirst.run (finds_outline H bytes) h
      have hread : ∀ {p x e created}, t.pcs p = .loaded x e created →
          created = false ∧ readIdentity H true bytes = .ok (x, e) := fun {p} _ _ _ hp => by
        have hp' := hfinds.each p
        rw [hp] at hp'
        exact hp'
      cases hr : readIdentity H true bytes with
      | ok seeds =>
          refine ⟨seeds, fun p x e created hp => ?_⟩
          obtain ⟨rfl, hok⟩ := hread hp
          cases hr.symm.trans hok
          exact ⟨rfl, fun hc => by cases hc⟩
      | error err =>
          refine ⟨(.zero 32, .zero 32), fun p x e created hp => ?_⟩
          cases hr.symm.trans (hread hp).2
  | none =>
      rcases shared_of_reaches h with hmisses | ⟨x₀, e₀, hshared⟩
      · refine ⟨(.zero 32, .zero 32), fun p x e created hp => ?_⟩
        have hp' := hmisses.each p
        rw [hp] at hp'
        exact hp'.elim
      · refine ⟨(x₀, e₀), fun p x e created hp => ?_⟩
        have hp' := hshared.each p
        rw [hp] at hp'
        obtain ⟨rfl, rfl, hfile⟩ := hp'
        exact ⟨rfl, fun hc => ⟨rfl, hfile hc⟩⟩

/-- Whatever stands in the file at first, however many processes start, whatever
fails and wherever they are stopped: as long as who opens the file for writing
finds it missing still, all that get an identity get the same one. If one of them
has made it, there was no file at first and the file has all of its text; and the
invite that one of them prints, with white space around it, names all of them. -/
theorem one_identity (B : Base64Codec) (fromBytes : U8Array 32 → Option VK)
    (asBytes : VK → U8Array 32) (hkey : ∀ key, fromBytes (asBytes key) = some key)
    {file₀ : Option (List UInt8)}
    (h : Reaches (step H) (fun t pa => opensMissing t pa = true) (Procs.init file₀ .idle) t) :
    (∀ p x e, t.pcs p = .loaded x e true → file₀ = none ∧ t.shared = some (body H x e)) ∧
    ∀ p q x e created x' e' created', t.pcs p = .loaded x e created →
      t.pcs q = .loaded x' e' created' → x' = x ∧ e' = e ∧
        ∀ nick before after, Blank before → Blank after →
          decodeQr B fromBytes
              (before ++ makeQr B asBytes (Identity.fromSeeds C x e) nick ++ after) =
            .ok ⟨(Identity.fromSeeds C x' e').xPub, (Identity.fromSeeds C x' e').edPub,
              (Identity.fromSeeds C x' e').id, nick⟩ := by
  obtain ⟨seeds, hseeds⟩ := seeds_of_reaches h
  refine ⟨fun p x e hp => (hseeds p x e true hp).2 rfl, ?_⟩
  intro p q x e created x' e' created' hp hq
  cases (hseeds p x e created hp).1.trans (hseeds q x' e' created' hq).1.symm
  refine ⟨rfl, rfl, fun nick before after hbefore hafter => ?_⟩
  exact decodeQr_makeQr B hkey _ nick hbefore hafter

/-- One process makes the identity of `alice`; a second finds the file empty and
fails, a third is about to read. -/
def firstStarts : List (Nat × StartAct) :=
  [(0, .lookFor (.fill 32 8) (.zero 32)), (0, .createDir true), (0, .openFile true),
    (1, .lookFor (.zero 32) (.zero 32)), (1, .read true), (0, .write 100), (0, .write 84),
    (0, .wrote), (2, .lookFor (.zero 32) (.zero 32))]

theorem one_identity_thirdStart : ∃ t : Starts, t.pcs 1 = .failed .malformed ∧
    t.pcs 2 = .loaded (.fill 32 8) (.zero 32) false ∧
    t.shared = some (body .ascii (.fill 32 8) (.zero 32)) ∧
    decodeQr .urlSafeNoPad some (makeQr .urlSafeNoPad id alice ['l', 'a', 'b']) =
      .ok ⟨alice.xPub, alice.edPub, alice.id, ['l', 'a', 'b']⟩ := by
  have hrun : (run (guarded (step .ascii) fun t pa => opensMissing t pa = true)
      (Procs.init none .idle) firstStarts).any (fun t =>
        t.pcs 0 = .loaded (.fill 32 8) (.zero 32) true ∧ t.pcs 1 = .failed .malformed ∧
        t.pcs 2 = .reading ∧ t.shared = some (body .ascii (.fill 32 8) (.zero 32))) = true := by
    decide +kernel
  obtain ⟨t, hreach, ht⟩ := exists_of_run_any hrun
  obtain ⟨h0, h1, h2, hfile⟩ := of_decide_eq_true ht
  have hread : readIdentity .ascii true (body .ascii (.fill 32 8) (.zero 32)) =
      .ok (.fill 32 8, .zero 32) :=
    readIdentity_utf8 _ (parseIdentity_identityText _ _)
  have hstep := step_read h2 hfile hread
  obtain ⟨hmade, hall⟩ := one_identity (C := Crypto.transparent) .urlSafeNoPad some id
    (fun _ => rfl) (hreach.tail rfl hstep)
  obtain ⟨-, -, hinvite⟩ := hall 0 2 _ _ true _ _ false h0 rfl
  have hqr := hinvite ['l', 'a', 'b'] [] [] (by decide) (by decide)
  rw [List.nil_append, List.append_nil] at hqr
  exact ⟨t.goto 2 t.shared (.loaded (.fill 32 8) (.zero 32) false), h1, rfl,
    (hmade 0 _ _ h0).2, hqr⟩

/-- Two first starts that overlap: both find the file missing, and the identity of
the one that is done first is lost. -/
theorem two_identities : ∃ t : Starts,
    Reaches (step .ascii) Free (Procs.init none .idle) t ∧
    t.pcs 0 = .loaded (.zero 32) (.zero 32) true ∧
    t.pcs 1 = .loaded (.fill 32 1) (.fill 32 1) true ∧
    t.shared = some (body .ascii (.fill 32 1) (.fill 32 1)) := by
  have hrun : (run (guarded (step .ascii) Free) (Procs.init none .idle)
      [(0, .lookFor (.zero 32) (.zero 32)), (1, .lookFor (.fill 32 1) (.fill 32 1)),
        (0, .createDir true), (0, .openFile true), (0, .write 184), (0, .wrote),
        (1, .createDir true), (1, .openFile true), (1, .write 184), (1, .wrote)]).any
      (fun t => t.pcs 0 = .loaded (.zero 32) (.zero 32) true ∧
        t.pcs 1 = .loaded (.fill 32 1) (.fill 32 1) true ∧
        t.shared = some (body .ascii (.fill 32 1) (.fill 32 1))) = true := by
    decide +kernel
  obtain ⟨t, hreach, ht⟩ := exists_of_run_any hrun
  exact ⟨t, hreach, of_decide_eq_true ht⟩

end Starts

end IdFile

end UsbWs
