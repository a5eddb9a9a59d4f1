import UsbWs.Allowlist
import UsbWs.Lib.Procs

/-!
# Several processes and one authorized file

A gate that judges an initiator and a `usbws authorize` command each go through a
handful of file operations, and other processes of the machine may come in
between. `VisitPc.act` is `authorize_initiator`, `load` and `add` taken apart into
these operations; a gate that turns one initiator down and waits for another is as
many visits. A line that is appended arrives in one piece: the file is open for
appending, and a line is one write.

Alone, a visit does what `authorizeInitiator` and `add` say (`solo`). Among others
it may judge by a table that has changed since, so that more than one initiator can
be trusted on first use. `closed_door` says how far this goes: from the moment a
line is in the file, nobody gets on the table but by a command or by a gate that
had already seen it empty.
-/

namespace UsbWs

open Runs Text

namespace Authorized

variable {K : Type} {H : HexCodec}

/-- What a visit is about: the initiator that a gate judges, without
`USBWS_NO_PINNING`, or the one given to `authorize`. -/
structure Asks where
  gate : Bool
  xPub : U8Array 32
  nick : List Char
  deriving DecidableEq

/-- Where a visit stands. `first` is the `load` of `authorize_initiator`; the other
one is that of `add`. -/
inductive VisitPc where
  | idle
  | looking (who : Asks) (first : Bool)
  | reading (who : Asks) (first : Bool)
  | making (who : Asks)
  | opening (who : Asks)
  | writing (who : Asks)
  | accepted (who : Asks)
  | rejected (who : Asks)
  | finished (who : Asks) (r : Except FileError Unit)
  | stopped
  deriving DecidableEq

/-- The file, and what has been asked so far. -/
structure Visited where
  file : Option (List UInt8)
  asked : List Asks

inductive VisitAct where
  | ask (who : Asks)
  | lookFor
  | read (readable : Bool)
  | createDir (ok : Bool)
  | openFile (ok : Bool)
  | write (r : Except Nat Unit)
  | stop

namespace VisitPc

/-- `add` returns: a gate only warns about an error. -/
def finish (who : Asks) (r : Except FileError Unit) : VisitPc :=
  if who.gate then .accepted who else .finished who r

/-- `load` returns. -/
def loaded (who : Asks) (first : Bool) : Except FileError (List Entry) → VisitPc
  | .error e => if first then .rejected who else finish who (.error e)
  | .ok table =>
      if first then
        if table = [] then .looking who false
        else if contains table who.xPub then .accepted who
        else .rejected who
      else if contains table who.xPub then finish who (.ok ())
      else .making who

variable (H) in
/-- One file operation of a visit. -/
def act (s : Visited) : VisitPc → VisitAct → Option (Visited × VisitPc)
  | .idle, .ask who => some ({ s with asked := s.asked ++ [who] }, .looking who who.gate)
  | .looking who first, .lookFor =>
      some (s, if s.file.isSome then .reading who first else loaded who first (.ok []))
  | .reading who first, .read readable => some (s, loaded who first (load H readable s.file))
  | .making who, .createDir ok =>
      some (s, if ok then .opening who else finish who (.error .createDirAll))
  | .opening who, .openFile ok =>
      some (if ok then ({ s with file := some (s.file.getD []) }, .writing who)
        else (s, finish who (.error .openOptions)))
  | .writing who, .write r =>
      let line := utf8 (entryLine H who.xPub who.nick)
      match r with
      | .ok () =>
          some ({ s with file := some (s.file.getD [] ++ line) }, finish who (.ok ()))
      | .error n =>
          some ({ s with file := some (s.file.getD [] ++ line.take n) },
            finish who (.error .writeAll))
  | _, .stop => some (s, .stopped)
  | _, _ => none

variable (H) in
/-- What an action does, one case for each way a file operation comes out. -/
inductive Acts (s : Visited) : VisitPc → VisitAct → Visited → VisitPc → Prop where
  | ask {who} :
      Acts s .idle (.ask who) { s with asked := s.asked ++ [who] } (.looking who who.gate)
  | found {who first} (hfile : s.file.isSome = true) :
      Acts s (.looking who first) .lookFor s (.reading who first)
  | missing {who first} (hfile : s.file = none) :
      Acts s (.looking who first) .lookFor s (loaded who first (.ok []))
  | read {who first readable} :
      Acts s (.reading who first) (.read readable) s (loaded who first (load H readable s.file))
  | made {who} : Acts s (.making who) (.createDir true) s (.opening who)
  | makeErr {who} :
      Acts s (.making who) (.createDir false) s (finish who (.error .createDirAll))
  | opened {who} : Acts s (.opening who) (.openFile true)
      { s with file := some (s.file.getD []) } (.writing who)
  | openErr {who} :
      Acts s (.opening who) (.openFile false) s (finish who (.error .openOptions))
  | wrote {who} : Acts s (.writing who) (.write (.ok ()))
      { s with file := some (s.file.getD [] ++ utf8 (entryLine H who.xPub who.nick)) }
      (finish who (.ok ()))
  | writeErr {who n} : Acts s (.writing who) (.write (.error n))
      { s with file := some (s.file.getD [] ++ (utf8 (entryLine H who.xPub who.nick)).take n) }
      (finish who (.error .writeAll))
  | stop {pc} : Acts s pc .stop s .stopped

variable {s s' : Visited} {pc pc' : VisitPc} {a : VisitAct}

theorem acts_of_act (h : act H s pc a = some (s', pc')) : Acts H s pc a s' pc' := by
  cases a with
  | ask who =>
      cases pc <;> simp only [act] at h <;> cases h
      exact .ask
  | lookFor =>
      cases pc <;> simp only [act] at h <;> cases h
      split
      · next hfile => exact .found hfile
      · next hfile => exact .missing (by simpa using hfile)
  | read readable =>
      cases pc <;> simp only [act] at h <;> cases h
      exact .read
  | createDir ok =>
      cases pc <;> simp only [act] at h <;> cases h
      cases ok with
      | false => exact .makeErr
      | true => exact .made
  | openFile ok =>
      cases pc <;> simp only [act] at h <;> try cases h
      cases ok with
      | false =>
          cases h
          exact .openErr
      | true =>
          cases h
          exact .opened
  | write r =>
      cases pc <;> simp only [act] at h <;> try cases h
      split at h <;> cases h
      · exact .wrote
      · exact .writeErr
  | stop =>
      cases pc <;> simp only [act] at h <;> cases h <;> exact .stop

/-! ## A visit alone -/

section Alone

variable (K H) in
/-- What there is to say of a visit that has had the machine for itself since the
file was `file₀`. -/
def Solo (file₀ file : Option (List UInt8)) : VisitPc → Prop
  | .idle => file = file₀
  | .looking who first | .reading who first =>
      file = file₀ ∧ (first = false → who.gate = true → ∃ readable, load H readable file₀ = .ok [])
  | .making who | .opening who =>
      file = file₀ ∧ (who.gate = true → ∃ readable, load H readable file₀ = .ok []) ∧
        ∃ readable table, load H readable file₀ = .ok table ∧ contains table who.xPub = false
  | .writing who =>
      file = some (file₀.getD []) ∧ (who.gate = true → ∃ readable, load H readable file₀ = .ok []) ∧
        ∃ readable table, load H readable file₀ = .ok table ∧ contains table who.xPub = false
  | .accepted who => ∃ readable ops, ∀ peer : Peer K, peer.xPub = who.xPub →
      peer.nick = who.nick → authorizeInitiator H false readable ops peer file₀ = (some peer, file)
  | .rejected who => ∃ readable ops, ∀ peer : Peer K, peer.xPub = who.xPub →
      peer.nick = who.nick → authorizeInitiator H false readable ops peer file₀ = (none, file)
  | .finished who r => ∃ ops, add H ops who.xPub who.nick file₀ = (r, file)
  | .stopped => True

variable {file₀ file : Option (List UInt8)} {who : Asks} {first : Bool}

theorem solo_finish {r : Except FileError Unit}
    (hempty : who.gate = true → ∃ readable, load H readable file₀ = .ok [])
    (hadd : ∃ ops, add H ops who.xPub who.nick file₀ = (r, file)) :
    Solo K H file₀ file (finish who r) := by
  obtain ⟨ops, hadd⟩ := hadd
  rw [finish]
  split
  · next hgate =>
      obtain ⟨readable, hload⟩ := hempty hgate
      refine ⟨readable, ops, fun peer hx hnick => ?_⟩
      simp [authorizeInitiator, hload, hx, hnick, hadd]
  · exact ⟨ops, hadd⟩

theorem solo_loaded (readable : Bool)
    (hempty : first = false → who.gate = true → ∃ readable, load H readable file₀ = .ok []) :
    Solo K H file₀ file₀ (loaded who first (load H readable file₀)) := by
  cases hload : load H readable file₀ with
  | error e =>
      cases first with
      | true =>
          refine ⟨readable, .succeed, fun peer hx hnick => ?_⟩
          simp [authorizeInitiator, hload]
      | false =>
          refine solo_finish (hempty rfl) ⟨{ FileOps.succeed with readToString := readable }, ?_⟩
          simp [add, hload]
  | ok table =>
      cases first with
      | true =>
          simp only [loaded, if_true]
          split
          · next hnil => exact ⟨rfl, fun _ _ => ⟨readable, by rw [hload, hnil]⟩⟩
          · next hne =>
              split
              · next hlists =>
                  refine ⟨readable, .succeed, fun peer hx hnick => ?_⟩
                  simp [authorizeInitiator, hload, hne, hx, hlists]
              · next hnot =>
                  refine ⟨readable, .succeed, fun peer hx hnick => ?_⟩
                  simp [authorizeInitiator, hload, hne, hx, hnot]
      | false =>
          simp only [loaded]
          rw [if_neg Bool.false_ne_true]
          split
          · next hlists =>
              refine solo_finish (hempty rfl)
                ⟨{ FileOps.succeed with readToString := readable }, ?_⟩
              simp [add, hload, hlists]
          · next hnot => exact ⟨rfl, hempty rfl, readable, table, hload, by simpa using hnot⟩

theorem Solo.act (h : Solo K H file₀ s.file pc) (ha : Acts H s pc a s' pc') :
    Solo K H file₀ s'.file pc' := by
  cases ha with
  | ask => exact ⟨h, fun hfirst hgate => by rw [hfirst] at hgate; cases hgate⟩
  | found => exact h
  | @missing who first hfile =>
      obtain ⟨hsame, hempty⟩ := h
      have hload : load H true file₀ = .ok [] := by rw [← hsame, hfile]; rfl
      rw [hsame, ← hload]
      exact solo_loaded true hempty
  | read =>
      obtain ⟨hsame, hempty⟩ := h
      rw [hsame]
      exact solo_loaded _ hempty
  | made => exact h
  | makeErr =>
      obtain ⟨hsame, hempty, readable, table, hload, hnot⟩ := h
      refine solo_finish hempty
        ⟨{ FileOps.succeed with readToString := readable, createDirAll := false }, ?_⟩
      simp [add, hload, hnot, hsame]
  | opened =>
      obtain ⟨hsame, hrest⟩ := h
      exact ⟨by rw [hsame], hrest⟩
  | openErr =>
      obtain ⟨hsame, hempty, readable, table, hload, hnot⟩ := h
      refine solo_finish hempty
        ⟨{ FileOps.succeed with readToString := readable, openOptions := false }, ?_⟩
      simp [add, hload, hnot, hsame, FileOps.succeed]
  | wrote =>
      obtain ⟨hsame, hempty, readable, table, hload, hnot⟩ := h
      refine solo_finish hempty ⟨{ FileOps.succeed with readToString := readable }, ?_⟩
      simp [add, hload, hnot, hsame, FileOps.succeed]
  | @writeErr who n =>
      obtain ⟨hsame, hempty, readable, table, hload, hnot⟩ := h
      refine solo_finish hempty
        ⟨{ FileOps.succeed with readToString := readable, writeAll := .error n }, ?_⟩
      simp [add, hload, hnot, hsame, FileOps.succeed]
  | stop => trivial

/-- A visit alone does what `authorizeInitiator` or `add` does, for some way in which
the file operations come out. -/
theorem solo {t₀ t : Procs Visited VisitPc} {p : Nat}
    (h : Reaches (Procs.step (VisitPc.act H)) (fun _ pa => pa.1 = p) t₀ t)
    (hidle : t₀.pcs p = .idle) : Solo K H t₀.shared.file t.shared.file (t.pcs p) := by
  refine (Procs.reaches_alone h).invariant
    (I := fun x => Solo K H t₀.shared.file x.1.file x.2) ?_ ?_
  · rw [hidle]
    rfl
  · rintro ⟨s, pc⟩ a ⟨s', pc'⟩ - hs hsolo
    exact hsolo.act (acts_of_act hs)

end Alone

end VisitPc

/-! ## Many visits -/

namespace Visited

/-- The table that is in the file. -/
def table (H : HexCodec) (s : Visited) : List Entry := parse H (contents s.file)

def Lists (H : HexCodec) (s : Visited) (x : U8Array 32) : Prop := x ∈ (s.table H).map Entry.xPub

/-- The file can be read, and ends at the end of a line. -/
structure Sound (H : HexCodec) (s : Visited) : Prop where
  load : Authorized.load H true s.file = .ok (s.table H)
  terminated : lastLine (contents s.file) = []

variable {s : Visited} {who : Asks}

theorem Sound.bytes (h : s.Sound H) : s.file.getD [] = utf8 (contents s.file) := (load_ok h.load).1

theorem contents_opened (s : Visited) : contents (some (s.file.getD [])) = contents s.file := rfl

theorem Sound.opened (h : s.Sound H) : Sound H { s with file := some (s.file.getD []) } where
  load := by
    have htable : Visited.table H { s with file := some (s.file.getD []) } = s.table H := rfl
    rw [htable, h.bytes, load_utf8, table]
  terminated := by
    rw [contents_opened]
    exact h.terminated

/-- The file with another line. -/
def append (H : HexCodec) (s : Visited) (who : Asks) : Visited :=
  { s with file := some (s.file.getD [] ++ utf8 (entryLine H who.xPub who.nick)) }

theorem Sound.contents_append (h : s.Sound H) (who : Asks) :
    contents (s.append H who).file = contents s.file ++ entryLine H who.xPub who.nick := by
  rw [append, h.bytes, ← utf8_append, contents, Option.getD_some, fromUtf8_utf8, Option.getD_some]

theorem Sound.table_append (h : s.Sound H) (hnick : '\n' ∉ who.nick) :
    (s.append H who).table H = s.table H ++ [⟨who.xPub, trim who.nick⟩] := by
  rw [table, h.contents_append, parse_append_entryLine h.terminated hnick, table]

theorem Sound.append (h : s.Sound H) (who : Asks) : (s.append H who).Sound H where
  load := by
    rw [table, h.contents_append, Visited.append, h.bytes, ← utf8_append, load_utf8]
  terminated := by rw [h.contents_append, lastLine_append_entryLine]

end Visited

namespace VisitPc

open Visited

variable {s s' : Visited} {pc pc' : VisitPc} {a : VisitAct} {base : List Entry}
  {late : U8Array 32 → Prop}

/-- The file operations succeed, and nicks are lines. -/
def orderly (_ : Visited) (_ : VisitPc) : VisitAct → Bool
  | .ask who => '\n' ∉ who.nick
  | .read readable => readable
  | .createDir ok | .openFile ok => ok
  | .write r => r = .ok ()
  | .lookFor | .stop => true

/-- A gate that has seen the table empty, or a command. -/
def MayAdd (late : U8Array 32 → Prop) (s : Visited) (who : Asks) : Prop :=
  '\n' ∉ who.nick ∧ if who.gate then late who.xPub else who ∈ s.asked

theorem MayAdd.imp {late' : U8Array 32 → Prop} {who : Asks} (h : MayAdd late s who)
    (hasked : s.asked ⊆ s'.asked) (hlate : who.gate = true → late who.xPub → late' who.xPub) :
    MayAdd late' s' who := by
  obtain ⟨hnick, hwho⟩ := h
  refine ⟨hnick, ?_⟩
  by_cases hgate : who.gate = true
  · rw [if_pos hgate] at hwho ⊢
    exact hlate hgate hwho
  · rw [if_neg hgate] at hwho ⊢
    exact hasked hwho

/-- Where a visit can be when those of `late` may still be trusted on first use. -/
def Admitted (H : HexCodec) (late : U8Array 32 → Prop) (s : Visited) : VisitPc → Prop
  | .idle | .rejected _ | .stopped => True
  | .looking who first | .reading who first =>
      '\n' ∉ who.nick ∧ if first then who.gate = true else MayAdd late s who
  | .making who | .opening who | .writing who => MayAdd late s who
  | .accepted who => s.Lists H who.xPub
  | .finished who r => r = .ok () ∧ s.Lists H who.xPub

/-- What the table holds that had been `base`: nothing is lost, and what is new is of
a command or of `late`. -/
structure Kept (H : HexCodec) (base : List Entry) (late : U8Array 32 → Prop) (s : Visited) :
    Prop where
  sound : s.Sound H
  kept : base <+: s.table H
  new : ∀ x, s.Lists H x → x ∈ base.map Entry.xPub ∨
    (∃ who ∈ s.asked, who.gate = false ∧ who.xPub = x) ∨ late x

/-- What the others do leaves a visit where it was. -/
theorem Admitted.mono (h : Admitted H late s pc) (htable : s.table H <+: s'.table H)
    (hasked : s.asked ⊆ s'.asked) : Admitted H late s' pc := by
  have hlists : ∀ {x}, s.Lists H x → s'.Lists H x := fun hx => (htable.map _).subset hx
  have hmay : ∀ {who}, MayAdd late s who → MayAdd late s' who := fun hwho =>
    hwho.imp hasked fun _ hlate => hlate
  cases pc with
  | idle | rejected | stopped => trivial
  | looking who first | reading who first =>
      cases first with
      | true => exact h
      | false => exact ⟨h.1, hmay h.2⟩
  | making | opening | writing => exact hmay h
  | accepted => exact hlists h
  | finished => exact ⟨h.1, hlists h.2⟩

/-- A step loses nothing from the table and from what was asked. -/
theorem Acts.grows (hs : s.Sound H) (hpc : Admitted H late s pc) (ha : Acts H s pc a s' pc')
    (ho : orderly s pc a = true) : s.table H <+: s'.table H ∧ s.asked ⊆ s'.asked := by
  cases ha with
  | ask => exact ⟨List.prefix_rfl, List.subset_append_left _ _⟩
  | opened => exact ⟨List.prefix_rfl, List.Subset.refl _⟩
  | @wrote who =>
      refine ⟨?_, List.Subset.refl _⟩
      show s.table H <+: (s.append H who).table H
      rw [hs.table_append hpc.1]
      exact List.prefix_append _ _
  | writeErr => simp [orderly] at ho
  | _ => exact ⟨List.prefix_rfl, List.Subset.refl _⟩

theorem admitted_finish {who : Asks} (hlists : s.Lists H who.xPub) :
    Admitted H late s (finish who (.ok ())) := by
  rw [finish]
  split
  · exact hlists
  · exact ⟨rfl, hlists⟩

/-- A visit goes on from a load. Only an empty table makes a gate trust. -/
theorem admitted_loaded {who : Asks} {first : Bool}
    (hpc : '\n' ∉ who.nick ∧ if first then who.gate = true else MayAdd late s who)
    (hempty : s.table H = [] → ∀ x, late x) :
    Admitted H late s (loaded who first (.ok (s.table H))) := by
  obtain ⟨hnick, hfirst⟩ := hpc
  cases first with
  | true =>
      rw [if_pos rfl] at hfirst
      simp only [loaded, if_true]
      split
      · next hnil =>
          refine ⟨hnick, hnick, ?_⟩
          rw [if_pos hfirst]
          exact hempty hnil _
      · split
        · next hlists => exact contains_iff.1 hlists
        · trivial
  | false =>
      simp only [loaded]
      rw [if_neg Bool.false_ne_true]
      split
      · next hlists => exact admitted_finish (contains_iff.1 hlists)
      · exact hfirst

/-- As long as the table has a line, nobody gets on it but by a command or out of
`late`. -/
theorem kept_outline (H : HexCodec) (hclosed : base = [] → ∀ x, late x) :
    Procs.Outline (act H) (fun s pc a => orderly s pc a = true) (Kept H base late)
      (Admitted H late) fun _ _ => True where
  symm := fun h => h
  self := by
    intro s pc a s' pc' hk hpc ho ha
    have hempty : s.table H = [] → ∀ x, late x := fun hnil => by
      have hkept := hk.kept
      rw [hnil, List.prefix_nil] at hkept
      exact hclosed hkept
    cases acts_of_act ha with
    | @ask who =>
        have hnick : '\n' ∉ who.nick := of_decide_eq_true ho
        have hsub : s.asked ⊆ s.asked ++ [who] := List.subset_append_left _ _
        refine ⟨⟨⟨hk.sound.load, hk.sound.terminated⟩, hk.kept, fun x hx => ?_⟩, hnick, ?_⟩
        · rcases hk.new x hx with hbase | ⟨who', hwho', hkey⟩ | hlate
          · exact Or.inl hbase
          · exact Or.inr (Or.inl ⟨who', hsub hwho', hkey⟩)
          · exact Or.inr (Or.inr hlate)
        · split
          · next hgate => exact hgate
          · next hgate =>
              refine ⟨hnick, ?_⟩
              rw [if_neg hgate]
              exact List.mem_append_right _ (List.mem_singleton_self who)
    | found => exact ⟨hk, hpc⟩
    | missing hfile =>
        have hnil : s.table H = [] := by rw [Visited.table, hfile]; rfl
        rw [← hnil]
        exact ⟨hk, admitted_loaded hpc hempty⟩
    | @read who first readable =>
        have hreadable : readable = true := ho
        rw [hreadable, hk.sound.load]
        exact ⟨hk, admitted_loaded hpc hempty⟩
    | made => exact ⟨hk, hpc⟩
    | makeErr | openErr | writeErr => simp [orderly] at ho
    | opened => exact ⟨⟨hk.sound.opened, hk.kept, hk.new⟩, hpc⟩
    | @wrote who =>
        have htable : (s.append H who).table H = s.table H ++ [⟨who.xPub, trim who.nick⟩] :=
          hk.sound.table_append hpc.1
        have hlists : ∀ x, (s.append H who).Lists H x ↔ s.Lists H x ∨ x = who.xPub := by
          intro x
          simp [Visited.Lists, htable]
        refine ⟨⟨hk.sound.append who, ?_, fun x hx => ?_⟩, ?_⟩
        · show base <+: (s.append H who).table H
          rw [htable]
          exact hk.kept.trans (List.prefix_append _ _)
        · rcases (hlists x).1 hx with hold | rfl
          · exact hk.new x hold
          · obtain ⟨-, hwho⟩ := hpc
            split at hwho
            · exact Or.inr (Or.inr hwho)
            · next hgate => exact Or.inr (Or.inl ⟨who, hwho, by simpa using hgate, rfl⟩)
        · exact admitted_finish ((hlists _).2 (Or.inr rfl))
    | stop => exact ⟨hk, trivial⟩
  other := by
    intro s pc a s' pc' pc₂ hk hpc hpc₂ _ ho ha
    obtain ⟨htable, hasked⟩ := (acts_of_act ha).grows hk.sound hpc ho
    exact ⟨hpc₂.mono htable hasked, trivial⟩

/-- The initiator that a gate is about to trust, having seen the table empty. -/
def trusts : VisitPc → Option (U8Array 32)
  | .looking who false | .reading who false | .making who | .opening who | .writing who =>
      if who.gate then some who.xPub else none
  | _ => none

/-- Who may still be trusted on first use is known from where the gates stand. -/
theorem Admitted.trusts {late' : U8Array 32 → Prop} (h : Admitted H late s pc)
    (hlate : ∀ x, pc.trusts = some x → late' x) : Admitted H late' s pc := by
  have hmay : ∀ {who}, MayAdd late s who →
      (∀ x, (if who.gate then some who.xPub else none) = some x → late' x) →
      MayAdd late' s who := fun hwho hlate =>
    hwho.imp (List.Subset.refl _) fun hgate _ => hlate _ (by rw [if_pos hgate])
  cases pc with
  | idle | rejected | stopped => trivial
  | looking who first | reading who first =>
      cases first with
      | true => exact h
      | false => exact ⟨h.1, hmay h.2 hlate⟩
  | making | opening | writing => exact hmay h hlate
  | accepted | finished => exact h

end VisitPc

/-- The authorized file, and where each visit stands. -/
abbrev Visits := Procs Visited VisitPc

namespace Visits

open Visited VisitPc

variable {t₀ t : Visits} {file₀ : Option (List UInt8)}

variable (H) in
abbrev step : Visits → Nat × VisitAct → Option Visits := Procs.step (VisitPc.act H)

abbrev orderly (t : Visits) (pa : Nat × VisitAct) : Bool :=
  VisitPc.orderly t.shared (t.pcs pa.1) pa.2

abbrev KeptBy (H : HexCodec) (base : List Entry) (late : U8Array 32 → Prop) (t : Visits) : Prop :=
  t.Holds (Kept H base late) (Admitted H late) fun _ _ => True

theorem keptBy_init (hfile : Sound H ⟨file₀, []⟩) :
    KeptBy H [] (fun _ => True) (Procs.init ⟨file₀, []⟩ .idle) where
  shared := ⟨hfile, List.nil_prefix, fun _ _ => Or.inr (Or.inr trivial)⟩
  each := fun _ => trivial
  apart := fun _ _ _ => trivial

/-- From where the visits stand, who is not on the table has to be of a command or
of a gate that has seen the table empty. -/
theorem KeptBy.since {base : List Entry} {late : U8Array 32 → Prop} (h : KeptBy H base late t) :
    KeptBy H (t.shared.table H) (fun x => ∃ p, (t.pcs p).trusts = some x) t where
  shared := ⟨h.shared.sound, List.prefix_rfl, fun _ hx => Or.inl hx⟩
  each := fun q => (h.each q).trusts fun _ hx => ⟨q, hx⟩
  apart := fun _ _ _ => trivial

/-- Any number of gates and commands are at the file, which can be read and ends
at the end of a line. From the moment it lists somebody, no line is lost, who has
been let in is listed, and who is listed was so then, or was given to a command,
or is the initiator of a gate that had seen the table empty by then. -/
theorem closed_door (hfile : Sound H ⟨file₀, []⟩)
    (h₀ : Reaches (step H) (fun t pa => orderly t pa = true) (Procs.init ⟨file₀, []⟩ .idle) t₀)
    (hlisted : t₀.shared.table H ≠ [])
    (h : Reaches (step H) (fun t pa => orderly t pa = true) t₀ t) :
    t₀.shared.table H <+: t.shared.table H ∧
    (∀ p who, t.pcs p = .accepted who → t.shared.Lists H who.xPub) ∧
    (∀ p who r, t.pcs p = .finished who r → r = .ok () ∧ t.shared.Lists H who.xPub) ∧
    ∀ x, t.shared.Lists H x → t₀.shared.Lists H x ∨
      (∃ who ∈ t.shared.asked, who.gate = false ∧ who.xPub = x) ∨
      ∃ p, (t₀.pcs p).trusts = some x := by
  have hopen : KeptBy H [] (fun _ => True) t₀ :=
    (keptBy_init hfile).run (kept_outline H fun _ _ => trivial) h₀
  have hclosed : KeptBy H (t₀.shared.table H) (fun x => ∃ p, (t₀.pcs p).trusts = some x) t :=
    hopen.since.run (kept_outline H fun hnil => absurd hnil hlisted) h
  refine ⟨hclosed.shared.kept, fun p who hp => ?_, fun p who r hp => ?_, hclosed.shared.new⟩
  · have hadmitted := hclosed.each p
    rw [hp] at hadmitted
    exact hadmitted
  · have hadmitted := hclosed.each p
    rw [hp] at hadmitted
    exact hadmitted

/-- Two gates that both see no file; the first has let `zeros` in. -/
def twoGates : List (Nat × VisitAct) :=
  [(0, .ask ⟨true, zeros, []⟩), (1, .ask ⟨true, ones, []⟩), (0, .lookFor), (1, .lookFor),
    (0, .lookFor), (0, .createDir true), (0, .openFile true), (0, .write (.ok ()))]

/-- The second goes on; another initiator is turned away, and then authorized. -/
def laterVisits : List (Nat × VisitAct) :=
  [(1, .lookFor), (1, .read true), (1, .createDir true), (1, .openFile true),
    (1, .write (.ok ())), (2, .ask ⟨true, basePoint, []⟩), (2, .lookFor), (2, .read true),
    (3, .ask ⟨false, basePoint, ['b']⟩), (3, .lookFor), (3, .read true), (3, .createDir true),
    (3, .openFile true), (3, .write (.ok ()))]

theorem closed_door_twoGates : ∃ t₀ t : Visits,
    t₀.shared.table .ascii = [⟨zeros, []⟩] ∧ (t₀.pcs 1).trusts = some ones ∧
    t.pcs 2 = .rejected ⟨true, basePoint, []⟩ ∧
    t.shared.Lists .ascii ones ∧ t.shared.Lists .ascii basePoint ∧
    ∀ x, t.shared.Lists .ascii x → x = zeros ∨
      (∃ who ∈ t.shared.asked, who.gate = false ∧ who.xPub = x) ∨
      ∃ p, (t₀.pcs p).trusts = some x := by
  have hrun : (run (guarded (step .ascii) fun t pa => orderly t pa = true)
      (Procs.init ⟨none, []⟩ .idle) twoGates).any (fun t₀ =>
        (t₀.shared.table .ascii = [⟨zeros, []⟩] ∧ (t₀.pcs 1).trusts = some ones) ∧
        (run (guarded (step .ascii) fun t pa => orderly t pa = true) t₀ laterVisits).any (fun t =>
          t.pcs 1 = .accepted ⟨true, ones, []⟩ ∧ t.pcs 2 = .rejected ⟨true, basePoint, []⟩ ∧
          t.pcs 3 = .finished ⟨false, basePoint, ['b']⟩ (.ok ()))) = true := by
    decide +kernel
  obtain ⟨t₀, h₀, ht₀⟩ := exists_of_run_any hrun
  obtain ⟨⟨hfirst, htrusts⟩, hlater⟩ := of_decide_eq_true ht₀
  obtain ⟨t, h, ht⟩ := exists_of_run_any hlater
  obtain ⟨haccepted, hrejected, hfinished⟩ := of_decide_eq_true ht
  have hsound : Sound .ascii ⟨none, []⟩ := ⟨rfl, by decide⟩
  obtain ⟨-, hgates, hcommands, hnew⟩ :=
    closed_door hsound h₀ (by rw [hfirst]; exact List.cons_ne_nil _ _) h
  refine ⟨t₀, t, hfirst, htrusts, hrejected, hgates 1 _ haccepted,
    (hcommands 3 _ _ hfinished).2, fun x hx => ?_⟩
  rcases hnew x hx with hx₀ | hrest
  · left
    simpa [Visited.Lists, hfirst] using hx₀
  · exact Or.inr hrest

end Visits

end Authorized

end UsbWs
