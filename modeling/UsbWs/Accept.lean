import UsbWs.Allowlist
import UsbWs.Bootstrap
import UsbWs.Wire

/-!
# A gate without a fixed peer

`tcp-connect --accept` waits for an initiator. It connects to the relay as any
session does, and of what the websocket brings it looks only at frames of the
server that introduce somebody (`introduction`); the authorized file decides
about them. Once an initiator is let in, the gate goes on as the gate of a
tunnel with that peer.

A `Host` is the machine with the file: gates that wait there, one after the
other and stopped at any point, and `usbws authorize` commands in between. In
every run the file is an allowlist that holds the keys of the commands and at
most one other, the first, which was introduced when the list was empty
(`Guarded`).
-/

namespace UsbWs

open Checked Runs Text

variable {SK VK : Type} {C : Crypto SK VK}

def cmdIntroFrom : UInt8 := 0x47

/-- What a gate in accept mode goes by. -/
structure GateSetup (C : Crypto SK VK) where
  hex : HexCodec
  base64 : Base64Codec
  fromBytes : U8Array 32 → Option VK
  relay : Relay VK
  me : Identity C
  kS2c : U8Array 32
  noPinning : Bool

inductive WaitPc (K : Type) where
  | connecting
  | retrying
  | waiting
  | pausing
  | accepted (peer : Peer K)
  | exited
  | panicked
  deriving DecidableEq

/-- The machine with the authorized file. What the websockets have brought to
waiting gates, and the keys that were given to `authorize`, are recorded. -/
structure Host (K : Type) where
  pc : WaitPc K
  file : Option (List UInt8)
  rcvd : List Bytes
  commanded : List (U8Array 32)

inductive HostAct where
  | connect (connected sent : Bool) (next : WsNext)
  | backoff
  | recv (next : WsNext) (readable : Bool) (ops : Authorized.FileOps)
  | ctrlC
  | start
  | authorize (invite : List Char) (ops : Authorized.FileOps)

variable (g : GateSetup C)

/-- The initiator that a string introduces, if it is a frame of the server with
CMD_INTRO_FROM and a body that can be decoded. -/
def introduction (b : Bytes) : Checked (Option (Peer VK)) := do
  match ← decodeServerFrame C b g.kS2c g.me.xPriv g.relay.serverXPub g.relay.serverEdVk with
  | none => return none
  | some inner =>
      if ← hasCmd inner cmdIntroFrom then
        match ← decodeIntroFromChecked g.fromBytes (← sliceFrom inner 3) with
        | .ok peer => return some peer
        | .error _ => return none
      else return none

/-- All of the operations succeed. -/
def Authorized.FileOps.succeeds : Authorized.FileOps → Bool
  | ⟨true, true, true, .ok ()⟩ => true
  | _ => false

theorem Authorized.FileOps.eq_succeed {ops : Authorized.FileOps} (h : ops.succeeds = true) :
    ops = .succeed := by
  unfold succeeds at h
  split at h
  · rfl
  · cases h

namespace Host

def init {K : Type} : Host K := ⟨.connecting, none, [], []⟩

/-- What a gate that waits makes of a binary message. -/
def hear (readable : Bool) (ops : Authorized.FileOps) (h : Host VK) (b : Bytes) : Host VK :=
  match introduction g b with
  | .ok none => { h with rcvd := h.rcvd ++ [b] }
  | .ok (some peer) =>
      match Authorized.authorizeInitiator g.hex g.noPinning readable ops peer h.file with
      | (some peer, file) => { h with pc := .accepted peer, file, rcvd := h.rcvd ++ [b] }
      | (none, file) => { h with file, rcvd := h.rcvd ++ [b] }
  | .error _ => { h with pc := .panicked }

/-- One step of the gate that waits, the start of another one, or a command. -/
def step (h : Host VK) : HostAct → Option (Host VK)
  | .connect connected sent next =>
      match h.pc with
      | .connecting =>
          match connectAndHandshake C g.relay g.me g.kS2c connected sent next with
          | .ok true => some { h with pc := .waiting }
          | .ok false => some { h with pc := .retrying }
          | .error _ => some { h with pc := .panicked }
      | _ => none
  | .backoff =>
      match h.pc with
      | .retrying | .pausing => some { h with pc := .connecting }
      | _ => none
  | .recv next readable ops =>
      match h.pc with
      | .waiting =>
          match next with
          | .binary b => some (h.hear g readable ops b)
          | .close | .none | .err => some { h with pc := .pausing }
          | .ping _ | .other => some h
      | _ => none
  | .ctrlC =>
      match h.pc with
      | .retrying | .waiting => some { h with pc := .exited }
      | _ => none
  | .start => some { h with pc := .connecting }
  | .authorize invite ops =>
      match decodeQr g.base64 g.fromBytes invite with
      | .ok peer =>
          some { h with file := (Authorized.add g.hex ops peer.xPub peer.nick h.file).2,
                        commanded := h.commanded ++ [peer.xPub] }
      | .error _ => some h

end Host

/-- A string of the server's that introduces the peer. -/
def Introduces (b : Bytes) (peer : Peer VK) : Prop :=
  ∃ inner f, FromServer C g.relay g.me g.kS2c b inner f ∧ 3 ≤ inner.length ∧
    inner.getD 2 0 = cmdIntroFrom ∧ decodeIntroFrom g.fromBytes (inner.drop 3) = .ok peer

variable {g}

/-- Whatever the string is, nothing panics. -/
theorem introduction_cases (b : Bytes) :
    ∃ r, introduction g b = .ok r ∧ ∀ peer, r = some peer ↔ Introduces g b peer := by
  obtain ⟨r, hr⟩ := decodeServerFrame_ok (C := C) b g.kS2c g.me.xPriv g.relay.serverXPub
    g.relay.serverEdVk
  have hiff : ∀ inner, r = some inner ↔ ∃ f, FromServer C g.relay g.me g.kS2c b inner f :=
    fun inner => by rw [← decodeServerFrame_iff, hr, Except.ok.injEq]
  rw [introduction, hr, ok_bind]
  cases r with
  | none =>
      refine ⟨none, rfl, fun peer => iff_of_false (by simp) ?_⟩
      rintro ⟨inner, f, hf, _⟩
      cases (hiff inner).2 ⟨f, hf⟩
  | some inner =>
      simp only [hasCmd_eq, ok_bind]
      have hall : ∀ peer, Introduces g b peer ↔
          (3 ≤ inner.length ∧ inner.getD 2 0 = cmdIntroFrom) ∧
            decodeIntroFrom g.fromBytes (inner.drop 3) = .ok peer := by
        intro peer
        constructor
        · rintro ⟨inner', f, hf, hlen, hcmd, hpeer⟩
          cases (hiff inner').2 ⟨f, hf⟩
          exact ⟨⟨hlen, hcmd⟩, hpeer⟩
        · rintro ⟨⟨hlen, hcmd⟩, hpeer⟩
          obtain ⟨f, hf⟩ := (hiff inner).1 rfl
          exact ⟨inner, f, hf, hlen, hcmd, hpeer⟩
      by_cases hcmd : 3 ≤ inner.length ∧ inner.getD 2 0 = cmdIntroFrom
      · rw [if_pos (decide_eq_true hcmd), sliceFrom_of_le hcmd.1, ok_bind,
          decodeIntroFromChecked_eq, ok_bind]
        cases hpeer : decodeIntroFrom g.fromBytes (inner.drop 3) with
        | ok p =>
            refine ⟨some p, rfl, fun peer => ?_⟩
            rw [hall, hpeer, and_iff_right hcmd, Option.some.injEq, Except.ok.injEq]
        | error e =>
            refine ⟨none, rfl, fun peer => iff_of_false (by simp) ?_⟩
            rw [hall, hpeer]
            exact fun h => by cases h.2
      · rw [if_neg (by simpa using hcmd)]
        refine ⟨none, rfl, fun peer => iff_of_false (by simp) ?_⟩
        rw [hall]
        exact fun h => hcmd h.1

/-- On a file that is an allowlist, an initiator is let in if the list is empty
or lists it, and the file is then the list with it. -/
theorem authorizeInitiator_cases {H : HexCodec} {file : Option (List UInt8)}
    {l : Allowlist (U8Array 32) (List Char)} (hrep : Authorized.Represents H file l)
    {peer : Peer VK} (hline : '\n' ∉ peer.nick) :
    ((l.entries = [] ∨ l.Lists peer.xPub) ∧ ∃ file',
      Authorized.authorizeInitiator H false true .succeed peer file = (some peer, file') ∧
        Authorized.Represents H file' (l.introduce peer.xPub (trim peer.nick)).2) ∨
    (¬ (l.entries = [] ∨ l.Lists peer.xPub) ∧
      Authorized.authorizeInitiator H false true .succeed peer file = (none, file)) := by
  obtain ⟨-, hrep'⟩ := Authorized.perform_refines (.introduce peer) hline hrep
  simp only [Authorized.perform, Authorized.intend] at hrep'
  by_cases hnil : l.entries = []
  · have htofu : Authorized.authorizeInitiator H false true .succeed peer file =
        (some peer, (Authorized.add H .succeed peer.xPub peer.nick file).2) := by
      simp [Authorized.authorizeInitiator, hrep.load, Authorized.table_eq_nil.2 hnil]
    refine Or.inl ⟨Or.inl hnil, _, htofu, ?_⟩
    rw [htofu, Allowlist.introduce, if_pos hnil] at hrep'
    rwa [Allowlist.introduce, if_pos hnil]
  · have hne : Authorized.table l ≠ [] := mt Authorized.table_eq_nil.1 hnil
    by_cases hx : l.Lists peer.xPub
    · refine Or.inl ⟨Or.inr hx, file, ?_, by rwa [Allowlist.introduce, if_neg hnil]⟩
      simp [Authorized.authorizeInitiator, hrep.load, hne, Authorized.contains_table.2 hx]
    · refine Or.inr ⟨not_or.2 ⟨hnil, hx⟩, ?_⟩
      simp [Authorized.authorizeInitiator, hrep.load, hne, mt Authorized.contains_table.1 hx]

namespace Host

/-- The file operations succeed, and the nicks of those who are introduced or
given to `authorize` are lines. -/
def orderly (g : GateSetup C) (_ : Host VK) : HostAct → Bool
  | .recv (.binary b) readable ops =>
      readable && ops.succeeds &&
        match introduction g b with
        | .ok (some peer) => '\n' ∉ peer.nick
        | _ => true
  | .authorize invite ops =>
      ops.succeeds &&
        match decodeQr g.base64 g.fromBytes invite with
        | .ok peer => '\n' ∉ peer.nick
        | .error _ => true
  | _ => true

/-- The file is an allowlist; what it lists was given to `authorize`, or is the
first on it and was introduced; and who has been let in is on it. -/
structure Guarded (g : GateSetup C) (h : Host VK) (l : Allowlist (U8Array 32) (List Char)) :
    Prop where
  represents : Authorized.Represents g.hex h.file l
  commanded : ∀ x ∈ h.commanded, l.Lists x
  trusted : ∀ x, l.Lists x → x ∈ h.commanded ∨ (l.entries.head?.map Prod.fst = some x ∧
    ∃ b ∈ h.rcvd, ∃ peer, Introduces g b peer ∧ peer.xPub = x)
  accepted : ∀ peer, h.pc = .accepted peer → l.Lists peer.xPub ∧ ∃ b ∈ h.rcvd, Introduces g b peer
  sane : h.pc ≠ .panicked

variable {h h' : Host VK} {l : Allowlist (U8Array 32) (List Char)}

theorem guarded_init (g : GateSetup C) : Guarded g Host.init .empty where
  represents := Authorized.represents_empty
  commanded := fun x hx => by cases hx
  trusted := fun x hx => by cases hx
  accepted := fun peer hpc => by cases hpc
  sane := fun hpc => by cases hpc

/-- Nobody is let in. -/
theorem Guarded.move (hg : Guarded g h l) (pc : WaitPc VK) (rcvd : List Bytes)
    (hrcvd : ∀ b ∈ h.rcvd, b ∈ rcvd) (hacc : ∀ peer, pc ≠ .accepted peer)
    (hsane : pc ≠ .panicked) : Guarded g { h with pc, rcvd } l where
  represents := hg.represents
  commanded := hg.commanded
  trusted := fun x hx => by
    rcases hg.trusted x hx with hcmd | ⟨hhead, b, hb, hintro⟩
    · exact Or.inl hcmd
    · exact Or.inr ⟨hhead, b, hrcvd b hb, hintro⟩
  accepted := fun peer hpc => absurd hpc (hacc peer)
  sane := hsane

/-- An initiator is let in. -/
theorem Guarded.letIn (hg : Guarded g h l) {b : Bytes} {peer : Peer VK}
    {file : Option (List UInt8)} (hb : Introduces g b peer)
    (hin : l.entries = [] ∨ l.Lists peer.xPub)
    (hrep : Authorized.Represents g.hex file (l.introduce peer.xPub (trim peer.nick)).2) :
    Guarded g { h with pc := .accepted peer, file, rcvd := h.rcvd ++ [b] }
      (l.introduce peer.xPub (trim peer.nick)).2 := by
  have hmem : ∃ b' ∈ h.rcvd ++ [b], Introduces g b' peer :=
    ⟨b, List.mem_append_right _ (List.mem_singleton_self b), hb⟩
  have hold := (hg.move .waiting (h.rcvd ++ [b]) (fun b' hb' => List.mem_append_left _ hb')
    (by simp) (by simp)).trusted
  rcases l.introduce_cases peer.xPub (trim peer.nick) with ⟨hnil, heq⟩ | ⟨hne, heq⟩
  · rw [heq] at hrep ⊢
    have hlists : ∀ x, (l.authorize peer.xPub (trim peer.nick)).Lists x ↔ x = peer.xPub :=
      fun x => by rw [l.lists_authorize, or_iff_right (l.not_lists_of_nil hnil)]
    refine ⟨hrep, fun x hx => absurd (hg.commanded x hx) (l.not_lists_of_nil hnil), ?_, ?_, by simp⟩
    · intro x hx
      obtain rfl := (hlists x).1 hx
      refine Or.inr ⟨?_, b, List.mem_append_right _ (List.mem_singleton_self b), peer, hb, rfl⟩
      rw [l.entries_authorize (l.not_lists_of_nil hnil), hnil]
      rfl
    · rintro p hpc
      cases hpc
      exact ⟨(hlists _).2 rfl, hmem⟩
  · rw [heq] at hrep ⊢
    refine ⟨hrep, hg.commanded, hold, ?_, by simp⟩
    rintro p hpc
    cases hpc
    exact ⟨hin.resolve_left hne, hmem⟩

/-- A command adds a key. -/
theorem Guarded.authorize (hg : Guarded g h l) {peer : Peer VK} (hline : '\n' ∉ peer.nick) :
    Guarded g
      { h with file := (Authorized.add g.hex .succeed peer.xPub peer.nick h.file).2,
               commanded := h.commanded ++ [peer.xPub] }
      (l.authorize peer.xPub (trim peer.nick)) := by
  obtain ⟨file', hadd, hrep⟩ := Authorized.add_represents hg.represents hline peer.xPub
  rw [hadd]
  refine ⟨hrep, fun x hx => ?_, fun x hx => ?_, fun p hpc => ?_, hg.sane⟩
  · rw [l.lists_authorize]
    rcases List.mem_append.1 hx with hx | hx
    · exact Or.inl (hg.commanded x hx)
    · exact Or.inr (List.mem_singleton.1 hx)
  · rcases l.lists_authorize.1 hx with hx | rfl
    · rcases hg.trusted x hx with hcmd | ⟨hhead, hintro⟩
      · exact Or.inl (List.mem_append_left _ hcmd)
      · exact Or.inr ⟨l.head?_authorize hhead, hintro⟩
    · exact Or.inl (List.mem_append_right _ (List.mem_singleton_self _))
  · obtain ⟨hlists, hintro⟩ := hg.accepted p hpc
    exact ⟨l.lists_authorize.2 (Or.inl hlists), hintro⟩

/-- A binary message is heard. -/
theorem Guarded.hear (hp : g.noPinning = false) (hg : Guarded g h l) (hpc : h.pc = .waiting)
    {b : Bytes} {readable : Bool} {ops : Authorized.FileOps}
    (hline : orderly g h (.recv (.binary b) readable ops) = true) :
    ∃ l', Guarded g (h.hear g readable ops b) l' := by
  simp only [orderly, Bool.and_eq_true] at hline
  obtain ⟨⟨rfl, hops⟩, hline⟩ := hline
  cases Authorized.FileOps.eq_succeed hops
  have hstay : Guarded g { h with rcvd := h.rcvd ++ [b] } l :=
    hg.move _ _ (fun b' hb' => List.mem_append_left _ hb') (by simp [hpc]) (by simp [hpc])
  obtain ⟨r, hr, hiff⟩ := introduction_cases (g := g) b
  cases r with
  | none =>
      refine ⟨l, ?_⟩
      rw [Host.hear, hr]
      exact hstay
  | some peer =>
      have hb := (hiff peer).1 rfl
      simp only [hr, decide_eq_true_eq] at hline
      rcases authorizeInitiator_cases hg.represents hline with
        ⟨hin, file, hauth, hrep⟩ | ⟨hout, hauth⟩
      · refine ⟨(l.introduce peer.xPub (trim peer.nick)).2, ?_⟩
        rw [Host.hear, hr]
        simp only [hp, hauth]
        exact hg.letIn hb hin hrep
      · refine ⟨l, ?_⟩
        rw [Host.hear, hr]
        simp only [hp, hauth]
        exact hstay

theorem Guarded.step (hp : g.noPinning = false) (hg : Guarded g h l) {a : HostAct}
    (hline : orderly g h a = true) (hs : h.step g a = some h') : ∃ l', Guarded g h' l' := by
  have hmove : ∀ pc : WaitPc VK, (∀ peer, pc ≠ .accepted peer) → pc ≠ .panicked →
      Guarded g { h with pc } l := fun pc hacc hsane =>
    hg.move pc h.rcvd (fun _ hb => hb) hacc hsane
  cases a with
  | connect connected sent next =>
      obtain ⟨r, hr, -⟩ := connectAndHandshake_cases g.relay g.me g.kS2c connected sent next
      simp only [Host.step, hr] at hs
      split at hs
      · cases r <;> cases hs <;> exact ⟨l, hmove _ (by simp) (by simp)⟩
      · cases hs
  | backoff =>
      simp only [Host.step] at hs
      split at hs <;> cases hs <;> exact ⟨l, hmove _ (by simp) (by simp)⟩
  | recv next readable ops =>
      simp only [Host.step] at hs
      split at hs
      · next hpc =>
          cases next with
          | binary b =>
              cases hs
              exact hg.hear hp hpc hline
          | close | none | err =>
              cases hs
              exact ⟨l, hmove _ (by simp) (by simp)⟩
          | ping | other =>
              cases hs
              exact ⟨l, hg⟩
      · cases hs
  | ctrlC =>
      simp only [Host.step] at hs
      split at hs <;> cases hs <;> exact ⟨l, hmove _ (by simp) (by simp)⟩
  | start =>
      cases hs
      exact ⟨l, hmove _ (by simp) (by simp)⟩
  | authorize invite ops =>
      simp only [Host.step] at hs
      split at hs <;> cases hs
      · next peer hqr =>
          simp only [orderly, hqr, Bool.and_eq_true, decide_eq_true_eq] at hline
          cases Authorized.FileOps.eq_succeed hline.1
          exact ⟨_, hg.authorize hline.2⟩
      · exact ⟨l, hg⟩

theorem exists_guarded (hp : g.noPinning = false)
    (hr : Reaches (Host.step g) (fun h a => orderly g h a = true) Host.init h) :
    ∃ l, Guarded g h l :=
  hr.invariant (I := fun h => ∃ l, Guarded g h l) ⟨_, guarded_init g⟩
    fun hline hs ⟨_, hg⟩ => hg.step hp hline hs

/-- A gate that waits lets in whom the server introduces to it, if the list is
empty or lists the key. -/
theorem Guarded.hear_iff (hp : g.noPinning = false) (hg : Guarded g h l) (hpc : h.pc = .waiting)
    {b : Bytes} {peer : Peer VK} (hb : Introduces g b peer) (hline : '\n' ∉ peer.nick) :
    (h.hear g true .succeed b).pc = .accepted peer ↔ l.entries = [] ∨ l.Lists peer.xPub := by
  obtain ⟨r, hr, hiff⟩ := introduction_cases (g := g) b
  rw [Host.hear, hr, (hiff peer).2 hb]
  rcases authorizeInitiator_cases hg.represents hline with ⟨hin, file, hauth, _⟩ | ⟨hout, hauth⟩
  · simp only [hp, hauth]
    exact iff_of_true trivial hin
  · simp only [hp, hauth]
    refine iff_of_false ?_ hout
    rw [hpc]
    exact fun h => by cases h

end Host

/-! ## The gate of a pair -/

/-- The setup of the gate of a pair, without home's invite. -/
def Pair.gateSetup (P : Pair C) (hex : HexCodec) (base64 : Base64Codec)
    (fromBytes : U8Array 32 → Option VK) : GateSetup C where
  hex
  base64
  fromBytes
  relay := ⟨P.server.xPub, P.server.edPub⟩
  me := P.me .connect
  kS2c := (P.derive (C.x25519 (P.me .connect).xPriv P.server.xPub)).2
  noPinning := false

/-- What the server brings to the gate when home has introduced itself. -/
def Pair.introFrom (P : Pair C) (asBytes : VK → U8Array 32) (nonce : U8Array 24)
    (messageId : UInt16) : Checked Bytes :=
  buildServerBound C nonce P.server (P.me .connect).xPub (P.relayKeys .connect).2
    (packInner messageId cmdIntroFrom
      ((P.me .listen).xPub.val ++ (asBytes (P.me .listen).edPub).val ++ utf8 (P.nick .listen)))

theorem Pair.introduces_home (hC : C.Lawful) (fromBytes : U8Array 32 → Option VK)
    (asBytes : VK → U8Array 32) (hkey : ∀ key, fromBytes (asBytes key) = some key) (P : Pair C)
    (hex : HexCodec) (base64 : Base64Codec) (nonce : U8Array 24) (messageId : UInt16) :
    ∃ b, P.introFrom asBytes nonce messageId = .ok b ∧
      Introduces (P.gateSetup hex base64 fromBytes) b (P.peer .connect) := by
  generalize hg : P.gateSetup hex base64 fromBytes = g
  have hkeys : (P.relayKeys .connect).2 = g.kS2c := by
    rw [P.relayKeys_eq hC, ← hg]
    rfl
  have hdecode : ∀ inner, decodeServerFrame C (sealedFrame hC nonce P.server (P.me .connect).xPub
      (.zero 8) g.kS2c inner).bytes g.kS2c g.me.xPriv g.relay.serverXPub g.relay.serverEdVk =
        .ok (some inner) := fun inner => by
    have hopened := opened_sealedFrame hC nonce (.zero 8) g.kS2c inner P.server (P.me .connect)
    rw [decodeServerFrame_bytes, if_neg (by simp only [sealedFrame, U8Array.xor_xor]; simp), ← hg]
    exact congrArg Except.ok hopened
  rw [introFrom, hkeys]
  obtain ⟨f, hf⟩ := decodeServerFrame_iff.1 (hdecode _)
  refine ⟨_, buildFrame_eq hC .., _, f, hf, by simp [packInner], rfl, ?_⟩
  rw [← hg]
  exact decodeIntroFrom_identity hkey (P.me .listen) (P.nick .listen)

def gateSetup : GateSetup Crypto.keyed := aliceAndBob.gateSetup .ascii .urlSafeNoPad some

/-- Home is given to `authorize`, and a gate that waits is connected. -/
def authorizedHost : List HostAct :=
  [.authorize (makeQr .urlSafeNoPad id (aliceAndBob.me .listen) []) .succeed,
    .connect false false .err, .backoff,
    .connect true true (handshakeOk aliceAndBob.server (aliceAndBob.me .connect)
      (aliceAndBob.relayKeys .connect).2)]

theorem exists_authorizedHost :
    ∃ h, Reaches (Host.step gateSetup) (fun h a => Host.orderly gateSetup h a = true) Host.init h ∧
      h.pc = .waiting ∧ h.commanded = [(aliceAndBob.me .listen).xPub] := by
  have hrun : (run (guarded (Host.step gateSetup) fun h a => Host.orderly gateSetup h a = true)
      Host.init authorizedHost).any
      (fun h => h.pc = .waiting ∧ h.commanded = [(aliceAndBob.me .listen).xPub]) = true := by
    decide +kernel
  obtain ⟨h, hr, hp⟩ := exists_of_run_any hrun
  exact ⟨h, hr, of_decide_eq_true hp⟩

/-! ## Who is let in -/

/-- Whatever gates wait on a machine, one after the other and stopped at any
point, whatever they are brought and whatever is given to `authorize` in
between, as long as the file operations succeed and the nicks are lines: the
authorized file is an allowlist with every key that was given to `authorize` and
at most one other, its first, which the server introduced; who has been let in
is on it, and was introduced by the server; and a gate that waits lets in
exactly those on the list, or anybody as long as it is empty. Nothing panics. -/
theorem Host.lets_in (hp : g.noPinning = false)
    {h : Host VK} (hr : Reaches (Host.step g) (fun h a => Host.orderly g h a = true) Host.init h) :
    ∃ l, Host.Guarded g h l ∧
      ∀ b peer, h.pc = .waiting → Introduces g b peer → '\n' ∉ peer.nick →
        ((h.hear g true .succeed b).pc = .accepted peer ↔ l.entries = [] ∨ l.Lists peer.xPub) := by
  obtain ⟨l, hg⟩ := Host.exists_guarded hp hr
  exact ⟨l, hg, fun b peer hpc hb hline => hg.hear_iff hp hpc hb hline⟩

theorem Host.lets_in_home :
    ∃ h l b, Host.Guarded gateSetup h l ∧ h.commanded = [(aliceAndBob.me .listen).xPub] ∧
      (h.hear gateSetup true .succeed b).pc = .accepted (aliceAndBob.peer .connect) := by
  obtain ⟨h, hr, hpc, hcmd⟩ := exists_authorizedHost
  obtain ⟨l, hg, hiff⟩ := Host.lets_in rfl hr
  obtain ⟨b, -, hintro⟩ := aliceAndBob.introduces_home Crypto.keyed_lawful
    some id (fun _ => rfl) .ascii .urlSafeNoPad (.zero 24) 1
  have hlists : l.Lists (aliceAndBob.me .listen).xPub := hg.commanded _ (by simp [hcmd])
  exact ⟨h, l, b, hg, hcmd, (hiff b _ hpc hintro (by decide)).2 (Or.inr hlists)⟩

/-- A gate that waits and is brought home's introduction goes on as the gate of
the pair, if home was given to `authorize` or there is no file yet: its context
is the one it would have had with home's invite. -/
theorem Host.joins_pair (hC : C.Lawful) (fromBytes : U8Array 32 → Option VK)
    (asBytes : VK → U8Array 32) (hkey : ∀ key, fromBytes (asBytes key) = some key) (P : Pair C)
    (hex : HexCodec) (base64 : Base64Codec) (nonce : U8Array 24) (messageId : UInt16)
    {h : Host VK} (hr : Reaches (Host.step (P.gateSetup hex base64 fromBytes))
      (fun h a => orderly (P.gateSetup hex base64 fromBytes) h a = true) Host.init h)
    (hpc : h.pc = .waiting) (hline : '\n' ∉ P.nick .listen)
    (hhome : (P.me .listen).xPub ∈ h.commanded ∨ h.file = none) :
    ∃ b peer, P.introFrom asBytes nonce messageId = .ok b ∧
      (h.hear (P.gateSetup hex base64 fromBytes) true .succeed b).pc = .accepted peer ∧
      buildCtx P.derive P.server.xPub (P.me .connect) peer = P.ctx .connect := by
  obtain ⟨b, hb, hintro⟩ := P.introduces_home hC fromBytes asBytes hkey hex base64 nonce messageId
  obtain ⟨l, hg⟩ := Host.exists_guarded rfl hr
  refine ⟨b, P.peer .connect, hb, (hg.hear_iff rfl hpc hintro hline).2 ?_, rfl⟩
  rcases hhome with hcmd | hnone
  · exact Or.inr (hg.commanded _ hcmd)
  · have hload := hg.represents.load
    rw [hnone, Authorized.load, Except.ok.injEq, eq_comm] at hload
    exact Or.inl (Authorized.table_eq_nil.1 hload)

theorem Host.joins_pair_home :
    ∃ (h : Host (U8Array 32)) (b : Bytes) (peer : Peer (U8Array 32)),
      h.commanded = [(aliceAndBob.me .listen).xPub] ∧
      (h.hear gateSetup true .succeed b).pc = .accepted peer ∧
      buildCtx aliceAndBob.derive aliceAndBob.server.xPub (aliceAndBob.me .connect) peer =
        aliceAndBob.ctx .connect := by
  obtain ⟨h, hr, hpc, hcmd⟩ := exists_authorizedHost
  obtain ⟨b, peer, -, hacc, hctx⟩ := Host.joins_pair Crypto.keyed_lawful some id
    (fun _ => rfl) aliceAndBob .ascii .urlSafeNoPad (.zero 24) 1 hr hpc (by decide)
    (Or.inl (by simp [hcmd]))
  exact ⟨h, b, peer, hcmd, hacc, hctx⟩

end UsbWs
