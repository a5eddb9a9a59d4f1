import UsbWs.Cli
import UsbWs.SerialStream
import UsbWs.Wire

/-!
# From the command line to a mode

`main` takes the first argument for the name of a mode and parses the others.
The result is a `Command`, the way it is called, or a peer that could not be
resolved.

Whatever is on a command line, a mode works with what was said there: an
argument is taken for a positional only if it has no dashes, a value belongs to
the flag in front of it, and the peer is the one of an invite that was given
(`starts_only_said`). And two command lines with each other's invites start the
two ends that everything else here is about, wherever among the arguments the
invites stand (`starts_pair`).
-/

namespace UsbWs

open Text

/-! ## Numbers -/

/-- The rest of `s.parse()` of an unsigned type, after the digits of `n`. -/
def parseUnsigned.digits (max n : Nat) : List Char → Option Nat
  | [] => some n
  | c :: cs =>
      if c.isDigit then
        if 10 * n + (c.toNat - 48) ≤ max then digits max (10 * n + (c.toNat - 48)) cs else none
      else none

/-- `s.parse()` of an unsigned type with a largest value. -/
def parseUnsigned (max : Nat) : List Char → Option Nat
  | [] | ['+'] => none
  | '+' :: cs => parseUnsigned.digits max 0 cs
  | cs => parseUnsigned.digits max 0 cs

def parseU16 : List Char → Option Nat := parseUnsigned (2 ^ 16 - 1)

def parseU32 : List Char → Option Nat := parseUnsigned (2 ^ 32 - 1)

def defaultBaud : Nat := 115200

namespace parseUnsigned

variable {max n : Nat}

theorem digits_le {cs : List Char} {m : Nat} (hn : n ≤ max) (h : digits max n cs = some m) :
    m ≤ max := by
  induction cs generalizing n with
  | nil =>
      cases h
      exact hn
  | cons c cs ih =>
      rw [digits] at h
      split at h
      · split at h
        · next hle => exact ih hle h
        · cases h
      · cases h

theorem digits_append (cs ds : List Char) :
    digits max n (cs ++ ds) = (digits max n cs).bind fun m => digits max m ds := by
  induction cs generalizing n with
  | nil => rfl
  | cons c cs ih =>
      rw [List.cons_append, digits, digits]
      split
      · split
        · exact ih
        · rfl
      · rfl

theorem digits_digitChar {d : Nat} (hd : d < 10) (hle : 10 * n + d ≤ max) :
    digits max n [d.digitChar] = some (10 * n + d) := by
  have hvalue : d.digitChar.toNat - 48 = d :=
    (show ∀ d < 10, d.digitChar.toNat - 48 = d by decide) d hd
  have hdigit : d.digitChar.isDigit = true := by
    rw [Nat.isDigit_digitChar, decide_eq_true_eq]
    exact hd
  rw [digits, if_pos hdigit, hvalue, if_pos hle, digits]

/-- What is printed in decimals is read back, as far as the type goes. -/
theorem digits_toDigits {m : Nat} (hm : m ≤ max) : digits max 0 (Nat.toDigits 10 m) = some m := by
  induction m using Nat.strongRecOn with
  | ind m ih =>
      rw [Nat.toDigits_eq_if (by decide)]
      split
      · next hlt => rw [digits_digitChar hlt (by omega), Nat.mul_zero, Nat.zero_add]
      · next hge =>
          rw [digits_append, ih (m / 10) (by omega) (by omega), Option.bind_some,
            digits_digitChar (Nat.mod_lt m (by decide)) (by omega), Nat.div_add_mod]

end parseUnsigned

theorem parseUnsigned_le {max m : Nat} {cs : List Char} (h : parseUnsigned max cs = some m) :
    m ≤ max := by
  rw [parseUnsigned.eq_def] at h
  split at h
  · cases h
  · cases h
  · exact parseUnsigned.digits_le (Nat.zero_le _) h
  · exact parseUnsigned.digits_le (Nat.zero_le _) h

theorem parseUnsigned_toDigits {max m : Nat} (hm : m ≤ max) :
    parseUnsigned max (Nat.toDigits 10 m) = some m := by
  have hread := parseUnsigned.digits_toDigits hm
  have hdigits : ∀ c ∈ Nat.toDigits 10 m, c.isDigit = true := fun c hc =>
    Nat.isDigit_of_mem_toDigits (by decide) (by decide) hc
  cases hcs : Nat.toDigits 10 m with
  | nil => exact absurd hcs (Nat.toDigits_ne_nil)
  | cons c cs =>
      have hc : c ≠ '+' := by
        rintro rfl
        have hplus := hdigits '+' (hcs ▸ List.mem_cons_self)
        cases hplus
      rw [hcs] at hread
      rw [parseUnsigned.eq_def]
      split
      · next heq => cases heq
      · next heq =>
          cases heq
          exact absurd rfl hc
      · next heq =>
          cases heq
          exact absurd rfl hc
      · exact hread

/-! ## The modes -/

inductive Command (K : Type) where
  | keygen
  | share (dev : Arg) (baud : Nat) (peer : Peer K)
  | attach (peer : Peer K) (link : Option Arg)
  | tcpListen (port : Nat) (peer : Peer K)
  | tcpConnect (target : Arg) (peer : Peer K)
  | tcpConnectAccept (target : Arg)
  | authorized
  | authorize (peer : Peer K)

/-- What `main` comes to. -/
inductive Start (K : Type) where
  | runs (command : Command K)
  | usage
  | fails (e : PeerError)

section Names

def peerFlag : Arg := ['p', 'e', 'e', 'r']
def baudFlag : Arg := ['b', 'a', 'u', 'd']
def linkFlag : Arg := ['l', 'i', 'n', 'k']
def acceptFlag : Arg := ['a', 'c', 'c', 'e', 'p', 't']

def keygenName : Arg := ['k', 'e', 'y', 'g', 'e', 'n']
def shareName : Arg := ['s', 'h', 'a', 'r', 'e']
def attachName : Arg := ['a', 't', 't', 'a', 'c', 'h']
def tcpListenName : Arg := ['t', 'c', 'p', '-', 'l', 'i', 's', 't', 'e', 'n']
def tcpConnectName : Arg := ['t', 'c', 'p', '-', 'c', 'o', 'n', 'n', 'e', 'c', 't']
def authorizedName : Arg := ['a', 'u', 't', 'h', 'o', 'r', 'i', 'z', 'e', 'd']
def authorizeName : Arg := ['a', 'u', 't', 'h', 'o', 'r', 'i', 'z', 'e']

end Names

section Main

variable {K : Type} (B : Base64Codec) (fromBytes : U8Array 32 → Option K)
  (usbwsPeer : Option Arg)

/-- Run a mode with the peer that was resolved. -/
def Start.withPeer : Except PeerError (Peer K) → (Peer K → Command K) → Start K
  | .error e, _ => .fails e
  | .ok peer, mode => .runs (mode peer)

/-- The arms of `main`, for a command and the parsed arguments after it. -/
def mainArm (cmd : Arg) (cli : Cli) : Start K :=
  if cmd = keygenName then .runs .keygen
  else if cmd = shareName then
    match cli.positionals.head? with
    | none => .usage
    | some dev =>
        let baud := ((cli.flag baudFlag).bind parseU32).getD defaultBaud
        .withPeer (resolvePeer B fromBytes cli none usbwsPeer) (.share dev baud)
  else if cmd = attachName then
    .withPeer (resolvePeer B fromBytes cli (some 0) usbwsPeer) fun peer =>
      .attach peer (cli.flag linkFlag)
  else if cmd = tcpListenName then
    match cli.positionals.head?.bind parseU16 with
    | none => .usage
    | some port => .withPeer (resolvePeer B fromBytes cli none usbwsPeer) (.tcpListen port)
  else if cmd = tcpConnectName then
    match cli.positionals.head? with
    | none => .usage
    | some target =>
        if (cli.flag acceptFlag).isSome then .runs (.tcpConnectAccept target)
        else .withPeer (resolvePeer B fromBytes cli none usbwsPeer) (.tcpConnect target)
  else if cmd = authorizedName then .runs .authorized
  else if cmd = authorizeName then
    match (cli.flag peerFlag).or cli.positionals.head? with
    | none => .usage
    | some invite =>
        .withPeer ((decodeQr B fromBytes invite).mapError .invite) .authorize
  else .usage

/-- `main`, with the name of the program in front of the arguments, and the
invite of the environment. -/
def main : List Arg → Start K
  | _ :: cmd :: rest => mainArm B fromBytes usbwsPeer cmd (Cli.parse rest)
  | _ => .usage

end Main

/-! ## Where the parsed arguments come from -/

/-- A flag with a value among arguments: in one argument, in two, or without a
value, which counts as an empty one. -/
def Gives (args : List Arg) (k v : Arg) : Prop :=
  dashes ++ (k ++ '=' :: v) ∈ args ∨
    ([dashes ++ k, v] <:+: args ∧ ¬ dashes <+: v) ∨ (v = [] ∧ dashes ++ k ∈ args)

/-- An argument without dashes. -/
def Typed (args : List Arg) (a : Arg) : Prop := a ∈ args ∧ ¬ dashes <+: a

namespace Cli

/-- What was parsed stands among the arguments. -/
structure Said (args : List Arg) (cli : Cli) : Prop where
  positional : ∀ a ∈ cli.positionals, Typed args a
  flag : ∀ k v, cli.flag k = some v → Gives args k v

theorem Said.push {args : List Arg} {cli : Cli} (h : cli.Said args) {a : Arg}
    (ha : Typed args a) : (cli.push a).Said args where
  positional := by
    intro b hb
    rw [Cli.push, List.mem_append, List.mem_singleton] at hb
    rcases hb with hb | rfl
    · exact h.positional b hb
    · exact ha
  flag := h.flag

theorem Said.insert {args : List Arg} {cli : Cli} (h : cli.Said args) {k v : Arg}
    (hkv : Gives args k v) : (cli.insert k v).Said args where
  positional := h.positional
  flag := by
    intro j w hj
    simp only [Cli.flag, Cli.insert, Function.update_apply] at hj
    split at hj
    · next hjk =>
        cases hj
        exact hjk ▸ hkv
    · exact h.flag j w hj

/-- One turn of the loop takes one argument or two. -/
theorem Said.loop {all : List Arg} {cli : Cli} {args : List Arg} (h : cli.Said all)
    (hargs : args <:+ all) : (parse.loop cli args).Said all := by
  fun_induction parse.loop cli args with
  | case1 cli => exact h
  | case2 cli a rest hstrip ih =>
      exact ih (h.push ⟨hargs.subset List.mem_cons_self, stripPrefix_eq_none.1 hstrip⟩)
        ((List.suffix_cons a rest).trans hargs)
  | case3 cli a rest name hstrip k v hsplit ih =>
      have ha : dashes ++ (k ++ '=' :: v) = a := by
        rw [eq_append_of_stripPrefix hstrip, eq_append_of_splitOnceChar hsplit]
      exact ih (h.insert (Or.inl (ha ▸ hargs.subset List.mem_cons_self)))
        ((List.suffix_cons a rest).trans hargs)
  | case4 cli a name hstrip hsplit next after hnext ih =>
      have ha := eq_append_of_stripPrefix hstrip
      have hpair : [dashes ++ name, next] <:+: all := by
        refine List.IsInfix.trans ?_ hargs.isInfix
        rw [ha]
        exact (List.prefix_append [dashes ++ name, next] after).isInfix
      exact ih (h.insert (Or.inr (Or.inl ⟨hpair, stripPrefix_eq_none.1 hnext⟩)))
        (((List.suffix_cons next after).trans (List.suffix_cons a _)).trans hargs)
  | case5 cli a name hstrip hsplit next after hnext ih =>
      have ha := eq_append_of_stripPrefix hstrip
      exact ih (h.insert (Or.inr (Or.inr ⟨rfl, ha ▸ hargs.subset List.mem_cons_self⟩)))
        ((List.suffix_cons a _).trans hargs)
  | case6 cli a name hstrip hsplit =>
      have ha := eq_append_of_stripPrefix hstrip
      exact h.insert (Or.inr (Or.inr ⟨rfl, ha ▸ hargs.subset List.mem_cons_self⟩))

/-- Nothing is parsed that is not there. -/
theorem said_parse (args : List Arg) : (parse args).Said args :=
  Said.loop ⟨fun _ h => (by cases h), fun _ _ h => (by cases h)⟩ List.suffix_rfl

end Cli

/-! ## What is started -/

section Starts

variable {K : Type} {B : Base64Codec} {fromBytes : U8Array 32 → Option K}
  {usbwsPeer : Option Arg}

/-- An invite was given: after `--peer`, as a positional, or by the environment. -/
def Offered (args : List Arg) (usbwsPeer : Option Arg) (invite : Arg) : Prop :=
  Gives args peerFlag invite ∨ Typed args invite ∨ usbwsPeer = some invite

def Invited (B : Base64Codec) (fromBytes : U8Array 32 → Option K) (args : List Arg)
    (usbwsPeer : Option Arg) (peer : Peer K) : Prop :=
  ∃ invite, decodeQr B fromBytes invite = .ok peer ∧ Offered args usbwsPeer invite

theorem Start.runs_of_withPeer {r : Except PeerError (Peer K)} {mode : Peer K → Command K}
    {command : Command K} (h : Start.withPeer r mode = .runs command) :
    ∃ peer, r = .ok peer ∧ command = mode peer := by
  cases r with
  | error e => cases h
  | ok peer =>
      cases h
      exact ⟨peer, rfl, rfl⟩

theorem decodeQr_of_mapError {invite : Arg} {peer : Peer K}
    (h : (decodeQr B fromBytes invite).mapError PeerError.invite = .ok peer) :
    decodeQr B fromBytes invite = .ok peer := by
  cases hqr : decodeQr B fromBytes invite with
  | error e =>
      rw [hqr] at h
      cases h
  | ok p =>
      rw [hqr] at h
      cases h
      rfl

theorem resolvePeer_invited {args : List Arg} {cli : Cli} (hsaid : cli.Said args)
    {index : Option Nat} {peer : Peer K}
    (h : resolvePeer B fromBytes cli index usbwsPeer = .ok peer) :
    Invited B fromBytes args usbwsPeer peer := by
  rw [resolvePeer] at h
  split at h
  · cases h
  · next invite hinvite =>
      refine ⟨invite, decodeQr_of_mapError h, ?_⟩
      rcases Option.or_eq_some_iff.1 hinvite with hcli | ⟨-, henv⟩
      · rcases Option.or_eq_some_iff.1 hcli with hflag | ⟨-, hpos⟩
        · exact Or.inl (hsaid.flag _ _ hflag)
        · obtain ⟨i, -, hi⟩ := Option.bind_eq_some_iff.1 hpos
          exact Or.inr (Or.inl (hsaid.positional _ (List.mem_of_getElem? hi)))
      · exact Or.inr (Or.inr henv)

/-- What a mode works with, and where it was said. -/
def Grounded (B : Base64Codec) (fromBytes : U8Array 32 → Option K) (args : List Arg)
    (usbwsPeer : Option Arg) : Command K → Prop
  | .keygen | .authorized => True
  | .share dev baud peer => Typed args dev ∧
      (baud = defaultBaud ∨ ∃ v, Gives args baudFlag v ∧ parseU32 v = some baud) ∧
      Invited B fromBytes args usbwsPeer peer
  | .attach peer link => (∀ path, link = some path → Gives args linkFlag path) ∧
      Invited B fromBytes args usbwsPeer peer
  | .tcpListen port peer => (port < 2 ^ 16 ∧ ∃ a, Typed args a ∧ parseU16 a = some port) ∧
      Invited B fromBytes args usbwsPeer peer
  | .tcpConnect target peer => Typed args target ∧ Invited B fromBytes args usbwsPeer peer
  | .tcpConnectAccept target => Typed args target ∧ ∃ v, Gives args acceptFlag v
  | .authorize peer => Invited B fromBytes args usbwsPeer peer

theorem grounded_mainArm {args : List Arg} {cli : Cli} (hsaid : cli.Said args) {cmd : Arg}
    {command : Command K} (h : mainArm B fromBytes usbwsPeer cmd cli = .runs command) :
    Grounded B fromBytes args usbwsPeer command := by
  have hfirst : ∀ {a}, cli.positionals.head? = some a → Typed args a :=
    fun ha => hsaid.positional _ (List.mem_of_head? ha)
  have hresolved : ∀ {index} {mode : Peer K → Command K},
      Start.withPeer (resolvePeer B fromBytes cli index usbwsPeer) mode = .runs command →
      ∃ p, command = mode p ∧ Invited B fromBytes args usbwsPeer p := fun h => by
    obtain ⟨p, hp, hmode⟩ := Start.runs_of_withPeer h
    exact ⟨p, hmode, resolvePeer_invited hsaid hp⟩
  simp only [mainArm] at h
  -- one arm after the other
  split at h
  · cases h
    trivial
  split at h
  · split at h
    · cases h
    · next dev hdev =>
        obtain ⟨p, rfl, hp⟩ := hresolved h
        refine ⟨hfirst hdev, ?_, hp⟩
        cases hbaud : (cli.flag baudFlag).bind parseU32 with
        | none => exact Or.inl rfl
        | some baud =>
            obtain ⟨v, hv, hparse⟩ := Option.bind_eq_some_iff.1 hbaud
            exact Or.inr ⟨v, hsaid.flag _ _ hv, hparse⟩
  split at h
  · obtain ⟨p, rfl, hp⟩ := hresolved h
    exact ⟨fun path hpath => hsaid.flag _ _ hpath, hp⟩
  split at h
  · split at h
    · cases h
    · next port hport =>
        obtain ⟨p, rfl, hp⟩ := hresolved h
        obtain ⟨a, ha, hparse⟩ := Option.bind_eq_some_iff.1 hport
        have hle := parseUnsigned_le hparse
        exact ⟨⟨by omega, a, hfirst ha, hparse⟩, hp⟩
  split at h
  · split at h
    · cases h
    · next target htarget =>
        split at h
        · next hflag =>
            cases h
            obtain ⟨v, hv⟩ := Option.isSome_iff_exists.1 hflag
            exact ⟨hfirst htarget, v, hsaid.flag _ _ hv⟩
        · obtain ⟨p, rfl, hp⟩ := hresolved h
          exact ⟨hfirst htarget, hp⟩
  split at h
  · cases h
    trivial
  split at h
  · split at h
    · cases h
    · next invite hinvite =>
        obtain ⟨p, hp, rfl⟩ := Start.runs_of_withPeer h
        refine ⟨invite, decodeQr_of_mapError hp, ?_⟩
        rcases Option.or_eq_some_iff.1 hinvite with hflag | ⟨-, hpos⟩
        · exact Or.inl (hsaid.flag _ _ hflag)
        · exact Or.inr (Or.inl (hfirst hpos))
  · cases h

variable (B fromBytes usbwsPeer) in
/-- Whatever stands on the command line, a mode that starts works with what was
said there: its peer is the one of an invite that was given, its device or
target an argument without dashes, its port a number that fits, its baud rate
the usual one or one that was given, and it accepts strangers only if that was
asked for. -/
theorem starts_only_said (args : List Arg) (command : Command K)
    (h : main B fromBytes usbwsPeer args = .runs command) :
    Grounded B fromBytes (args.drop 2) usbwsPeer command := by
  rw [main.eq_def] at h
  split at h
  · next program cmd rest => exact grounded_mainArm (Cli.said_parse rest) h
  · cases h

/-- In `tcp-connect --accept= h:1` the target is said, and strangers are. -/
theorem starts_only_said_accept :
    Typed [dashes ++ (acceptFlag ++ ['=']), ['h', ':', '1']] ['h', ':', '1'] ∧
      ∃ v, Gives [dashes ++ (acceptFlag ++ ['=']), ['h', ':', '1']] acceptFlag v :=
  starts_only_said .urlSafeNoPad (some : U8Array 32 → Option (U8Array 32)) none
    [[], tcpConnectName, dashes ++ (acceptFlag ++ ['=']), ['h', ':', '1']]
    (.tcpConnectAccept ['h', ':', '1']) rfl

end Starts

/-! ## Two ends -/

open Item

/-- The invite that a mode takes for its peer's: the last `--peer`, or else the
positional at an index, or else the environment. -/
def inviteOf (items : List Item) (index : Option Nat) (usbwsPeer : Option Arg) : Option Arg :=
  ((lastValue items peerFlag).or (index.bind fun i => (items.filterMap positional?)[i]?)).or
    usbwsPeer

section Pairs

variable {SK VK : Type} {C : Crypto SK VK} {B : Base64Codec} {fromBytes : U8Array 32 → Option VK}
  {asBytes : VK → U8Array 32} {items : List Item} {usbwsPeer : Option Arg}

/-- The peer of a well-formed command line is the one that made the invite. -/
theorem resolvePeer_inviteOf (hkey : ∀ key, fromBytes (asBytes key) = some key)
    (h : WellFormed items) {index : Option Nat} {me : Identity C} {nick before after : List Char}
    (hbefore : Blank before) (hafter : Blank after)
    (hinvite : inviteOf items index usbwsPeer =
      some (before ++ makeQr B asBytes me nick ++ after)) :
    resolvePeer B fromBytes (Cli.parse (items.flatMap args)) index usbwsPeer =
      .ok ⟨me.xPub, me.edPub, me.id, nick⟩ := by
  rw [inviteOf] at hinvite
  rw [resolvePeer, Cli.flag_parse h, Cli.positionals_parse h,
    show lastValue items ['p', 'e', 'e', 'r'] = lastValue items peerFlag from rfl, hinvite]
  simp only [decodeQr_makeQr B hkey me nick hbefore hafter]
  rfl

/-- Two command lines with each other's invites start the two ends of a tunnel:
`tcp-listen` with a port in decimals, `tcp-connect` with a target, each with the
invite of the other behind its last `--peer` or in its environment, in whatever
order the arguments stand and whatever else is among them. -/
theorem starts_pair (P : Pair C) (B : Base64Codec) (fromBytes : U8Array 32 → Option VK)
    (asBytes : VK → U8Array 32) (hkey : ∀ key, fromBytes (asBytes key) = some key)
    (items : Side → List Item) (usbwsPeer : Side → Option Arg) (program : Arg)
    (hitems : ∀ s, WellFormed (items s))
    (hinvite : ∀ s, ∃ before after, Blank before ∧ Blank after ∧
      inviteOf (items s) none (usbwsPeer s) =
        some (before ++ makeQr B asBytes (P.me s.peer) (P.nick s.peer) ++ after))
    (port : Nat) (hport : port < 2 ^ 16)
    (hlisten : ((items .listen).filterMap positional?).head? = some (Nat.toDigits 10 port))
    (target : Arg) (hconnect : ((items .connect).filterMap positional?).head? = some target)
    (haccept : lastValue (items .connect) acceptFlag = none) :
    main B fromBytes (usbwsPeer .listen)
        (program :: tcpListenName :: (items .listen).flatMap args) =
      .runs (.tcpListen port (P.peer .listen)) ∧
    main B fromBytes (usbwsPeer .connect)
        (program :: tcpConnectName :: (items .connect).flatMap args) =
      .runs (.tcpConnect target (P.peer .connect)) := by
  have hpeer : ∀ s, resolvePeer B fromBytes (Cli.parse ((items s).flatMap args)) none
      (usbwsPeer s) = .ok (P.peer s) := fun s => by
    obtain ⟨before, after, hbefore, hafter, hs⟩ := hinvite s
    exact resolvePeer_inviteOf hkey (hitems s) hbefore hafter hs
  have hdigits : parseU16 (Nat.toDigits 10 port) = some port :=
    parseUnsigned_toDigits (Nat.le_sub_one_of_lt hport)
  constructor
  · simp only [main, mainArm, Cli.positionals_parse (hitems .listen), hlisten,
      Option.bind_some, hdigits, hpeer]
    rfl
  · simp only [main, mainArm, Cli.positionals_parse (hitems .connect), hconnect,
      Cli.flag_parse (hitems .connect), haccept, hpeer]
    rfl

end Pairs

def inviteFor (s : Side) : Arg :=
  makeQr .urlSafeNoPad id (aliceAndBob.me s.peer) (aliceAndBob.nick s.peer)

/-- The invite behind the port at one end, in the environment at the other. -/
def itemsOf : Side → List Item
  | .listen => [.positional (Nat.toDigits 10 3240), .joined peerFlag (inviteFor .listen)]
  | .connect => [.separate linkFlag ['x'], .positional ['h', ':', '1']]

def environmentOf : Side → Option Arg
  | .listen => none
  | .connect => some ([' '] ++ inviteFor .connect ++ ['\n'])

theorem starts_pair_3240 :
    main .urlSafeNoPad some none ([] :: tcpListenName ::
        [Nat.toDigits 10 3240, dashes ++ (peerFlag ++ '=' :: inviteFor .listen)]) =
      .runs (.tcpListen 3240 (aliceAndBob.peer .listen)) ∧
    main .urlSafeNoPad some (some ([' '] ++ inviteFor .connect ++ ['\n'])) ([] :: tcpConnectName ::
        [dashes ++ linkFlag, ['x'], ['h', ':', '1']]) =
      .runs (.tcpConnect ['h', ':', '1'] (aliceAndBob.peer .connect)) := by
  have hport : (Item.positional (Nat.toDigits 10 3240)).Ok := by decide
  have hitems : ∀ s, WellFormed (itemsOf s) := fun s => by
    cases s with
    | listen => exact ⟨hport, trivial, by decide, trivial, trivial⟩
    | connect => decide
  have hnothing : Blank [] := by decide
  have hinvite : ∀ s, ∃ before after, Blank before ∧ Blank after ∧
      inviteOf (itemsOf s) none (environmentOf s) = some (before ++ inviteFor s ++ after) :=
    fun s => by
      cases s with
      | listen => exact ⟨[], [], hnothing, hnothing, (congrArg some (List.append_nil _)).symm⟩
      | connect => exact ⟨[' '], ['\n'], by decide, by decide, rfl⟩
  exact starts_pair aliceAndBob .urlSafeNoPad some id (fun _ => rfl) itemsOf environmentOf []
    hitems hinvite 3240 (by decide) rfl ['h', ':', '1'] rfl rfl

end UsbWs
