import UsbWs.Delivery
import UsbWs.Qr

/-!
# How a session begins

Each turn of a reconnect loop connects to the relay, sends a handshake request
and waits for one message. The session goes on where that message is a frame of
the server with the command CMD_HANDSHAKE_OK; then the client introduces itself
to its peer and subscribes to it. These two frames are numbered by a counter
that the loop keeps across reconnects, and it is advanced whether or not they
could be sent.

A handshake request is a packet behind a key instead of a header. The server
reads all three with its own key (`opened_handshake`, `opened_serverBound`), and
a session goes on for nothing but a frame that verifies under the key of the
server (`connectAndHandshake_iff`).
-/

namespace UsbWs

open Checked Text

variable {SK VK : Type} (C : Crypto SK VK)

def protocolVersion : UInt8 := 2
def cmdHandshakeRequest : UInt8 := 0x01
def cmdHandshakeOk : UInt8 := 0x02
def cmdSubscribe : UInt8 := 0x40
def cmdIntroduce : UInt8 := 0x46

/-- The keys of `Relay`. -/
structure Relay (VK : Type) where
  serverXPub : U8Array 32
  serverEdVk : VK

/-- What `ws.next()` comes back with. -/
inductive WsNext where
  | binary (b : Bytes)
  | ping (payload : Bytes)
  | close
  | none
  | err
  | other

/-- `inner.len() >= 3 && inner[2] == cmd`. -/
def hasCmd (inner : Bytes) (cmd : UInt8) : Checked Bool := do
  if 3 ≤ inner.length then return (← index inner 2) = cmd else return false

section Definitions

variable (asBytes : VK → U8Array 32) (relay : Relay VK) (me : Identity C)

def buildHandshakeRequest (nonce : U8Array 24) (serverXPub : U8Array 32) : Bytes :=
  let body := (asBytes me.edPub).val ++ [protocolVersion]
  let inner := packInner 0 cmdHandshakeRequest body
  me.xPub.val ++ encryptAndSign C nonce inner me.xPriv me.ed serverXPub

/-- Connect to the relay and complete the handshake. `connected` and `sent` say
whether connecting and sending the request come out well. -/
def connectAndHandshake (kS2c : U8Array 32) (connected sent : Bool) (next : WsNext) :
    Checked Bool :=
  if connected = false then return false
  else if sent = false then return false
  else
    match next with
    | .binary b => do
        match ← decodeServerFrame C b kS2c me.xPriv relay.serverXPub relay.serverEdVk with
        | none => return false
        | some inner => hasCmd inner cmdHandshakeOk
    | _ => return false

/-- Introduce ourselves to the peer and subscribe to its presence: the two
frames, and the counter after them. -/
def introduceAndSubscribe (nonce₁ nonce₂ : U8Array 24) (peer : Peer VK) (nick : List Char)
    (kC2s : U8Array 32) (seq : UInt16) : Checked (List Bytes × UInt16) := do
  let introBody := peer.id.val ++ utf8 nick
  let introduce ← buildServerBound C nonce₁ me relay.serverXPub kC2s
    (packInner seq cmdIntroduce introBody)
  let seq := seq + 1
  let subscribe ← buildServerBound C nonce₂ me relay.serverXPub kC2s
    (packInner seq cmdSubscribe peer.xPub.val)
  return ([introduce, subscribe], seq + 1)

/-- One turn of the outer loop up to where the session is ready, and the nonces
it draws. -/
structure Attempt where
  connected : Bool
  sent : Bool
  next : WsNext
  handshake : U8Array 24
  introduce : U8Array 24
  subscribe : U8Array 24

variable (peer : Peer VK) (nick : List Char) (kC2s kS2c : U8Array 32)

/-- What an attempt hands to the websocket, if it comes to a session, and the
counter after it. -/
def Attempt.run (a : Attempt) (seq : UInt16) : Checked (Option (List Bytes) × UInt16) := do
  if ← connectAndHandshake C relay me kS2c a.connected a.sent a.next then
    let request := buildHandshakeRequest C asBytes me a.handshake relay.serverXPub
    let (frames, seq) ←
      introduceAndSubscribe C relay me a.introduce a.subscribe peer nick kC2s seq
    return (some (request :: frames), seq)
  else return (none, seq)

/-- The turns of the outer loop: how each session begins. -/
def beginnings : List Attempt → UInt16 → Checked (List (List Bytes))
  | [], _ => return []
  | a :: attempts, seq => do
      match ← a.run C asBytes relay me peer nick kC2s kS2c seq with
      | (some frames, seq) => return frames :: (← beginnings attempts seq)
      | (none, seq) => beginnings attempts seq

end Definitions

variable {C} {asBytes : VK → U8Array 32} {relay : Relay VK} {me : Identity C} {peer : Peer VK}
  {nick : List Char} {kC2s kS2c : U8Array 32}

/-! ## Only the server opens a session -/

/-- A frame that the server has signed, as its header says, and what is in it. -/
structure FromServer (C : Crypto SK VK) (relay : Relay VK) (me : Identity C) (kS2c : U8Array 32)
    (b inner : Bytes) (f : RelayFrame) : Prop where
  bytes : f.bytes = b
  header : f.header.xor (mask C kS2c f.nonce) = .zero 8
  verified : C.verify relay.serverEdVk (f.nonce.val ++ f.ct) f.sig = true
  decrypted : C.decrypt (C.x25519 me.xPriv relay.serverXPub) f.nonce f.ct = some inner

theorem decodeServerFrame_iff {b inner : Bytes} :
    decodeServerFrame C b kS2c me.xPriv relay.serverXPub relay.serverEdVk = .ok (some inner) ↔
      ∃ f, FromServer C relay me kS2c b inner f := by
  constructor
  · intro h
    have hlong : 8 + 24 + 16 + 64 ≤ b.length := by
      by_contra hshort
      rw [decodeServerFrame, if_pos (by omega)] at h
      cases h
    obtain ⟨f, rfl⟩ := exists_relayFrame hlong
    rw [decodeServerFrame_bytes, Except.ok.injEq] at h
    split at h
    · cases h
    · next hheader =>
        rw [RelayFrame.opened] at h
        split at h
        · cases h
        · next hverify =>
            exact ⟨f, rfl, by simpa using hheader, by simpa using hverify, h⟩
  · rintro ⟨f, rfl, hheader, hverified, hdecrypted⟩
    rw [decodeServerFrame_bytes, if_neg (by simpa using hheader), RelayFrame.opened,
      if_neg (by simp [hverified]), hdecrypted]

theorem hasCmd_eq (inner : Bytes) (cmd : UInt8) :
    hasCmd inner cmd = .ok (decide (3 ≤ inner.length ∧ inner.getD 2 0 = cmd)) := by
  rw [hasCmd]
  split
  · next hlen =>
      have hlt : 2 < inner.length := by omega
      have hget : inner[2] = inner.getD 2 0 := by
        rw [List.getD_eq_getElem?_getD, List.getElem?_eq_getElem hlt, Option.getD_some]
      rw [index_of_lt hlt, ok_bind, hget]
      simp only [hlen, true_and]
      rfl
  · next hlen =>
      simp only [hlen, false_and, decide_false]
      rfl

/-- The string is a frame of the server with the command. -/
def ServerSends (relay : Relay VK) (me : Identity C) (kS2c : U8Array 32) (cmd : UInt8)
    (b : Bytes) : Prop :=
  ∃ inner f, FromServer C relay me kS2c b inner f ∧ 3 ≤ inner.length ∧ inner.getD 2 0 = cmd

/-- A session goes on exactly for a frame of the server with CMD_HANDSHAKE_OK,
and whatever else the relay answers, nothing panics. -/
theorem connectAndHandshake_cases (relay : Relay VK) (me : Identity C) (kS2c : U8Array 32)
    (connected sent : Bool) (next : WsNext) :
    ∃ r, connectAndHandshake C relay me kS2c connected sent next = .ok r ∧
      (r = true ↔ connected = true ∧ sent = true ∧
        ∃ b, next = .binary b ∧ ServerSends relay me kS2c cmdHandshakeOk b) := by
  have hno : ∀ {p : Prop}, ¬ p → ∃ r : Bool, (return false : Checked Bool) = .ok r ∧
      (r = true ↔ p) := fun hp => ⟨false, rfl, by simp [hp]⟩
  cases connected with
  | false => exact hno (by simp)
  | true =>
      cases sent with
      | false => exact hno (by simp)
      | true =>
          cases next with
          | binary b =>
              obtain ⟨r, hr⟩ := decodeServerFrame_ok (C := C) b kS2c me.xPriv relay.serverXPub
                relay.serverEdVk
              have hiff : ∀ inner, r = some inner ↔ ∃ f, FromServer C relay me kS2c b inner f :=
                fun inner => by rw [← decodeServerFrame_iff, hr, Except.ok.injEq]
              simp only [connectAndHandshake, hr, ok_bind, WsNext.binary.injEq, exists_eq_left',
                true_and]
              cases r with
              | none =>
                  refine hno ?_
                  rintro ⟨inner, f, hf, _⟩
                  cases (hiff inner).2 ⟨f, hf⟩
              | some inner =>
                  refine ⟨_, hasCmd_eq inner _, ?_⟩
                  rw [decide_eq_true_eq]
                  constructor
                  · intro hok
                    obtain ⟨f, hf⟩ := (hiff inner).1 rfl
                    exact ⟨inner, f, hf, hok⟩
                  · rintro ⟨inner', f, hf, hok⟩
                    cases (hiff inner').2 ⟨f, hf⟩
                    exact hok
          | _ => exact hno (by rintro ⟨_, _, b, hb, _⟩; cases hb)

/-! ## What the server reads -/

/-- The server reads a plaintext out of a packet of the client's. -/
def ServerOpens (server me : Identity C) (packet inner : Bytes) : Prop :=
  verifyAndDecrypt C packet server.xPriv me.xPub me.edPub = .ok (some inner)

/-- A frame is bound for the server, which reads the plaintext in it. -/
structure ServerReads (server me : Identity C) (kC2s : U8Array 32) (frame inner : Bytes) :
    Prop where
  header : unmask C kC2s frame = .ok (.zero 8)
  opens : ServerOpens server me (frame.drop 8) inner

section Lawful

variable (hC : C.Lawful) (server me : Identity C) (asBytes : VK → U8Array 32) (peer : Peer VK)
  (nick : List Char) (kC2s kS2c : U8Array 32)

include hC

theorem encryptAndSign_eq (nonce : U8Array 24) (inner : Bytes) :
    encryptAndSign C nonce inner me.xPriv me.ed server.xPub =
      (sealedFrame hC nonce me server.xPub (.zero 8) (.zero 32) inner).packet := by
  simp only [encryptAndSign, RelayFrame.packet, sealedFrame, List.append_assoc]

/-- A handshake request is the key of the client, and a packet that the server
opens with it. -/
theorem opened_handshake (nonce : U8Array 24) :
    (buildHandshakeRequest C asBytes me nonce server.xPub).take 32 = me.xPub.val ∧
      ServerOpens server me ((buildHandshakeRequest C asBytes me nonce server.xPub).drop 32)
        (packInner 0 cmdHandshakeRequest ((asBytes me.edPub).val ++ [protocolVersion])) := by
  refine ⟨List.take_left' me.xPub.property, ?_⟩
  rw [ServerOpens, buildHandshakeRequest, List.drop_left' me.xPub.property,
    encryptAndSign_eq hC, verifyAndDecrypt_packet, opened_sealedFrame]

theorem opened_serverBound (nonce : U8Array 24) (inner : Bytes) :
    ∃ frame, buildServerBound C nonce me server.xPub kC2s inner = .ok frame ∧
      ServerReads server me kC2s frame inner := by
  refine ⟨_, buildFrame_eq hC .., unmask_sealedFrame hC .., ?_⟩
  have hdrop : ∀ f : RelayFrame, f.bytes.drop 8 = f.packet :=
    fun f => List.drop_left' f.header.property
  rw [ServerOpens, hdrop, verifyAndDecrypt_packet, opened_sealedFrame]

/-- The introduction and the subscription, numbered from `seq` on. -/
theorem introduceAndSubscribe_reads (hrelay : relay.serverXPub = server.xPub)
    (nonce₁ nonce₂ : U8Array 24) (seq : UInt16) :
    ∃ introduce subscribe,
      introduceAndSubscribe C relay me nonce₁ nonce₂ peer nick kC2s seq =
        .ok ([introduce, subscribe], seq + 2) ∧
      ServerReads server me kC2s introduce
        (packInner seq cmdIntroduce (peer.id.val ++ utf8 nick)) ∧
      ServerReads server me kC2s subscribe
        (packInner (seq + 1) cmdSubscribe peer.xPub.val) := by
  obtain ⟨introduce, hintro, hreads⟩ := opened_serverBound hC server me kC2s
    nonce₁ (packInner seq cmdIntroduce (peer.id.val ++ utf8 nick))
  obtain ⟨subscribe, hsub, hreads'⟩ := opened_serverBound hC server me kC2s
    nonce₂ (packInner (seq + 1) cmdSubscribe peer.xPub.val)
  have hseq : seq + 1 + 1 = seq + 2 := by rw [UInt16.add_assoc]; rfl
  refine ⟨introduce, subscribe, ?_, hreads, hreads'⟩
  simp only [introduceAndSubscribe, hrelay, hintro, hsub, ok_bind, hseq]
  rfl

/-- The beginning of a session: what the server reads in its three messages,
where `seq` is the counter before it. -/
inductive Begins (asBytes : VK → U8Array 32) (server me : Identity C) (peer : Peer VK)
    (nick : List Char) (kC2s : U8Array 32) (seq : UInt16) : List Bytes → Prop where
  | three {request introduce subscribe : Bytes} (hkey : request.take 32 = me.xPub.val)
      (hopens : ServerOpens server me (request.drop 32)
        (packInner 0 cmdHandshakeRequest ((asBytes me.edPub).val ++ [protocolVersion])))
      (hintroduce : ServerReads server me kC2s introduce
        (packInner seq cmdIntroduce (peer.id.val ++ utf8 nick)))
      (hsubscribe : ServerReads server me kC2s subscribe
        (packInner (seq + 1) cmdSubscribe peer.xPub.val)) :
      Begins asBytes server me peer nick kC2s seq [request, introduce, subscribe]

/-- The attempt comes to a session. -/
def Attempt.completes (relay : Relay VK) (me : Identity C) (kS2c : U8Array 32) (a : Attempt) :
    Bool :=
  connectAndHandshake C relay me kS2c a.connected a.sent a.next = .ok true

theorem Attempt.run_cases (hrelay : relay.serverXPub = server.xPub) (a : Attempt)
    (seq : UInt16) :
    (a.completes relay me kS2c = true ∧ ∃ log, Begins asBytes server me peer nick kC2s seq log ∧
      a.run C asBytes relay me peer nick kC2s kS2c seq = .ok (some log, seq + 2)) ∨
    (a.completes relay me kS2c = false ∧
      a.run C asBytes relay me peer nick kC2s kS2c seq = .ok (none, seq)) := by
  obtain ⟨r, hr, -⟩ := connectAndHandshake_cases relay me kS2c a.connected a.sent a.next
  cases r with
  | false =>
      refine Or.inr ⟨by rw [completes, hr]; rfl, ?_⟩
      rw [run, hr, ok_bind]
      rfl
  | true =>
      obtain ⟨introduce, subscribe, hpair, hreads, hreads'⟩ := introduceAndSubscribe_reads hC server
        me peer nick kC2s hrelay a.introduce a.subscribe seq
      obtain ⟨hkey, hopens⟩ := opened_handshake hC server me asBytes a.handshake
      refine Or.inl ⟨by rw [completes, hr]; rfl, _, .three hkey hopens hreads hreads', ?_⟩
      simp only [run, hr, ok_bind, hpair, hrelay]
      rfl

omit hC in
theorem Attempt.completes_iff (a : Attempt) :
    a.completes relay me kS2c = true ↔ a.connected = true ∧ a.sent = true ∧
      ∃ b, a.next = .binary b ∧ ServerSends relay me kS2c cmdHandshakeOk b := by
  obtain ⟨r, hr, hiff⟩ := connectAndHandshake_cases relay me kS2c a.connected a.sent a.next
  rw [completes, hr, ← hiff, decide_eq_true_eq, Except.ok.injEq]

/-- However the attempts to connect come out and whatever the relay answers:
nothing panics, there is a session for each attempt that the server answered
with CMD_HANDSHAKE_OK, and in the `i`-th session the server reads the handshake,
an introduction with the number `2 i + 1` and a subscription with the number
after it, modulo 2^16. -/
theorem sessions_begin (hrelay : relay.serverXPub = server.xPub) (attempts : List Attempt) :
    ∃ logs, beginnings C asBytes relay me peer nick kC2s kS2c attempts 1 = .ok logs ∧
      logs.length = attempts.countP (Attempt.completes relay me kS2c) ∧
      (∀ a ∈ attempts, a.completes relay me kS2c = true ↔
        a.connected = true ∧ a.sent = true ∧
          ∃ b, a.next = .binary b ∧ ServerSends relay me kS2c cmdHandshakeOk b) ∧
      ∀ i log, logs[i]? = some log →
        Begins asBytes server me peer nick kC2s (UInt16.ofNat (2 * i + 1)) log := by
  have hall : ∀ (attempts : List Attempt) (seq : UInt16),
      ∃ logs, beginnings C asBytes relay me peer nick kC2s kS2c attempts seq = .ok logs ∧
        logs.length = attempts.countP (Attempt.completes relay me kS2c) ∧
        ∀ i log, logs[i]? = some log →
          Begins asBytes server me peer nick kC2s (seq + UInt16.ofNat (2 * i)) log := by
    intro attempts
    induction attempts with
    | nil => exact fun seq => ⟨[], rfl, rfl, fun i log h => by cases h⟩
    | cons a attempts ih =>
        intro seq
        rcases a.run_cases hC server me asBytes peer nick kC2s kS2c hrelay seq with
          ⟨hc, log, hlog, hrun⟩ | ⟨hc, hrun⟩
        · obtain ⟨logs, hlogs, hlen, hbegin⟩ := ih (seq + 2)
          refine ⟨log :: logs, ?_, ?_, ?_⟩
          · simp only [beginnings, hrun, ok_bind, hlogs]
            rfl
          · rw [List.length_cons, hlen, List.countP_cons_of_pos hc]
          · intro i log' hi
            cases i with
            | zero =>
                cases hi
                have hseq : seq + UInt16.ofNat (2 * 0) = seq := UInt16.add_zero seq
                exact hseq.symm ▸ hlog
            | succ i =>
                have hseq : seq + UInt16.ofNat (2 * (i + 1)) = seq + 2 + UInt16.ofNat (2 * i) := by
                  rw [Nat.mul_succ, Nat.add_comm, UInt16.ofNat_add, UInt16.add_assoc]
                  rfl
                rw [hseq]
                exact hbegin i log' hi
        · obtain ⟨logs, hlogs, hlen, hbegin⟩ := ih seq
          refine ⟨logs, ?_, ?_, hbegin⟩
          · rw [beginnings, hrun, ok_bind]
            exact hlogs
          · rw [hlen, List.countP_cons_of_neg (by simp [hc])]
  obtain ⟨logs, hlogs, hlen, hbegin⟩ := hall attempts 1
  refine ⟨logs, hlogs, hlen, fun a _ => a.completes_iff me kS2c, fun i log hi => ?_⟩
  have hseq : UInt16.ofNat (2 * i + 1) = 1 + UInt16.ofNat (2 * i) := by
    rw [Nat.add_comm, UInt16.ofNat_add]
    rfl
  rw [hseq]
  exact hbegin i log hi

end Lawful

/-- The server's answer to a client. -/
def handshakeOk (server me : Identity C) (kS2c : U8Array 32) : WsNext :=
  match buildServerBound C (.zero 24) server me.xPub kS2c (packInner 0 cmdHandshakeOk []) with
  | .ok b => .binary b
  | .error _ => .none

/-- One attempt fails, the next finds a stranger, the third the server. -/
def threeAttempts (server me stranger : Identity C) (kS2c : U8Array 32) : List Attempt :=
  [⟨false, false, .none, .zero 24, .zero 24, .zero 24⟩,
    ⟨true, true, handshakeOk stranger me kS2c, .zero 24, .zero 24, .zero 24⟩,
    ⟨true, true, handshakeOk server me kS2c, .zero 24, .zero 24, .zero 24⟩]

def carol : Identity Crypto.transparent :=
  .fromSeeds .transparent (.fill 32 24) (.fill 32 1)

theorem sessions_begin_third :
    ∃ log, beginnings .transparent id ⟨carol.xPub, carol.edPub⟩ alice
        ⟨bob.xPub, bob.edPub, bob.id, []⟩ ['a'] (.zero 32) (.zero 32)
        (threeAttempts carol alice bob (.zero 32)) 1 = .ok [log] ∧
      Begins id carol alice ⟨bob.xPub, bob.edPub, bob.id, []⟩ ['a'] (.zero 32) 1 log := by
  obtain ⟨logs, hlogs, hlen, -, hbegin⟩ := sessions_begin Crypto.transparent_lawful carol alice id
    ⟨bob.xPub, bob.edPub, bob.id, []⟩ ['a'] (.zero 32) (.zero 32)
    (show (⟨carol.xPub, carol.edPub⟩ : Relay _).serverXPub = carol.xPub from rfl)
    (threeAttempts carol alice bob (.zero 32))
  have hone : (threeAttempts carol alice bob (.zero 32)).countP
      (Attempt.completes ⟨carol.xPub, carol.edPub⟩ alice (.zero 32)) = 1 := by decide +kernel
  obtain ⟨log, rfl⟩ := List.length_eq_one_iff.1 (hlen.trans hone)
  exact ⟨log, hlogs, hbegin 0 log rfl⟩

end UsbWs
