import UsbWs.Rest
import UsbWs.WireRefines

/-!
# A hostile relay

A relay that is not honest may drop what it is given, hold it back, bring it
twice or in another order, and bring strings of its own making. What it cannot
do is sign: where a signature verifies under the key of a side's peer, the peer
has made it (`unforged`). With that key the peer signs what it encrypts for the
side, and what it encrypts for others: the server, and the peers it has tunnels
with elsewhere. The latter does not decrypt under the key that the two sides
share (`Separate`), which is an idealisation: a cipher rules it out but for a
negligible chance.

All this is about one run of the two processes. A string that the peer sealed for
this side in an earlier run, with the same identities, is signed as well; a relay
that brings it counts as one that forges.

Then every command that a side acts on is one that its peer has enqueued
(`Traded.rcvd`), and so every chunk written to a socket was read by the peer
under the same conn id, and nothing is dialled that home has not accepted
(`authenticity`). But nothing in a frame says that it is new: one that is
brought twice is acted on twice (`authenticity_replayed`).
-/

namespace UsbWs

open Runs Checked

/-! ## What an endpoint has sent and written -/

namespace Endpoint

variable {side : Side} {e e' : Endpoint} {a : Act}

/-- What has been put on a websocket, or is being sent, was enqueued. -/
def Genuine (e : Endpoint) : Prop := ∀ f ∈ e.loop.sent ++ e.loop.pending, f ∈ e.enq

theorem Genuine.step (hg : Genuine e) (h : Trans side e a e') : Genuine e' := by
  have hkeeps : e'.loop.sent = e.loop.sent → e'.loop.pending = [] ∨ e'.loop.pc = e.loop.pc →
      Genuine e' := fun hsent hpend f hf => by
    refine h.mem_enq (hg f ?_)
    rcases hpend with hnil | hpc
    · rw [hsent, hnil, List.append_nil] at hf
      exact List.mem_append_left _ hf
    · rwa [hsent, Loop.pending, hpc] at hf
  cases h with
  | @loop ev l hev hl =>
      cases ev with
      | dequeue =>
          simp only [Loop.event] at hl
          split at hl <;> cases hl
          next item rest hpc hq =>
            intro f hf
            have hold : f ∈ e.loop.sent → f ∈ e.enq := fun hf => hg f (List.mem_append_left _ hf)
            simp only [Loop.pending, setLoop, List.mem_append, List.mem_singleton] at hf
            simp only [enq, Loop.enqueued, setLoop, List.mem_append, hq] at hold ⊢
            grind [Loop.sent]
      | sendOk =>
          simp only [Loop.event] at hl
          split at hl <;> cases hl
          next item hpc =>
            intro f hf
            refine hg f ?_
            simpa [Loop.sent, Loop.pending, setLoop, hpc] using hf
      | wsClosed | sendErr =>
          simp only [Loop.event] at hl
          split at hl <;> cases hl
          exact hkeeps Loop.sent_disconnect (Or.inl rfl)
      | relayUp | relayDown | outClosed | ctrlC =>
          simp only [Loop.event] at hl
          split at hl <;> cases hl
          all_goals first | exact hkeeps rfl (Or.inl rfl) | exact hkeeps rfl (Or.inr rfl)
  | @dispatch f hpc =>
      refine hkeeps rfl (Or.inl ?_)
      rcases dispatchPc_cases side e.map f with ⟨hd, _⟩ | ⟨hd, _⟩ | ⟨c, m, hd, _⟩ <;>
        simp [Loop.pending, hd]
  | recv | dialOk | dialErr | deliver | deliverGone | shutdownGone | removeGone | sendClose =>
      exact hkeeps rfl (Or.inl rfl)
  | _ => exact hkeeps rfl (Or.inr rfl)

/-- What every endpoint keeps, whatever frames it is brought. -/
structure Sound (side : Side) (e : Endpoint) : Prop where
  wf : e.Wf side
  traced : Traced side e
  sourced : Sourced e
  genuine : Genuine e
  received : ∀ k, Received k e

theorem sound_init (side : Side) : Sound side (init side) where
  wf := wf_init side
  traced := traced_init side
  sourced := sourced_init side
  genuine := by cases side <;> simp [Genuine, init, Loop.init, Loop.sent, Loop.pending]
  received := fun k => by cases side <;> simp [Received, init]

theorem Sound.step (hs : Sound side e) (h : Trans side e a e') : Sound side e' where
  wf := hs.wf.step h
  traced := hs.traced.step hs.wf h
  sourced := hs.sourced.step hs.wf h
  genuine := hs.genuine.step h
  received := fun k => (hs.received k).step hs.wf h

/-- What was written to a socket begins the payloads of frames received for its
id, with some perhaps left out. -/
theorem Sound.written (hs : Sound side e) {c : Nat} (hc : c < e.numConns) :
    ∃ log, log.Sublist e.rcvd ∧
      (e.conns c).written <+: (payloadsFor (e.conns c).id log).flatten := by
  have hgot : (e.conns c).got.Sublist (msgsFor (e.conns c).id e.rcvd) :=
    ((List.sublist_append_left _ _).trans (List.sublist_append_left _ _)).trans
      (hs.received _ c hc rfl)
  obtain ⟨log, hsub, heq⟩ := List.sublist_filterMap_iff.1 hgot
  refine ⟨log, hsub, ?_⟩
  rw [← flatMap_bytes_msgsFor, msgsFor, ← heq]
  exact (hs.wf.writer c).prefix_written

end Endpoint

variable {SK VK : Type} {C : Crypto SK VK}

/-! ## What is signed -/

/-- What the signature of a frame is over: all between its header and it. -/
def signedPart (b : Bytes) : Bytes := (b.drop 8).take (b.length - 72)

theorem signedPart_bytes (f : RelayFrame) : signedPart f.bytes = f.nonce.val ++ f.ct := by
  have hlen := f.length_bytes
  have hdrop : f.bytes.drop 8 = (f.nonce.val ++ f.ct) ++ f.sig.val := by
    rw [RelayFrame.bytes, RelayFrame.packet, List.append_assoc]
    exact List.drop_left' f.header.property
  have htake : f.bytes.length - 72 = (f.nonce.val ++ f.ct).length := by
    rw [List.length_append, f.nonce.property, hlen]
    omega
  rw [signedPart, hdrop, htake, List.take_left']
  rfl

namespace Wire

variable {P : Pair C} {elsewhere : Side → List (U8Array 32)} {w w' : Wire} {s : Side}

variable (P elsewhere) in
/-- A side has signed a message in this run: it is that of a frame on its queue, or
that of a frame encrypted for a public key elsewhere. What it sealed for its peer
in an earlier run is not among these. -/
def Signed (w : Wire) (s : Side) (message : Bytes) : Prop :=
  (∃ b ∈ (w.nodes s).loop.enqueued, message = signedPart b) ∨
    ∃ pub ∈ elsewhere s, ∃ nonce inner, message =
      nonce.val ++ C.encrypt (C.x25519 (P.me s).xPriv pub) nonce inner

variable (P elsewhere) in
/-- The relay brings what it likes, but no signature of the peer's that the
peer has not made. -/
def unforged (w : Wire) : WireAct → Prop
  | .inject s b => ∀ f : RelayFrame, f.bytes = b →
      C.verify (P.ctx s).peer.edPub (f.nonce.val ++ f.ct) f.sig = true →
        Signed P elsewhere w s.peer (f.nonce.val ++ f.ct)
  | _ => True

variable (P elsewhere) in
/-- What a side encrypts for a public key elsewhere does not decrypt for its peer:
the cipher as it is meant to be, tags that collide left out. -/
def Separate : Prop :=
  ∀ s, ∀ pub ∈ elsewhere s.peer, ∀ nonce inner,
    C.decrypt (C.x25519 (P.me s).xPriv (P.me s.peer).xPub) nonce
      (C.encrypt (C.x25519 (P.me s.peer).xPriv pub) nonce inner) = none

/-- A command whose signature the peer has made is one the peer has enqueued. -/
theorem mem_of_unforged (hC : C.Lawful) (hsep : Separate P elsewhere) {b : Bytes} {f : Frame}
    {enq : List Frame}
    (henq : List.Forall₂ (P.ctx s.peer).Seals (w.nodes s.peer).loop.enqueued enq)
    (hun : unforged P elsewhere w (.inject s b))
    (hf : decodedFrame C (P.ctx s).me (P.ctx s).peer (P.ctx s).kS2c b = some f) : f ∈ enq := by
  have hlong : 8 + 24 + 16 + 64 ≤ b.length := by
    by_contra hshort
    rw [decodedFrame_of_short (by omega)] at hf
    cases hf
  obtain ⟨F, rfl⟩ := exists_relayFrame hlong
  rw [decodedFrame_bytes] at hf
  split at hf
  · cases hf
  · rw [RelayFrame.opened, Option.bind_eq_some_iff] at hf
    obtain ⟨inner, hopened, hinner⟩ := hf
    split at hopened
    · cases hopened
    · next hverify =>
        have hdecrypt : C.decrypt (C.x25519 (P.me s).xPriv (P.me s.peer).xPub) F.nonce F.ct =
            some inner := hopened
        -- what was signed is one nonce and one ciphertext
        have hparts : ∀ (nonce : U8Array 24) (ct : Bytes),
            F.nonce.val ++ F.ct = nonce.val ++ ct → F.nonce = nonce ∧ F.ct = ct :=
          fun nonce ct heq => by
            obtain ⟨hnonce, hct⟩ := List.append_inj heq (by rw [F.nonce.property, nonce.property])
            exact ⟨Subtype.ext hnonce, hct⟩
        rcases hun F rfl (by simpa using hverify) with ⟨b, hb, heq⟩ | ⟨pub, hpub, nonce, plain, heq⟩
        · obtain ⟨g, hg, hseal⟩ := exists_of_mem henq hb
          obtain ⟨nonce, hbytes⟩ := P.exists_of_seals hC s hseal
          rw [hbytes, signedPart_bytes] at heq
          obtain ⟨hnonce, hct⟩ := hparts _ _ heq
          rw [hnonce, hct] at hdecrypt
          simp only [sealedFrame, ← Identity.agree hC (P.me s), hC.decrypt_encrypt,
            Option.some.injEq] at hdecrypt
          rw [← hdecrypt, Frame.ofInner_packInner, Option.some.injEq] at hinner
          exact hinner ▸ hg
        · obtain ⟨hnonce, hct⟩ := hparts _ _ heq
          rw [hnonce, hct, hsep s pub hpub nonce plain] at hdecrypt
          cases hdecrypt

/-! ## What is acted on -/

/-- The endpoints of a wire under a hostile relay: each runs, and has received
nothing but what the other has enqueued. -/
structure Traded (P : Pair C) (w : Wire) (t : Tunnel) : Prop where
  sound : ∀ s, Endpoint.Sound s (t.ends s)
  loop : ∀ s, (w.nodes s).loop.Rel (P.ctx s).Seals (t.ends s).loop
  rest : ∀ s, t.ends s = (w.nodes s).endpoint (P.ctx s) (t.ends s).loop
  rcvd : ∀ s, ∀ f ∈ (t.ends s).rcvd, f ∈ (t.ends s.peer).enq

theorem traded_init (P : Pair C) : Traded P init Tunnel.init where
  sound := Endpoint.sound_init
  loop := fun s => by cases s <;> exact .init
  rest := fun s => by cases s <;> rfl
  rcvd := fun s f hf => by cases s <;> cases hf

theorem Traded.conns {t : Tunnel} (ht : Traded P w t) (s : Side) :
    (t.ends s).conns = (w.nodes s).conns ∧ (t.ends s).numConns = (w.nodes s).numConns := by
  rw [ht.rest s]
  exact ⟨rfl, rfl⟩

theorem Traded.enqueued {t : Tunnel} (ht : Traded P w t) (s : Side) :
    List.Forall₂ (P.ctx s).Seals (w.nodes s).loop.enqueued (t.ends s).enq :=
  (ht.loop s).enqueued

/-- A step of one side. -/
theorem Traded.put {t : Tunnel} (ht : Traded P w t) {n : Node} {a : Act}
    {l : Loop Frame Frame Handling} (hl : n.loop.Rel (P.ctx s).Seals l)
    (hs : (t.ends s).step s a = some (n.endpoint (P.ctx s) l))
    (hrcvd : ∀ f, a = .recv f → f ∈ (t.ends s.peer).enq) (passed : Side → Nat) :
    Traded P ⟨(w.put s n).nodes, passed⟩ (t.put s (n.endpoint (P.ctx s) l)) := by
  have htr := Endpoint.trans_of_step hs
  have hnew : ∀ f ∈ (n.endpoint (P.ctx s) l).rcvd, f ∈ (t.ends s.peer).enq := fun f hf => by
    rcases htr.rcvd_eq with heq | ⟨g, ha, heq⟩
    · exact ht.rcvd s f (heq ▸ hf)
    · rw [heq, List.mem_append, List.mem_singleton] at hf
      rcases hf with hf | rfl
      · exact ht.rcvd s f hf
      · exact hrcvd f ha
  have hold : ∀ f ∈ (t.ends s.peer).rcvd, f ∈ (n.endpoint (P.ctx s) l).enq := fun f hf => by
    have hmem := ht.rcvd s.peer f hf
    rw [Side.peer_peer] at hmem
    exact htr.mem_enq hmem
  refine ⟨Tunnel.forall_put ht.sound ((ht.sound s).step htr), ?_, ?_, ?_⟩ <;>
    intro r <;> rcases r.eq_or_eq_peer s with rfl | rfl
  · rw [put_nodes_self, Tunnel.put_ends_self]
    exact hl
  · rw [put_nodes_peer, Tunnel.put_ends_peer]
    exact ht.loop _
  · rw [put_nodes_self, Tunnel.put_ends_self]
    rfl
  · rw [put_nodes_peer, Tunnel.put_ends_peer]
    exact ht.rest _
  · rw [Tunnel.put_ends_self, Tunnel.put_ends_peer]
    exact hnew
  · rw [Side.peer_peer, Tunnel.put_ends_self, Tunnel.put_ends_peer]
    exact hold

/-- A side receives a string: what it decodes to, if anything, was enqueued. -/
theorem Traded.recv {t : Tunnel} (ht : Traded P w t) {n : Node} {b : Bytes}
    (hn : (w.nodes s).recv (P.ctx s) b = some n)
    (hf : ∀ f, decodedFrame C (P.ctx s).me (P.ctx s).peer (P.ctx s).kS2c b = some f →
      f ∈ (t.ends s.peer).enq) (passed : Side → Nat) :
    ∃ t', Traded P ⟨(w.put s n).nodes, passed⟩ t' := by
  rcases Node.recv_endpoint s (ht.loop s) hn with ⟨_, hsame, hl⟩ | ⟨f, l', hdec, hstep, hl'⟩
  · refine ⟨t, ht.sound, fun r => ?_, fun r => ?_, ht.rcvd⟩ <;>
      rcases r.eq_or_eq_peer s with rfl | rfl
    · rw [put_nodes_self]
      exact hl
    · rw [put_nodes_peer]
      exact ht.loop _
    · rw [put_nodes_self, hsame]
      exact ht.rest _
    · rw [put_nodes_peer]
      exact ht.rest _
  · rw [← ht.rest s] at hstep
    refine ⟨_, ht.put hl' hstep (fun g hg => ?_) passed⟩
    cases hg
    exact hf f hdec

theorem traded (hC : C.Lawful) (hsep : Separate P elsewhere)
    (h : Reaches (step P) (unforged P elsewhere) init w) : ∃ t, Traded P w t := by
  refine h.invariant (I := fun w => ∃ t, Traded P w t) ⟨_, traded_init P⟩ ?_
  rintro w a w' hun hs ⟨t, ht⟩
  cases a with
  | node s a nonce =>
      obtain ⟨n, hn, rfl⟩ := Option.map_eq_some_iff.1 hs
      obtain ⟨l', hstep, hl'⟩ := Node.step_endpoint (ht.loop s) hn
      rw [← ht.rest s] at hstep
      refine ⟨_, ht.put hl' hstep (fun f ha => ?_) w.passed⟩
      subst ha
      cases hn
  | pass s =>
      simp only [step] at hs
      split at hs
      · next frame hsent =>
          split at hs
          · next b hrelay =>
              obtain ⟨n, hn, rfl⟩ := Option.map_eq_some_iff.1 hs
              -- the string was built for a frame that the peer has sent
              obtain ⟨f, hf, hseal⟩ := exists_of_mem (ht.loop s.peer).sent
                (List.mem_of_getElem? hsent)
              refine ht.recv hn (fun g hg => ?_) _
              cases (P.incoming_relayed hC s hseal hrelay).symm.trans hg
              exact (ht.sound s.peer).genuine f (List.mem_append_left _ hf)
          · cases hs
      · cases hs
  | inject s b =>
      obtain ⟨n, hn, rfl⟩ := Option.map_eq_some_iff.1 hs
      exact ht.recv hn (fun f => mem_of_unforged hC hsep (ht.enqueued s.peer) hun) w.passed

/-- Whatever the relay does short of bringing a signature that was not made in this
run, and as long as nothing decrypts under a wrong key: every command that a
side has received is sealed in a string of its peer's; the gate has dialled for
no id that home has not given to a connection; and what was written to a socket
is made of chunks that the other side read from sockets with the same id. -/
theorem authenticity (hC : C.Lawful) (hsep : Separate P elsewhere)
    (h : Reaches (step P) (unforged P elsewhere) init w) (s : Side) :
    (∀ b ∈ (w.nodes s).rcvd, ∀ f, (P.ctx s).incoming b = .ok (some f) →
      ∃ b' ∈ (w.nodes s.peer).loop.enqueued, (P.ctx s.peer).Seals b' f) ∧
    ∀ c < (w.nodes s).numConns,
      (s = .connect → ∃ d < w.home.numConns,
        (w.home.conns d).id = ((w.nodes s).conns c).id) ∧
      ∃ chunks : List Bytes, ((w.nodes s).conns c).written <+: chunks.flatten ∧
        ∀ chunk ∈ chunks, ∃ d < (w.nodes s.peer).numConns,
          ((w.nodes s.peer).conns d).id = ((w.nodes s).conns c).id ∧
            chunk ∈ ((w.nodes s.peer).conns d).reads := by
  obtain ⟨t, ht⟩ := traded hC hsep h
  constructor
  · intro b hb f hincoming
    have hdec : decodedFrame C (P.ctx s).me (P.ctx s).peer (P.ctx s).kS2c b = some f := by
      rw [Ctx.incoming, incomingFrame_ok] at hincoming
      simpa using hincoming
    have hmem : f ∈ (t.ends s).rcvd := by
      rw [ht.rest s]
      exact List.mem_filterMap.2 ⟨b, hb, hdec⟩
    obtain ⟨b', hb', hseal⟩ := exists_of_mem (ht.enqueued s.peer).flip (ht.rcvd s f hmem)
    exact ⟨b', hb', hseal⟩
  · intro c hc
    have hconns := ht.conns s
    have hpeer := ht.conns s.peer
    rw [← hconns.2] at hc
    obtain ⟨log, hsub, hwritten⟩ := (ht.sound s).written hc
    rw [hconns.1] at hwritten
    refine ⟨?_, payloadsFor ((w.nodes s).conns c).id log, hwritten, fun chunk hchunk => ?_⟩
    · rintro rfl
      -- the gate has received an OPEN for the id, which home has enqueued
      have hopen : .tcpOpen ((t.ends .connect).conns c).id ∈ (t.ends .connect).rcvd :=
        (ht.sound .connect).traced.conn c hc ((ht.sound .connect).wf.not_opening c)
      obtain ⟨d, hd, hid, _⟩ := (ht.sound .listen).traced.enq _ (ht.rcvd .connect _ hopen)
      rw [(ht.conns .listen).2] at hd
      rw [(ht.conns .listen).1, hconns.1] at hid
      exact ⟨d, hd, hid⟩
    · obtain ⟨f, hf, hpayload⟩ := List.mem_filterMap.1 hchunk
      have hdata : f = .tcpData ((w.nodes s).conns c).id chunk := by
        cases f with
        | tcpData k payload =>
            simp only [Frame.payloadFor, Option.ite_none_right_eq_some, Option.some.injEq]
              at hpayload
            rw [hpayload.1, hpayload.2]
        | tcpOpen k | tcpClose k => cases hpayload
      obtain ⟨d, hd, hid, hread⟩ := (ht.sound s.peer).sourced.data _ _
        (hdata ▸ ht.rcvd s f (hsub.subset hf))
      rw [hpeer.2] at hd
      rw [hpeer.1] at hid hread
      exact ⟨d, hd, hid, hread⟩

/-- The relay brings no frame that the peer has not signed. -/
def replays (w : Wire) : WireAct → Bool
  | .inject s b => b.length < 8 + 24 + 16 + 64 ||
      (w.nodes s.peer).loop.enqueued.any fun b' => signedPart b = signedPart b'
  | _ => true

theorem unforged_of_replays {a : WireAct} (h : replays w a = true) : unforged P elsewhere w a := by
  cases a with
  | inject s b =>
      rintro F rfl _
      rw [replays, Bool.or_eq_true, decide_eq_true_eq] at h
      rcases h with hshort | hsigned
      · have hlen := F.length_bytes
        have htag := F.tagged
        omega
      · obtain ⟨b', hb', heq⟩ := List.any_eq_true.1 hsigned
        rw [decide_eq_true_eq, signedPart_bytes] at heq
        exact Or.inl ⟨b', hb', heq⟩
  | node | pass => trivial

theorem separate_aliceAndBob : Separate aliceAndBob fun _ => [aliceAndBob.server.xPub] := by
  intro s pub hpub nonce inner
  cases List.mem_singleton.1 hpub
  rw [Crypto.keyed_decrypt, if_neg]
  cases s <;> decide

/-- What the relay makes of a frame of home's. -/
def relayed (f : Frame) : Bytes :=
  match (aliceAndBob.ctx .listen).frame (.zero 24) f with
  | .ok frame =>
      match aliceAndBob.relay .connect frame with
      | .ok (some b) => b
      | _ => []
  | .error _ => []

/-- The frame with the one byte of `oneByteRun`, brought once more. -/
def replayedRun : List WireAct :=
  oneByteRun ++ [.node .connect (.conn 0 .wrote) (.zero 24),
    .inject .connect (relayed (.tcpData 0 [7])), .node .connect .dispatch (.zero 24),
    .node .connect .deliver (.zero 24), .node .connect (.conn 0 .pop) (.zero 24),
    .node .connect (.conn 0 (.write 1)) (.zero 24)]

theorem authenticity_replayed :
    ∃ w : Wire, (w.gate.conns 0).written = [7, 7] ∧ (w.home.conns 0).reads = [[7]] ∧
      ∃ chunks : List Bytes, (w.gate.conns 0).written <+: chunks.flatten ∧
        ∀ chunk ∈ chunks, ∃ d < w.home.numConns,
          (w.home.conns d).id = (w.gate.conns 0).id ∧ chunk ∈ (w.home.conns d).reads := by
  have hrun : (run (guarded (step aliceAndBob) fun w a => replays w a = true) init
      replayedRun).any
      (fun w => w.gate.numConns = 1 ∧ (w.gate.conns 0).written = [7, 7] ∧
        (w.home.conns 0).reads = [[7]]) = true := by
    decide +kernel
  obtain ⟨w, h, hp⟩ := exists_of_run_any hrun
  simp only [decide_eq_true_eq] at hp
  obtain ⟨hgate, hwritten, hreads⟩ := hp
  have hauth := authenticity Crypto.keyed_lawful separate_aliceAndBob
    (h.weaken fun _ _ => unforged_of_replays) .connect
  have hlt : 0 < w.gate.numConns := by omega
  exact ⟨w, hwritten, hreads, (hauth.2 0 hlt).2⟩

end Wire

end UsbWs
