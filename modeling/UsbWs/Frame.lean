import Mathlib.Data.List.Basic
import Mathlib.Data.List.Infix
import Mathlib.Data.UInt
import UsbWs.Lib.KeyedLog

/-!
# The frames of the TCP tunnel

What one endpoint of the tunnel hands to its peer is a command and a body:
`CMD_TCP_OPEN [conn_id]`, `CMD_TCP_DATA [conn_id][bytes...]` and
`CMD_TCP_CLOSE [conn_id]`, laid out by `pack_inner` behind a message id.
`Frame` is that vocabulary, `Frame.cmd` and `Frame.body` are the two
arguments `send_peer` gets for each of them, and `Frame.ofInner` is the part
of `handle_incoming` that reads a decrypted plaintext back. The endpoint
model works on frames, and `Frame.ofInner_packInner` is why it may: what one
side packs, the other side reads as the same frame.

`Frame.msg` is what a received frame asks of the writer of the connection it
names, and `msgsFor` is the whole demand a sequence of received frames makes
on one conn id; the stream theorems compare it with what the writer got.
-/

namespace UsbWs

abbrev Bytes := List UInt8

/-- The 1-byte id one TCP connection has on the peer link. -/
abbrev ConnId := UInt8

def cmdTcpOpen : UInt8 := 0x32
def cmdTcpData : UInt8 := 0x33
def cmdTcpClose : UInt8 := 0x34
def cmdSerialData : UInt8 := 0x30

/-- `[message_id:2 le][cmd:1][body...]`. -/
def packInner (messageId : UInt16) (cmd : UInt8) (body : Bytes) : Bytes :=
  [messageId.toUInt8, (messageId >>> 8).toUInt8] ++ [cmd] ++ body

/-- A message to a connection's socket-writer task. -/
inductive WrMsg where
  | data (bytes : Bytes)
  | shutdown
  deriving DecidableEq, Repr

/-- The bytes a writer message carries. -/
def WrMsg.bytes : WrMsg → Bytes
  | .data bytes => bytes
  | .shutdown => []

/-- A peer frame ready to be sent on the websocket. -/
inductive Frame where
  | tcpOpen (connId : ConnId)
  | tcpData (connId : ConnId) (payload : Bytes)
  | tcpClose (connId : ConnId)
  deriving DecidableEq, Repr

namespace Frame

def connId : Frame → ConnId
  | tcpOpen k => k
  | tcpData k _ => k
  | tcpClose k => k

def cmd : Frame → UInt8
  | tcpOpen _ => cmdTcpOpen
  | tcpData _ _ => cmdTcpData
  | tcpClose _ => cmdTcpClose

def body : Frame → Bytes
  | tcpOpen k => [k]
  | tcpData k payload => k :: payload
  | tcpClose k => [k]

/-- What `handle_incoming` makes of a decrypted plaintext: too short, without
a conn id, or an unknown command is ignored. -/
def ofInner (inner : Bytes) : Option Frame :=
  if inner.length < 3 then none
  else
    match inner.drop 3 with
    | [] => none
    | k :: payload =>
        let cmd := inner.getD 2 0
        if cmd = cmdTcpOpen then some (tcpOpen k)
        else if cmd = cmdTcpData then some (tcpData k payload)
        else if cmd = cmdTcpClose then some (tcpClose k)
        else none

theorem ofInner_packInner (messageId : UInt16) (f : Frame) :
    ofInner (packInner messageId f.cmd f.body) = some f := by
  cases f with
  | tcpOpen k => rfl
  | tcpData k payload =>
      have hlen : ¬ (packInner messageId cmdTcpData (k :: payload)).length < 3 := by
        simp [packInner]
      rw [ofInner, cmd, body, if_neg hlen]
      rfl
  | tcpClose k => rfl

/-- The message a received frame puts on the writer queue of the connection
registered under its conn id. An empty DATA frame is ignored. -/
def msg : Frame → Option WrMsg
  | tcpOpen _ => none
  | tcpData _ payload => if payload = [] then none else some (.data payload)
  | tcpClose _ => some .shutdown

/-- An OPEN frame. -/
def isOpen : Frame → Bool
  | tcpOpen _ => true
  | _ => false

/-- A CLOSE frame. -/
def isClose : Frame → Bool
  | tcpClose _ => true
  | _ => false

end Frame

/-! ## The frames of one conn id

Every law about one connection reads a log of frames through these three
filters: the frames themselves, the DATA payloads among them, and the writer
messages they amount to. -/

/-- The frames of a log that carry conn id `k`. -/
abbrev framesFor (k : ConnId) (log : List Frame) : List Frame :=
  KeyedLog.on Frame.connId k log

/-- An OPEN for `k` is the first frame for `k`. -/
abbrev OpensFirst (k : ConnId) (log : List Frame) : Prop :=
  KeyedLog.OpensFirst Frame.connId Frame.isOpen k log

/-- A CLOSE for `k` is the last frame for `k`. -/
abbrev ClosesLast (k : ConnId) (log : List Frame) : Prop :=
  KeyedLog.ClosesLast Frame.connId Frame.isClose k log

/-- The payload of a DATA frame for `k`. -/
def Frame.payloadFor (k : ConnId) : Frame → Option Bytes
  | .tcpData j payload => if j = k then some payload else none
  | _ => none

/-- The DATA payloads of a log for conn id `k`, in order. -/
def payloadsFor (k : ConnId) (log : List Frame) : List Bytes :=
  log.filterMap (Frame.payloadFor k)

/-- The message a frame puts on the writer queue of conn id `k`. -/
def Frame.msgFor (k : ConnId) (f : Frame) : Option WrMsg :=
  if f.connId = k then f.msg else none

/-- The writer messages of a log for conn id `k`, in order. -/
def msgsFor (k : ConnId) (log : List Frame) : List WrMsg :=
  log.filterMap (Frame.msgFor k)

@[simp] theorem payloadsFor_nil (k : ConnId) : payloadsFor k [] = [] := rfl
@[simp] theorem msgsFor_nil (k : ConnId) : msgsFor k [] = [] := rfl

@[simp] theorem payloadsFor_append (k : ConnId) (a b : List Frame) :
    payloadsFor k (a ++ b) = payloadsFor k a ++ payloadsFor k b :=
  List.filterMap_append ..

@[simp] theorem msgsFor_append (k : ConnId) (a b : List Frame) :
    msgsFor k (a ++ b) = msgsFor k a ++ msgsFor k b := List.filterMap_append ..

theorem payloadsFor_singleton_ne {k : ConnId} {f : Frame} (h : f.connId ≠ k) :
    payloadsFor k [f] = [] := by
  cases f <;> simp_all [payloadsFor, Frame.payloadFor, Frame.connId]

@[simp] theorem payloadsFor_tcpData (k : ConnId) (payload : Bytes) :
    payloadsFor k [.tcpData k payload] = [payload] := by
  simp [payloadsFor, Frame.payloadFor]

@[simp] theorem payloadsFor_tcpOpen (k j : ConnId) :
    payloadsFor k [.tcpOpen j] = [] := rfl

@[simp] theorem payloadsFor_tcpClose (k j : ConnId) :
    payloadsFor k [.tcpClose j] = [] := rfl

theorem payloadsFor_snoc_open (k j : ConnId) (log : List Frame) :
    payloadsFor k (log ++ [.tcpOpen j]) = payloadsFor k log := by simp

theorem payloadsFor_snoc_close (k j : ConnId) (log : List Frame) :
    payloadsFor k (log ++ [.tcpClose j]) = payloadsFor k log := by simp

theorem payloadsFor_snoc_data (k j : ConnId) (payload : Bytes)
    (log : List Frame) : payloadsFor k (log ++ [.tcpData j payload]) =
      if j = k then payloadsFor k log ++ [payload] else payloadsFor k log := by
  split
  · next hj => simp [hj]
  · next hj =>
      have hne : (Frame.tcpData j payload).connId ≠ k := hj
      rw [payloadsFor_append, payloadsFor_singleton_ne hne, List.append_nil]

theorem payloadsFor_of_framesFor_nil {k : ConnId} {log : List Frame}
    (h : framesFor k log = []) : payloadsFor k log = [] := by
  rw [payloadsFor, List.filterMap_eq_nil_iff]
  intro f hf
  cases f with
  | tcpOpen j => rfl
  | tcpClose j => rfl
  | tcpData j payload => exact if_neg (KeyedLog.on_eq_nil.1 h _ hf)

theorem msgsFor_singleton_self (f : Frame) : msgsFor f.connId [f] = f.msg.toList := by
  rcases h : f.msg with _ | m <;> simp [msgsFor, Frame.msgFor, h]

theorem msgsFor_singleton_ne {k : ConnId} {f : Frame} (h : f.connId ≠ k) :
    msgsFor k [f] = [] := by
  simp [msgsFor, Frame.msgFor, h]

theorem msgsFor_singleton (k : ConnId) (f : Frame) :
    msgsFor k [f] = if f.connId = k then f.msg.toList else [] := by
  split
  · next hk => exact hk ▸ msgsFor_singleton_self f
  · next hk => exact msgsFor_singleton_ne hk

theorem prefix_msgsFor {k : ConnId} {a b : List Frame} (h : a <+: b) :
    msgsFor k a <+: msgsFor k b := h.filterMap _

/-- A log without frames for `k` asks nothing of `k`'s writer. -/
theorem msgsFor_of_framesFor_nil {k : ConnId} {log : List Frame}
    (h : framesFor k log = []) : msgsFor k log = [] := by
  rw [msgsFor, List.filterMap_eq_nil_iff]
  exact fun f hf => if_neg (KeyedLog.on_eq_nil.1 h f hf)

/-- Payloads are read off the frames of their own conn id. -/
theorem payloadsFor_framesFor (k : ConnId) (log : List Frame) :
    payloadsFor k (framesFor k log) = payloadsFor k log := by
  rw [payloadsFor, framesFor, KeyedLog.on, List.filterMap_filter, payloadsFor]
  congr 1
  funext f
  cases f with
  | tcpOpen j => simp [Frame.payloadFor]
  | tcpClose j => simp [Frame.payloadFor]
  | tcpData j payload => by_cases hj : j = k <;> simp [Frame.payloadFor, Frame.connId, hj]

/-- A message is asked for by a frame of its own conn id. -/
theorem mem_msgsFor {k : ConnId} {m : WrMsg} {log : List Frame} :
    m ∈ msgsFor k log ↔ ∃ f ∈ log, f.connId = k ∧ f.msg = some m := by
  simp only [msgsFor, List.mem_filterMap, Frame.msgFor]
  constructor
  · rintro ⟨f, hf, hm⟩
    split at hm
    · next hk => exact ⟨f, hf, hk, hm⟩
    · cases hm
  · rintro ⟨f, hf, hk, hm⟩
    exact ⟨f, hf, by rw [if_pos hk]; exact hm⟩

theorem Frame.eq_tcpClose_of_msg {f : Frame} (h : f.msg = some .shutdown) :
    f = .tcpClose f.connId := by
  cases f with
  | tcpOpen k => cases h
  | tcpData k payload =>
      simp only [Frame.msg] at h
      split at h <;> cases h
  | tcpClose k => rfl

/-- A `Shutdown` is asked for by a CLOSE frame only. -/
theorem shutdown_mem_msgsFor {k : ConnId} {log : List Frame} :
    WrMsg.shutdown ∈ msgsFor k log ↔ Frame.tcpClose k ∈ log := by
  rw [mem_msgsFor]
  constructor
  · rintro ⟨f, hf, rfl, hm⟩
    exact Frame.eq_tcpClose_of_msg hm ▸ hf
  · exact fun hf => ⟨_, hf, rfl, rfl⟩

/-- The bytes a log brings for `k`: the same whether read off the payloads or
off the writer messages. -/
theorem flatMap_bytes_msgsFor (k : ConnId) (log : List Frame) :
    (msgsFor k log).flatMap WrMsg.bytes = (payloadsFor k log).flatten := by
  induction log with
  | nil => rfl
  | cons f log ih =>
      rw [← List.singleton_append, msgsFor_append, payloadsFor_append,
        List.flatMap_append, List.flatten_append, ih]
      congr 1
      by_cases hk : f.connId = k
      · subst hk
        rw [msgsFor_singleton_self]
        cases f with
        | tcpOpen j => rfl
        | tcpClose j => rfl
        | tcpData j payload =>
            by_cases hp : payload = []
            · simp [Frame.msg, hp, Frame.connId]
            · simp [Frame.msg, hp, Frame.connId, WrMsg.bytes]
      · rw [msgsFor_singleton_ne hk, payloadsFor_singleton_ne hk]
        rfl

/-- Appending a frame keeps `ClosesLast` when no CLOSE of its id came before. -/
theorem closesLast_snoc {k : ConnId} {log : List Frame} {f : Frame} :
    ClosesLast k (log ++ [f]) ↔
      ClosesLast k log ∧ (f.connId = k → Frame.tcpClose k ∉ log) := by
  rw [ClosesLast, KeyedLog.closesLast_snoc]
  refine and_congr_right fun _ => imp_congr_right fun _ => ?_
  constructor
  · exact fun h hmem => h _ hmem rfl rfl
  · intro h g hg hc hk
    cases g with
    | tcpClose j => cases hk; exact h hg
    | tcpOpen j => cases hc
    | tcpData j payload => cases hc

/-- Where CLOSE comes last, no message follows a `Shutdown`. -/
theorem pairwise_msgsFor {k : ConnId} {log : List Frame} (h : ClosesLast k log) :
    (msgsFor k log).Pairwise fun m _ => m ≠ .shutdown := by
  rw [msgsFor, List.pairwise_filterMap]
  refine h.imp fun {f g} hfg m hm m' hm' hshut => ?_
  subst hshut
  simp only [Frame.msgFor] at hm hm'
  split at hm
  · next hf =>
      split at hm'
      · next hg => exact hfg (by rw [Frame.eq_tcpClose_of_msg hm]; rfl) hf hg
      · cases hm'
  · cases hm

/-- Appending a frame keeps `OpensFirst` when an OPEN comes first. -/
theorem opensFirst_snoc {k : ConnId} {log : List Frame} {f : Frame} :
    OpensFirst k (log ++ [f]) ↔
      OpensFirst k log ∧ (f = .tcpOpen k → framesFor k log = []) := by
  rw [OpensFirst, KeyedLog.opensFirst_snoc]
  refine and_congr_right fun _ => ?_
  constructor
  · rintro h rfl
    exact h rfl rfl
  · intro h ho hk
    cases f with
    | tcpOpen j => cases hk; exact h rfl
    | tcpData j payload => cases ho
    | tcpClose j => cases ho

/-- Where OPEN comes first, it comes once. -/
theorem OpensFirst.count_le {k : ConnId} {log : List Frame} (h : OpensFirst k log) :
    log.count (.tcpOpen k) ≤ 1 := by
  induction log with
  | nil => simp
  | cons f log ih =>
      obtain ⟨hf, hlog⟩ := List.pairwise_cons.1 h
      by_cases hfo : f = .tcpOpen k
      · subst hfo
        have hnone : log.count (.tcpOpen k) = 0 :=
          List.count_eq_zero.2 fun hmem => hf _ hmem rfl rfl rfl
        rw [List.count_cons_self, hnone]
      · rw [List.count_cons_of_ne hfo]
        exact ih hlog

/-- Frames of one conn id that open and close nothing are DATA frames. -/
theorem eq_map_tcpData {k : ConnId} {body : List Frame}
    (h : ∀ f ∈ body, f.connId = k ∧ f.isOpen = false ∧ f.isClose = false) :
    body = (payloadsFor k body).map (Frame.tcpData k) := by
  induction body with
  | nil => rfl
  | cons f body ih =>
      obtain ⟨hk, ho, hc⟩ := h f (by simp)
      have ih' := ih fun g hg => h g (by simp [hg])
      cases f with
      | tcpOpen j => cases ho
      | tcpClose j => cases hc
      | tcpData j payload =>
          cases hk
          rw [← List.singleton_append, payloadsFor_append, List.map_append, ← ih']
          simp [Frame.connId]

/-- Where OPEN comes first and CLOSE last, the frames of one conn id are at
most one OPEN, then DATA frames, then at most one CLOSE. -/
theorem framesFor_eq {k : ConnId} {log : List Frame} (hfirst : OpensFirst k log)
    (hlast : ClosesLast k log) :
    ∃ opening close,
      framesFor k log = opening ++ (payloadsFor k log).map (Frame.tcpData k) ++ close ∧
        (opening = [] ∨ opening = [.tcpOpen k]) ∧ (close = [] ∨ close = [.tcpClose k]) := by
  have hkey : ∀ f ∈ framesFor k log, f.connId = k := fun f hf => (KeyedLog.mem_on.1 hf).2
  obtain ⟨opening, rest, hsplit, hrest, hopening⟩ := hfirst.on.split hkey
  have hlast' : ClosesLast k rest :=
    List.Pairwise.sublist (hsplit ▸ List.sublist_append_right opening rest) hlast.on
  obtain ⟨body, close, hbody, hnoClose, hclose⟩ := hlast'.split fun f hf =>
    hkey f (by rw [framesFor, hsplit]; exact List.mem_append_right _ hf)
  have hmem : ∀ f ∈ opening ++ (body ++ close), f.connId = k := fun f hf =>
    hkey f (by rw [framesFor, hsplit, hbody]; exact hf)
  have hopen : opening = [] ∨ opening = [.tcpOpen k] := by
    rcases hopening with rfl | ⟨o, rfl, ho⟩
    · exact Or.inl rfl
    · have hk := hmem o (by simp)
      cases o with
      | tcpOpen j => cases hk; exact Or.inr rfl
      | tcpData j payload => cases ho
      | tcpClose j => cases ho
  have hcl : close = [] ∨ close = [.tcpClose k] := by
    rcases hclose with rfl | ⟨c, rfl, hc⟩
    · exact Or.inl rfl
    · have hk := hmem c (by simp)
      cases c with
      | tcpClose j => cases hk; exact Or.inr rfl
      | tcpOpen j => cases hc
      | tcpData j payload => cases hc
  have hdata : body = (payloadsFor k body).map (Frame.tcpData k) :=
    eq_map_tcpData fun f hf =>
      ⟨hmem f (by simp [hf]), hrest f (by rw [hbody]; simp [hf]), hnoClose f hf⟩
  have hpay : payloadsFor k log = payloadsFor k body := by
    rw [← payloadsFor_framesFor, framesFor, hsplit, hbody, payloadsFor_append,
      payloadsFor_append]
    rcases hopen with rfl | rfl <;> rcases hcl with rfl | rfl <;> simp
  refine ⟨opening, close, ?_, hopen, hcl⟩
  rw [hpay, ← hdata, framesFor, hsplit, hbody, List.append_assoc]

end UsbWs
