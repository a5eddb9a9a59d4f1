import UsbWs.Frame
import UsbWs.Lib.Runs

/-!
# The loop that owns the websocket

`session_loop` of the TCP tunnel and the reconnect loop of the serial
`bridge` are one loop: connect and handshake, then wait in `select!` for the
next websocket message or the next item of a bounded queue, and start over
when the websocket breaks. They differ in what an item is, in what is put on
the wire for it, in the capacity of the queue and in what `handle_incoming`
does. `Loop.step` is the loop with these four as parameters, `sessionLoop`
and `bridge` are the two loops of the source.

The state records what the loop has taken off the queue (`dequeued`) and
what each websocket session has carried (`past`, `wire`), so the question
whether a reconnect loses an item is a question about the state. The answer
is `sent_eq_dequeued_iff`: an item is lost exactly when its own send fails,
because the loop has then already dequeued it and does not send it again.
Every other exit of the inner loop (a close, a websocket error, a failed
reconnect, Ctrl-C) is taken from the `select!` and loses nothing.
-/

namespace UsbWs

open Runs

/-- Capacity of the outbound queue of the TCP tunnel. -/
def outQueue : Nat := 512

/-- Capacity of the two queues of the serial bridge. -/
def devQueue : Nat := 256

/-- Where the task that owns the websocket stands; `η` are the points inside
its `handle_incoming`. -/
inductive LoopPc (ι η : Type) where
  | connecting
  | select
  | handling (h : η)
  | sending (item : ι)
  | exited
  deriving DecidableEq

structure Loop (ι ω η : Type) where
  pc : LoopPc ι η
  queue : List ι
  dequeued : List ι
  past : List (List ω)
  wire : List ω

/-- What happens to the loop by itself: the websocket, its own receive end of
the queue, and the user. -/
inductive LoopEvent where
  | relayUp
  | relayDown
  | wsClosed
  | dequeue
  | sendOk
  | sendErr
  | outClosed
  | ctrlC
  deriving DecidableEq, Repr

/-- The events, what producers push, and the progress of `handle_incoming`. -/
inductive LoopAct (ι η : Type) where
  | event (ev : LoopEvent)
  | push (item : ι)
  | recv (h : η)
  | handle (h : η)
  | handled

namespace Loop

variable {ι ω η : Type}

def init : Loop ι ω η :=
  { pc := .connecting, queue := [], dequeued := [], past := [], wire := [] }

/-- Everything put on a websocket so far, over all sessions. -/
def sent (l : Loop ι ω η) : List ω := (l.past ++ [l.wire]).flatten

/-- Everything ever put on the queue. -/
def enqueued (l : Loop ι ω η) : List ι := l.dequeued ++ l.queue

/-- The item dequeued last, while its send is under way. -/
def pending (l : Loop ι ω η) : List ι :=
  match l.pc with
  | .sending item => [item]
  | _ => []

/-- The inner loop is left for a reconnect; the session is over. -/
def disconnect (l : Loop ι ω η) : Loop ι ω η :=
  { l with pc := .connecting, past := l.past ++ [l.wire], wire := [] }

def event (encode : ι → ω) (l : Loop ι ω η) : LoopEvent → Option (Loop ι ω η)
  | .relayUp =>
      match l.pc with
      | .connecting => some { l with pc := .select }
      | _ => none
  | .relayDown =>
      match l.pc with
      | .connecting => some l
      | _ => none
  | .wsClosed =>
      match l.pc with
      | .select => some l.disconnect
      | _ => none
  | .dequeue =>
      match l.pc, l.queue with
      | .select, item :: rest =>
          some { l with pc := .sending item, queue := rest, dequeued := l.dequeued ++ [item] }
      | _, _ => none
  | .sendOk =>
      match l.pc with
      | .sending item => some { l with pc := .select, wire := l.wire ++ [encode item] }
      | _ => none
  | .sendErr =>
      match l.pc with
      | .sending _ => some l.disconnect
      | _ => none
  | .outClosed =>
      match l.pc, l.queue with
      | .select, [] => some { l with pc := .exited }
      | _, _ => none
  | .ctrlC =>
      match l.pc with
      | .connecting | .select => some { l with pc := .exited }
      | _ => none

/-- One step of the loop or of its surroundings. -/
def step (cap : Nat) (encode : ι → ω) (l : Loop ι ω η) :
    LoopAct ι η → Option (Loop ι ω η)
  | .event ev => l.event encode ev
  | .push item =>
      if l.queue.length < cap then some { l with queue := l.queue ++ [item] } else none
  | .recv h =>
      match l.pc with
      | .select => some { l with pc := .handling h }
      | _ => none
  | .handle h =>
      match l.pc with
      | .handling _ => some { l with pc := .handling h }
      | _ => none
  | .handled =>
      match l.pc with
      | .handling _ => some { l with pc := .select }
      | _ => none

end Loop

/-- The loop of the TCP tunnel: what it dequeues is a finished frame. -/
def sessionLoop {η : Type} :
    Loop Frame Frame η → LoopAct Frame η → Option (Loop Frame Frame η) :=
  Loop.step outQueue id

/-- The loop of the serial bridge: what it dequeues is a device chunk, and it
sends the chunk packed as `CMD_SERIAL_DATA`. -/
def bridge {η : Type} :
    Loop Bytes Bytes η → LoopAct Bytes η → Option (Loop Bytes Bytes η) :=
  Loop.step devQueue (packInner 0 cmdSerialData)

namespace Loop

variable {ι ω η : Type} {encode : ι → ω} {cap : Nat} {l l' : Loop ι ω η}

/-! ## What one step does to the record

A step other than the failed send keeps `sent` and `pending` together equal
to `dequeued`; the failed send drops the pending item from the left side.
Both are read off the branches once. -/

@[simp] theorem sent_disconnect : l.disconnect.sent = l.sent := by
  simp [sent, disconnect]

@[simp] theorem sent_wire_append {item : ω} {pc : LoopPc ι η} :
    Loop.sent { l with pc := pc, wire := l.wire ++ [item] } = l.sent ++ [item] := by
  simp [sent]

/-- What one event does: the failed send loses the pending item, every other
event accounts for all of them. -/
theorem event_record {ev : LoopEvent} (h : l.event encode ev = some l') :
    (ev ≠ .sendErr → l.sent ++ l.pending.map encode = l.dequeued.map encode →
      l'.sent ++ l'.pending.map encode = l'.dequeued.map encode) ∧
    l'.sent.length + l'.pending.length + l.dequeued.length +
        (if ev = .sendErr then 1 else 0) =
      l.sent.length + l.pending.length + l'.dequeued.length := by
  cases ev with
  | relayUp | relayDown | ctrlC =>
      simp only [event] at h
      split at h <;> cases h <;> simp_all [pending, sent]
  | wsClosed =>
      simp only [event] at h
      split at h <;> cases h
      next hpc =>
        rw [sent_disconnect]
        simp only [pending, hpc, disconnect]
        exact ⟨fun _ hrec => hrec, by simp⟩
  | dequeue =>
      simp only [event] at h
      split at h <;> cases h
      next hpc hq =>
        simp only [pending, hpc, sent]
        refine ⟨fun _ hrec => ?_, by simp; omega⟩
        simp only [List.map_nil, List.append_nil] at hrec
        simp [hrec]
  | sendOk =>
      simp only [event] at h
      split at h <;> cases h
      next hpc =>
        rw [sent_wire_append]
        simp only [pending, hpc]
        refine ⟨fun _ hrec => ?_, by simp⟩
        simpa using hrec
  | sendErr =>
      simp only [event] at h
      split at h <;> cases h
      next hpc =>
        refine ⟨fun hne => absurd rfl hne, ?_⟩
        rw [sent_disconnect]
        simp only [pending, hpc, disconnect]
        simp
        omega
  | outClosed =>
      simp only [event] at h
      split at h <;> cases h
      next hpc hq => simp_all [pending, sent]

/-- An event is not one of `handle_incoming`, does not happen to a loop that
has exited, and puts nothing on the queue. -/
theorem event_frame {ev : LoopEvent} (h : l.event encode ev = some l') :
    (∀ p, l.pc ≠ .handling p) ∧ (∀ p, l'.pc ≠ .handling p) ∧ l.pc ≠ .exited ∧
      l'.enqueued = l.enqueued := by
  cases ev <;> simp only [event] at h <;> split at h <;> cases h <;>
    simp_all [enqueued, disconnect]

/-- What was put on a websocket stays on the record. -/
theorem prefix_event_sent {ev : LoopEvent} (h : l.event encode ev = some l') :
    l.sent <+: l'.sent := by
  cases ev <;> simp only [event] at h <;> split at h <;> cases h <;>
    simp [sent, disconnect, ← List.append_assoc]

/-- What was sent and what is being sent are some of the items dequeued, also
after failed sends. -/
theorem event_sublist {ev : LoopEvent} (h : l.event encode ev = some l')
    (hsent : (l.sent ++ l.pending.map encode).Sublist (l.dequeued.map encode)) :
    (l'.sent ++ l'.pending.map encode).Sublist (l'.dequeued.map encode) := by
  cases ev with
  | relayUp | relayDown | outClosed | ctrlC =>
      simp only [event] at h
      split at h <;> cases h <;> simp_all [pending, sent]
  | wsClosed | sendErr =>
      simp only [event] at h
      split at h <;> cases h
      have hpend : l.disconnect.pending = [] := rfl
      rw [sent_disconnect, hpend, List.map_nil, List.append_nil]
      exact (List.sublist_append_left _ _).trans hsent
  | dequeue =>
      simp only [event] at h
      split at h <;> cases h
      next item rest hpc hq =>
        rw [pending, hpc, List.map_nil, List.append_nil] at hsent
        rw [List.map_append]
        exact hsent.append (List.Sublist.refl _)
  | sendOk =>
      simp only [event] at h
      split at h <;> cases h
      next item hpc =>
        rw [pending, hpc] at hsent
        rw [sent_wire_append]
        simpa [pending] using hsent

/-- The failed send, the only action that loses an item. -/
def isSendErr : LoopAct ι η → Bool
  | .event .sendErr => true
  | _ => false

/-- What one step does to the record. -/
theorem step_record {a : LoopAct ι η} (h : step cap encode l a = some l') :
    (isSendErr a = false → l.sent ++ l.pending.map encode = l.dequeued.map encode →
      l'.sent ++ l'.pending.map encode = l'.dequeued.map encode) ∧
    l'.sent.length + l'.pending.length + l.dequeued.length +
        (if isSendErr a = true then 1 else 0) =
      l.sent.length + l.pending.length + l'.dequeued.length := by
  cases a with
  | event ev =>
      have hev := event_record h
      cases ev <;> simpa [isSendErr] using hev
  | push item =>
      simp only [step] at h
      split at h <;> cases h
      exact ⟨fun _ hrec => hrec, by simp [isSendErr, sent, pending]⟩
  | recv p | handle p | handled =>
      simp only [step] at h
      split at h <;> cases h
      next hpc => simp [isSendErr, sent, pending, hpc]

/-! ## A whole run -/

/-- Along a run, what was sent, what is being sent and the failed sends
together account for every dequeued item. -/
theorem run_count {as : List (LoopAct ι η)} :
    ∀ {l : Loop ι ω η}, run (step cap encode) init as = some l →
      l.sent.length + l.pending.length + as.countP isSendErr = l.dequeued.length := by
  induction as using List.reverseRecOn with
  | nil =>
      intro l h
      cases h
      rfl
  | append_singleton as a ih =>
      intro l h
      rw [run_snoc, Option.bind_eq_some_iff] at h
      obtain ⟨l₀, hrun, hstep⟩ := h
      have hcount := (step_record hstep).2
      have hprev := ih hrun
      rw [List.countP_append, List.countP_singleton]
      omega

/-- Along a run without a failed send nothing is lost, not even while a send
is under way. -/
theorem run_lossless {as : List (LoopAct ι η)} :
    ∀ {l : Loop ι ω η}, run (step cap encode) init as = some l →
      as.countP isSendErr = 0 →
      l.sent ++ l.pending.map encode = l.dequeued.map encode := by
  induction as using List.reverseRecOn with
  | nil =>
      intro l h _
      cases h
      rfl
  | append_singleton as a ih =>
      intro l h hcount
      rw [run_snoc, Option.bind_eq_some_iff] at h
      obtain ⟨l₀, hrun, hstep⟩ := h
      rw [List.countP_append, List.countP_singleton, Nat.add_eq_zero_iff] at hcount
      have ha : isSendErr a = false := by
        cases hsend : isSendErr a with
        | false => rfl
        | true => simp [hsend] at hcount
      exact (step_record hstep).1 ha (ih hrun hcount.1)

/-- Where the loop waits in its `select!`, every dequeued item has been sent,
in order, exactly when no send has failed so far. -/
theorem sent_eq_iff {as : List (LoopAct ι η)} (h : run (step cap encode) init as = some l)
    (hpc : l.pc = .select) :
    l.sent = l.dequeued.map encode ↔ LoopAct.event .sendErr ∉ as := by
  have hpend : l.pending = [] := by rw [pending, hpc]
  have hmem : as.countP isSendErr = 0 ↔ LoopAct.event .sendErr ∉ as := by
    rw [List.countP_eq_zero]
    constructor
    · exact fun hall hmem => hall _ hmem rfl
    · intro hnot a ha hsend
      cases a with
      | event ev =>
          cases ev with
          | sendErr => exact hnot ha
          | _ => cases hsend
      | _ => cases hsend
  rw [← hmem]
  constructor
  · intro heq
    have hcount := run_count h
    rw [heq, hpend, List.length_map] at hcount
    simp only [List.length_nil] at hcount
    omega
  · intro hzero
    have hrec := run_lossless h hzero
    rw [hpend] at hrec
    simpa using hrec

end Loop

/-! ## The two loops

The frames of the TCP tunnel and the chunks of the serial bridge have the
same fate. -/

/-- Both loops: what all websocket sessions together carried is what was
dequeued, in order, at every `select!` of a run without a failed send, and at
no `select!` after a failed send. -/
theorem sent_eq_dequeued_iff (η : Type) :
    (∀ (as : List (LoopAct Frame η)) (l : Loop Frame Frame η),
      run sessionLoop Loop.init as = some l → l.pc = .select →
      (l.sent = l.dequeued ↔ LoopAct.event .sendErr ∉ as)) ∧
    (∀ (as : List (LoopAct Bytes η)) (l : Loop Bytes Bytes η),
      run bridge Loop.init as = some l → l.pc = .select →
      (l.sent = l.dequeued.map (packInner 0 cmdSerialData) ↔
        LoopAct.event .sendErr ∉ as)) := by
  constructor
  · intro as l h hpc
    have hiff := Loop.sent_eq_iff h hpc
    rwa [List.map_id] at hiff
  · exact fun as l h hpc => Loop.sent_eq_iff h hpc

/-- A run of the tunnel's loop whose websocket closes between two sends. -/
def reconnectRun {α : Type} (item₁ item₂ : α) : List (LoopAct α Unit) :=
  [.event .relayUp, .push item₁, .push item₂, .event .dequeue, .event .sendOk,
    .event .wsClosed, .event .relayUp, .event .dequeue, .event .sendOk]

/-- A run whose first send fails: the loop reconnects and goes on with the
second item. -/
def gapRun {α : Type} (item₁ item₂ : α) : List (LoopAct α Unit) :=
  [.event .relayUp, .push item₁, .push item₂, .event .dequeue, .event .sendErr,
    .event .relayUp, .event .dequeue, .event .sendOk]

/-- Where `reconnectRun` ends: both items went out, in two sessions. -/
def reconnectEnd {α ω : Type} (encode : α → ω) (item₁ item₂ : α) : Loop α ω Unit :=
  { pc := .select, queue := [], dequeued := [item₁, item₂], past := [[encode item₁]],
    wire := [encode item₂] }

/-- Where `gapRun` ends: only the second item went out. -/
def gapEnd {α ω : Type} (encode : α → ω) (item₁ item₂ : α) : Loop α ω Unit :=
  { pc := .select, queue := [], dequeued := [item₁, item₂], past := [[]],
    wire := [encode item₂] }

/-- Both parts, at a close between two sends. -/
theorem sent_eq_dequeued_iff_reconnect :
    let open₁ := Frame.tcpOpen 0
    let data₁ := Frame.tcpData 0 [1]
    ((reconnectEnd id open₁ data₁).sent = (reconnectEnd id open₁ data₁).dequeued ↔
      LoopAct.event .sendErr ∉ reconnectRun open₁ data₁) ∧
    ((reconnectEnd (packInner 0 cmdSerialData) [1] [2]).sent =
        (reconnectEnd (packInner 0 cmdSerialData) [1] [2]).dequeued.map
          (packInner 0 cmdSerialData) ↔
      LoopAct.event .sendErr ∉ reconnectRun ([1] : Bytes) [2]) :=
  ⟨(sent_eq_dequeued_iff Unit).1 _ _ rfl rfl, (sent_eq_dequeued_iff Unit).2 _ _ rfl rfl⟩

/-- After one failed send both loops go on with the next item: the stream on
the wire has a hole where the first one was. -/
theorem sent_ne_dequeued_of_sendErr :
    (¬ ∀ (as : List (LoopAct Frame Unit)) l, run sessionLoop Loop.init as = some l →
      l.pc = .select → l.sent = l.dequeued) ∧
    (¬ ∀ (as : List (LoopAct Bytes Unit)) l, run bridge Loop.init as = some l →
      l.pc = .select → l.sent = l.dequeued.map (packInner 0 cmdSerialData)) := by
  constructor
  · intro h
    have hgap := h (gapRun (.tcpData 0 [1]) (.tcpData 0 [2]))
      (gapEnd id (.tcpData 0 [1]) (.tcpData 0 [2])) rfl rfl
    exact absurd hgap (by decide)
  · intro h
    have hgap := h (gapRun [1] [2]) (gapEnd (packInner 0 cmdSerialData) [1] [2]) rfl rfl
    exact absurd hgap (by decide)

end UsbWs
