import UsbWs.Frame
import Mathlib.Logic.Function.Basic

/-!
# One tunneled connection, and the conn id it gets

`spawn_connection` splits a socket into two tasks. The writer task takes
messages off the connection's own bounded queue, writes the bytes out, shuts
the socket's write half when it leaves its loop, and last removes the map
entry. The reader task reads chunks, hands each to the outbound queue, and
announces the end of its direction with one CLOSE. `Conn` is the state of
both: their program points, the queue between the session task and the
writer, and a record of what went through the socket.

`Conn.step` holds the steps that touch nothing but this connection: the
socket's answers to `read` and `write_all`, and the writer's receives. The
steps that touch the outbound queue or the conn map are steps of the
endpoint.

`allocConnId` is the acceptor's choice of a conn id.
-/

namespace UsbWs

/-- Max bytes per DATA frame read from a socket. -/
def readChunk : Nat := 16 * 1024

/-- Capacity of a connection's writer queue. -/
def connQueue : Nat := 256

/-- The reader task: not started, in `rd.read`, in the `send_peer` of a chunk,
in the `send_peer` of its CLOSE, ended. -/
inductive Reader where
  | unspawned
  | reading
  | sending (chunk : Bytes)
  | closing
  | done
  deriving DecidableEq, Repr

/-- The writer task: not started, in `sock_rx.recv`, in `wr.write_all` with
the bytes still to go, out of the loop, past `wr.shutdown`, ended. -/
inductive Writer where
  | unspawned
  | recv
  | writing (rest : Bytes)
  | exiting
  | shut
  | done
  deriving DecidableEq, Repr

/-- The writer task runs: it was started and has not removed its map entry. -/
def Writer.alive : Writer → Bool
  | .unspawned | .done => false
  | _ => true

theorem Writer.eq_done {w : Writer} (hstart : w ≠ .unspawned) (hdead : w.alive = false) :
    w = .done := by
  cases w with
  | unspawned => exact absurd rfl hstart
  | done => rfl
  | _ => cases hdead

/-- The writer has left its loop. -/
def Writer.pastLoop : Writer → Bool
  | .exiting | .shut | .done => true
  | _ => false

/-- The reader task runs. -/
def Reader.alive : Reader → Bool
  | .unspawned | .done => false
  | _ => true

structure Conn where
  id : ConnId
  reader : Reader
  writer : Writer
  queue : List WrMsg
  /-- The chunks the reader got from the socket. -/
  reads : List Bytes
  /-- The socket's read side reported its end or an error. -/
  eof : Bool
  /-- The messages the writer took off the queue. -/
  got : List WrMsg
  /-- The bytes the socket accepted. -/
  written : Bytes
  writeFailed : Bool

/-- A socket that was just accepted or dialled. -/
def Conn.fresh (k : ConnId) : Conn :=
  { id := k, reader := .unspawned, writer := .unspawned, queue := [], reads := [],
    eof := false, got := [], written := [], writeFailed := false }

/-- Both halves start. -/
def Conn.spawn (c : Conn) : Conn := { c with reader := .reading, writer := .recv }

/-- A message enters the writer queue. -/
def Conn.put (c : Conn) (m : WrMsg) : Conn := { c with queue := c.queue ++ [m] }

/-- All messages ever put on the writer queue. -/
def Conn.puts (c : Conn) : List WrMsg := c.got ++ c.queue

namespace Conn

variable (c : Conn) (k : ConnId) (m : WrMsg)

@[simp] theorem fresh_id : (fresh k).id = k := rfl
@[simp] theorem fresh_reader : (fresh k).reader = .unspawned := rfl
@[simp] theorem fresh_writer : (fresh k).writer = .unspawned := rfl
@[simp] theorem fresh_puts : (fresh k).puts = [] := rfl
@[simp] theorem fresh_reads : (fresh k).reads = [] := rfl
@[simp] theorem fresh_eof : (fresh k).eof = false := rfl
@[simp] theorem fresh_got : (fresh k).got = [] := rfl
@[simp] theorem fresh_writeFailed : (fresh k).writeFailed = false := rfl

@[simp] theorem spawn_id : c.spawn.id = c.id := rfl
@[simp] theorem spawn_reader : c.spawn.reader = .reading := rfl
@[simp] theorem spawn_writer : c.spawn.writer = .recv := rfl
@[simp] theorem spawn_puts : c.spawn.puts = c.puts := rfl
@[simp] theorem spawn_reads : c.spawn.reads = c.reads := rfl
@[simp] theorem spawn_eof : c.spawn.eof = c.eof := rfl
@[simp] theorem spawn_got : c.spawn.got = c.got := rfl
@[simp] theorem spawn_writeFailed : c.spawn.writeFailed = c.writeFailed := rfl

@[simp] theorem put_id : (c.put m).id = c.id := rfl
@[simp] theorem put_reader : (c.put m).reader = c.reader := rfl
@[simp] theorem put_writer : (c.put m).writer = c.writer := rfl
@[simp] theorem put_puts : (c.put m).puts = c.puts ++ [m] := by
  simp [puts, put, List.append_assoc]
@[simp] theorem put_reads : (c.put m).reads = c.reads := rfl
@[simp] theorem put_eof : (c.put m).eof = c.eof := rfl
@[simp] theorem put_got : (c.put m).got = c.got := rfl
@[simp] theorem put_writeFailed : (c.put m).writeFailed = c.writeFailed := rfl

end Conn

inductive ConnAct where
  | read (chunk : Bytes)
  | readEnd
  | pop
  | write (n : Nat)
  | wrote
  | writeErr
  | shutdown
  deriving DecidableEq, Repr

/-- The steps of the two halves that stay inside the connection. `write n` is
one accepted part of a `write_all`, `writeErr` its failure with the rest still
to go. -/
def Conn.step (c : Conn) : ConnAct → Option Conn
  | .read chunk =>
      match c.reader with
      | .reading =>
          if chunk ≠ [] ∧ chunk.length ≤ readChunk then
            some { c with reader := .sending chunk, reads := c.reads ++ [chunk] }
          else none
      | _ => none
  | .readEnd =>
      match c.reader with
      | .reading => some { c with reader := .closing, eof := true }
      | _ => none
  | .pop =>
      match c.writer, c.queue with
      | .recv, .data bytes :: rest =>
          some { c with writer := .writing bytes, queue := rest,
                        got := c.got ++ [.data bytes] }
      | .recv, .shutdown :: rest =>
          some { c with writer := .exiting, queue := rest, got := c.got ++ [.shutdown] }
      | _, _ => none
  | .write n =>
      match c.writer with
      | .writing rest =>
          if 0 < n ∧ n ≤ rest.length then
            some { c with writer := .writing (rest.drop n),
                          written := c.written ++ rest.take n }
          else none
      | _ => none
  | .wrote =>
      match c.writer with
      | .writing [] => some { c with writer := .recv }
      | _ => none
  | .writeErr =>
      match c.writer with
      | .writing (_ :: _) => some { c with writer := .exiting, writeFailed := true }
      | _ => none
  | .shutdown =>
      match c.writer with
      | .exiting => some { c with writer := .shut }
      | _ => none

/-! ## The writer's own accounts

What the socket accepted is what the writer took off its queue, less the rest
of the write under way; after a failed write it is a prefix. The writer stops
at the first `Shutdown`, so that is the last message it takes. -/

/-- The account of one writer, by where it stands. -/
def Conn.WriterOk (c : Conn) : Prop :=
  match c.writer with
  | .unspawned => c.got = [] ∧ c.queue = [] ∧ c.written = [] ∧ c.writeFailed = false
  | .recv => c.written = c.got.flatMap WrMsg.bytes ∧ .shutdown ∉ c.got ∧
      c.writeFailed = false
  | .writing rest => c.written ++ rest = c.got.flatMap WrMsg.bytes ∧ .shutdown ∉ c.got ∧
      c.writeFailed = false
  | .exiting | .shut | .done => c.written <+: c.got.flatMap WrMsg.bytes ∧
      (c.writeFailed = false → c.written = c.got.flatMap WrMsg.bytes) ∧
      (.shutdown ∈ c.got → ∃ ms, c.got = ms ++ [.shutdown] ∧ .shutdown ∉ ms)

theorem Conn.writerOk_fresh (k : ConnId) : (Conn.fresh k).WriterOk :=
  ⟨rfl, rfl, rfl, rfl⟩

theorem Conn.WriterOk.spawn {c : Conn} (h : c.WriterOk) (hw : c.writer = .unspawned) :
    c.spawn.WriterOk := by
  simp only [WriterOk, hw] at h
  obtain ⟨hgot, _, hwr, hf⟩ := h
  simp [WriterOk, Conn.spawn, hgot, hwr, hf]

/-- Messages entering the queue of a running or ended writer change none of
its accounts. -/
theorem Conn.WriterOk.put {c : Conn} (h : c.WriterOk) (hw : c.writer ≠ .unspawned)
    (m : WrMsg) : (c.put m).WriterOk := by
  cases hc : c.writer with
  | unspawned => exact absurd hc hw
  | _ => simpa [WriterOk, Conn.put, hc] using h

/-- In every state what was written is a prefix of what was taken. -/
theorem Conn.WriterOk.prefix_written {c : Conn} (h : c.WriterOk) :
    c.written <+: c.got.flatMap WrMsg.bytes := by
  cases hc : c.writer with
  | unspawned =>
      simp only [WriterOk, hc] at h
      simp [h.1, h.2.2.1]
  | recv =>
      simp only [WriterOk, hc] at h
      exact h.1 ▸ List.prefix_rfl
  | writing rest =>
      simp only [WriterOk, hc] at h
      exact ⟨rest, h.1⟩
  | exiting | shut | done =>
      simp only [WriterOk, hc] at h
      exact h.1

/-- A writer that left its loop without a failed write wrote all it took. -/
theorem Conn.WriterOk.written_eq {c : Conn} (h : c.WriterOk)
    (hpast : c.writer.pastLoop = true) (hok : c.writeFailed = false) :
    c.written = c.got.flatMap WrMsg.bytes := by
  cases hc : c.writer with
  | unspawned | recv | writing rest => rw [hc] at hpast; cases hpast
  | exiting | shut | done =>
      simp only [WriterOk, hc] at h
      exact h.2.1 hok

theorem Conn.WriterOk.step {c c' : Conn} {a : ConnAct} (h : c.WriterOk)
    (hs : c.step a = some c') : c'.WriterOk := by
  cases a with
  | read chunk =>
      simp only [Conn.step] at hs
      split at hs
      · split at hs <;> cases hs
        exact h
      · cases hs
  | readEnd =>
      simp only [Conn.step] at hs
      split at hs <;> cases hs
      exact h
  | pop =>
      simp only [Conn.step] at hs
      split at hs <;> cases hs
      · next hw _ =>
          simp only [WriterOk, hw] at h
          simp [WriterOk, h, WrMsg.bytes]
      · next hw _ =>
          simp only [WriterOk, hw] at h
          have hbytes : c.written = (c.got ++ [WrMsg.shutdown]).flatMap WrMsg.bytes := by
            simp [h.1, WrMsg.bytes]
          exact ⟨hbytes ▸ List.prefix_rfl, fun _ => hbytes, fun _ => ⟨_, rfl, h.2.1⟩⟩
  | write n =>
      simp only [Conn.step] at hs
      split at hs
      · next hw =>
          split at hs <;> cases hs
          simp only [WriterOk, hw] at h
          simpa [WriterOk] using h
      · cases hs
  | wrote =>
      simp only [Conn.step] at hs
      split at hs <;> cases hs
      next hw =>
        simp only [WriterOk, hw, List.append_nil] at h
        exact h
  | writeErr =>
      simp only [Conn.step] at hs
      split at hs <;> cases hs
      next hw =>
        simp only [WriterOk, hw] at h
        exact ⟨⟨_, h.1⟩, ⟨fun hf => absurd hf (by simp), fun hmem => absurd hmem h.2.1⟩⟩
  | shutdown =>
      simp only [Conn.step] at hs
      split at hs <;> cases hs
      next hw => simpa [WriterOk, hw] using h

/-! ## What a step of a connection cannot do

The endpoint's invariants see a connection's own step through this frame: it
keeps the id, starts and ends no task, loses and adds no message, and forgets
no failure. -/

theorem Conn.step_frame {c c' : Conn} {a : ConnAct} (h : c.step a = some c') :
    c'.id = c.id ∧ c'.writer.alive = c.writer.alive ∧
      (c'.writer = .unspawned ↔ c.writer = .unspawned) ∧
      (c'.reader = .unspawned ↔ c.reader = .unspawned) ∧ c'.puts = c.puts ∧
      (c.writeFailed = true → c'.writeFailed = true) := by
  cases a <;> simp only [Conn.step] at h <;> split at h <;>
    first
      | (cases h; done)
      | (split at h <;> cases h <;> simp_all [Writer.alive, Conn.puts])
      | (cases h; simp_all [Writer.alive, Conn.puts])

/-- Only a failed write is recorded as one. -/
theorem Conn.step_writeFailed {c c' : Conn} {a : ConnAct} (h : c.step a = some c')
    (ha : a ≠ .writeErr) : c'.writeFailed = c.writeFailed := by
  cases a with
  | writeErr => exact absurd rfl ha
  | read | write =>
      simp only [Conn.step] at h
      split at h
      · split at h <;> cases h
        rfl
      · cases h
  | readEnd | pop | wrote | shutdown =>
      simp only [Conn.step] at h
      split at h <;> cases h <;> rfl

/-- Tasks that have not started take no step. -/
theorem Conn.step_eq_none {c : Conn} (hr : c.reader = .unspawned) (hw : c.writer = .unspawned)
    {a : ConnAct} : c.step a = none := by
  cases a <;> simp [Conn.step, hr, hw]

/-- What a step of a connection does to its reader. -/
theorem Conn.step_reader {c c' : Conn} {a : ConnAct} (h : c.step a = some c') :
    (∃ chunk, chunk ≠ [] ∧ c.reader = .reading ∧ c'.reader = .sending chunk ∧
        c'.reads = c.reads ++ [chunk] ∧ c'.eof = c.eof) ∨
      (c.reader = .reading ∧ c'.reader = .closing ∧ c'.reads = c.reads ∧ c'.eof = true) ∨
      (c'.reader = c.reader ∧ c'.reads = c.reads ∧ c'.eof = c.eof) := by
  cases a with
  | read chunk =>
      simp only [Conn.step] at h
      split at h
      · next hr =>
          split at h <;> cases h
          next hlen => exact Or.inl ⟨chunk, hlen.1, hr, rfl, rfl, rfl⟩
      · cases h
  | readEnd =>
      simp only [Conn.step] at h
      split at h <;> cases h
      next hr => exact Or.inr (Or.inl ⟨hr, rfl, rfl, rfl⟩)
  | write n =>
      simp only [Conn.step] at h
      split at h
      · split at h <;> cases h
        exact Or.inr (Or.inr ⟨rfl, rfl, rfl⟩)
      · cases h
  | pop | wrote | writeErr | shutdown =>
      simp only [Conn.step] at h
      split at h <;> cases h <;> exact Or.inr (Or.inr ⟨rfl, rfl, rfl⟩)

/-- A reader that does not read is moved by its sends only. -/
theorem Conn.step_reader_eq {c c' : Conn} {a : ConnAct} (h : c.step a = some c')
    (hr : c.reader ≠ .reading) : c'.reader = c.reader := by
  rcases Conn.step_reader h with ⟨_, _, hread, _⟩ | ⟨hread, _⟩ | ⟨hsame, _⟩
  · exact absurd hread hr
  · exact absurd hread hr
  · exact hsame

/-- A writer leaves its loop by itself on a `Shutdown` or a failed write. -/
theorem Conn.step_pastLoop {c c' : Conn} {a : ConnAct} (h : c.step a = some c')
    (hpast : c'.writer.pastLoop = true) :
    c.writer.pastLoop = true ∧ c'.got = c.got ∧ c'.writeFailed = c.writeFailed ∨
      .shutdown ∈ c'.got ∨ c'.writeFailed = true := by
  cases a <;> simp only [Conn.step] at h <;> split at h <;>
    first
      | (cases h; done)
      | (split at h <;> cases h <;> simp_all [Writer.pastLoop])
      | (cases h; simp_all [Writer.pastLoop])

/-! ## Allocating a conn id -/

/-- The rest of the `for _ in 0..=u8::MAX` lap. -/
def allocConnId.scan {κ : Type} (map : ConnId → Option κ) :
    Nat → ConnId → Option ConnId × ConnId
  | 0, next => (none, next)
  | n + 1, next =>
      if (map next).isNone then (some next, next + 1)
      else scan map n (next + 1)

/-- Allocate a free conn id round-robin from `next`, skipping ids still
mapped; the second component is the cursor afterwards. -/
def allocConnId {κ : Type} (map : ConnId → Option κ) (next : ConnId) :
    Option ConnId × ConnId :=
  allocConnId.scan map 256 next

theorem allocConnId.scan_free {κ : Type} {map : ConnId → Option κ} {k next' : ConnId} :
    ∀ {n : Nat} {next : ConnId}, scan map n next = (some k, next') → map k = none := by
  intro n
  induction n with
  | zero => intro next h; cases h
  | succ n ih =>
      intro next h
      rw [scan] at h
      split at h
      · next hfree =>
          cases h
          exact Option.isNone_iff_eq_none.1 hfree
      · exact ih h

/-- An id that is handed out is not mapped. -/
theorem allocConnId_free {κ : Type} {map : ConnId → Option κ} {next k next' : ConnId}
    (h : allocConnId map next = (some k, next')) : map k = none :=
  allocConnId.scan_free h

/-- An unmapped id under the cursor is handed out at once. -/
theorem allocConnId_of_free {κ : Type} {map : ConnId → Option κ} {next : ConnId}
    (h : map next = none) : allocConnId map next = (some next, next + 1) := by
  rw [allocConnId, allocConnId.scan, if_pos (Option.isNone_iff_eq_none.2 h)]

end UsbWs
