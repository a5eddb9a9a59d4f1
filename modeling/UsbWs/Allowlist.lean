import UsbWs.Lib.Allowlist
import UsbWs.Lib.Machine
import UsbWs.Authorize

/-!
# The authorized file is an allowlist

The operations on the authorized file are the `authorize` subcommand and the
introduction of an initiator; between two of them the program may end and
start again, and then the file is all that is left. When the file operations
succeed and the nicks are lines, the file does what an `Allowlist` does.

A file stands for the list that `load` reads from it, as long as it ends at
the end of a line (`Represents`): the line that `add` writes is then a line of
its own, and `load` reads it back (`parse_append_entryLine`).
-/

namespace UsbWs

open Text

namespace Authorized

variable {K : Type} {H : HexCodec}

/-! ## Reading back what was written -/

/-- The text of a key begins with a digit. -/
theorem exists_encode_eq_cons (x : U8Array 32) :
    ∃ c m, H.encode x.val = c :: m ∧ isWhitespace c = false ∧ c ≠ '#' := by
  obtain ⟨c, m, henc⟩ := List.exists_cons_of_ne_nil (encode_ne_nil (H := H) x)
  have hmem : c ∈ H.encode x.val := by simp [henc]
  exact ⟨c, m, henc, H.not_whitespace_of_encode x.val c hmem,
    ne_of_hexDigit (H.digit_of_encode x.val c hmem) (by decide)⟩

theorem parseLine_encode (x : U8Array 32) : parseLine H (H.encode x.val) = some ⟨x, []⟩ := by
  obtain ⟨c, m, henc, -, hc⟩ := exists_encode_eq_cons (H := H) x
  have hentry : ¬ (H.encode x.val = [] ∨ (H.encode x.val).head? = some '#') := by
    simp [henc, hc]
  simp only [parseLine, trim_of_forall (H.not_whitespace_of_encode x.val), if_neg hentry,
    splitOnce_of_forall (H.not_whitespace_of_encode x.val), H.decode_encode, Option.bind_some,
    U8Array.tryFrom_val, Option.map_some]

/-- A key and a nick are read back, whatever the nick is made of. -/
theorem parseLine_entry (x : U8Array 32) (nick : List Char) :
    parseLine H (H.encode x.val ++ ' ' :: nick) = some ⟨x, trim nick⟩ := by
  have hspace : isWhitespace ' ' = true := by decide
  obtain ⟨c, m, henc, hw, hc⟩ := exists_encode_eq_cons (H := H) x
  by_cases hb : Blank nick
  · -- all that is left of the line is the key
    have hblank : Blank (' ' :: nick) := by
      rw [← List.singleton_append, blank_append]
      exact ⟨by decide, hb⟩
    have htrim : trim (H.encode x.val ++ ' ' :: nick) = trim (H.encode x.val) :=
      trim_append_blank hblank
    rw [parseLine, htrim, ← parseLine, parseLine_encode, trim_of_blank hb]
  · have hnot : ¬ Blank (' ' :: nick) := fun h => hb fun d hd => h d (by simp [hd])
    have hstart : trimStart (H.encode x.val ++ ' ' :: nick) = H.encode x.val ++ ' ' :: nick := by
      rw [henc, List.cons_append, trimStart_of_head hw]
    have htrim : trim (H.encode x.val ++ ' ' :: nick) =
        H.encode x.val ++ ' ' :: trimEnd nick := by
      rw [trim, hstart, trimEnd_append_of_not_blank hnot, ← List.singleton_append,
        trimEnd_append_of_not_blank hb, List.singleton_append]
    have hentry : ¬ (H.encode x.val ++ ' ' :: trimEnd nick = [] ∨
        (H.encode x.val ++ ' ' :: trimEnd nick).head? = some '#') := by
      simp [henc, hc]
    simp only [parseLine, htrim, if_neg hentry,
      splitOnce_append_cons (H.not_whitespace_of_encode x.val) hspace, H.decode_encode,
      Option.bind_some, U8Array.tryFrom_val, Option.map_some, trim_trimEnd]

/-- What was appended at the end of a line is read as one more entry. -/
theorem parse_append_entryLine {raw nick : List Char} (hraw : lastLine raw = [])
    (hnick : '\n' ∉ nick) (x : U8Array 32) :
    parse H (raw ++ entryLine H x nick) = parse H raw ++ [⟨x, trim nick⟩] := by
  have hline : ∀ piece : List Char, '\n' ∉ piece → parse H (raw ++ (piece ++ ['\n'])) =
      parse H raw ++ (parseLine H piece).toList := fun piece hpiece => by
    rw [parse, scanLines_append_of_lastLine_nil (parseLine_lineParser H) hraw,
      scanLines_concat_newline (parseLine_lineParser H),
      scanLines_of_not_mem (parseLine_lineParser H) hpiece, parse]
  have hkey := H.newline_not_mem_encode x.val
  rw [entryLine]
  split
  · next hnil =>
      rw [hline _ hkey, parseLine_encode, hnil]
      rfl
  · rw [hline _ (by simp [hkey, hnick]), parseLine_entry]
    rfl

theorem lastLine_append_entryLine (raw nick : List Char) (x : U8Array 32) :
    lastLine (raw ++ entryLine H x nick) = [] := by
  rw [entryLine]
  split
  · rw [← List.append_assoc, lastLine_concat_newline]
  · rw [← List.append_assoc, lastLine_concat_newline]

/-! ## The operations -/

/-- What is done to the file. A restart loses what is not in the file. -/
inductive Op (K : Type) where
  | authorize (xPub : U8Array 32) (nick : List Char)
  | introduce (peer : Peer K)
  | restart

inductive Answer where
  | authorized
  | failed
  | accepted
  | rejected
  | restarted
  deriving DecidableEq

/-- An operation on the file, when the file operations succeed. -/
def perform (H : HexCodec) (file : Option (List UInt8)) : Op K → Answer × Option (List UInt8)
  | .authorize xPub nick =>
      match add H .succeed xPub nick file with
      | (.ok (), file') => (.authorized, file')
      | (.error _, file') => (.failed, file')
  | .introduce peer =>
      match authorizeInitiator H false true .succeed peer file with
      | (some _, file') => (.accepted, file')
      | (none, file') => (.rejected, file')
  | .restart => (.restarted, file)

/-- What the operation means for the list. -/
def intend (l : Allowlist (U8Array 32) (List Char)) :
    Op K → Answer × Allowlist (U8Array 32) (List Char)
  | .authorize xPub nick => (.authorized, l.authorize xPub (trim nick))
  | .introduce peer =>
      match l.introduce peer.xPub (trim peer.nick) with
      | (true, l') => (.accepted, l')
      | (false, l') => (.rejected, l')
  | .restart => (.restarted, l)

/-- The nick of the operation is a line. -/
def Op.OneLine : Op K → Prop
  | .authorize _ nick => '\n' ∉ nick
  | .introduce peer => '\n' ∉ peer.nick
  | .restart => True

/-- The entries of the table, as `load` has them. -/
def table (l : Allowlist (U8Array 32) (List Char)) : List Entry :=
  l.entries.map fun (xPub, nick) => ⟨xPub, nick⟩

/-- The file reads as the list, and ends at the end of a line. -/
structure Represents (H : HexCodec) (file : Option (List UInt8))
    (l : Allowlist (U8Array 32) (List Char)) : Prop where
  load : Authorized.load H true file = .ok (table l)
  terminated : lastLine (contents file) = []

variable {file : Option (List UInt8)} {l : Allowlist (U8Array 32) (List Char)}

theorem represents_empty : Represents H none .empty where
  load := rfl
  terminated := by decide

theorem table_eq_nil : table l = [] ↔ l.entries = [] := List.map_eq_nil_iff

theorem contains_table {x : U8Array 32} : contains (table l) x = true ↔ l.Lists x := by
  rw [contains_iff, table, List.map_map]
  rfl

/-- Adding to a file that represents a list authorizes the key on the list. -/
theorem add_represents (h : Represents H file l) {nick : List Char} (hnick : '\n' ∉ nick)
    (x : U8Array 32) :
    ∃ file', add H .succeed x nick file = (.ok (), file') ∧
      Represents H file' (l.authorize x (trim nick)) := by
  obtain ⟨hbytes, htable⟩ := load_ok h.load
  by_cases hx : l.Lists x
  · have hadd : add H .succeed x nick file = (.ok (), file) := by
      simp [add, FileOps.succeed, h.load, contains_table.2 hx]
    exact ⟨file, hadd, by rwa [l.authorize_of_lists hx]⟩
  · have hnew : contains (table l) x = false := by
      rw [← Bool.not_eq_true]
      exact mt contains_table.1 hx
    have hadd : add H .succeed x nick file =
        (.ok (), some (utf8 (contents file ++ entryLine H x nick))) := by
      rw [utf8_append, ← hbytes]
      simp [add, FileOps.succeed, h.load, hnew]
    refine ⟨_, hadd, ?_, ?_⟩
    · rw [load_utf8, parse_append_entryLine h.terminated hnick, ← htable, table, table,
        Allowlist.entries_authorize l hx, List.map_append]
      rfl
    · rw [contents, Option.getD_some, fromUtf8_utf8, Option.getD_some,
        lastLine_append_entryLine]

/-- Each operation on the file is the operation on the list. -/
theorem perform_refines :
    Machine.Refines Op.OneLine (Represents H) (perform H) (intend (K := K)) := by
  intro file l op hline hrep
  cases op with
  | authorize x nick =>
      obtain ⟨file', hadd, hrep'⟩ := add_represents hrep hline x
      simp only [perform, hadd, intend]
      exact ⟨trivial, hrep'⟩
  | introduce peer =>
      by_cases hnil : l.entries = []
      · -- trust on first use
        obtain ⟨file', hadd, hrep'⟩ := add_represents hrep hline peer.xPub
        have htofu : authorizeInitiator H false true .succeed peer file = (some peer, file') := by
          simp [authorizeInitiator, hrep.load, table_eq_nil.2 hnil, hadd]
        simp only [perform, htofu, intend, Allowlist.introduce, if_pos hnil]
        exact ⟨trivial, hrep'⟩
      · have hne : table l ≠ [] := mt table_eq_nil.1 hnil
        by_cases hx : l.Lists peer.xPub
        · have haccept : authorizeInitiator H false true .succeed peer file =
              (some peer, file) := by
            simp [authorizeInitiator, hrep.load, hne, contains_table.2 hx]
          simp only [perform, haccept, intend, Allowlist.introduce, if_neg hnil, hx, decide_true]
          exact ⟨trivial, hrep⟩
        · have hreject : authorizeInitiator H false true .succeed peer file = (none, file) := by
            simp [authorizeInitiator, hrep.load, hne, mt contains_table.1 hx]
          simp only [perform, hreject, intend, Allowlist.introduce, if_neg hnil, hx,
            decide_false]
          exact ⟨trivial, hrep⟩
  | restart => exact ⟨rfl, hrep⟩

/-- Starting from a missing file, the answers are those of the allowlist, and
`load` returns its entries in order. -/
theorem authorized_file_refines_allowlist (ops : List (Op K)) (hops : ∀ op ∈ ops, op.OneLine) :
    (Machine.runs (perform H) none ops).1 = (Machine.runs intend .empty ops).1 ∧
      load H true (Machine.runs (perform H) none ops).2 =
        .ok (table (Machine.runs intend .empty ops).2) := by
  obtain ⟨hanswers, hrep⟩ := perform_refines.runs hops represents_empty
  exact ⟨hanswers, hrep.load⟩

/-- A first initiator, a restart, another initiator before and after it is
authorized. -/
def visits : List (Op (U8Array 32)) :=
  [.introduce { stranger with nick := [' ', '#', '1', '\r'] }, .restart,
    .introduce { stranger with xPub := zeros }, .authorize zeros ['t', 'w', 'o'],
    .introduce { stranger with xPub := zeros }]

theorem visits_answers :
    (Machine.runs (perform .ascii) none visits).1 =
        [.accepted, .restarted, .rejected, .authorized, .accepted] ∧
      load .ascii true (Machine.runs (perform .ascii) none visits).2 =
        .ok [⟨ones, ['#', '1']⟩, ⟨zeros, ['t', 'w', 'o']⟩] := by
  have hlines : ∀ op ∈ visits, op.OneLine := by
    simp [visits, Op.OneLine, stranger]
  obtain ⟨hanswers, hload⟩ := authorized_file_refines_allowlist (H := .ascii) visits hlines
  rw [hanswers, hload]
  exact ⟨by decide, by decide⟩

end Authorized

end UsbWs
