import UsbWs.Allowlist
import Mathlib.Data.Set.Function

/-!
# The printed table is a normal form of the file

`usbws authorized` prints the entries that `load` has found, one on a line. It
drops what `load` skips, writes the keys in the case of the encoder and puts
one space in front of a nick. What it prints is a file again, and `load` finds
the same entries in it (`print_table_lossless`): a nick that `load` returns has
nothing to trim and no line feed in it, and with those a printed line is read
back as it was meant. These are all the nicks that `load` can return
(`exists_parse_eq_iff`).
-/

namespace UsbWs

open Text

namespace Authorized

variable (H : HexCodec)

/-- One turn of the loop of `print_table`. -/
def printLine (e : Entry) : List Char :=
  if e.nick = [] then H.encode e.xPub.val ++ ['\n']
  else H.encode e.xPub.val ++ ' ' :: e.nick ++ ['\n']

/-- What is written to stdout. The note about an empty table is not. -/
def printTable (readable : Bool) (file : Option (List UInt8)) : Except FileError (List UInt8) :=
  match load H readable file with
  | .error e => .error e
  | .ok entries => if entries = [] then .ok [] else .ok (utf8 (entries.flatMap (printLine H)))

/-- A nick that can stand behind a key: there is nothing to trim, and it does
not go on to another line. -/
def Printable (e : Entry) : Prop := trim e.nick = e.nick ∧ '\n' ∉ e.nick

instance (e : Entry) : Decidable (Printable e) := inferInstanceAs (Decidable (_ ∧ _))

variable {H} {entries : List Entry} {e : Entry}

/-! ## What `load` returns -/

theorem printable_of_parseLine {line : List Char} (hline : '\n' ∉ line)
    (h : parseLine H line = some e) : Printable e := by
  simp only [parseLine] at h
  split at h
  · cases h
  · obtain ⟨x, -, rfl⟩ := Option.map_eq_some_iff.1 h
    cases hs : splitOnce (trim line) with
    | none => exact ⟨rfl, List.not_mem_nil⟩
    | some p =>
        obtain ⟨hexpart, rest⟩ := p
        refine ⟨trim_trim rest, fun hm => hline ?_⟩
        exact mem_of_mem_trim (mem_of_splitOnce hs (mem_of_mem_trim hm))

theorem printable_of_parse (raw : List Char) : ∀ e ∈ parse H raw, Printable e := by
  intro e he
  obtain ⟨line, hline, hparse⟩ := List.mem_filterMap.1 he
  exact printable_of_parseLine (newline_not_mem_of_mem_lines raw line hline) hparse

/-! ## Reading what was printed -/

/-- The printer and `add` write the same line. -/
theorem printLine_eq (e : Entry) : printLine H e = entryLine H e.xPub e.nick := rfl

theorem lastLine_printed (entries : List Entry) :
    lastLine (entries.flatMap (printLine H)) = [] := by
  induction entries using List.reverseRecOn with
  | nil => rfl
  | append_singleton entries e ih =>
      rw [List.flatMap_append, List.flatMap_singleton, printLine_eq, lastLine_append_entryLine]

/-- Printing is undone by parsing, for the tables that can be printed. -/
theorem parse_printed :
    Set.LeftInvOn (parse H) (fun entries => entries.flatMap (printLine H))
      {entries | ∀ e ∈ entries, Printable e} := by
  intro entries h
  induction entries using List.reverseRecOn with
  | nil => rfl
  | append_singleton entries e ih =>
      obtain ⟨hentries, he⟩ := List.forall_mem_append.1 h
      obtain ⟨htrim, hnl⟩ := he e List.mem_cons_self
      show parse H ((entries ++ [e]).flatMap (printLine H)) = entries ++ [e]
      rw [List.flatMap_append, List.flatMap_singleton, printLine_eq,
        parse_append_entryLine (lastLine_printed entries) hnl, htrim, ih hentries]

/-- The tables that some file has. -/
theorem exists_parse_eq_iff : (∃ raw, parse H raw = entries) ↔ ∀ e ∈ entries, Printable e := by
  constructor
  · rintro ⟨raw, rfl⟩
    exact printable_of_parse raw
  · intro h
    exact ⟨_, parse_printed h⟩

/-! ## Printing a file -/

theorem printTable_eq (readable : Bool) (file : Option (List UInt8)) :
    printTable H readable file =
      (load H readable file).map fun entries => utf8 (entries.flatMap (printLine H)) := by
  rw [printTable]
  cases load H readable file with
  | error e => rfl
  | ok entries => cases entries <;> rfl

theorem printable_of_load {readable : Bool} {file : Option (List UInt8)}
    (h : load H readable file = .ok entries) : ∀ e ∈ entries, Printable e := by
  obtain ⟨-, rfl⟩ := load_ok h
  exact printable_of_parse _

/-- Tables that print alike are the same. -/
theorem printed_inj {entries' : List Entry} (h : ∀ e ∈ entries, Printable e)
    (h' : ∀ e ∈ entries', Printable e)
    (heq : utf8 (entries'.flatMap (printLine H)) = utf8 (entries.flatMap (printLine H))) :
    entries' = entries := by
  have htext := congrArg fromUtf8 heq
  rw [fromUtf8_utf8, fromUtf8_utf8, Option.some_inj] at htext
  exact parse_printed.injOn h' h htext

/-- What is printed of a file is a file with the same entries; it is printed as
it is, and it is what is printed of the files with these entries and of no
others. -/
theorem print_table_lossless (H : HexCodec) (readable : Bool) (file : Option (List UInt8))
    (entries : List Entry) (h : load H readable file = .ok entries) :
    ∃ out, printTable H readable file = .ok out ∧
      load H true (some out) = .ok entries ∧
      printTable H true (some out) = .ok out ∧
      ∀ (readable' : Bool) (file' : Option (List UInt8)),
        printTable H readable' file' = .ok out ↔ load H readable' file' = .ok entries := by
  have hprintable := printable_of_load h
  have hreload : load H true (some (utf8 (entries.flatMap (printLine H)))) = .ok entries := by
    rw [load_utf8]
    exact congrArg Except.ok (parse_printed hprintable)
  refine ⟨utf8 (entries.flatMap (printLine H)), ?_, hreload, ?_, fun readable' file' => ?_⟩
  · rw [printTable_eq, h]
    rfl
  · rw [printTable_eq, hreload]
    rfl
  · rw [printTable_eq]
    constructor
    · intro hprint
      cases hload : load H readable' file' with
      | error e =>
          rw [hload] at hprint
          cases hprint
      | ok entries' =>
          rw [hload] at hprint
          rw [printed_inj hprintable (printable_of_load hload) (Except.ok.inj hprint)]
    · intro hload
      rw [hload]
      rfl

/-- A comment, a key in upper case with a wide space behind it and a carriage
return in its nick, a malformed line, and the same key again with no nick. -/
theorem print_table_lossless_mixed :
    ∃ out, printTable .ascii true (some (utf8 ('#' :: '\n' :: List.replicate 64 'A' ++
        '\u3000' :: 'o' :: '\r' :: 'k' :: ' ' :: '\r' :: '\n' :: 'x' :: '\n' ::
          List.replicate 64 'a'))) = .ok out ∧
      load .ascii true (some out) =
        .ok [⟨⟨List.replicate 32 0xAA, rfl⟩, ['o', '\r', 'k']⟩,
          ⟨⟨List.replicate 32 0xAA, rfl⟩, []⟩] := by
  obtain ⟨out, hprint, hload, -⟩ := print_table_lossless .ascii true
    (some (utf8 ('#' :: '\n' :: List.replicate 64 'A' ++
      '\u3000' :: 'o' :: '\r' :: 'k' :: ' ' :: '\r' :: '\n' :: 'x' :: '\n' ::
        List.replicate 64 'a')))
    [⟨⟨List.replicate 32 0xAA, rfl⟩, ['o', '\r', 'k']⟩, ⟨⟨List.replicate 32 0xAA, rfl⟩, []⟩]
    (by rw [load_utf8]; exact congrArg Except.ok (by decide +kernel))
  exact ⟨out, hprint, hload⟩

end Authorized

end UsbWs
