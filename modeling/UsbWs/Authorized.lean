import UsbWs.Lib.Hex
import UsbWs.Invite

/-!
# The authorized-keys table

The file is a byte string that may be missing. `load` reads it line by line;
`add` appends a line to it and looks at nothing but the entries that `load`
found. Whether the file can be read, the directory made, the file opened and
the line written is up to the system: `FileOps` says how it comes out.

What a line lists is settled by its first field (`key_eq`), so what becomes of
the last line of the file when something is appended depends on whether that
field is closed by white space: a field left open goes on into the appended
text (`key_append`).
-/

namespace UsbWs

open Text

namespace Authorized

/-- One authorized initiator: its x_pub plus an optional human nick. -/
structure Entry where
  xPub : U8Array 32
  nick : List Char
  deriving DecidableEq

/-- The file operation that failed. -/
inductive FileError where
  | readToString
  | createDirAll
  | openOptions
  | writeAll
  deriving DecidableEq

/-- How the file operations of a call come out; a `write_all` that fails has
written some bytes before. -/
structure FileOps where
  readToString : Bool
  createDirAll : Bool
  openOptions : Bool
  writeAll : Except Nat Unit

def FileOps.succeed : FileOps := ⟨true, true, true, .ok ()⟩

variable (H : HexCodec)

/-- One turn of the loop of `load`. A malformed line is skipped. -/
def parseLine (line : List Char) : Option Entry :=
  let line := trim line
  if line = [] ∨ line.head? = some '#' then none
  else
    let (hexpart, nick) :=
      match splitOnce line with
      | some (h, rest) => (h, trim rest)
      | none => (line, [])
    ((H.decode hexpart).bind U8Array.tryFrom).map fun xPub => ⟨xPub, nick⟩

/-- The loop of `load`. -/
def parse (raw : List Char) : List Entry := scanLines (parseLine H) raw

/-- A missing file is an empty table; `read_to_string` also fails on bytes that
are not UTF-8. -/
def load (readable : Bool) : Option (List UInt8) → Except FileError (List Entry)
  | none => .ok []
  | some bytes =>
      match if readable then fromUtf8 bytes else none with
      | some raw => .ok (parse H raw)
      | none => .error .readToString

def contains (entries : List Entry) (xPub : U8Array 32) : Bool := entries.any (·.xPub = xPub)

/-- The line that `add` writes. -/
def entryLine (xPub : U8Array 32) (nick : List Char) : List Char :=
  if nick = [] then H.encode xPub.val ++ ['\n']
  else H.encode xPub.val ++ ' ' :: nick ++ ['\n']

/-- Append an initiator to the file. Opening it for appending creates it. -/
def add (ops : FileOps) (xPub : U8Array 32) (nick : List Char) (file : Option (List UInt8)) :
    Except FileError Unit × Option (List UInt8) :=
  match load H ops.readToString file with
  | .error e => (.error e, file)
  | .ok existing =>
      if contains existing xPub then (.ok (), file)
      else if ops.createDirAll = false then (.error .createDirAll, file)
      else if ops.openOptions = false then (.error .openOptions, file)
      else
        let line := utf8 (entryLine H xPub nick)
        match ops.writeAll with
        | .ok () => (.ok (), some (file.getD [] ++ line))
        | .error n => (.error .writeAll, some (file.getD [] ++ line.take n))

/-! ## What a line lists -/

/-- The x_pub a line lists, if it lists one. -/
def key (line : List Char) : Option (U8Array 32) := (parseLine H line).map Entry.xPub

/-- The x_pubs a text lists. -/
def keys (raw : List Char) : List (U8Array 32) := (parse H raw).map Entry.xPub

theorem parseLine_lineParser : LineParser (parseLine H) where
  nil := rfl
  cr := fun l => by rw [parseLine, trim_concat (c := '\r') rfl, parseLine]

theorem contains_iff {entries : List Entry} {x : U8Array 32} :
    contains entries x = true ↔ x ∈ entries.map Entry.xPub := by
  simp [contains]

variable {H}

theorem tryFrom_decode_nil : (H.decode []).bind (U8Array.tryFrom (n := 32)) = none := by
  cases hd : H.decode [] with
  | none => rfl
  | some v =>
      have hlen := H.length_of_decode hd
      simp only [List.length_nil] at hlen
      exact dif_neg (by omega)

/-- A line lists what its first field decodes to, comments apart. -/
theorem key_eq (line : List Char) :
    key H line =
      if (trimStart line).head? = some '#' then none
      else (H.decode (firstField (trimStart line))).bind U8Array.tryFrom := by
  have hfield : firstField (trim line) = firstField (trimStart line) := firstField_trimEnd
  have htrim : trim line <+: trimStart line := List.rdropWhile_prefix _ _
  cases ht : trim line with
  | nil =>
      have hnone : key H line = none := by simp [key, parseLine, ht]
      rw [ht] at hfield
      rw [hnone, ← hfield, show firstField [] = [] from rfl, tryFrom_decode_nil]
      split <;> rfl
  | cons c m =>
      have hhead : (trimStart line).head? = some c := by
        obtain ⟨r, hr⟩ := htrim
        rw [← hr, ht]
        rfl
      rw [ht] at hfield
      rw [hhead, key, parseLine, ht, ← hfield]
      by_cases hc : c = '#'
      · simp [hc]
      · cases hs : splitOnce (c :: m) with
        | none => simp [hc, firstField_of_splitOnce_none hs, Function.comp_def]
        | some p => simp [hc, firstField_of_splitOnce_some hs, Function.comp_def]

/-- A line is open at its end: its first field goes on into what is appended. -/
def OpenField (line : List Char) : Prop :=
  (trimStart line).head? ≠ some '#' ∧ ∀ c ∈ trimStart line, isWhitespace c = false

instance (line : List Char) : Decidable (OpenField line) :=
  @instDecidableAnd _ _ _ (List.decidableBAll _ (trimStart line))

theorem encode_ne_nil (x : U8Array 32) : H.encode x.val ≠ [] := fun h => by
  have hlen := H.length_encode x.val
  rw [h, x.property] at hlen
  cases hlen

/-- What the last line of a file lists after an entry was appended to it: the
entry, if the line was blank; nothing, if its first field was open; else what
it listed before. -/
theorem key_append (line : List Char) (x : U8Array 32) {rest : List Char}
    (hrest : firstField rest = []) :
    key H (line ++ (H.encode x.val ++ rest)) =
      if Blank line then some x else if OpenField line then none else key H line := by
  have hdigits : ∀ c ∈ H.encode x.val, isWhitespace c = false := fun c hc =>
    isWhitespace_of_hexDigit (H.digit_of_encode x.val c hc)
  have hfield : firstField (H.encode x.val ++ rest) = H.encode x.val := by
    rw [firstField_append_of_none hdigits, hrest, List.append_nil]
  split
  · next hb =>
      obtain ⟨c, m, henc⟩ := List.exists_cons_of_ne_nil (encode_ne_nil (H := H) x)
      have hstart : trimStart (line ++ (H.encode x.val ++ rest)) = H.encode x.val ++ rest := by
        rw [trimStart_append_blank hb, henc, List.cons_append,
          trimStart_of_head (hdigits c (by simp [henc]))]
      have hhead : (H.encode x.val ++ rest).head? ≠ some '#' := by
        simpa [henc] using
          ne_of_hexDigit (H.digit_of_encode x.val c (by simp [henc])) (d := '#') (by decide)
      rw [key_eq, hstart, if_neg hhead, hfield, H.decode_encode]
      exact U8Array.tryFrom_val x
  · next hb =>
      obtain ⟨c, m, hline⟩ := List.exists_cons_of_ne_nil (mt trimStart_eq_nil.1 hb)
      have hhead : (trimStart line ++ (H.encode x.val ++ rest)).head? =
          (trimStart line).head? := by simp [hline]
      rw [key_eq, key_eq, trimStart_append_of_not_blank hb, hhead]
      by_cases ho : OpenField line
      · rw [if_pos ho, if_neg ho.1, firstField_append_of_none ho.2, hfield]
        -- the field has grown past the 64 digits of a key
        cases hd : H.decode (trimStart line ++ H.encode x.val) with
        | none => rfl
        | some v =>
            have hlen := H.length_of_decode hd
            rw [List.length_append, H.length_encode, x.property, hline] at hlen
            simp only [List.length_cons] at hlen
            exact dif_neg (by omega)
      · rw [if_neg ho]
        by_cases hcomment : (trimStart line).head? = some '#'
        · rw [if_pos hcomment, if_pos hcomment]
        · have hclosed : ∃ c ∈ trimStart line, isWhitespace c = true := by
            by_contra hnone
            exact ho ⟨hcomment, fun c hc => by
              by_contra hw
              exact hnone ⟨c, hc, by simpa using hw⟩⟩
          rw [if_neg hcomment, if_neg hcomment, firstField_append hclosed]

/-! ## What `add` does to the file -/

theorem load_utf8 (raw : List Char) : load H true (some (utf8 raw)) = .ok (parse H raw) := by
  simp [load]

/-- The text of a file; a missing one has none. -/
def contents (file : Option (List UInt8)) : List Char := (fromUtf8 (file.getD [])).getD []

theorem load_ok {readable : Bool} {file : Option (List UInt8)} {before : List Entry}
    (h : load H readable file = .ok before) :
    file.getD [] = utf8 (contents file) ∧ before = parse H (contents file) := by
  have hnil : fromUtf8 [] = some [] := fromUtf8_utf8 []
  cases file with
  | none =>
      cases h
      have hc : contents none = [] := by simp [contents, hnil]
      rw [hc]
      exact ⟨rfl, rfl⟩
  | some bytes =>
      cases readable with
      | false => cases h
      | true =>
          simp only [load, if_true] at h
          split at h
          · next raw hraw =>
              cases h
              have hc : contents (some bytes) = raw := by simp [contents, hraw]
              rw [hc]
              exact ⟨eq_utf8_of_fromUtf8 hraw, rfl⟩
          · cases h

/-- When `add` returns Ok, the x_pub was listed already and the file is as it
was, or its line was appended. -/
theorem add_ok {ops : FileOps} {x : U8Array 32} {nick : List Char}
    {file file' : Option (List UInt8)} {before : List Entry}
    (hload : load H true file = .ok before) (hadd : add H ops x nick file = (.ok (), file')) :
    x ∈ keys H (contents file) ∧ file' = file ∨
      x ∉ keys H (contents file) ∧
        file' = some (utf8 (contents file ++ entryLine H x nick)) := by
  obtain ⟨hbytes, hbefore⟩ := load_ok hload
  unfold add at hadd
  split at hadd
  · cases hadd
  · next existing hex =>
      obtain ⟨_, rfl⟩ := load_ok hex
      split at hadd
      · next hc =>
          cases hadd
          exact Or.inl ⟨contains_iff.1 hc, rfl⟩
      · next hc =>
          refine Or.inr ⟨mt contains_iff.2 hc, ?_⟩
          split at hadd
          · cases hadd
          · split at hadd
            · cases hadd
            · simp only at hadd
              split at hadd
              · cases hadd
                rw [hbytes, ← utf8_append]
              · cases hadd

/-- The keys of a file to which a line was added. -/
theorem keys_append_entryLine (raw nick : List Char) (x : U8Array 32) :
    keys H (raw ++ entryLine H x nick) =
      keys H (earlier raw) ++
        (if Blank (lastLine raw) then some x else
          if OpenField (lastLine raw) then none else key H (lastLine raw)).toList ++
        keys H (afterNewline nick) := by
  have hdigits := H.newline_not_mem_encode x.val
  by_cases hnick : nick = []
  · have hline : entryLine H x nick = H.encode x.val ++ nick ++ ['\n'] := by
      simp [entryLine, hnick]
    have hrest : firstField (firstLine nick) = [] := by rw [hnick]; rfl
    rw [hline, keys, parse, scanLines_append_line (parseLine_lineParser H) raw hdigits nick,
      ← key_append (lastLine raw) x hrest, key, List.map_append, List.map_append,
      List.append_assoc (lastLine raw)]
    cases parseLine H (lastLine raw ++ (H.encode x.val ++ firstLine nick)) <;> rfl
  · have hline : entryLine H x nick = (H.encode x.val ++ [' ']) ++ nick ++ ['\n'] := by
      simp [entryLine, hnick]
    have hsep : '\n' ∉ H.encode x.val ++ [' '] := by simp [hdigits]
    have hrest : firstField (' ' :: firstLine nick) = [] := rfl
    rw [hline, keys, parse, scanLines_append_line (parseLine_lineParser H) raw hsep nick,
      ← key_append (lastLine raw) x hrest, key, List.map_append, List.map_append,
      List.append_assoc (lastLine raw), List.append_assoc (H.encode x.val), List.singleton_append]
    cases parseLine H (lastLine raw ++ (H.encode x.val ++ ' ' :: firstLine nick)) <;> rfl

/-- The keys of a file are those of its earlier lines and of its last one. -/
theorem keys_eq (raw : List Char) :
    keys H raw = keys H (earlier raw) ++ (key H (lastLine raw)).toList := by
  rw [keys, parse, scanLines_eq (parseLine_lineParser H), List.map_append, key]
  cases parseLine H (lastLine raw) <;> rfl

end Authorized

end UsbWs
