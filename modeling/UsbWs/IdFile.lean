import UsbWs.Authorized
import UsbWs.Envelope
import UsbWs.Lib.Machine

/-!
# The identity file

The file holds the two seeds of a machine's keys. `parseIdentity` reads it line
by line: a line assigns one of two labelled fields, or adds a bare one, or is
skipped; a later assignment replaces an earlier one. `writeIdentity` writes a
comment and the two labelled lines.

A write may be cut short at any byte. What is left of the text then has at
most one field whole, or all of it, and a cut-off field is not 32 bytes; so the
file is either malformed or still names the identity that was written
(`readIdentity_take`).
-/

namespace UsbWs

open Text Authorized

namespace IdFile

variable {SK VK : Type} (C : Crypto SK VK) (H : HexCodec)

def xLabel : List Char := ['x', '_', 's', 'e', 'e', 'd', '=']

def edLabel : List Char := ['e', 'd', '_', 's', 'e', 'e', 'd', '=']

def decodeHex32 (s : List Char) : Option (U8Array 32) := (H.decode s).bind U8Array.tryFrom

/-- What a line assigns. -/
inductive Field where
  | xSeed (v : Option (U8Array 32))
  | edSeed (v : Option (U8Array 32))
  | bare (s : U8Array 32)

/-- One turn of the loop of `parse_identity`, up to the assignment. -/
def fieldOf (line : List Char) : Option Field :=
  let line := trim line
  if line = [] ∨ line.head? = some '#' then none
  else
    match stripPrefix xLabel line with
    | some v => some (.xSeed (decodeHex32 H (trim v)))
    | none =>
        match stripPrefix edLabel line with
        | some v => some (.edSeed (decodeHex32 H (trim v)))
        | none => (decodeHex32 H line).map .bare

/-- The variables of the loop. -/
structure Seeds where
  xSeed : Option (U8Array 32)
  edSeed : Option (U8Array 32)
  bare : List (U8Array 32)

def Seeds.assign (s : Seeds) : Field → Seeds
  | .xSeed v => { s with xSeed := v }
  | .edSeed v => { s with edSeed := v }
  | .bare v => { s with bare := s.bare ++ [v] }

/-- The labelled fields, or else the first two bare ones. -/
def Seeds.pair (s : Seeds) : Option (U8Array 32 × U8Array 32) :=
  match s.xSeed, s.edSeed with
  | some x, some e => some (x, e)
  | _, _ =>
      match s.bare with
      | x :: e :: _ => some (x, e)
      | _ => none

/-- What the assignments come to. -/
def pairOf (fields : List Field) : Option (U8Array 32 × U8Array 32) :=
  (fields.foldl Seeds.assign ⟨none, none, []⟩).pair

def parseIdentity (raw : List Char) : Option (U8Array 32 × U8Array 32) :=
  pairOf (scanLines (fieldOf H) raw)

def comment : List Char :=
  ['#', ' ', 'u', 's', 'b', 'w', 's', ' ', 'm', 'a', 'c', 'h', 'i', 'n', 'e', ' ',
    'i', 'd', 'e', 'n', 't', 'i', 't', 'y', ' ', '(', 'k', 'e', 'e', 'p', ' ',
    's', 'e', 'c', 'r', 'e', 't', ')']

/-- The text that `write_identity` writes. -/
def identityText (xSeed edSeed : U8Array 32) : List Char :=
  comment ++ '\n' :: (xLabel ++ H.encode xSeed.val ++
    '\n' :: (edLabel ++ H.encode edSeed.val ++ ['\n']))

/-- Create or truncate the file, then write the text. -/
def writeIdentity (ops : FileOps) (xSeed edSeed : U8Array 32) (file : Option (List UInt8)) :
    Except FileError Unit × Option (List UInt8) :=
  if ops.openOptions = false then (.error .openOptions, file)
  else
    let body := utf8 (identityText H xSeed edSeed)
    match ops.writeAll with
    | .ok () => (.ok (), some body)
    | .error n => (.error .writeAll, some (body.take n))

inductive IdError where
  | file (e : FileError)
  | malformed
  deriving DecidableEq

/-- The seeds in a file. -/
def readIdentity (readable : Bool) (bytes : List UInt8) :
    Except IdError (U8Array 32 × U8Array 32) :=
  match if readable then fromUtf8 bytes else none with
  | none => .error (.file .readToString)
  | some raw =>
      match parseIdentity H raw with
      | none => .error .malformed
      | some seeds => .ok seeds

/-- Load the identity, or make one of the seeds that the generator gives and
persist it; and whether it was made. -/
def loadOrCreate (ops : FileOps) (xSeed edSeed : U8Array 32) (file : Option (List UInt8)) :
    Except IdError (Identity C × Bool) × Option (List UInt8) :=
  match file with
  | some bytes =>
      match readIdentity H ops.readToString bytes with
      | .error e => (.error e, file)
      | .ok (x, e) => (.ok (.fromSeeds C x e, false), file)
  | none =>
      if ops.createDirAll = false then (.error (.file .createDirAll), file)
      else
        match writeIdentity H ops xSeed edSeed file with
        | (.error e, file) => (.error (.file e), file)
        | (.ok (), file) => (.ok (.fromSeeds C xSeed edSeed, true), file)

/-! ## What a line assigns -/

variable {H} {x e : U8Array 32} {l : List Char}

theorem decodeHex32_eq_some {s : List Char} :
    decodeHex32 H s = some x ↔ H.decode s = some x.val := by
  rw [decodeHex32, Option.bind_eq_some_iff]
  constructor
  · rintro ⟨v, hv, hx⟩
    rw [hv, U8Array.eq_val_of_tryFrom hx]
  · exact fun h => ⟨_, h, U8Array.tryFrom_val x⟩

theorem length_of_decodeHex32 {s : List Char} (h : decodeHex32 H s = some x) :
    s.length = 64 := by
  rw [H.length_of_decode (decodeHex32_eq_some.1 h), x.property]

theorem fieldOf_lineParser : LineParser (fieldOf H) where
  nil := rfl
  cr := fun l => by rw [fieldOf, trim_concat (c := '\r') rfl, fieldOf]

theorem fieldOf_of_blank (h : Blank l) : fieldOf H l = none := by
  rw [fieldOf, trim_of_blank h]
  rfl

theorem fieldOf_of_comment (h : (trimStart l).head? = some '#') : fieldOf H l = none := by
  simp only [fieldOf, head?_trim h, or_true, if_true]

theorem fieldOf_xLabel {v : List Char} (h : trim l = xLabel ++ v) :
    fieldOf H l = some (.xSeed (decodeHex32 H (trim v))) := by
  have hentry : ¬ (xLabel ++ v = [] ∨ (xLabel ++ v).head? = some '#') := by simp [xLabel]
  simp only [fieldOf, h, if_neg hentry, stripPrefix_append]

theorem fieldOf_edLabel {v : List Char} (h : trim l = edLabel ++ v) :
    fieldOf H l = some (.edSeed (decodeHex32 H (trim v))) := by
  have hentry : ¬ (edLabel ++ v = [] ∨ (edLabel ++ v).head? = some '#') := by simp [edLabel]
  have hx : stripPrefix xLabel (edLabel ++ v) = none := rfl
  simp only [fieldOf, h, if_neg hentry, hx, stripPrefix_append]

/-- Where a line has no label, all of it must be a field. -/
theorem fieldOf_unlabelled (hx : stripPrefix xLabel (trim l) = none)
    (hed : stripPrefix edLabel (trim l) = none) (hcomment : (trim l).head? ≠ some '#') :
    fieldOf H l = (decodeHex32 H (trim l)).map .bare := by
  by_cases hnil : trim l = []
  · have hnone : decodeHex32 H [] = none := by
      cases hd : decodeHex32 H [] with
      | none => rfl
      | some y => cases length_of_decodeHex32 hd
    simp only [fieldOf, hnil, true_or, if_true, hnone, Option.map_none]
  · have hentry : ¬ (trim l = [] ∨ (trim l).head? = some '#') := by simp [hnil, hcomment]
    simp only [fieldOf, if_neg hentry, hx, hed]

/-! ## A text that was cut short -/

/-- A beginning of a labelled line has the label whole, or assigns nothing. -/
theorem fieldOf_of_isPrefix {label hex q : List Char} (hlabel : label ∈ [xLabel, edLabel])
    (hq : q <+: label ++ hex) : (∃ r, q = label ++ r ∧ r <+: hex) ∨ fieldOf H q = none := by
  have hshort : ∀ label ∈ [xLabel, edLabel], ∀ k < label.length, k < 64 ∧
      trim (label.take k) = label.take k ∧ stripPrefix xLabel (label.take k) = none ∧
      stripPrefix edLabel (label.take k) = none ∧ (label.take k).head? ≠ some '#' := by
    decide
  by_cases hlen : label.length ≤ q.length
  · obtain ⟨r, rfl⟩ := List.prefix_of_prefix_length_le (List.prefix_append _ _) hq hlen
    exact Or.inl ⟨r, rfl, (List.prefix_append_right_inj _).1 hq⟩
  · right
    have hpre : q <+: label :=
      List.prefix_of_prefix_length_le hq (List.prefix_append _ _) (by omega)
    obtain ⟨h64, htrim, hx, hed, hcomment⟩ := hshort label hlabel q.length (by omega)
    rw [← List.prefix_iff_eq_take.1 hpre] at htrim hx hed hcomment
    rw [fieldOf_unlabelled (by rw [htrim, hx]) (by rw [htrim, hed]) (by rwa [htrim]), htrim,
      Option.map_eq_none_iff]
    cases hd : decodeHex32 H q with
    | none => rfl
    | some y =>
        have hlen64 := length_of_decodeHex32 hd
        omega

/-- The first line feed of a text is in a beginning of it, or it is not. -/
theorem isPrefix_line_cases {a b p : List Char} (h : p <+: a ++ '\n' :: b) :
    p <+: a ∨ ∃ q, p = a ++ '\n' :: q ∧ q <+: b := by
  rcases List.prefix_or_prefix_of_prefix h (List.prefix_append _ _) with hp | ⟨r, rfl⟩
  · exact Or.inl hp
  · rw [List.prefix_append_right_inj] at h
    rcases List.prefix_cons_iff.1 h with rfl | ⟨q, rfl, hq⟩
    · left
      rw [List.append_nil]
    · exact Or.inr ⟨q, rfl, hq⟩

theorem pairOf_xSeed (v : Option (U8Array 32)) : pairOf [.xSeed v] = none := by
  cases v <;> rfl

theorem fieldOf_xSeed {r : List Char} (hr : ∀ c ∈ r, isWhitespace c = false) :
    fieldOf H (xLabel ++ r) = some (.xSeed (decodeHex32 H r)) := by
  have hlabel : ∀ c ∈ xLabel, isWhitespace c = false := by simp [xLabel, isWhitespace]
  rw [fieldOf_xLabel (trim_of_forall (List.forall_mem_append.2 ⟨hlabel, hr⟩)), trim_of_forall hr]

theorem fieldOf_edSeed {r : List Char} (hr : ∀ c ∈ r, isWhitespace c = false) :
    fieldOf H (edLabel ++ r) = some (.edSeed (decodeHex32 H r)) := by
  have hlabel : ∀ c ∈ edLabel, isWhitespace c = false := by simp [edLabel, isWhitespace]
  rw [fieldOf_edLabel (trim_of_forall (List.forall_mem_append.2 ⟨hlabel, hr⟩)), trim_of_forall hr]

/-- The field of a line, and those of the lines after it. -/
theorem scanLines_cons {line : List Char} (hline : '\n' ∉ line) (t : List Char) :
    scanLines (fieldOf H) (line ++ '\n' :: t) =
      (fieldOf H line).toList ++ scanLines (fieldOf H) t := by
  rw [scanLines_append fieldOf_lineParser, scanLines_of_not_mem fieldOf_lineParser hline]

theorem decodeHex32_encode (x : U8Array 32) : decodeHex32 H (H.encode x.val) = some x :=
  decodeHex32_eq_some.2 (H.decode_encode x.val)

/-- A beginning of the text of a field is no field, or all of it. -/
theorem decodeHex32_of_isPrefix {r : List Char} (hr : r <+: H.encode x.val) :
    decodeHex32 H r = none ∨ decodeHex32 H r = some x := by
  cases hd : decodeHex32 H r with
  | none => exact Or.inl rfl
  | some y =>
      have hlen := length_of_decodeHex32 hd
      have hwhole : r = H.encode x.val := hr.eq_of_length (by
        rw [hlen, H.length_encode, x.property])
      rw [hwhole, decodeHex32_encode] at hd
      exact Or.inr hd.symm

theorem scanLines_comment (t : List Char) :
    scanLines (fieldOf H) (comment ++ '\n' :: t) = scanLines (fieldOf H) t := by
  rw [scanLines_cons (by decide), fieldOf_of_comment (by decide)]
  rfl

theorem newline_not_mem_line {label : List Char} (hlabel : label ∈ [xLabel, edLabel])
    (x : U8Array 32) : '\n' ∉ label ++ H.encode x.val := by
  have hnot : ∀ label ∈ [xLabel, edLabel], '\n' ∉ label := by decide
  exact List.not_mem_append (hnot label hlabel) (H.newline_not_mem_encode x.val)

theorem scanLines_xSeed (x : U8Array 32) (t : List Char) :
    scanLines (fieldOf H) (xLabel ++ H.encode x.val ++ '\n' :: t) =
      .xSeed (some x) :: scanLines (fieldOf H) t := by
  rw [scanLines_cons (newline_not_mem_line (by simp) x),
    fieldOf_xSeed (H.not_whitespace_of_encode x.val), decodeHex32_encode]
  rfl

theorem parseIdentity_identityText (x e : U8Array 32) :
    parseIdentity H (identityText H x e) = some (x, e) := by
  rw [parseIdentity, identityText, scanLines_comment, scanLines_xSeed,
    scanLines_cons (newline_not_mem_line (by simp) e),
    fieldOf_edSeed (H.not_whitespace_of_encode e.val), decodeHex32_encode]
  rfl

/-- What is left of the first labelled line assigns its field, or nothing. -/
theorem fieldOf_of_cut_xSeed {q : List Char} (hq : q <+: xLabel ++ H.encode x.val) :
    fieldOf H q = none ∨ ∃ v, fieldOf H q = some (.xSeed v) := by
  rcases fieldOf_of_isPrefix (by simp) hq with ⟨r, rfl, hr⟩ | hnone
  · exact Or.inr ⟨_, fieldOf_xSeed fun c hc => H.not_whitespace_of_encode x.val c (hr.subset hc)⟩
  · exact Or.inl hnone

/-- What is left of the second one assigns its field as it was written, or
leaves the identity without one. -/
theorem fieldOf_of_cut_edSeed {q : List Char} (hq : q <+: edLabel ++ H.encode e.val) :
    fieldOf H q = none ∨ fieldOf H q = some (.edSeed none) ∨
      fieldOf H q = some (.edSeed (some e)) := by
  rcases fieldOf_of_isPrefix (by simp) hq with ⟨r, rfl, hr⟩ | hnone
  · right
    rw [fieldOf_edSeed fun c hc => H.not_whitespace_of_encode e.val c (hr.subset hc)]
    rcases decodeHex32_of_isPrefix hr with hd | hd
    · exact Or.inl (by rw [hd])
    · exact Or.inr (by rw [hd])
  · exact Or.inl hnone

/-- What is read of a text that was cut short. -/
theorem parseIdentity_of_isPrefix {p : List Char} (x e : U8Array 32)
    (hp : p <+: identityText H x e) :
    parseIdentity H p = none ∨ parseIdentity H p = some (x, e) := by
  rcases isPrefix_line_cases hp with hp | ⟨q, rfl, hq⟩
  · -- cut in the comment
    left
    have hnl : '\n' ∉ p := fun hm => absurd (hp.subset hm) (by decide)
    rw [parseIdentity, scanLines_of_not_mem fieldOf_lineParser hnl]
    cases p with
    | nil => rfl
    | cons c p =>
        obtain rfl : c = '#' := (List.cons_prefix_cons.1 hp).1
        have hhead : (trimStart ('#' :: p)).head? = some '#' := rfl
        rw [fieldOf_of_comment hhead]
        rfl
  · rw [parseIdentity, scanLines_comment]
    rcases isPrefix_line_cases hq with hq | ⟨q, rfl, hrest⟩
    · -- cut in the first field
      left
      have hnl : '\n' ∉ q := fun hm => newline_not_mem_line (by simp) x (hq.subset hm)
      rw [scanLines_of_not_mem fieldOf_lineParser hnl]
      rcases fieldOf_of_cut_xSeed hq with hf | ⟨v, hf⟩
      · rw [hf]
        rfl
      · rw [hf]
        exact pairOf_xSeed v
    · rw [scanLines_xSeed]
      rcases isPrefix_line_cases hrest with hlast | ⟨q, rfl, hend⟩
      · -- cut in the second field, or right after it
        have hnl : '\n' ∉ q := fun hm => newline_not_mem_line (by simp) e (hlast.subset hm)
        rw [scanLines_of_not_mem fieldOf_lineParser hnl]
        rcases fieldOf_of_cut_edSeed hlast with hf | hf | hf
        · rw [hf]
          exact Or.inl rfl
        · rw [hf]
          exact Or.inl rfl
        · rw [hf]
          exact Or.inr rfl
      · obtain rfl : q = [] := List.prefix_nil.1 hend
        right
        rw [scanLines_cons (newline_not_mem_line (by simp) e),
          fieldOf_edSeed (H.not_whitespace_of_encode e.val), decodeHex32_encode]
        rfl

/-! ## Reading the file back -/

theorem ascii_identityText (x e : U8Array 32) : ∀ c ∈ identityText H x e, c.toNat < 128 := by
  have hfixed : ∀ text ∈ [comment, xLabel, edLabel, ['\n']], ∀ c ∈ text, c.toNat < 128 := by
    simp [comment, xLabel, edLabel]
  have hhex : ∀ x : U8Array 32, ∀ c ∈ H.encode x.val, c.toNat < 128 := fun x c hc => by
    have hle := (isHexDigit_bounds (H.digit_of_encode x.val c hc)).2
    omega
  intro c hc
  simp only [identityText, List.mem_append, List.mem_cons, List.not_mem_nil, or_false] at hc
  rcases hc with hc | rfl | (hc | hc) | rfl | (hc | hc) | rfl
  · exact hfixed comment (by simp) c hc
  · decide
  · exact hfixed xLabel (by simp) c hc
  · exact hhex x c hc
  · decide
  · exact hfixed edLabel (by simp) c hc
  · exact hhex e c hc
  · decide

theorem readIdentity_utf8 (raw : List Char) {seeds : U8Array 32 × U8Array 32}
    (h : parseIdentity H raw = some seeds) : readIdentity H true (utf8 raw) = .ok seeds := by
  simp only [readIdentity, if_true, fromUtf8_utf8, h]

/-- A file that was cut short is malformed, or has the seeds. -/
theorem readIdentity_take (x e : U8Array 32) (readable : Bool) (n : Nat) :
    (∃ err, readIdentity H readable ((utf8 (identityText H x e)).take n) = .error err) ∨
      readIdentity H readable ((utf8 (identityText H x e)).take n) = .ok (x, e) := by
  cases readable with
  | false => exact Or.inl ⟨_, rfl⟩
  | true =>
      rw [take_utf8 (ascii_identityText x e)]
      have hpre : (identityText H x e).take n <+: identityText H x e := List.take_prefix n _
      rcases parseIdentity_of_isPrefix x e hpre with h | h
      · left
        exact ⟨.malformed, by simp only [readIdentity, if_true, fromUtf8_utf8, h]⟩
      · exact Or.inr (readIdentity_utf8 _ h)

/-- What was written is read back, by every later run; and of a write that was
cut short at any byte, no other identity is ever read. -/
theorem identity_persists (C : Crypto SK VK) (H : HexCodec) (x e : U8Array 32) :
    parseIdentity H (identityText H x e) = some (x, e) ∧
    (∃ file, loadOrCreate C H .succeed x e none = (.ok (.fromSeeds C x e, true), file) ∧
      ∀ later : List (FileOps × U8Array 32 × U8Array 32),
        (∀ call ∈ later, call.1.readToString = true) →
          Machine.runs (fun file call => loadOrCreate C H call.1 call.2.1 call.2.2 file) file
            later = (later.map fun _ => .ok (.fromSeeds C x e, false), file)) ∧
    (∀ p, p <+: identityText H x e →
      parseIdentity H p = none ∨ parseIdentity H p = some (x, e)) ∧
    (∀ (n : Nat) (ops : FileOps) (xSeed edSeed : U8Array 32),
      (∃ err, (loadOrCreate C H ops xSeed edSeed
        (some ((utf8 (identityText H x e)).take n))).1 = .error err) ∨
      (loadOrCreate C H ops xSeed edSeed (some ((utf8 (identityText H x e)).take n))).1 =
        .ok (.fromSeeds C x e, false)) := by
  refine ⟨parseIdentity_identityText x e, ⟨some (utf8 (identityText H x e)), rfl, ?_⟩,
    fun p hp => parseIdentity_of_isPrefix x e hp, fun n ops xSeed edSeed => ?_⟩
  · intro later hlater
    induction later with
    | nil => rfl
    | cons call later ih =>
        have hcall : loadOrCreate C H call.1 call.2.1 call.2.2
            (some (utf8 (identityText H x e))) =
            (.ok (.fromSeeds C x e, false), some (utf8 (identityText H x e))) := by
          simp only [loadOrCreate, hlater call (by simp),
            readIdentity_utf8 _ (parseIdentity_identityText x e)]
        rw [Machine.runs, hcall]
        simp only [ih fun c hc => hlater c (by simp [hc]), List.map_cons]
  · rcases readIdentity_take (H := H) x e ops.readToString n with ⟨err, h⟩ | h
    · exact Or.inl ⟨err, by simp only [loadOrCreate, h]⟩
    · exact Or.inr (by simp only [loadOrCreate, h])

end IdFile

end UsbWs
