import UsbWs.Authorized

/-!
# What `add` does to the table

`add` appends its line to the bytes of the file and does not look at where the
last line ends, and it writes the nick as it came. Both can change what the
file lists beyond the one entry: a last line without terminator takes the new
entry into its own first field, and a nick with a line feed goes on with lines
of its own.

The two theorems say exactly when neither does harm. In both the file is as it
was when the x_pub was listed before, and else its keys are those of
`keys_append_entryLine`.
-/

namespace UsbWs

open Text

namespace Authorized

variable {H : HexCodec} {ops : FileOps} {x : U8Array 32} {nick : List Char}
  {file file' : Option (List UInt8)} {before : List Entry}

/-- Every x_pub that was listed is listed, and so is the new one. -/
def KeepsKeys (H : HexCodec) (before : List Entry) (x : U8Array 32)
    (file : Option (List UInt8)) : Prop :=
  ∃ after, load H true file = .ok after ∧ (∀ e ∈ before, contains after e.xPub = true) ∧
    contains after x = true

/-- Every x_pub that is listed was listed, save the new one. -/
def AddsOnly (H : HexCodec) (before : List Entry) (x : U8Array 32)
    (file : Option (List UInt8)) : Prop :=
  ∃ after, load H true file = .ok after ∧
    ∀ e ∈ after, contains before e.xPub = true ∨ e.xPub = x

/-- The lines that the nick begins list the x_pub, and the key that the last
line of the text loses unless it is listed before. -/
def NickRelists (H : HexCodec) (raw nick : List Char) (x : U8Array 32) : Prop :=
  x ∈ keys H (afterNewline nick) ∧
    (OpenField (lastLine raw) → ∀ k, key H (lastLine raw) = some k →
      k ∈ keys H (earlier raw) ∨ k ∈ keys H (afterNewline nick))

theorem keepsKeys_utf8 {raw raw' : List Char} :
    KeepsKeys H (parse H raw) x (some (utf8 raw')) ↔
      (∀ k ∈ keys H raw, k ∈ keys H raw') ∧ x ∈ keys H raw' := by
  simp only [KeepsKeys, load_utf8, Except.ok.injEq, exists_eq_left', contains_iff]
  simp [keys]

theorem addsOnly_utf8 {raw raw' : List Char} :
    AddsOnly H (parse H raw) x (some (utf8 raw')) ↔
      ∀ k ∈ keys H raw', k ∈ keys H raw ∨ k = x := by
  simp only [AddsOnly, load_utf8, Except.ok.injEq, exists_eq_left', contains_iff]
  simp [keys]

/-- Appending a new entry keeps the keys of a text when its last line is blank,
or the nick makes up for what it loses. -/
theorem keys_kept_iff {raw : List Char} (hx : x ∉ keys H raw) :
    ((∀ k ∈ keys H raw, k ∈ keys H (raw ++ entryLine H x nick)) ∧
        x ∈ keys H (raw ++ entryLine H x nick)) ↔
      Blank (lastLine raw) ∨ NickRelists H raw nick x := by
  rw [keys_eq, List.mem_append, not_or] at hx
  rw [keys_append_entryLine, keys_eq raw]
  by_cases hb : Blank (lastLine raw)
  · -- a blank last line lists nothing and leaves the entry its own line
    have hnone : key H (lastLine raw) = none := by
      rw [key_eq, trimStart_eq_nil.2 hb]
      exact tryFrom_decode_nil
    simp only [hb, if_true, hnone, true_or, iff_true]
    simp +contextual
  · rw [if_neg hb]
    by_cases ho : OpenField (lastLine raw)
    · simp only [ho, if_true, hb, false_or, NickRelists, forall_const]
      simp only [Option.toList_none, List.append_nil, List.mem_append, Option.mem_toList, hx.1,
        false_or]
      constructor
      · exact fun ⟨hkept, hnick⟩ => ⟨hnick, fun k hk => hkept k (Or.inr hk)⟩
      · rintro ⟨hnick, hlost⟩
        refine ⟨?_, hnick⟩
        rintro k (hk | hk)
        · exact Or.inl hk
        · exact hlost k hk
    · rw [if_neg ho]
      simp only [hb, false_or, NickRelists, ho, false_implies, and_true, List.mem_append]
      constructor
      · rintro ⟨_, (h | h) | h⟩
        · exact absurd h hx.1
        · exact absurd h hx.2
        · exact h
      · exact fun hnick => ⟨fun k hk => Or.inl hk, Or.inr hnick⟩

/-- Appending a new entry lists no other key when the lines that the nick
begins list none. -/
theorem keys_only_iff {raw : List Char} :
    (∀ k ∈ keys H (raw ++ entryLine H x nick), k ∈ keys H raw ∨ k = x) ↔
      ∀ k ∈ keys H (afterNewline nick), k ∈ keys H raw ∨ k = x := by
  rw [keys_append_entryLine]
  refine ⟨fun h k hk => h k (List.mem_append_right _ hk), fun h k hk => ?_⟩
  rcases List.mem_append.1 hk with hk | hk
  · rw [keys_eq raw]
    rcases List.mem_append.1 hk with hk | hk
    · exact Or.inl (List.mem_append_left _ hk)
    · split at hk
      · exact Or.inr (by simpa [eq_comm] using hk)
      · split at hk
        · cases hk
        · exact Or.inl (List.mem_append_right _ hk)
  · exact h k hk

/-! ## No key is lost -/

/-- `add` keeps what the file listed and lists the x_pub, exactly when it was
listed before, or the last line of the file is blank, or the nick has lines of
its own that list what the last line no longer does. -/
theorem add_keepsKeys_iff (hload : load H true file = .ok before)
    (hadd : add H ops x nick file = (.ok (), file')) :
    KeepsKeys H before x file' ↔
      contains before x = true ∨ Blank (lastLine (contents file)) ∨
        NickRelists H (contents file) nick x := by
  obtain ⟨_, hbefore⟩ := load_ok hload
  have hlisted : contains before x = true ↔ x ∈ keys H (contents file) := by
    rw [contains_iff, hbefore, keys]
  rcases add_ok hload hadd with ⟨hx, rfl⟩ | ⟨hx, rfl⟩
  · have hkeep : KeepsKeys H before x file' :=
      ⟨before, hload, fun e he => contains_iff.2 (List.mem_map_of_mem he), hlisted.2 hx⟩
    exact iff_of_true hkeep (Or.inl (hlisted.2 hx))
  · rw [hbefore, keepsKeys_utf8, keys_kept_iff hx, ← hbefore, hlisted]
    simp [hx]

def zeros : U8Array 32 := ⟨List.replicate 32 0, rfl⟩

def ones : U8Array 32 := ⟨List.replicate 32 1, rfl⟩

/-- A file whose one line has its terminator keeps its key. -/
theorem keepsKeys_of_terminated :
    KeepsKeys .ascii [⟨zeros, []⟩] ones
      (some (utf8 (entryLine .ascii zeros [] ++ entryLine .ascii ones []))) := by
  have hparse : parse .ascii (entryLine .ascii zeros []) = [⟨zeros, []⟩] := by decide +kernel
  have hload : load .ascii true (some (utf8 (entryLine .ascii zeros []))) =
      .ok [⟨zeros, []⟩] := by rw [load_utf8, hparse]
  have hadd : add .ascii .succeed ones [] (some (utf8 (entryLine .ascii zeros []))) =
      (.ok (), some (utf8 (entryLine .ascii zeros [] ++ entryLine .ascii ones []))) := by
    have hnew : contains [⟨zeros, []⟩] ones = false := by decide
    simp [add, FileOps.succeed, hload, hnew, utf8_append]
  refine (add_keepsKeys_iff hload hadd).2 (Or.inr (Or.inl ?_))
  have hcontents : contents (some (utf8 (entryLine .ascii zeros []))) =
      HexCodec.ascii.encode zeros.val ++ ['\n'] := by simp [contents, entryLine]
  rw [hcontents, lastLine_concat_newline]
  exact fun c hc => absurd hc List.not_mem_nil

/-- A file whose one line has no terminator loses its key, and the new one. -/
theorem not_keepsKeys_of_unterminated :
    ∃ file', load .ascii true (some (utf8 (HexCodec.ascii.encode zeros.val))) =
        .ok [⟨zeros, []⟩] ∧
      add .ascii .succeed ones [] (some (utf8 (HexCodec.ascii.encode zeros.val))) =
        (.ok (), file') ∧
      load .ascii true file' = .ok [] ∧ ¬ KeepsKeys .ascii [⟨zeros, []⟩] ones file' := by
  have hparse : parse .ascii (HexCodec.ascii.encode zeros.val) = [⟨zeros, []⟩] := by
    decide +kernel
  have hload : load .ascii true (some (utf8 (HexCodec.ascii.encode zeros.val))) =
      .ok [⟨zeros, []⟩] := by
    rw [load_utf8, hparse]
  have hnew : contains [⟨zeros, []⟩] ones = false := by decide
  have hlost : load .ascii true
      (some (utf8 (HexCodec.ascii.encode zeros.val ++ entryLine .ascii ones []))) = .ok [] := by
    have hparse' : parse .ascii (HexCodec.ascii.encode zeros.val ++ entryLine .ascii ones []) =
        [] := by decide +kernel
    rw [load_utf8, hparse']
  refine ⟨_, hload, ?_, hlost, ?_⟩
  · simp [add, FileOps.succeed, hload, hnew, utf8_append]
  · rintro ⟨after, hafter, -, hx⟩
    rw [hlost] at hafter
    cases hafter
    cases hx

/-! ## Nobody else is listed -/

/-- `add` lists nobody else, exactly when the x_pub was listed before or the
lines that the nick begins list nobody else. -/
theorem add_addsOnly_iff (hload : load H true file = .ok before)
    (hadd : add H ops x nick file = (.ok (), file')) :
    AddsOnly H before x file' ↔
      contains before x = true ∨
        ∀ k ∈ keys H (afterNewline nick), contains before k = true ∨ k = x := by
  obtain ⟨_, hbefore⟩ := load_ok hload
  have hlisted : ∀ k, contains before k = true ↔ k ∈ keys H (contents file) := fun k => by
    rw [contains_iff, hbefore, keys]
  rcases add_ok hload hadd with ⟨hx, rfl⟩ | ⟨hx, rfl⟩
  · have honly : AddsOnly H before x file' :=
      ⟨before, hload, fun e he => Or.inl (contains_iff.2 (List.mem_map_of_mem he))⟩
    exact iff_of_true honly (Or.inl ((hlisted x).2 hx))
  · rw [hbefore, addsOnly_utf8, keys_only_iff, ← hbefore]
    simp only [hlisted, hx, false_or]

/-- A nick of one line lists nobody. -/
theorem addsOnly_of_oneLine :
    AddsOnly .ascii [] ones (some (utf8 (entryLine .ascii ones ['e', 'v', 'e']))) := by
  have hadd : add .ascii .succeed ones ['e', 'v', 'e'] none =
      (.ok (), some (utf8 (entryLine .ascii ones ['e', 'v', 'e']))) := by
    have hnew : contains [] ones = false := rfl
    simp [add, FileOps.succeed, load, hnew]
  refine (add_addsOnly_iff rfl hadd).2 (Or.inr ?_)
  have hnone : keys .ascii (afterNewline ['e', 'v', 'e']) = [] := by decide
  simp [hnone]

/-- The encoding of a public key: the base point of the signature group. -/
def basePoint : U8Array 32 := ⟨0x58 :: List.replicate 31 0x66, rfl⟩

/-- An initiator whose nick has a second line with a key of its choice: trust on
first use lists that key too. -/
theorem not_addsOnly_of_twoLines :
    ∃ peer file', decodeIntroFrom some
        (ones.val ++ basePoint.val ++ utf8 ('\n' :: HexCodec.ascii.encode zeros.val)) =
          .ok peer ∧ peer.xPub = ones ∧
      load .ascii true none = .ok [] ∧
      add .ascii .succeed peer.xPub peer.nick none = (.ok (), file') ∧
      load .ascii true file' = .ok [⟨ones, []⟩, ⟨zeros, []⟩] ∧
      ¬ AddsOnly .ascii [] peer.xPub file' := by
  obtain ⟨peer, hpeer, hxPub, _, hnick⟩ := exists_decodeIntroFrom
    (show some basePoint = some basePoint from rfl) ones ('\n' :: HexCodec.ascii.encode zeros.val)
  have hlisted : load .ascii true (some (utf8 (entryLine .ascii ones
      ('\n' :: HexCodec.ascii.encode zeros.val)))) = .ok [⟨ones, []⟩, ⟨zeros, []⟩] := by
    have hparse : parse .ascii (entryLine .ascii ones ('\n' :: HexCodec.ascii.encode zeros.val)) =
        [⟨ones, []⟩, ⟨zeros, []⟩] := by decide +kernel
    rw [load_utf8, hparse]
  have hline : entryLine .ascii peer.xPub peer.nick =
      entryLine .ascii ones ('\n' :: HexCodec.ascii.encode zeros.val) := by rw [hxPub, hnick]
  rw [← hline] at hlisted
  refine ⟨peer, _, hpeer, hxPub, rfl, ?_, hlisted, ?_⟩
  · have hnew : contains [] peer.xPub = false := rfl
    simp [add, FileOps.succeed, load, hnew]
  · rintro ⟨after, hafter, honly⟩
    rw [hlisted] at hafter
    cases hafter
    rcases honly ⟨zeros, []⟩ (by simp) with h | h
    · cases h
    · rw [hxPub] at h
      exact absurd h (by decide)

end Authorized

end UsbWs
