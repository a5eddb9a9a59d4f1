import UsbWs.IdFile

/-!
# The documented identity file

The comment on `parse_identity` promises two spellings of the two seeds: two
labelled lines, and two bare fields with white space between them; blank lines
and comments may stand anywhere. `Documented` is that format, stated on the
lines of a text and without regard to how they are read.

The parser works line by line and takes a whole line without a label for one
bare field. It so accepts all of the format but one layout: the two bare
fields on one line (`parseIdentity_documented_iff`), which is the one that the
comment spells out.
-/

namespace UsbWs.IdFile

open Text

/-! ## The format -/

/-- A line that says nothing: a blank one, or a comment. -/
def Insignificant (l : List Char) : Prop := Blank l ∨ (trimStart l).head? = some '#'

instance (l : List Char) : Decidable (Insignificant l) := inferInstanceAs (Decidable (_ ∨ _))

/-- The lines that say something. -/
def significant (text : List Char) : List (List Char) :=
  (lines text).filter fun l => ¬ Insignificant l

/-- The label and a hex text of the seed, in either case, with white space
around the line and the value. -/
def Labelled (H : HexCodec) (label : List Char) (x : U8Array 32) (l : List Char) : Prop :=
  ∃ a b s c, Blank a ∧ Blank b ∧ Blank c ∧ H.decode s = some x.val ∧
    l = a ++ (label ++ (b ++ s)) ++ c

/-- A hex text of the seed by itself. -/
def Bare (H : HexCodec) (x : U8Array 32) (l : List Char) : Prop :=
  ∃ a s c, Blank a ∧ Blank c ∧ H.decode s = some x.val ∧ l = a ++ s ++ c

/-- Hex texts of both seeds, with white space between them. -/
def BarePair (H : HexCodec) (x e : U8Array 32) (l : List Char) : Prop :=
  ∃ a s b t c, Blank a ∧ Blank b ∧ b ≠ [] ∧ Blank c ∧ H.decode s = some x.val ∧
    H.decode t = some e.val ∧ l = a ++ (s ++ (b ++ t)) ++ c

/-- The texts that the format allows for two seeds. Bare fields with a line
break in the white space between them are on two lines, the others on one. -/
inductive Documented (H : HexCodec) (x e : U8Array 32) (text : List Char) : Prop where
  | xFirst {l₁ l₂ : List Char} (lines : significant text = [l₁, l₂])
      (first : Labelled H xLabel x l₁) (second : Labelled H edLabel e l₂)
  | edFirst {l₁ l₂ : List Char} (lines : significant text = [l₁, l₂])
      (first : Labelled H edLabel e l₁) (second : Labelled H xLabel x l₂)
  | bareLines {l₁ l₂ : List Char} (lines : significant text = [l₁, l₂])
      (first : Bare H x l₁) (second : Bare H e l₂)
  | bareLine {l : List Char} (line : significant text = [l]) (pair : BarePair H x e l)

/-! ## What the parser makes of it -/

variable {H : HexCodec} {x e : U8Array 32} {l text : List Char}

theorem fieldOf_of_insignificant (h : Insignificant l) : fieldOf H l = none :=
  h.elim fieldOf_of_blank fieldOf_of_comment

/-- Only the significant lines are read. -/
theorem parseIdentity_eq (text : List Char) :
    parseIdentity H text = pairOf ((significant text).filterMap (fieldOf H)) := by
  rw [parseIdentity, scanLines, significant, List.filterMap_filter]
  congr 1
  refine List.filterMap_congr fun l _ => ?_
  by_cases h : Insignificant l
  · rw [fieldOf_of_insignificant h, ite_self]
  · rw [if_pos (decide_eq_true h)]

/-! A field has digits at its ends, so white space around it goes and nothing
else does. -/

theorem field_ne_nil {s : List Char} (hs : H.decode s = some x.val) : s ≠ [] := by
  rintro rfl
  cases length_of_decodeHex32 (decodeHex32_eq_some.2 hs)

theorem head?_field {s : List Char} (hs : H.decode s = some x.val) (q : List Char) :
    ∃ c, (s ++ q).head? = some c ∧ isHexDigit c = true := by
  cases s with
  | nil => exact absurd rfl (field_ne_nil hs)
  | cons c s => exact ⟨c, rfl, H.digit_of_decode hs c (by simp)⟩

/-- What begins with a field begins with no label: a label is shorter, and has
a character that is not a digit. -/
theorem stripPrefix_field {label s : List Char} (hlabel : label ∈ [xLabel, edLabel])
    (hs : H.decode s = some x.val) (q : List Char) : stripPrefix label (s ++ q) = none := by
  have hshort : ∀ label ∈ [xLabel, edLabel], label.length ≤ 64 ∧ '_' ∈ label := by decide
  obtain ⟨hle, hmem⟩ := hshort label hlabel
  cases h : stripPrefix label (s ++ q) with
  | none => rfl
  | some r =>
      have hlen := length_of_decodeHex32 (decodeHex32_eq_some.2 hs)
      have hwhole : label <+: s ++ q := ⟨r, (eq_append_of_stripPrefix h).symm⟩
      have hpre : label <+: s := List.prefix_of_prefix_length_le hwhole
        (List.prefix_append _ _) (by omega)
      have hdigit := H.digit_of_decode hs '_' (hpre.subset hmem)
      cases hdigit

theorem trim_field {a p s c : List Char} (ha : Blank a) (hc : Blank c)
    (hs : H.decode s = some x.val)
    (hhead : ∀ d, (p ++ s).head? = some d → isWhitespace d = false) :
    trim (a ++ (p ++ s) ++ c) = p ++ s := by
  rw [trim_append_blank hc, trim_blank_append ha]
  refine trim_eq_self hhead fun d hd => ?_
  rw [List.getLast?_append_of_ne_nil _ (field_ne_nil hs)] at hd
  exact HexCodec.not_whitespace_of_decode hs d (List.mem_of_getLast? hd)

/-- The value of a labelled line. -/
theorem trim_labelled {label : List Char} (hlabel : label ∈ [xLabel, edLabel])
    (h : Labelled H label x l) :
    ∃ v, trim l = label ++ v ∧ decodeHex32 H (trim v) = some x := by
  obtain ⟨a, b, s, c, ha, hb, hc, hs, rfl⟩ := h
  have hhead : ∀ label ∈ [xLabel, edLabel], ∀ t d, (label ++ t).head? = some d →
      isWhitespace d = false := by
    simp [xLabel, edLabel, isWhitespace]
  refine ⟨b ++ s, ?_, ?_⟩
  · have htrim := trim_field (p := label ++ b) ha hc hs
    simp only [List.append_assoc] at htrim ⊢
    exact htrim (hhead label hlabel _)
  · rw [trim_blank_append hb, trim_of_forall (HexCodec.not_whitespace_of_decode hs)]
    exact decodeHex32_eq_some.2 hs

theorem fieldOf_xLabelled (h : Labelled H xLabel x l) : fieldOf H l = some (.xSeed (some x)) := by
  obtain ⟨v, hl, hv⟩ := trim_labelled (by simp) h
  rw [fieldOf_xLabel hl, hv]

theorem fieldOf_edLabelled (h : Labelled H edLabel e l) :
    fieldOf H l = some (.edSeed (some e)) := by
  obtain ⟨v, hl, hv⟩ := trim_labelled (by simp) h
  rw [fieldOf_edLabel hl, hv]

/-- All of a line that begins with a field is read as one field. -/
theorem fieldOf_of_field {s q : List Char} (hs : H.decode s = some x.val)
    (hl : trim l = s ++ q) : fieldOf H l = (decodeHex32 H (s ++ q)).map .bare := by
  have hcomment : (s ++ q).head? ≠ some '#' := by
    obtain ⟨c, hc, hdigit⟩ := head?_field hs q
    rw [hc, ne_eq, Option.some_inj]
    exact ne_of_hexDigit hdigit (by decide)
  rw [fieldOf_unlabelled (by rw [hl, stripPrefix_field (by simp) hs])
    (by rw [hl, stripPrefix_field (by simp) hs]) (by rwa [hl]), hl]

theorem fieldOf_bare (h : Bare H x l) : fieldOf H l = some (.bare x) := by
  obtain ⟨a, s, c, ha, hc, hs, rfl⟩ := h
  have hl : trim (a ++ s ++ c) = s ++ [] := by
    rw [trim_append_blank hc, trim_blank_append ha, List.append_nil,
      trim_of_forall (HexCodec.not_whitespace_of_decode hs)]
  rw [fieldOf_of_field hs hl, List.append_nil, decodeHex32_eq_some.2 hs]
  rfl

/-- A line with two fields begins with one, and has white space further on. -/
theorem trim_barePair (h : BarePair H x e l) :
    ∃ s q, H.decode s = some x.val ∧ trim l = s ++ q ∧ ∃ w ∈ q, isWhitespace w = true := by
  obtain ⟨a, s, b, t, c, ha, hb, hne, hc, hs, ht, rfl⟩ := h
  have hhead : ∀ d, (s ++ b ++ t).head? = some d → isWhitespace d = false := fun d hd => by
    obtain ⟨d', hd', hdigit⟩ := head?_field hs (b ++ t)
    rw [List.append_assoc, hd', Option.some_inj] at hd
    exact hd ▸ isWhitespace_of_hexDigit hdigit
  have hl := trim_field ha hc ht hhead
  obtain ⟨w, b', rfl⟩ := List.exists_cons_of_ne_nil hne
  exact ⟨s, w :: b' ++ t, hs, by simpa using hl, w, by simp, hb w (by simp)⟩

/-- Two fields on one line are not read, for the white space between them is
no digit. -/
theorem fieldOf_barePair (h : BarePair H x e l) : fieldOf H l = none := by
  obtain ⟨s, q, hs, hl, w, hw, hblank⟩ := trim_barePair h
  rw [fieldOf_of_field hs hl, Option.map_eq_none_iff]
  cases hd : decodeHex32 H (s ++ q) with
  | none => rfl
  | some y =>
      have hnot := HexCodec.not_whitespace_of_decode (decodeHex32_eq_some.1 hd) w (by simp [hw])
      rw [hblank] at hnot
      cases hnot

theorem not_insignificant_barePair (h : BarePair H x e l) : ¬ Insignificant l := by
  obtain ⟨s, q, hs, hl, -⟩ := trim_barePair h
  obtain ⟨d, hd, hdigit⟩ := head?_field hs q
  rw [← hl] at hd
  rintro (hblank | hcomment)
  · rw [trim_of_blank hblank] at hd
    cases hd
  · rw [head?_trim hcomment, Option.some_inj] at hd
    exact ne_of_hexDigit hdigit (by decide) hd.symm

/-! ## What is accepted -/

/-- Where two lines say something and both are read, the fields are what they
say, and neither line has two bare fields. -/
theorem parseIdentity_of_fields {l₁ l₂ : List Char} {f₁ f₂ : Field}
    (hlines : significant text = [l₁, l₂]) (h₁ : fieldOf H l₁ = some f₁)
    (h₂ : fieldOf H l₂ = some f₂) :
    parseIdentity H text = pairOf [f₁, f₂] ∧ ∀ l ∈ lines text, ¬ BarePair H x e l := by
  refine ⟨by simp only [parseIdentity_eq, hlines, List.filterMap_cons, h₁, h₂,
    List.filterMap_nil], fun l hl hpair => ?_⟩
  have hmem : l ∈ significant text :=
    List.mem_filter.2 ⟨hl, decide_eq_true (not_insignificant_barePair hpair)⟩
  have hnone := fieldOf_barePair hpair
  rw [hlines] at hmem
  rcases List.mem_pair.1 hmem with rfl | rfl
  · rw [h₁] at hnone
    cases hnone
  · rw [h₂] at hnone
    cases hnone

/-- The parser accepts a documented text exactly when the two bare fields are
not on one line of it. -/
theorem parseIdentity_documented_iff (H : HexCodec) (x e : U8Array 32) (text : List Char)
    (h : Documented H x e text) :
    parseIdentity H text = some (x, e) ↔ ∀ l ∈ lines text, ¬ BarePair H x e l := by
  cases h with
  | xFirst hlines first second =>
      obtain ⟨hparse, hnot⟩ := parseIdentity_of_fields hlines (fieldOf_xLabelled first)
        (fieldOf_edLabelled second)
      exact iff_of_true hparse hnot
  | edFirst hlines first second =>
      obtain ⟨hparse, hnot⟩ := parseIdentity_of_fields hlines (fieldOf_edLabelled first)
        (fieldOf_xLabelled second)
      exact iff_of_true hparse hnot
  | bareLines hlines first second =>
      obtain ⟨hparse, hnot⟩ := parseIdentity_of_fields hlines (fieldOf_bare first)
        (fieldOf_bare second)
      exact iff_of_true hparse hnot
  | @bareLine l hline pair =>
      refine iff_of_false (fun hparse => ?_) fun hnone => ?_
      · rw [parseIdentity_eq, hline, List.filterMap_cons_none (fieldOf_barePair pair)] at hparse
        cases hparse
      · have hl : l ∈ significant text := by simp [hline]
        exact hnone l (List.mem_filter.1 hl).1 pair

/-- The labelled fields in the other order, with tabs, spaces, carriage returns
and upper case digits. -/
theorem parseIdentity_documented_upper :
    let text := '#' :: '\r' :: '\n' :: '\t' :: (edLabel ++ ' ' :: List.replicate 64 'A') ++
      ' ' :: '\r' :: '\n' :: '\n' :: (xLabel ++ List.replicate 64 '0')
    parseIdentity .ascii text = some (.zero 32, ⟨List.replicate 32 0xAA, rfl⟩) ∧
      ∀ l ∈ lines text, ¬ BarePair .ascii (.zero 32) ⟨List.replicate 32 0xAA, rfl⟩ l := by
  intro text
  have hed : Labelled .ascii edLabel ⟨List.replicate 32 0xAA, rfl⟩
      ('\t' :: (edLabel ++ ' ' :: List.replicate 64 'A') ++ [' ']) :=
    ⟨['\t'], [' '], List.replicate 64 'A', [' '], by decide, by decide, by decide,
      by decide +kernel, rfl⟩
  have hx : Labelled .ascii xLabel (.zero 32) (xLabel ++ List.replicate 64 '0') :=
    ⟨[], [], List.replicate 64 '0', [], by decide, by decide, by decide, by decide +kernel, rfl⟩
  have hiff := parseIdentity_documented_iff .ascii (.zero 32) ⟨List.replicate 32 0xAA, rfl⟩ text
    (.edFirst (by decide +kernel) hed hx)
  have hparse : parseIdentity .ascii text =
      some (.zero 32, ⟨List.replicate 32 0xAA, rfl⟩) := by
    decide +kernel
  exact ⟨hparse, hiff.1 hparse⟩

/-- Two bare fields with a space between them. -/
theorem parseIdentity_bare_pair :
    ¬ ∀ (H : HexCodec) (x e : U8Array 32) (text : List Char), Documented H x e text →
      parseIdentity H text = some (x, e) := fun h => by
  have hpair : BarePair .ascii (.zero 32) ⟨List.replicate 32 0xAA, rfl⟩
      (List.replicate 64 '0' ++ ' ' :: List.replicate 64 'a') :=
    ⟨[], List.replicate 64 '0', [' '], List.replicate 64 'a', [], by decide, by decide,
      by decide, by decide, by decide +kernel, by decide +kernel, rfl⟩
  have hline : significant (List.replicate 64 '0' ++ ' ' :: List.replicate 64 'a') =
      [List.replicate 64 '0' ++ ' ' :: List.replicate 64 'a'] := by decide +kernel
  have hparse := h _ _ _ _ (.bareLine hline hpair)
  have hnone : parseIdentity .ascii (List.replicate 64 '0' ++ ' ' :: List.replicate 64 'a') =
      none := by decide +kernel
  rw [hnone] at hparse
  cases hparse

end UsbWs.IdFile
