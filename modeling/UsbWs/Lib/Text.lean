import Mathlib.Data.List.DropRight
import Mathlib.Tactic.Common

/-!
# Text by lines and fields

A text is a list of characters. The operations are those of Rust's `str`:
white space is Unicode's property `White_Space`, `lines` takes a line feed, or
a carriage return and a line feed, for the end of a line and forgets whether
the last line had one, and `splitOnce` cuts at the first white space.

A parser that reads a text line by line and does not see a carriage return at
the end of a line does not see the terminators either: for such a parser a
text is its pieces between line feeds (`scanLines_append`), and what happens
when text is appended is settled by the one piece in which the two meet
(`scanLines_append_line`).
-/

namespace Text

/-! ## White space -/

/-- `char::is_whitespace`. -/
def isWhitespace (c : Char) : Bool :=
  (0x9 ≤ c.toNat && c.toNat ≤ 0xD) || c.toNat = 0x20 || c.toNat = 0x85 || c.toNat = 0xA0 ||
    c.toNat = 0x1680 || (0x2000 ≤ c.toNat && c.toNat ≤ 0x200A) || c.toNat = 0x2028 ||
    c.toNat = 0x2029 || c.toNat = 0x202F || c.toNat = 0x205F || c.toNat = 0x3000

def trimStart (l : List Char) : List Char := l.dropWhile isWhitespace

def trimEnd (l : List Char) : List Char := l.rdropWhile isWhitespace

/-- `str::trim`. -/
def trim (l : List Char) : List Char := trimEnd (trimStart l)

/-- Nothing but white space. -/
def Blank (l : List Char) : Prop := ∀ c ∈ l, isWhitespace c = true

instance (l : List Char) : Decidable (Blank l) := List.decidableBAll _ l

theorem trimStart_eq_nil {l : List Char} : trimStart l = [] ↔ Blank l :=
  List.dropWhile_eq_nil_iff

/-- White space in front is dropped, the rest stays. -/
theorem trimStart_append_blank {l m : List Char} (h : Blank l) :
    trimStart (l ++ m) = trimStart m := List.dropWhile_append_of_pos h

theorem trimStart_append_of_not_blank {l m : List Char} (h : ¬ Blank l) :
    trimStart (l ++ m) = trimStart l ++ m := by
  have hne : (trimStart l).isEmpty = false := by
    rw [List.isEmpty_eq_false_iff]
    exact fun he => h (trimStart_eq_nil.1 he)
  rw [trimStart, List.dropWhile_append, if_neg]
  · rfl
  · exact fun he => by rw [trimStart] at hne; rw [hne] at he; cases he

theorem trimStart_of_head {c : Char} {l : List Char} (h : isWhitespace c = false) :
    trimStart (c :: l) = c :: l := by
  simp [trimStart, h]

theorem trimEnd_concat {l : List Char} {c : Char} (h : isWhitespace c = true) :
    trimEnd (l ++ [c]) = trimEnd l := List.rdropWhile_concat_pos _ _ _ h

/-- White space at the end makes no difference to `trim`. -/
theorem trim_concat {l : List Char} {c : Char} (h : isWhitespace c = true) :
    trim (l ++ [c]) = trim l := by
  by_cases hb : Blank l
  · have hb' : Blank (l ++ [c]) := by
      intro d hd
      rcases List.mem_append.1 hd with hd | hd
      · exact hb d hd
      · rwa [List.mem_singleton.1 hd]
    rw [trim, trim, trimStart_eq_nil.2 hb, trimStart_eq_nil.2 hb']
  · rw [trim, trim, trimStart_append_of_not_blank hb, trimEnd_concat h]

theorem blank_append {l m : List Char} : Blank (l ++ m) ↔ Blank l ∧ Blank m :=
  List.forall_mem_append

theorem trimEnd_append_of_not_blank {l m : List Char} (h : ¬ Blank m) :
    trimEnd (l ++ m) = l ++ trimEnd m := by
  induction m using List.reverseRecOn with
  | nil => exact absurd (fun c hc => absurd hc List.not_mem_nil) h
  | append_singleton m c ih =>
      rw [← List.append_assoc]
      by_cases hc : isWhitespace c = true
      · have hm : ¬ Blank m := fun hm => h (blank_append.2 ⟨hm, by simpa [Blank] using hc⟩)
        rw [trimEnd_concat hc, trimEnd_concat hc, ih hm]
      · rw [trimEnd, trimEnd, List.rdropWhile_concat_neg _ _ _ hc,
          List.rdropWhile_concat_neg _ _ _ hc, List.append_assoc]

theorem trim_append_blank {l m : List Char} (h : Blank m) : trim (l ++ m) = trim l := by
  induction m using List.reverseRecOn with
  | nil => rw [List.append_nil]
  | append_singleton m c ih =>
      obtain ⟨hm, hc⟩ := blank_append.1 h
      rw [← List.append_assoc, trim_concat (hc c (by simp)), ih hm]

theorem trim_blank_append {l m : List Char} (h : Blank m) : trim (m ++ l) = trim l := by
  rw [trim, trimStart_append_blank h, trim]

/-- What neither begins nor ends with white space is not trimmed. -/
theorem trim_eq_self {l : List Char} (hhead : ∀ c, l.head? = some c → isWhitespace c = false)
    (hlast : ∀ c, l.getLast? = some c → isWhitespace c = false) : trim l = l := by
  have hstart : trimStart l = l := by
    cases l with
    | nil => rfl
    | cons c l => exact trimStart_of_head (hhead c rfl)
  rw [trim, hstart, trimEnd, List.rdropWhile_eq_self_iff]
  exact fun hl => by simp [hlast _ (List.getLast?_eq_some_getLast hl)]

theorem trim_of_forall {l : List Char} (h : ∀ c ∈ l, isWhitespace c = false) : trim l = l :=
  trim_eq_self (fun c hc => h c (List.mem_of_head? hc)) fun c hc => h c (List.mem_of_getLast? hc)

/-- A text that begins with another character than white space begins with it
when it is trimmed. -/
theorem head?_trim {l : List Char} {c : Char} (h : (trimStart l).head? = some c) :
    (trim l).head? = some c := by
  obtain ⟨m, hm⟩ := List.head?_eq_some_iff.1 h
  have hc : isWhitespace c = false := by
    have hnot := List.head?_dropWhile_not isWhitespace l
    rw [← trimStart, h] at hnot
    exact hnot
  rw [trim, hm]
  cases ht : trimEnd (c :: m) with
  | nil =>
      have hw := List.rdropWhile_eq_nil_iff.1 ht c (by simp)
      rw [hc] at hw
      cases hw
  | cons d r =>
      have hpre : d :: r <+: c :: m := ht ▸ List.rdropWhile_prefix _ _
      rw [(List.cons_prefix_cons.1 hpre).1]
      rfl

theorem trim_of_blank {l : List Char} (h : Blank l) : trim l = [] := by
  rw [trim, trimStart_eq_nil.2 h]
  rfl

/-- Trimming the end first makes no difference to `trim`. -/
theorem trim_trimEnd (l : List Char) : trim (trimEnd l) = trim l := by
  induction l using List.reverseRecOn with
  | nil => rfl
  | append_singleton l c ih =>
      by_cases hc : isWhitespace c = true
      · rw [trimEnd_concat hc, ih, trim_concat hc]
      · rw [trimEnd, List.rdropWhile_concat_neg _ _ _ hc]

theorem mem_of_mem_trim {c : Char} {l : List Char} (h : c ∈ trim l) : c ∈ l := by
  have hend : trim l <+: trimStart l := List.rdropWhile_prefix _ _
  exact (List.dropWhile_subset _) (hend.subset h)

/-- What was trimmed has nothing left to trim. -/
theorem trim_trim (l : List Char) : trim (trim l) = trim l := by
  refine trim_eq_self (fun c hc => ?_) fun c hc => ?_
  · obtain ⟨m, hm⟩ := List.head?_eq_some_iff.1 hc
    have hend : trim l <+: trimStart l := List.rdropWhile_prefix _ _
    have hhead : (trimStart l).head? = some c := by
      obtain ⟨r, hr⟩ := hend
      rw [← hr, hm]
      rfl
    have hnot := List.head?_dropWhile_not isWhitespace l
    rw [← trimStart, hhead] at hnot
    exact hnot
  · have hne : trim l ≠ [] := List.ne_nil_of_mem (List.mem_of_getLast? hc)
    have hnot : ¬ isWhitespace ((trim l).getLast hne) = true := List.rdropWhile_last_not _ _ hne
    rw [List.getLast?_eq_some_getLast hne, Option.some_inj] at hc
    rw [hc] at hnot
    simpa using hnot

/-! ## The first field -/

/-- `str::split_once(char::is_whitespace)`. -/
def splitOnce : List Char → Option (List Char × List Char)
  | [] => none
  | c :: l =>
      if isWhitespace c then some ([], l) else (splitOnce l).map fun (h, r) => (c :: h, r)

/-- The field a text begins with, up to the first white space. -/
def firstField (l : List Char) : List Char := l.takeWhile fun c => !isWhitespace c

theorem firstField_of_splitOnce_some {l h r : List Char} (hs : splitOnce l = some (h, r)) :
    firstField l = h := by
  induction l generalizing h with
  | nil => cases hs
  | cons c l ih =>
      rw [splitOnce] at hs
      split at hs
      · next hc =>
          cases hs
          simp [firstField, hc]
      · next hc =>
          simp only [Option.map_eq_some_iff, Prod.mk.injEq, Prod.exists] at hs
          obtain ⟨h', r', hs', rfl, rfl⟩ := hs
          have hih : firstField l = h' := ih hs'
          rw [firstField] at hih ⊢
          rw [List.takeWhile_cons, if_pos (by simpa using hc), hih]

theorem firstField_of_splitOnce_none {l : List Char} (hs : splitOnce l = none) :
    firstField l = l := by
  induction l with
  | nil => rfl
  | cons c l ih =>
      rw [splitOnce] at hs
      split at hs
      · cases hs
      · next hc =>
          have hih : firstField l = l := ih (by simpa using hs)
          rw [firstField] at hih ⊢
          rw [List.takeWhile_cons, if_pos (by simpa using hc), hih]

theorem splitOnce_of_forall {l : List Char} (h : ∀ c ∈ l, isWhitespace c = false) :
    splitOnce l = none := by
  induction l with
  | nil => rfl
  | cons c l ih => simp [splitOnce, h c (by simp), ih fun d hd => h d (by simp [hd])]

/-- A text is cut at the first white space, which neither part keeps. -/
theorem splitOnce_append_cons {l : List Char} {c : Char} (h : ∀ d ∈ l, isWhitespace d = false)
    (hc : isWhitespace c = true) (r : List Char) : splitOnce (l ++ c :: r) = some (l, r) := by
  induction l with
  | nil => simp [splitOnce, hc]
  | cons d l ih =>
      simp [splitOnce, h d (by simp), ih fun e he => h e (by simp [he])]

theorem firstField_append {l m : List Char} (h : ∃ c ∈ l, isWhitespace c = true) :
    firstField (l ++ m) = firstField l := by
  obtain ⟨c, hc, hw⟩ := h
  rw [firstField, List.takeWhile_append, if_neg]
  · rfl
  · intro hlen
    have hpre : firstField l <+: l := List.takeWhile_prefix fun c => !isWhitespace c
    have hall := hpre.eq_of_length hlen
    have hneg := List.mem_takeWhile_imp (hall.symm ▸ hc)
    simp [hw] at hneg

/-- A field that reaches the end of a text goes on with what is appended. -/
theorem firstField_append_of_none {l m : List Char} (h : ∀ c ∈ l, isWhitespace c = false) :
    firstField (l ++ m) = l ++ firstField m :=
  List.takeWhile_append_of_pos fun c hc => by simp [h c hc]

/-- Trimming the end does not cut the first field. -/
theorem firstField_trimEnd {l : List Char} : firstField (trimEnd l) = firstField l := by
  induction l using List.reverseRecOn with
  | nil => rfl
  | append_singleton l c ih =>
      by_cases hc : isWhitespace c = true
      · rw [trimEnd_concat hc, ih]
        by_cases hl : ∃ d ∈ l, isWhitespace d = true
        · rw [firstField_append hl]
        · have hnone : ∀ d ∈ l, isWhitespace d = false := by simpa using hl
          have hnil : firstField [c] = [] := by simp [firstField, hc]
          have hself := firstField_append_of_none (m := []) hnone
          rw [List.append_nil] at hself
          rw [firstField_append_of_none hnone, hnil, hself]
          rfl
      · rw [trimEnd, List.rdropWhile_concat_neg _ _ _ hc]

theorem mem_of_splitOnce {c : Char} {l h r : List Char} (hs : splitOnce l = some (h, r))
    (hc : c ∈ r) : c ∈ l := by
  induction l generalizing h with
  | nil => cases hs
  | cons d l ih =>
      rw [splitOnce] at hs
      split at hs
      · cases hs
        exact List.mem_cons_of_mem _ hc
      · simp only [Option.map_eq_some_iff, Prod.mk.injEq, Prod.exists] at hs
        obtain ⟨h', r', hs', -, rfl⟩ := hs
        exact List.mem_cons_of_mem _ (ih hs')

/-! ## A separator -/

/-- `str::split_once(sep)`. -/
def splitOnceChar (sep : Char) : List Char → Option (List Char × List Char)
  | [] => none
  | c :: t => if c = sep then some ([], t) else (splitOnceChar sep t).map fun (h, r) => (c :: h, r)

theorem splitOnceChar_append {sep : Char} {l : List Char} (h : sep ∉ l) (r : List Char) :
    splitOnceChar sep (l ++ sep :: r) = some (l, r) := by
  induction l with
  | nil => rw [List.nil_append, splitOnceChar, if_pos rfl]
  | cons c l ih =>
      rw [List.mem_cons, not_or] at h
      rw [List.cons_append, splitOnceChar, if_neg (Ne.symm h.1), ih h.2]
      rfl

theorem splitOnceChar_of_not_mem {sep : Char} {l : List Char} (h : sep ∉ l) :
    splitOnceChar sep l = none := by
  induction l with
  | nil => rfl
  | cons c l ih =>
      rw [List.mem_cons, not_or] at h
      rw [splitOnceChar, if_neg (Ne.symm h.1), ih h.2]
      rfl

theorem eq_append_of_splitOnceChar {sep : Char} {l a b : List Char}
    (h : splitOnceChar sep l = some (a, b)) : l = a ++ sep :: b := by
  induction l generalizing a with
  | nil => cases h
  | cons c l ih =>
      rw [splitOnceChar] at h
      split at h
      · next hc =>
          cases h
          rw [hc, List.nil_append]
      · obtain ⟨⟨a', b'⟩, hl, heq⟩ := Option.map_eq_some_iff.1 h
        cases heq
        rw [ih hl, List.cons_append]

/-! ## A fixed text in front -/

/-- `str::strip_prefix`. -/
def stripPrefix : List Char → List Char → Option (List Char)
  | [], t => some t
  | _ :: _, [] => none
  | c :: p, d :: t => if c = d then stripPrefix p t else none

@[simp] theorem stripPrefix_append (p t : List Char) : stripPrefix p (p ++ t) = some t := by
  induction p with
  | nil => rfl
  | cons c p ih => rw [List.cons_append, stripPrefix, if_pos rfl, ih]

theorem eq_append_of_stripPrefix {p t r : List Char} (h : stripPrefix p t = some r) :
    t = p ++ r := by
  induction p generalizing t with
  | nil => cases h; rfl
  | cons c p ih =>
      cases t with
      | nil => cases h
      | cons d t =>
          rw [stripPrefix] at h
          split at h
          · next hcd => rw [ih h, hcd, List.cons_append]
          · cases h

theorem stripPrefix_eq_none {p t : List Char} : stripPrefix p t = none ↔ ¬ p <+: t := by
  constructor
  · rintro h ⟨r, rfl⟩
    rw [stripPrefix_append] at h
    cases h
  · intro h
    cases hs : stripPrefix p t with
    | none => rfl
    | some r => exact absurd ⟨r, (eq_append_of_stripPrefix hs).symm⟩ h

/-! ## Lines -/

/-- `str::lines`. -/
def lines : List Char → List (List Char)
  | [] => []
  | '\n' :: t => [] :: lines t
  | '\r' :: '\n' :: t => [] :: lines t
  | c :: t =>
      match lines t with
      | [] => [[c]]
      | l :: ls => (c :: l) :: ls

/-- A text without its terminator's carriage return. -/
def stripCr (l : List Char) : List Char :=
  if l.getLast? = some '\r' then l.dropLast else l

theorem stripCr_cons {c d : Char} {l : List Char} :
    stripCr (c :: d :: l) = c :: stripCr (d :: l) := by
  simp only [stripCr, List.getLast?_cons_cons, List.dropLast_cons_cons]
  split <;> rfl

/-- A piece with a line feed after it is a line. -/
theorem lines_append_newline {l : List Char} (h : '\n' ∉ l) (r : List Char) :
    lines (l ++ '\n' :: r) = stripCr l :: lines r := by
  induction l with
  | nil => simp [lines, stripCr]
  | cons c l ih =>
      have hc : c ≠ '\n' := fun heq => h (by simp [heq])
      have hl : '\n' ∉ l := fun hm => h (by simp [hm])
      cases l with
      | nil =>
          by_cases hcr : c = '\r'
          · subst hcr
            simp [lines, stripCr]
          · simp [lines, stripCr, hcr]
      | cons d l =>
          have hd : d ≠ '\n' := fun heq => hl (by simp [heq])
          have hrest := ih hl
          simp only [List.cons_append] at hrest ⊢
          rw [lines, hrest, stripCr_cons]
          · exact hc
          · exact fun t _ heq => hd (List.cons.inj heq).1

/-- A piece with none after it is the last line, unless it is empty. -/
theorem lines_of_not_mem {l : List Char} (h : '\n' ∉ l) (hne : l ≠ []) : lines l = [l] := by
  induction l with
  | nil => exact absurd rfl hne
  | cons c l ih =>
      have hc : c ≠ '\n' := fun heq => h (by simp [heq])
      have hl : '\n' ∉ l := fun hm => h (by simp [hm])
      rw [lines]
      · cases l with
        | nil => rfl
        | cons d l => rw [ih hl (by simp)]
      · exact hc
      · exact fun t _ heq => hl (by simp [heq])

/-- Induction over a text by its line feeds. -/
theorem newline_induction {P : List Char → Prop} (last : ∀ l, '\n' ∉ l → P l)
    (line : ∀ l r, '\n' ∉ l → P r → P (l ++ '\n' :: r)) (t : List Char) : P t := by
  by_cases h : '\n' ∈ t
  · obtain ⟨l, r, ht, hl⟩ := List.eq_append_cons_of_mem h
    have hlt : r.length < t.length := by simp [ht]; omega
    rw [ht]
    exact line l r hl (newline_induction last line r)
  · exact last t h
termination_by t.length

theorem newline_not_mem_of_mem_lines (t : List Char) : ∀ l ∈ lines t, '\n' ∉ l := by
  induction t using newline_induction with
  | last l h =>
      by_cases hne : l = []
      · simp [hne, lines]
      · rw [lines_of_not_mem h hne]
        simpa using h
  | line l r h ih =>
      rw [lines_append_newline h]
      refine List.forall_mem_cons.2 ⟨fun hm => ?_, ih⟩
      rw [stripCr] at hm
      split at hm
      · exact h (List.dropLast_subset l hm)
      · exact h hm

/-! ## Reading a text line by line -/

def inLine (c : Char) : Bool := c != '\n'

/-- The last line, up to the end of the text. -/
def lastLine (t : List Char) : List Char := t.rtakeWhile inLine

/-- The text up to its last line feed. -/
def earlier (t : List Char) : List Char := t.rdropWhile inLine

/-- The text up to its first line feed. -/
def firstLine (t : List Char) : List Char := t.takeWhile inLine

/-- The text after its first line feed. -/
def afterNewline (t : List Char) : List Char := (t.dropWhile inLine).tail

theorem newline_not_mem_lastLine (t : List Char) : '\n' ∉ lastLine t := fun h => by
  have hin : inLine '\n' = true := List.mem_rtakeWhile_imp h
  cases hin

theorem newline_not_mem_firstLine (t : List Char) : '\n' ∉ firstLine t := fun h => by
  have hin : inLine '\n' = true := List.mem_takeWhile_imp h
  cases hin

theorem earlier_append_lastLine (t : List Char) : earlier t ++ lastLine t = t :=
  List.rdropWhile_append_rtakeWhile

theorem lastLine_concat_newline (t : List Char) : lastLine (t ++ ['\n']) = [] :=
  List.rtakeWhile_concat_neg _ _ _ (by decide)

/-- The earlier lines end in a line feed, if there are any. -/
theorem earlier_cases (t : List Char) : earlier t = [] ∨ ∃ l, earlier t = l ++ ['\n'] := by
  by_cases h : earlier t = []
  · exact Or.inl h
  · right
    have hlast : ¬ inLine ((earlier t).getLast h) = true := List.rdropWhile_last_not _ _ h
    have hnl : (earlier t).getLast h = '\n' := by simpa [inLine] using hlast
    exact ⟨(earlier t).dropLast, by rw [← hnl, List.dropLast_concat_getLast]⟩

/-- The first line is all of a text, or a line feed follows it. -/
theorem firstLine_cases (t : List Char) :
    (t = firstLine t ∧ afterNewline t = []) ∨ t = firstLine t ++ '\n' :: afterNewline t := by
  have happ : firstLine t ++ t.dropWhile inLine = t := List.takeWhile_append_dropWhile
  cases hd : t.dropWhile inLine with
  | nil =>
      refine Or.inl ⟨?_, by rw [afterNewline, hd]; rfl⟩
      rw [hd, List.append_nil] at happ
      exact happ.symm
  | cons c m =>
      right
      have hne : t.dropWhile inLine ≠ [] := by rw [hd]; simp
      have hnot : inLine ((t.dropWhile inLine).head hne) = false :=
        List.head_dropWhile_not inLine hne
      have hhead : c = '\n' := by simpa [hd, inLine] using hnot
      rw [afterNewline, hd, List.tail_cons, ← hhead, ← hd]
      exact happ.symm

section Scan

variable {β : Type*} {f : List Char → Option β}

/-- What a line parser finds in a text. -/
def scanLines (f : List Char → Option β) (t : List Char) : List β := (lines t).filterMap f

/-- The parser sees neither empty lines nor a carriage return at the end. -/
structure LineParser (f : List Char → Option β) : Prop where
  nil : f [] = none
  cr : ∀ l, f (l ++ ['\r']) = f l

theorem LineParser.stripCr (hf : LineParser f) (l : List Char) : f (stripCr l) = f l := by
  rw [Text.stripCr]
  split
  · next h =>
      have hl : l.dropLast ++ ['\r'] = l := List.dropLast_append_getLast? _ h
      conv_rhs => rw [← hl, hf.cr]
  · rfl

theorem scanLines_of_not_mem (hf : LineParser f) {l : List Char} (h : '\n' ∉ l) :
    scanLines f l = (f l).toList := by
  by_cases hne : l = []
  · subst hne
    rw [hf.nil]
    rfl
  · rw [scanLines, lines_of_not_mem h hne]
    cases hfl : f l <;> simp [hfl]

/-- A line feed separates what stands before from what stands after it. -/
theorem scanLines_append (hf : LineParser f) (t r : List Char) :
    scanLines f (t ++ '\n' :: r) = scanLines f t ++ scanLines f r := by
  have hpiece : ∀ {l : List Char}, '\n' ∉ l → ∀ m, scanLines f (l ++ '\n' :: m) =
      (f l).toList ++ scanLines f m := fun {l} h m => by
    rw [scanLines, lines_append_newline h, List.filterMap_cons, hf.stripCr]
    cases f l <;> rfl
  induction t using newline_induction with
  | last l h => rw [hpiece h, scanLines_of_not_mem hf h]
  | line l m h ih =>
      rw [List.append_assoc, List.cons_append, hpiece h, hpiece h, ih, List.append_assoc]

theorem scanLines_concat_newline (hf : LineParser f) (t : List Char) :
    scanLines f (t ++ ['\n']) = scanLines f t := by
  rw [scanLines_append hf]
  simp [scanLines, lines]

theorem scanLines_split (hf : LineParser f) (t r : List Char) :
    scanLines f (t ++ r) = scanLines f (earlier t) ++ scanLines f (lastLine t ++ r) := by
  conv_lhs => rw [← earlier_append_lastLine t, List.append_assoc]
  rcases earlier_cases t with h | ⟨l, h⟩
  · rw [h]
    rfl
  · rw [h, scanLines_concat_newline hf, List.append_assoc, List.singleton_append,
      scanLines_append hf]

/-- After a text whose last line is empty, an appended one stands by itself. -/
theorem scanLines_append_of_lastLine_nil (hf : LineParser f) {t : List Char}
    (ht : lastLine t = []) (r : List Char) :
    scanLines f (t ++ r) = scanLines f t ++ scanLines f r := by
  have hearlier : earlier t = t := by
    conv_rhs => rw [← earlier_append_lastLine t, ht, List.append_nil]
  rw [scanLines_split hf, ht, hearlier, List.nil_append]

/-- A text is its earlier lines and its last one. -/
theorem scanLines_eq (hf : LineParser f) (t : List Char) :
    scanLines f t = scanLines f (earlier t) ++ (f (lastLine t)).toList := by
  have h := scanLines_split hf t []
  rw [List.append_nil, List.append_nil] at h
  rw [h, scanLines_of_not_mem hf (newline_not_mem_lastLine t)]

/-- Appending a terminated text: its first line continues the last line of the
text before, its other lines stand by themselves. -/
theorem scanLines_append_line (hf : LineParser f) (t : List Char) {h : List Char}
    (hh : '\n' ∉ h) (n : List Char) :
    scanLines f (t ++ (h ++ n ++ ['\n'])) =
      scanLines f (earlier t) ++ (f (lastLine t ++ h ++ firstLine n)).toList ++
        scanLines f (afterNewline n) := by
  have hfirst : '\n' ∉ lastLine t ++ h ++ firstLine n := by
    simp [newline_not_mem_lastLine, newline_not_mem_firstLine, hh]
  have hassoc : lastLine t ++ (h ++ n ++ ['\n']) = lastLine t ++ h ++ n ++ ['\n'] := by simp
  rw [scanLines_split hf, hassoc, List.append_assoc (scanLines f (earlier t)),
    ← scanLines_of_not_mem hf hfirst, scanLines_concat_newline hf]
  congr 1
  rcases firstLine_cases n with ⟨hn, hafter⟩ | hn
  · rw [hafter, ← hn]
    simp [scanLines, lines]
  · conv_lhs => rw [hn, ← List.append_assoc, scanLines_append hf]

end Scan

end Text
