import Poma.Json.Values

/-!
# Text files of one record a line

A file is read as text, cut into lines, and every line that is not blank is
decoded. Records are written with a newline after each, and their text has no
line break inside, so a file of whole records gives its records back; what
follows the last newline is one more line of its own.
-/

namespace Storage

open JsonText

/-- The line breaks of `str.splitlines`. -/
def isLineBreak (c : Char) : Bool :=
  c.toNat ∈ [0x0A, 0x0B, 0x0C, 0x0D, 0x1C, 0x1D, 0x1E, 0x85, 0x2028, 0x2029]

/-- The characters `str.strip` drops at the ends of a line. -/
def isWhitespace (c : Char) : Bool :=
  c.toNat ∈ [0x09, 0x0A, 0x0B, 0x0C, 0x0D, 0x1C, 0x1D, 0x1E, 0x1F, 0x20, 0x85, 0xA0, 0x1680,
    0x2028, 0x2029, 0x202F, 0x205F, 0x3000] || decide (0x2000 ≤ c.toNat ∧ c.toNat ≤ 0x200A)

/-- A text as it is read: every newline of any kind is one line feed. -/
def readText : Text → Text
  | [] => []
  | c :: t =>
    if c = '\r' then
      match t with
      | d :: rest => if d = '\n' then '\n' :: readText rest else '\n' :: readText (d :: rest)
      | [] => ['\n']
    else c :: readText t

/-- `str.splitlines`, of a text in which line feeds stand for all newlines. -/
def splitLines : Text → List Text
  | [] => []
  | c :: t =>
    if isLineBreak c then [] :: splitLines t
    else match splitLines t with
      | [] => [[c]]
      | line :: lines => (c :: line) :: lines

/-- Whether a line is not blank. -/
def hasText (line : Text) : Bool := line.any fun c => !isWhitespace c

/-- The lines of a file that are not blank. -/
def linesOf (t : Text) : List Text := (splitLines (readText t)).filter hasText

/-- Printable ASCII breaks no line. -/
theorem not_lineBreak_of_isPlain {c : Char} (h : IsPlain c) : isLineBreak c = false := by
  unfold IsPlain at h
  simp only [isLineBreak, List.mem_cons, List.not_mem_nil, or_false, decide_eq_false_iff_not]
  omega

theorem readText_append {line : Text} (h : ∀ c ∈ line, IsPlain c) (t : Text) :
    readText (line ++ t) = line ++ readText t := by
  induction line with
  | nil => rfl
  | cons c line ih =>
    have hc : c ≠ '\r' := by
      rintro rfl
      have hplain := h '\r' List.mem_cons_self
      revert hplain
      decide
    have htail := ih fun d hd => h d (List.mem_cons_of_mem _ hd)
    rw [List.cons_append, readText.eq_def]
    simp only [hc, ite_false, htail]
    rfl

theorem readText_newline (t : Text) : readText ('\n' :: t) = '\n' :: readText t := by
  rw [readText.eq_def]
  simp

/-- A line that ends is cut off. -/
theorem splitLines_append {line : Text} (h : ∀ c ∈ line, IsPlain c) (t : Text) :
    splitLines (line ++ '\n' :: t) = line :: splitLines t := by
  induction line with
  | nil => rfl
  | cons c line ih =>
    have hc : isLineBreak c = false := not_lineBreak_of_isPlain (h c List.mem_cons_self)
    have htail := ih fun d hd => h d (List.mem_cons_of_mem _ hd)
    rw [List.cons_append, splitLines, hc]
    simp [htail]

/-- What follows the last newline is one line, unless it is empty. -/
theorem splitLines_last {line : Text} (h : ∀ c ∈ line, IsPlain c) :
    splitLines line = if line = [] then [] else [line] := by
  induction line with
  | nil => rfl
  | cons c line ih =>
    have hc : isLineBreak c = false := not_lineBreak_of_isPlain (h c List.mem_cons_self)
    have htail := ih fun d hd => h d (List.mem_cons_of_mem _ hd)
    rw [splitLines, hc, htail]
    by_cases hline : line = [] <;> simp [hline]

/-- How records are written as lines and read back. -/
structure Format (Entry : Type) where
  encode : Entry → Text
  decode : Text → Option Entry
  /-- What a record comes back as. -/
  reread : Entry → Entry
  plain : ∀ entry, ∀ c ∈ encode entry, IsPlain c
  token : ∀ entry, ∃ c rest, encode entry = c :: rest ∧ isWhitespace c = false
  decode_encode : ∀ entry, decode (encode entry) = some (reread entry)
  /-- A proper beginning of a record is no record. -/
  torn : ∀ entry t rest, t ≠ [] → rest ≠ [] → t ++ rest = encode entry → decode t = none
  /-- Two records on one line are no record. -/
  glued : ∀ entry next, decode (encode entry ++ encode next) = none

namespace Format

variable {Entry : Type} (F : Format Entry)

/-- The text of records, a newline after each. -/
def lines (entries : List Entry) : Text := entries.flatMap fun entry => F.encode entry ++ ['\n']

/-- The records of a file, when every line that is not blank is one. -/
def parse (t : Text) : Option (List Entry) := (linesOf t).mapM F.decode

theorem lines_concat (entries : List Entry) (entry : Entry) :
    F.lines (entries ++ [entry]) = F.lines entries ++ (F.encode entry ++ ['\n']) := by
  simp [lines]

/-- The records of a file that begins with whole records. -/
theorem parse_lines_append (entries : List Entry) (t : Text) :
    F.parse (F.lines entries ++ t) = (F.parse t).map (entries.map F.reread ++ ·) := by
  induction entries with
  | nil =>
    cases hparse : F.parse t <;> simp [lines, hparse]
  | cons entry entries ih =>
    obtain ⟨c, rest, hc, hspace⟩ := F.token entry
    have hlines : F.lines (entry :: entries) ++ t =
        F.encode entry ++ '\n' :: (F.lines entries ++ t) := by simp [lines]
    have hany : hasText (F.encode entry) = true := by
      rw [hc]
      simp [hasText, hspace]
    have hof : linesOf (F.lines (entry :: entries) ++ t) =
        F.encode entry :: linesOf (F.lines entries ++ t) := by
      rw [hlines]
      unfold linesOf
      rw [readText_append (F.plain entry), readText_newline, splitLines_append (F.plain entry),
        List.filter_cons_of_pos hany]
    have ih' : (linesOf (F.lines entries ++ t)).mapM F.decode =
        (F.parse t).map (entries.map F.reread ++ ·) := ih
    unfold parse
    rw [hof, List.mapM_cons, F.decode_encode, ih']
    cases hparse : F.parse t with
    | none => simp [parse] at hparse ⊢; simp [hparse]
    | some found => simp [parse] at hparse ⊢; simp [hparse]

/-- A file of whole records gives them back. -/
theorem parse_lines (entries : List Entry) :
    F.parse (F.lines entries) = some (entries.map F.reread) := by
  have h := F.parse_lines_append entries []
  rw [List.append_nil] at h
  simpa [parse, linesOf, readText, splitLines] using h

/-- One more line after whole records is decoded as it stands, whether it is ended or not. -/
theorem parse_lines_last (entries : List Entry) {t : Text} (hplain : ∀ c ∈ t, IsPlain c)
    (htoken : ∃ c rest, t = c :: rest ∧ isWhitespace c = false) {ending : Text}
    (hending : ending = [] ∨ ending = ['\n']) :
    F.parse (F.lines entries ++ (t ++ ending)) =
      (F.decode t).map fun entry => entries.map F.reread ++ [entry] := by
  obtain ⟨c, rest, rfl, hspace⟩ := htoken
  have htext : hasText (c :: rest) = true := by simp [hasText, hspace]
  have hof : linesOf ((c :: rest) ++ ending) = [c :: rest] := by
    unfold linesOf
    rw [readText_append hplain]
    rcases hending with rfl | rfl
    · show (splitLines ((c :: rest) ++ [])).filter hasText = _
      rw [List.append_nil, splitLines_last hplain, if_neg (List.cons_ne_nil _ _),
        List.filter_cons_of_pos htext]
      rfl
    · rw [readText_newline, splitLines_append hplain, List.filter_cons_of_pos htext]
      rfl
  rw [F.parse_lines_append]
  unfold parse
  rw [hof, List.mapM_cons]
  cases F.decode (c :: rest) <;> simp

end Format

end Storage
