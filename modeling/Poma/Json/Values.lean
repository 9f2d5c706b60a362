import Poma.Json.Numbers

/-!
# JSON values

The reader of a whole text, and the writer of flat objects. An object ends with
its own brace, so what is read of one does not depend on what follows: no proper
beginning of an object's text can be read, and nothing but space may follow it.
-/

namespace JsonText

/-- A value without parts that the writer writes. -/
inductive Scalar where
  | null
  | string (s : Str)
  | number (n : Number)
  deriving DecidableEq

/-- The other values that are words of their own. -/
inductive Word where
  | true
  | false
  | nan
  | infinity
  | minusInfinity
  deriving DecidableEq

/-- A value as the reader sees it; a later member of an object replaces an earlier one. -/
inductive Value where
  | scalar (x : Scalar)
  | word (x : Word)
  | array (items : List Value)
  | object (members : List (Str × Value))

/-- Whether a character is space between tokens. -/
def isSpace (c : Char) : Bool := c ∈ [' ', '\t', '\n', '\r']

/-- The text after the space it begins with. -/
def skipSpace (t : Text) : Text := t.dropWhile isSpace

/-- The words a text can begin with, and their values. -/
def words : List (Text × Value) :=
  [(['n', 'u', 'l', 'l'], .scalar .null), (['t', 'r', 'u', 'e'], .word .true),
    (['f', 'a', 'l', 's', 'e'], .word .false), (['N', 'a', 'N'], .word .nan),
    (['I', 'n', 'f', 'i', 'n', 'i', 't', 'y'], .word .infinity),
    (['-', 'I', 'n', 'f', 'i', 'n', 'i', 't', 'y'], .word .minusInfinity)]

/-- A word at the beginning of a text, and what follows it. -/
def scanWord (t : Text) : Option (Value × Text) :=
  words.findSome? fun (name, value) =>
    if name.isPrefixOf t then some (value, t.drop name.length) else none

/-- The next character is the expected one. -/
def expect (c : Char) : Text → Option Text
  | [] => none
  | d :: t => if d = c then some t else none

mutual

/-- A value at the beginning of a text, and what follows it. -/
def scanOnce : Nat → Text → Option (Value × Text)
  | 0, _ => none
  | _ + 1, [] => none
  | fuel + 1, c :: t =>
    if c = quote then (scanString t).map fun (s, after) => (.scalar (.string s), after)
    else if c = '{' then
      (scanObject fuel (skipSpace t)).map fun (members, after) => (.object members, after)
    else if c = '[' then
      (scanArray fuel (skipSpace t)).map fun (items, after) => (.array items, after)
    else
      match scanNumber (c :: t) with
      | some (n, after) => some (.scalar (.number n), after)
      | none => scanWord (c :: t)

/-- The rest of an object after its brace. -/
def scanObject : Nat → Text → Option (List (Str × Value) × Text)
  | 0, _ => none
  | _ + 1, [] => none
  | fuel + 1, c :: t =>
    if c = '}' then some ([], t) else if c = quote then scanMembers fuel t else none

/-- The members of an object from inside the first key, to the closing brace. -/
def scanMembers : Nat → Text → Option (List (Str × Value) × Text)
  | 0, _ => none
  | fuel + 1, t =>
    (scanString t).bind fun (key, t) =>
    (expect ':' (skipSpace t)).bind fun t =>
    (scanOnce fuel (skipSpace t)).bind fun (value, t) =>
    match skipSpace t with
    | [] => none
    | c :: t =>
      if c = '}' then some ([(key, value)], t)
      else if c = ',' then
        (expect quote (skipSpace t)).bind fun t =>
        (scanMembers fuel t).map fun (members, after) => ((key, value) :: members, after)
      else none

/-- The rest of an array after its bracket. -/
def scanArray : Nat → Text → Option (List Value × Text)
  | 0, _ => none
  | _ + 1, [] => none
  | fuel + 1, c :: t => if c = ']' then some ([], t) else scanItems fuel (c :: t)

/-- The items of an array, to the closing bracket. -/
def scanItems : Nat → Text → Option (List Value × Text)
  | 0, _ => none
  | fuel + 1, t =>
    (scanOnce fuel t).bind fun (value, t) =>
    match skipSpace t with
    | [] => none
    | c :: t =>
      if c = ']' then some ([value], t)
      else if c = ',' then
        (scanItems fuel (skipSpace t)).map fun (items, after) => (value :: items, after)
      else none

end

/-- `json.loads`: a value, and only space around it. -/
def loads (t : Text) : Option Value :=
  (scanOnce (4 * t.length + 4) (skipSpace t)).bind fun (value, after) =>
  if skipSpace after = [] then some value else none

/-- The text of a scalar. -/
def dumpsScalar : Scalar → Text
  | .null => ['n', 'u', 'l', 'l']
  | .string s => dumpsString s
  | .number n => n.text

/-- The text of a member: its key and its value. -/
def memberText (member : Str × Scalar) : Text :=
  dumpsString member.1 ++ ':' :: ' ' :: dumpsScalar member.2

/-- The text of an object after its brace. -/
def membersText : List (Str × Scalar) → Text
  | [] => ['}']
  | [member] => memberText member ++ ['}']
  | member :: members => memberText member ++ ',' :: ' ' :: membersText members

/-- `json.dumps` of a flat object, its members in the order given. -/
def dumpsObject (members : List (Str × Scalar)) : Text := '{' :: membersText members

theorem skipSpace_of_head {c : Char} (h : isSpace c = false) (t : Text) :
    skipSpace (c :: t) = c :: t := List.dropWhile_cons_of_neg (by simp [h])

theorem skipSpace_append {t : Text} (h : skipSpace t ≠ []) (more : Text) :
    skipSpace (t ++ more) = skipSpace t ++ more := by
  unfold skipSpace at h ⊢
  induction t with
  | nil => exact (h rfl).elim
  | cons c t ih =>
    rw [List.cons_append]
    by_cases hc : isSpace c = true
    · rw [List.dropWhile_cons_of_pos hc] at h ⊢
      rw [List.dropWhile_cons_of_pos hc]
      exact ih h
    · rw [List.dropWhile_cons_of_neg hc, List.dropWhile_cons_of_neg hc]
      rfl

/-- A text whose first token is neither space nor part of a number stops a number. -/
theorem stopsNumber_of_skipSpace {t after : Text} {c : Char} (h : skipSpace t = c :: after)
    (hc : digit? c = none ∧ c ≠ '.' ∧ c ≠ 'e' ∧ c ≠ 'E') : t ≠ [] ∧ StopsNumber t := by
  cases t with
  | nil => cases h
  | cons d t =>
    refine ⟨List.cons_ne_nil _ _, fun x hx => ?_⟩
    obtain rfl : d = x := Option.some.inj hx
    by_cases hd : isSpace d = true
    · have hspace : ([' ', '\t', '\n', '\r'].all fun d =>
          digit? d = none ∧ d ≠ '.' ∧ d ≠ 'e' ∧ d ≠ 'E') = true := by decide
      have hd' := List.all_eq_true.mp hspace d (by simpa [isSpace] using hd)
      exact of_decide_eq_true hd'
    · rw [skipSpace_of_head (by simpa using hd)] at h
      obtain rfl := (List.cons.inj h).1
      exact hc

theorem expect_append {c : Char} {t after : Text} (h : expect c t = some after) (more : Text) :
    expect c (t ++ more) = some (after ++ more) := by
  cases t with
  | nil => cases h
  | cons d t =>
    simp only [expect, List.cons_append] at h ⊢
    by_cases hd : d = c
    · simp only [if_pos hd, Option.some.injEq] at h ⊢
      rw [h]
    · simp [hd] at h

/-- A word that is read begins the text, and reads the same before any other text. -/
theorem scanWord_append {t after : Text} {value : Value} (h : scanWord t = some (value, after))
    (more : Text) :
    scanNumber (t ++ more) = none ∧ scanWord (t ++ more) = some (value, after ++ more) := by
  obtain ⟨⟨name, v⟩, hmem, hname⟩ := List.exists_of_findSome?_eq_some h
  dsimp only at hname
  split at hname
  · rename_i hstart
    obtain ⟨rest, rfl⟩ := List.isPrefixOf_iff_prefix.mp hstart
    simp only [List.drop_left, Option.some.injEq, Prod.mk.injEq] at hname
    obtain ⟨rfl, rfl⟩ := hname
    have hwords : ∀ p ∈ words, ∀ x : Text, scanNumber (p.1 ++ x) = none ∧
        scanWord (p.1 ++ x) = some (p.2, x) := by
      intro p hp x
      simp only [words, List.mem_cons, List.not_mem_nil, or_false] at hp
      rcases hp with rfl | rfl | rfl | rfl | rfl | rfl <;> exact ⟨rfl, rfl⟩
    rw [List.append_assoc]
    exact hwords _ hmem (rest ++ more)
  · cases hname

/-- What is read with some fuel is read with more fuel and before any other text: an object and an
array end with their own brackets, a value alone needs something that stops a number. -/
structure ReadsOn (fuel more : Nat) : Prop where
  once : ∀ {t after : Text} {value : Value}, scanOnce fuel t = some (value, after) →
    after ≠ [] → StopsNumber after → ∀ rest,
      scanOnce more (t ++ rest) = some (value, after ++ rest)
  object : ∀ {t after : Text} {members : List (Str × Value)},
    scanObject fuel t = some (members, after) → ∀ rest,
      scanObject more (t ++ rest) = some (members, after ++ rest)
  members : ∀ {t after : Text} {members : List (Str × Value)},
    scanMembers fuel t = some (members, after) → ∀ rest,
      scanMembers more (t ++ rest) = some (members, after ++ rest)
  array : ∀ {t after : Text} {items : List Value}, scanArray fuel t = some (items, after) →
    ∀ rest, scanArray more (t ++ rest) = some (items, after ++ rest)
  items : ∀ {t after : Text} {items : List Value}, scanItems fuel t = some (items, after) →
    ∀ rest, scanItems more (t ++ rest) = some (items, after ++ rest)

/-- The space before a token does not depend on what follows the token. -/
theorem skipSpace_append_cons {t after : Text} {c : Char} (h : skipSpace t = c :: after)
    (rest : Text) : skipSpace (t ++ rest) = c :: (after ++ rest) := by
  rw [skipSpace_append (by rw [h]; exact List.cons_ne_nil _ _), h]
  rfl

theorem expect_ne_nil {c : Char} {t after : Text} (h : expect c t = some after) : t ≠ [] := by
  rintro rfl
  cases h

theorem scanOnce_quote (fuel : Nat) (t : Text) : scanOnce (fuel + 1) (quote :: t) =
    (scanString t).map fun r => (.scalar (.string r.1), r.2) := rfl

theorem scanOnce_brace (fuel : Nat) (t : Text) : scanOnce (fuel + 1) ('{' :: t) =
    (scanObject fuel (skipSpace t)).map fun r => (.object r.1, r.2) := rfl

theorem scanOnce_bracket (fuel : Nat) (t : Text) : scanOnce (fuel + 1) ('[' :: t) =
    (scanArray fuel (skipSpace t)).map fun r => (.array r.1, r.2) := rfl

theorem scanOnce_other (fuel : Nat) {c : Char} (hquote : c ≠ quote) (hbrace : c ≠ '{')
    (hbracket : c ≠ '[') (t : Text) : scanOnce (fuel + 1) (c :: t) =
      match scanNumber (c :: t) with
      | some (n, after) => some (.scalar (.number n), after)
      | none => scanWord (c :: t) := by
  rw [scanOnce, if_neg hquote, if_neg hbrace, if_neg hbracket]

theorem scanObject_ne_nil {fuel : Nat} {r : List (Str × Value) × Text} {t : Text}
    (h : scanObject fuel t = some r) : t ≠ [] := by
  rintro rfl
  cases fuel <;> cases h

theorem scanArray_ne_nil {fuel : Nat} {r : List Value × Text} {t : Text}
    (h : scanArray fuel t = some r) : t ≠ [] := by
  rintro rfl
  cases fuel <;> cases h

theorem scanOnce_ne_nil {fuel : Nat} {r : Value × Text} {t : Text}
    (h : scanOnce fuel t = some r) : t ≠ [] := by
  rintro rfl
  cases fuel <;> cases h

section ReadsOn

variable {fuel more : Nat}

theorem ReadsOn.once_succ (ih : ReadsOn fuel more) {t after : Text} {value : Value}
    (h : scanOnce (fuel + 1) t = some (value, after)) (hne : after ≠ []) (hstop : StopsNumber after)
    (rest : Text) : scanOnce (more + 1) (t ++ rest) = some (value, after ++ rest) := by
  cases t with
  | nil => cases h
  | cons c t =>
    rw [List.cons_append]
    by_cases hquote : c = quote
    · rw [hquote, scanOnce_quote] at h ⊢
      obtain ⟨⟨s, after'⟩, hs, hpair⟩ := Option.map_eq_some_iff.mp h
      obtain ⟨rfl, rfl⟩ := Prod.mk.inj hpair
      rw [scanString_append hs rest]
      rfl
    by_cases hbrace : c = '{'
    · rw [hbrace, scanOnce_brace] at h ⊢
      obtain ⟨⟨ms, after'⟩, hms, hpair⟩ := Option.map_eq_some_iff.mp h
      obtain ⟨rfl, rfl⟩ := Prod.mk.inj hpair
      rw [skipSpace_append (scanObject_ne_nil hms), ih.object hms rest]
      rfl
    by_cases hbracket : c = '['
    · rw [hbracket, scanOnce_bracket] at h ⊢
      obtain ⟨⟨items, after'⟩, hitems, hpair⟩ := Option.map_eq_some_iff.mp h
      obtain ⟨rfl, rfl⟩ := Prod.mk.inj hpair
      rw [skipSpace_append (scanArray_ne_nil hitems), ih.array hitems rest]
      rfl
    rw [scanOnce_other fuel hquote hbrace hbracket] at h
    rw [scanOnce_other more hquote hbrace hbracket]
    cases hnumber : scanNumber (c :: t) with
    | some r =>
      rw [hnumber] at h
      obtain ⟨rfl, rfl⟩ := Prod.mk.inj (Option.some.inj h)
      have hread := scanNumber_append hnumber hne hstop rest
      rw [List.cons_append] at hread
      rw [hread]
    | none =>
      rw [hnumber] at h
      obtain ⟨hnone, hword⟩ := scanWord_append h rest
      rw [List.cons_append] at hnone hword
      rw [hnone]
      exact hword

theorem ReadsOn.object_succ (ih : ReadsOn fuel more) {t after : Text}
    {members : List (Str × Value)} (h : scanObject (fuel + 1) t = some (members, after))
    (rest : Text) : scanObject (more + 1) (t ++ rest) = some (members, after ++ rest) := by
  cases t with
  | nil => cases h
  | cons c t =>
    rw [List.cons_append]
    rw [scanObject] at h ⊢
    by_cases hbrace : c = '}'
    · rw [if_pos hbrace] at h ⊢
      obtain ⟨rfl, rfl⟩ := Prod.mk.inj (Option.some.inj h)
      rfl
    by_cases hquote : c = quote
    · rw [if_neg hbrace, if_pos hquote] at h ⊢
      exact ih.members h rest
    · rw [if_neg hbrace, if_neg hquote] at h
      cases h

theorem ReadsOn.members_succ (ih : ReadsOn fuel more) {t after : Text}
    {members : List (Str × Value)} (h : scanMembers (fuel + 1) t = some (members, after))
    (rest : Text) : scanMembers (more + 1) (t ++ rest) = some (members, after ++ rest) := by
  rw [scanMembers] at h ⊢
  obtain ⟨⟨key, t₁⟩, hkey, h⟩ := Option.bind_eq_some_iff.mp h
  obtain ⟨t₂, hcolon, h⟩ := Option.bind_eq_some_iff.mp h
  obtain ⟨⟨value, t₃⟩, hvalue, h⟩ := Option.bind_eq_some_iff.mp h
  rw [scanString_append hkey rest, Option.bind_some]
  dsimp only at hcolon h ⊢
  rw [skipSpace_append (expect_ne_nil hcolon), expect_append hcolon rest, Option.bind_some,
    skipSpace_append (scanOnce_ne_nil hvalue)]
  cases hspace : skipSpace t₃ with
  | nil => rw [hspace] at h; cases h
  | cons c t₄ =>
    rw [hspace] at h
    dsimp only at h
    by_cases hbrace : c = '}'
    · obtain ⟨hne, hstop⟩ := stopsNumber_of_skipSpace hspace (by rw [hbrace]; decide)
      rw [if_pos hbrace] at h
      obtain ⟨rfl, rfl⟩ := Prod.mk.inj (Option.some.inj h)
      rw [ih.once hvalue hne hstop rest, Option.bind_some]
      simp only [skipSpace_append_cons hspace rest, if_pos hbrace]
    by_cases hcomma : c = ','
    · obtain ⟨hne, hstop⟩ := stopsNumber_of_skipSpace hspace (by rw [hcomma]; decide)
      rw [if_neg hbrace, if_pos hcomma] at h
      obtain ⟨t₅, hquote, h⟩ := Option.bind_eq_some_iff.mp h
      obtain ⟨⟨ms, after'⟩, hms, hpair⟩ := Option.map_eq_some_iff.mp h
      obtain ⟨rfl, rfl⟩ := Prod.mk.inj hpair
      rw [ih.once hvalue hne hstop rest, Option.bind_some]
      simp only [skipSpace_append_cons hspace rest, if_neg hbrace, if_pos hcomma]
      rw [skipSpace_append (expect_ne_nil hquote), expect_append hquote rest,
        Option.bind_some, ih.members hms rest]
      rfl
    · rw [if_neg hbrace, if_neg hcomma] at h
      cases h

theorem ReadsOn.array_succ (ih : ReadsOn fuel more) {t after : Text} {items : List Value}
    (h : scanArray (fuel + 1) t = some (items, after)) (rest : Text) :
    scanArray (more + 1) (t ++ rest) = some (items, after ++ rest) := by
  cases t with
  | nil => cases h
  | cons c t =>
    rw [List.cons_append]
    rw [scanArray] at h ⊢
    by_cases hbracket : c = ']'
    · rw [if_pos hbracket] at h ⊢
      obtain ⟨rfl, rfl⟩ := Prod.mk.inj (Option.some.inj h)
      rfl
    · rw [if_neg hbracket] at h ⊢
      exact ih.items h rest

theorem ReadsOn.items_succ (ih : ReadsOn fuel more) {t after : Text} {items : List Value}
    (h : scanItems (fuel + 1) t = some (items, after)) (rest : Text) :
    scanItems (more + 1) (t ++ rest) = some (items, after ++ rest) := by
  rw [scanItems] at h ⊢
  obtain ⟨⟨value, t₁⟩, hvalue, h⟩ := Option.bind_eq_some_iff.mp h
  dsimp only at h
  cases hspace : skipSpace t₁ with
  | nil => rw [hspace] at h; cases h
  | cons c t₂ =>
    rw [hspace] at h
    dsimp only at h
    by_cases hbracket : c = ']'
    · obtain ⟨hne, hstop⟩ := stopsNumber_of_skipSpace hspace (by rw [hbracket]; decide)
      rw [if_pos hbracket] at h
      obtain ⟨rfl, rfl⟩ := Prod.mk.inj (Option.some.inj h)
      rw [ih.once hvalue hne hstop rest, Option.bind_some]
      simp only [skipSpace_append_cons hspace rest, if_pos hbracket]
    by_cases hcomma : c = ','
    · obtain ⟨hne, hstop⟩ := stopsNumber_of_skipSpace hspace (by rw [hcomma]; decide)
      rw [if_neg hbracket, if_pos hcomma] at h
      obtain ⟨⟨rest', after'⟩, hitems, hpair⟩ := Option.map_eq_some_iff.mp h
      obtain ⟨rfl, rfl⟩ := Prod.mk.inj hpair
      have hnext : skipSpace t₂ ≠ [] := by
        intro hnil
        rw [hnil] at hitems
        cases fuel with
        | zero => cases hitems
        | succ fuel =>
          rw [scanItems] at hitems
          obtain ⟨r, hr, -⟩ := Option.bind_eq_some_iff.mp hitems
          exact scanOnce_ne_nil hr rfl
      rw [ih.once hvalue hne hstop rest, Option.bind_some]
      simp only [skipSpace_append_cons hspace rest, if_neg hbracket, if_pos hcomma]
      rw [skipSpace_append hnext, ih.items hitems rest]
      rfl
    · rw [if_neg hbracket, if_neg hcomma] at h
      cases h

/-- More fuel and more text after it change nothing that was read. -/
theorem readsOn (hmore : fuel ≤ more) : ReadsOn fuel more := by
  induction fuel generalizing more with
  | zero => constructor <;> intro t after r h <;> cases h
  | succ fuel ih =>
    obtain ⟨more, rfl⟩ : ∃ k, more = k + 1 := ⟨more - 1, by omega⟩
    have ih := ih (show fuel ≤ more by omega)
    exact ⟨ih.once_succ, ih.object_succ, ih.members_succ, ih.array_succ, ih.items_succ⟩

end ReadsOn

/-- What a scalar comes back as. -/
def Scalar.reread : Scalar → Scalar
  | .string s => .string (joinPairs s)
  | x => x

/-- What the members of a flat object come back as. -/
def rereadMembers (members : List (Str × Scalar)) : List (Str × Value) :=
  members.map fun member => (joinPairs member.1, .scalar member.2.reread)

/-- Reading the text of a scalar gives the scalar. -/
theorem scanOnce_dumpsScalar (fuel : Nat) (x : Scalar) {t : Text} (h : StopsNumber t) :
    scanOnce (fuel + 1) (dumpsScalar x ++ t) = some (.scalar x.reread, t) := by
  cases x with
  | null => rfl
  | string s =>
    obtain ⟨body, hbody, hscan⟩ := scanString_dumpsString s t
    rw [dumpsScalar, hbody, scanOnce_quote, hscan]
    rfl
  | number n =>
    have hscan := scanNumber_text n h
    obtain ⟨c, rest, hc⟩ := List.exists_cons_of_ne_nil (isPlain_numberText n).1
    rw [hc, List.cons_append] at hscan
    have hnot : ∀ c ∈ [quote, '{', '['], ∀ t, scanNumber (c :: t) = none := by
      intro c hc t
      simp only [List.mem_cons, List.not_mem_nil, or_false] at hc
      rcases hc with rfl | rfl | rfl <;> rfl
    have hother : ∀ d ∈ [quote, '{', '['], c ≠ d := by
      rintro d hd rfl
      rw [hnot c hd] at hscan
      cases hscan
    rw [dumpsScalar, hc, List.cons_append, scanOnce_other fuel (hother _ (by simp))
      (hother _ (by simp)) (hother _ (by simp)), hscan]
    rfl

/-- The text of a scalar begins with a token. -/
theorem dumpsScalar_head (x : Scalar) :
    ∃ c rest, dumpsScalar x = c :: rest ∧ isSpace c = false := by
  cases x with
  | null => exact ⟨'n', _, rfl, by decide⟩
  | string s => exact ⟨quote, _, rfl, by decide⟩
  | number n =>
    have hscan := scanNumber_text n (t := []) fun c hc => by cases hc
    obtain ⟨c, rest, hc⟩ := List.exists_cons_of_ne_nil (isPlain_numberText n).1
    refine ⟨c, rest, hc, Bool.eq_false_iff.mpr fun hspace => ?_⟩
    have hnot : ∀ c ∈ [' ', '\t', '\n', '\r'], ∀ t, scanNumber (c :: t) = none := by
      intro c hc t
      simp only [List.mem_cons, List.not_mem_nil, or_false] at hc
      rcases hc with rfl | rfl | rfl | rfl <;> rfl
    rw [hc, List.cons_append, hnot c (by simpa [isSpace] using hspace)] at hscan
    cases hscan

/-- Reading a member of an object and the token after it. -/
theorem scanMembers_memberText (fuel : Nat) (member : Str × Scalar) {c : Char} (t : Text)
    (hc : isSpace c = false) (hstop : digit? c = none ∧ c ≠ '.' ∧ c ≠ 'e' ∧ c ≠ 'E') :
    ∃ body, memberText member ++ c :: t = quote :: body ∧ scanMembers (fuel + 2) body =
      if c = '}' then some (rereadMembers [member], t)
      else if c = ',' then
        (expect quote (skipSpace t)).bind fun t =>
        (scanMembers (fuel + 1) t).map fun r => (rereadMembers [member] ++ r.1, r.2)
      else none := by
  obtain ⟨key, x⟩ := member
  obtain ⟨body, hbody, hkey⟩ := scanString_dumpsString key (':' :: ' ' :: dumpsScalar x ++ c :: t)
  have hskip : skipSpace (c :: t) = c :: t := skipSpace_of_head hc t
  have hvalue := scanOnce_dumpsScalar fuel x (stopsNumber_of_skipSpace hskip hstop).2
  have hspace : skipSpace (' ' :: (dumpsScalar x ++ c :: t)) = dumpsScalar x ++ c :: t := by
    obtain ⟨d, rest, hd, hnot⟩ := dumpsScalar_head x
    rw [hd]
    exact skipSpace_of_head hnot _
  refine ⟨body, ?_, ?_⟩
  · rw [← hbody]
    simp [memberText]
  · rw [scanMembers, hkey, Option.bind_some]
    dsimp only
    rw [List.cons_append, skipSpace_of_head (by decide)]
    simp only [expect, ite_true, Option.bind_some, List.cons_append, hspace, hvalue, hskip]
    rfl

/-- Reading on from inside the first key of an object gives its members. -/
theorem scanMembers_membersText {members : List (Str × Scalar)} (hne : members ≠ [])
    {fuel : Nat} (hfuel : members.length < fuel) (t : Text) :
    ∃ body, membersText members ++ t = quote :: body ∧
      scanMembers fuel body = some (rereadMembers members, t) := by
  induction members generalizing fuel with
  | nil => exact (hne rfl).elim
  | cons member members ih =>
    obtain ⟨fuel, rfl⟩ : ∃ k, fuel = k + 2 := ⟨fuel - 2, by
      rw [List.length_cons] at hfuel
      omega⟩
    by_cases hlast : members = []
    · obtain ⟨body, hbody, hscan⟩ := scanMembers_memberText fuel member t (c := '}') (by decide)
        (by decide)
      rw [hlast]
      refine ⟨body, ?_, ?_⟩
      · rw [← hbody]
        simp [membersText]
      · rw [hscan, if_pos rfl]
    · have hrest : members.length < fuel + 1 := by
        rw [List.length_cons] at hfuel
        omega
      obtain ⟨body, hbody, hscan⟩ := ih hlast hrest
      obtain ⟨body', hbody', hscan'⟩ := scanMembers_memberText fuel member
        (' ' :: (membersText members ++ t)) (c := ',') (by decide) (by decide)
      refine ⟨body', ?_, ?_⟩
      · rw [← hbody']
        rw [membersText]
        simp
        exact hlast
      · have hskip : skipSpace (' ' :: quote :: body) = quote :: body := rfl
        rw [hscan', if_neg (by decide), if_pos rfl, hbody, hskip]
        simp only [expect, ite_true, Option.bind_some, hscan, Option.map_some]
        rfl

/-- Reading the text of a flat object gives its members, whatever follows the brace. -/
theorem scanOnce_dumpsObject (members : List (Str × Scalar)) {fuel : Nat}
    (hfuel : members.length + 2 < fuel) (t : Text) :
    scanOnce fuel (dumpsObject members ++ t) = some (.object (rereadMembers members), t) := by
  obtain ⟨fuel, rfl⟩ : ∃ k, fuel = k + 2 := ⟨fuel - 2, by omega⟩
  rw [dumpsObject, List.cons_append, scanOnce_brace]
  by_cases hne : members = []
  · rw [hne]
    rfl
  · have hmembers : members.length < fuel := by omega
    obtain ⟨body, hbody, hscan⟩ := scanMembers_membersText hne hmembers t
    rw [hbody, skipSpace_of_head (by decide), scanObject, if_neg (by decide), if_pos rfl, hscan]
    rfl

/-- The text of an object is at least as long as the object. -/
theorem length_le_dumpsObject (members : List (Str × Scalar)) :
    members.length ≤ (dumpsObject members).length := by
  have hmembers : members.length ≤ (membersText members).length := by
    induction members with
    | nil => exact Nat.zero_le _
    | cons member members ih =>
      by_cases hlast : members = []
      · rw [hlast]
        simp [membersText]
      · rw [membersText]
        · simp only [List.length_cons, List.length_append]
          omega
        · exact hlast
  exact hmembers.trans (Nat.le_succ _)

/-- `loads` of the text of a flat object and more: the object, when only space follows. -/
theorem loads_dumpsObject_append (members : List (Str × Scalar)) (t : Text) :
    loads (dumpsObject members ++ t) =
      if skipSpace t = [] then some (.object (rereadMembers members)) else none := by
  have hlength := length_le_dumpsObject members
  have hskip : skipSpace (dumpsObject members ++ t) = dumpsObject members ++ t :=
    skipSpace_of_head (by decide) _
  unfold loads
  rw [hskip, scanOnce_dumpsObject members (by rw [List.length_append]; omega)]
  rfl

/-- No proper beginning of an object's text can be read. -/
theorem loads_torn {members : List (Str × Scalar)} {t rest : Text} (ht : t ≠ [])
    (hrest : rest ≠ []) (h : t ++ rest = dumpsObject members) : loads t = none := by
  obtain ⟨c, t, rfl⟩ := List.exists_cons_of_ne_nil ht
  rw [List.cons_append, dumpsObject] at h
  obtain ⟨rfl, htail⟩ := List.cons.inj h
  unfold loads
  rw [skipSpace_of_head (by decide)]
  cases hscan : scanOnce (4 * ('{' :: t).length + 4) ('{' :: t) with
  | none => rfl
  | some r =>
    -- the object read from the beginning would be read from the whole text too, and not to its end
    obtain ⟨value, after⟩ := r
    rw [List.length_cons, scanOnce_brace] at hscan
    obtain ⟨⟨ms, after'⟩, hms, hpair⟩ := Option.map_eq_some_iff.mp hscan
    have hmore := (readsOn (Nat.le_add_right _ (members.length + 3))).object hms rest
    have hfuel : members.length + 2 < 4 * (t.length + 1) + 3 + (members.length + 3) + 1 := by omega
    have hwhole := scanOnce_dumpsObject members hfuel []
    rw [List.append_nil, dumpsObject, ← htail, scanOnce_brace,
      skipSpace_append (scanObject_ne_nil hms), hmore] at hwhole
    obtain ⟨-, hnil⟩ := Prod.mk.inj (Option.some.inj hwhole)
    exact (hrest (List.append_eq_nil_iff.mp hnil).2).elim

/-- The text of a flat object is printable ASCII throughout. -/
theorem isPlain_dumpsObject {members : List (Str × Scalar)} {c : Char}
    (h : c ∈ dumpsObject members) : IsPlain c := by
  have hchars : IsPlain '{' ∧ IsPlain '}' ∧ IsPlain ':' ∧ IsPlain ',' ∧ IsPlain ' ' := by decide
  obtain ⟨hopen, hclose, hcolon, hcomma, hspace⟩ := hchars
  have hscalar : ∀ x : Scalar, ∀ c ∈ dumpsScalar x, IsPlain c := by
    intro x c hc
    cases x with
    | null =>
      have hnull : ((dumpsScalar .null).all fun c => IsPlain c) = true := by decide
      exact of_decide_eq_true (List.all_eq_true.mp hnull c hc)
    | string s => exact isPlain_dumpsString hc
    | number n => exact (isPlain_numberText n).2 c hc
  have hmember : ∀ member, ∀ c ∈ memberText member, IsPlain c := by
    intro member c hc
    simp only [memberText, List.mem_append, List.mem_cons] at hc
    rcases hc with hc | rfl | rfl | hc
    · exact isPlain_dumpsString hc
    · exact hcolon
    · exact hspace
    · exact hscalar _ c hc
  have hmembers : ∀ members, ∀ c ∈ membersText members, IsPlain c := by
    intro members
    induction members with
    | nil =>
      intro c hc
      rw [List.mem_singleton.mp hc]
      exact hclose
    | cons member members ih =>
      intro c hc
      by_cases hlast : members = []
      · rw [hlast] at hc
        rcases List.mem_append.mp hc with hc | hc
        · exact hmember member c hc
        · rw [List.mem_singleton.mp hc]
          exact hclose
      · rw [membersText] at hc
        · simp only [List.mem_append, List.mem_cons] at hc
          rcases hc with hc | rfl | rfl | hc
          · exact hmember member c hc
          · exact hcomma
          · exact hspace
          · exact ih c hc
        · exact hlast
  rcases List.mem_cons.mp h with rfl | h
  · exact hopen
  · exact hmembers members c h

end JsonText
