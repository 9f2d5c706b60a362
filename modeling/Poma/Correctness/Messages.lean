import Poma.Core.Lists
import Poma.Host.Outbox
import Poma.Interaction.Program

/-!
# The outbox survives its records

A drain that no exception escapes from tries the first due records, as many as
the batch has room for, and leaves in place what it did not deliver and may still
be tried. An exception escapes exactly over a record that overflows a conversion
or nests too deeply. A record whose count of attempts starts at zero fails no
more than the limit of attempts.
-/

namespace Poma

open Interaction (bind_eq_ok)
open JsonText (Str)

/-- A record to be tried now, when the batch has room. -/
def OutboxRecord.Due (record : OutboxRecord) (now : ℚ) : Prop :=
  ¬record.Expired now ∧ (Reported.finite now).lt record.nextAttemptAt = false

instance (record : OutboxRecord) (now : ℚ) : Decidable (record.Due now) :=
  inferInstanceAs (Decidable (_ ∧ _))

/-- The record of a file, when it is due. -/
def dueOf (limits : StackLimits) (now : ℚ) (box : Outbox) (name : String) :
    Option (String × OutboxRecord) :=
  ((readRecord limits (contentOf box name)).toOption.filter (·.Due now)).map (name, ·)

/-- The due records of some files. -/
def dueRecords (limits : StackLimits) (now : ℚ) (box : Outbox) (names : List String) :
    List (String × OutboxRecord) :=
  names.filterMap (dueOf limits now box)

/-- A record whose failed delivery is written down without an exception. -/
def Retries (limits : StackLimits) (record : OutboxRecord) : Prop :=
  record.attempts + 1 < maxAttempts →
    ¬PowerOverflows (record.attempts + 1) ∧ limits.dump record.members = false

/-- A drain does what it is for: it returns, it tries the first due records and no more than the
batch, and it leaves in place what was not delivered and may be tried again. -/
structure DrainsWell (limits : StackLimits) (call : DrainCall) (box : Outbox) : Prop where
  returns : (drain limits call box).2 = none
  bounded : (drain limits call box).1.tried.length ≤ call.batchSize
  prompt : call.opens = true → (drain limits call box).1.tried =
    ((dueRecords limits call.now box (messages box)).take call.batchSize).map fun due =>
      (due.1, due.2.text)
  keeps : ∀ name record, readRecord limits (contentOf box name) = .ok record →
    ¬record.Expired call.now →
    (name ∈ (drain limits call box).1.tried.map (·.1) →
      call.deliver name ≠ .accepted ∧ record.attempts + 1 < maxAttempts) →
    ∃ kept, readRecord limits (contentOf (drain limits call box).1.box name) = .ok kept ∧
      kept.createdAt = record.createdAt ∧ kept.text = record.text

/-- No exception escapes from a drain: not over a file that is read, and not over a record of the
batch that is retried. -/
def NothingEscapes (limits : StackLimits) (now : ℚ) (batchSize : Nat) (box : Outbox) : Prop :=
  (∀ name ∈ messages box, ∀ escape,
    readRecord limits (contentOf box name) ≠ .error (.escapes escape)) ∧
  ∀ due ∈ (dueRecords limits now box (messages box)).take batchSize, Retries limits due.2

/-- A delivery of a file's message that fails in a drain. -/
def FailsIn (limits : StackLimits) (call : DrainCall) (box : Outbox) (name : String) : Prop :=
  name ∈ (drain limits call box).1.tried.map (·.1) ∧ call.deliver name ≠ .accepted

instance (limits : StackLimits) (call : DrainCall) (box : Outbox) (name : String) :
    Decidable (FailsIn limits call box name) :=
  inferInstanceAs (Decidable (_ ∧ _))

/-- How many deliveries of a file's message fail over a sequence of drains. -/
def failedDeliveries (limits : StackLimits) (name : String) : List DrainCall → Outbox → Nat
  | [], _ => 0
  | call :: calls, box =>
    (if FailsIn limits call box name then 1 else 0) +
      failedDeliveries limits name calls (drain limits call box).1.box

/-- A sequence of drains in which files can be removed and replaced and nothing escapes. -/
def RunsWell (limits : StackLimits) : List DrainCall → Outbox → Prop
  | [], _ => True
  | call :: calls, box =>
    (∀ name, call.removable name = true ∧ call.writable name = true) ∧
      NothingEscapes limits call.now call.batchSize box ∧
      RunsWell limits calls (drain limits call box).1.box

section Files

variable {box : Outbox} {name other : String} {content : FileContent}

@[simp] theorem contentOf_removeFile_self : contentOf (removeFile name box) name =
    .error .rejected := by
  have hnone : (removeFile name box).lookup name = none := by
    rw [List.lookup_eq_none_iff]
    intro entry hentry
    have hne : entry.1 ≠ name := by simpa using (List.mem_filter.mp hentry).2
    simpa using hne.symm
  rw [contentOf, hnone]
  rfl

@[simp] theorem contentOf_removeFile_other (hne : other ≠ name) :
    contentOf (removeFile name box) other = contentOf box other := by
  unfold contentOf removeFile
  congr 1
  induction box with
  | nil => rfl
  | cons entry box ih =>
    obtain ⟨key, content⟩ := entry
    by_cases hkey : key = name
    · have hother : (other == key) = false := by simpa [hkey] using hne
      rw [List.filter_cons_of_neg (by simp [hkey]), ih, List.lookup_cons, hother]
    · rw [List.filter_cons_of_pos (by simpa using hkey), List.lookup_cons, List.lookup_cons, ih]

@[simp] theorem contentOf_replaceFile_self :
    contentOf (replaceFile name content box) name = content := by
  simp [contentOf, replaceFile]

@[simp] theorem contentOf_replaceFile_other (hne : other ≠ name) :
    contentOf (replaceFile name content box) other = contentOf box other := by
  have hother : (other == name) = false := by simpa using hne
  have hrest : (replaceFile name content box).lookup other = (removeFile name box).lookup other := by
    rw [replaceFile, List.lookup_cons, hother]
  rw [contentOf, hrest]
  exact contentOf_removeFile_other hne

theorem nodup_messages (box : Outbox) : (messages box).Nodup := by
  unfold messages
  rw [(List.perm_insertionSort _ _).nodup_iff]
  exact List.nodup_dedup _

end Files

section Records

variable {limits : StackLimits} {content : FileContent} {record : OutboxRecord}

/-- The conversions behind a record. -/
theorem readRecord_eq_ok : readRecord limits content = .ok record ↔
    content = .ok record.record ∧
      (record.record.item "created_at").bind Loaded.toFloat = .ok record.createdAt ∧
      (record.record.item "attempts").bind Loaded.toInt = .ok record.attempts ∧
      (record.record.item "next_attempt_at").bind Loaded.toFloat = .ok record.nextAttemptAt ∧
      record.record.item "text" = .ok record.text ∧ limits.str record.text = false := by
  have hbind : ∀ {α β : Type} (x : Except RecordError α) (f : α → Except RecordError β),
      x.bind f = (x >>= f) := fun _ _ => rfl
  unfold readRecord
  simp only [hbind, bind_eq_ok]
  constructor
  · rintro ⟨value, hcontent, item, hitem, created, hcreated, item', hitem', attempts, hattempts,
      item'', hitem'', due, hdue, text, htext, hrest⟩
    by_cases hstr : limits.str text = true
    · rw [if_pos hstr] at hrest
      obtain ⟨_, hthrow, -⟩ := bind_eq_ok.mp hrest
      cases hthrow
    · rw [if_neg hstr] at hrest
      obtain rfl := Except.ok.inj hrest
      exact ⟨hcontent, ⟨item, hitem, hcreated⟩, ⟨item', hitem', hattempts⟩, ⟨item'', hitem'', hdue⟩,
        htext, by simpa using hstr⟩
  · rintro ⟨hcontent, ⟨item, hitem, hcreated⟩, ⟨item', hitem', hattempts⟩, ⟨item'', hitem'', hdue⟩,
      htext, hstr⟩
    refine ⟨_, hcontent, item, hitem, _, hcreated, item', hitem', _, hattempts, item'', hitem'', _,
      hdue, _, htext, ?_⟩
    rw [if_neg (by simp [hstr])]
    rfl

section Items

variable {members : List (Str × Loaded)} {name other : String} {value : Loaded}

theorem item_dict : (Loaded.dict members).item name = .ok value ↔
    members.reverse.lookup (recordKey name) = some value := by
  unfold Loaded.item
  dsimp only
  cases members.reverse.lookup (recordKey name) with
  | none => simp
  | some found => simp

/-- The members with one key given a value. -/
theorem lookup_map_self {entries : List (Str × Loaded)} {key : Str}
    (hkey : entries.any (·.1 = key) = true) :
    (entries.map fun member => if member.1 = key then (member.1, value) else member).lookup key =
      some value := by
  induction entries with
  | nil => cases hkey
  | cons entry entries ih =>
    rw [List.map_cons]
    by_cases hentry : entry.1 = key
    · simp [hentry]
    · have hne : (key == entry.1) = false := by simpa using Ne.symm hentry
      have hrest : entries.any (·.1 = key) = true := by simpa [hentry] using hkey
      rw [if_neg hentry, List.lookup_cons, hne]
      exact ih hrest

theorem lookup_map_other {entries : List (Str × Loaded)} {key key' : Str} (hne : key' ≠ key) :
    (entries.map fun member => if member.1 = key then (member.1, value) else member).lookup key' =
      entries.lookup key' := by
  induction entries with
  | nil => rfl
  | cons entry entries ih =>
    rw [List.map_cons, List.lookup_cons, List.lookup_cons, ih]
    by_cases hentry : entry.1 = key
    · have hother : (key' == entry.1) = false := by simpa [hentry] using hne
      simp only [if_pos hentry, hother]
    · rw [if_neg hentry]

@[simp] theorem item_setItem_self : (Loaded.dict (setItem members name value)).item name =
    .ok value := by
  rw [item_dict]
  unfold setItem
  by_cases hkey : members.any (·.1 = recordKey name) = true
  · rw [if_pos hkey, ← List.map_reverse]
    apply lookup_map_self
    rwa [List.any_reverse]
  · rw [if_neg hkey, List.reverse_append]
    simp

@[simp] theorem item_setItem_other (hne : recordKey other ≠ recordKey name) :
    (Loaded.dict (setItem members name value)).item other = (Loaded.dict members).item other := by
  have hsame : (setItem members name value).reverse.lookup (recordKey other) =
      members.reverse.lookup (recordKey other) := by
    unfold setItem
    by_cases hkey : members.any (·.1 = recordKey name) = true
    · rw [if_pos hkey, ← List.map_reverse]
      exact lookup_map_other hne
    · have hother : (recordKey other == recordKey name) = false := by simpa using hne
      rw [if_neg hkey, List.reverse_append, List.reverse_singleton, List.singleton_append,
        List.lookup_cons, hother]
  unfold Loaded.item
  dsimp only
  rw [hsame]

end Items

/-- A record that has an item is made of members. -/
theorem eq_dict_of_item {record value : Loaded} {name : String} (h : record.item name = .ok value) :
    ∃ members, record = .dict members := by
  cases record with
  | dict members => exact ⟨members, rfl⟩
  | none => cases h
  | bool b => cases h
  | int n => cases h
  | float x => cases h
  | str s => cases h
  | list items => cases h

/-- A record that has been tried once more reads with one attempt more and the same text. -/
theorem readRecord_retried (h : readRecord limits content = .ok record) (now jitter : ℚ) :
    ∃ next, readRecord limits (.ok (.dict (record.retried now jitter))) = .ok next ∧
      next.createdAt = record.createdAt ∧ next.attempts = record.attempts + 1 ∧
      next.text = record.text := by
  obtain ⟨-, hcreated, -, -, htext, hstr⟩ := readRecord_eq_ok.mp h
  obtain ⟨members, hdict⟩ := eq_dict_of_item htext
  have hmembers : record.members = members := by rw [OutboxRecord.members, hdict]
  have hkeys : recordKey "created_at" ≠ recordKey "next_attempt_at" ∧
      recordKey "created_at" ≠ recordKey "attempts" ∧
      recordKey "attempts" ≠ recordKey "next_attempt_at" ∧
      recordKey "text" ≠ recordKey "next_attempt_at" ∧ recordKey "text" ≠ recordKey "attempts" := by
    decide +kernel
  obtain ⟨hcreated1, hcreated2, hattempts, htext1, htext2⟩ := hkeys
  refine ⟨⟨.dict (record.retried now jitter), record.createdAt, record.attempts + 1,
    .finite (now + retryDelay (record.attempts + 1) * jitter), record.text⟩, ?_, rfl, rfl, rfl⟩
  rw [readRecord_eq_ok]
  unfold OutboxRecord.retried
  rw [hmembers]
  rw [hdict] at hcreated htext
  refine ⟨rfl, ?_, ?_, ?_, ?_, hstr⟩
  · rw [item_setItem_other hcreated1, item_setItem_other hcreated2]
    exact hcreated
  · rw [item_setItem_other hattempts, item_setItem_self]
    rfl
  · rw [item_setItem_self]
    rfl
  · rw [item_setItem_other htext1, item_setItem_other htext2]
    exact htext

/-- A message that was queued is due from the end of its first delay until it is too old. -/
theorem enqueue_due {now : ℚ} {text : Str} {name : String} {box : Outbox}
    (hqueued : (enqueue now text name box).1 = true)
    (hstr : limits.str (.str (text.take maxMessageLength)) = false) :
    ∃ record, readRecord limits (contentOf (enqueue now text name box).2 name) = .ok record ∧
      record.text = .str (text.take maxMessageLength) ∧
      ∀ later, record.Due later ↔ now + initialRetrySeconds ≤ later ∧ later < now + ttlSeconds := by
  have hcontent : contentOf (enqueue now text name box).2 name =
      .ok (.dict (newRecord now text)) := by
    unfold enqueue at hqueued ⊢
    split at hqueued
    · cases hqueued
    · rename_i hroom
      rw [if_neg hroom]
      exact contentOf_replaceFile_self
  refine ⟨⟨.dict (newRecord now text), .finite now, 0, .finite (now + initialRetrySeconds),
    .str (text.take maxMessageLength)⟩, ?_, rfl, ?_⟩
  · rw [readRecord_eq_ok]
    exact ⟨hcontent, rfl, rfl, rfl, rfl, hstr⟩
  · intro later
    have htried : ¬maxAttempts ≤ 0 := by decide
    unfold OutboxRecord.Due OutboxRecord.Expired
    simp only [Reported.sub, Reported.neg, Reported.add, Reported.le, Reported.lt, htried, or_false,
      decide_eq_true_eq, decide_eq_false_iff_not, not_le, not_lt]
    constructor
    · rintro ⟨hfresh, hdue⟩
      exact ⟨hdue, by linarith⟩
    · rintro ⟨hdue, hfresh⟩
      exact ⟨by linarith, hdue⟩

end Records

section Visit

variable {limits : StackLimits} {call : DrainCall} {state : Drained} {name other : String}
  {record : OutboxRecord}

@[simp] theorem unlink_tried : (call.unlink name state).tried = state.tried := by
  unfold DrainCall.unlink
  split <;> rfl

theorem unlink_other (hne : other ≠ name) :
    contentOf (call.unlink name state).box other = contentOf state.box other := by
  unfold DrainCall.unlink
  split
  · exact contentOf_removeFile_other hne
  · rfl

theorem unlink_self (hworks : call.removable name = true) :
    contentOf (call.unlink name state).box name = .error .rejected := by
  unfold DrainCall.unlink
  rw [if_pos hworks]
  exact contentOf_removeFile_self

@[simp] theorem attempt_tried : (call.attempt limits state name record).1.tried =
    state.tried ++ [(name, record.text)] := by
  unfold DrainCall.attempt
  dsimp only
  split
  · exact unlink_tried
  split
  · exact unlink_tried
  split
  · rfl
  split
  · rfl
  split <;> rfl

theorem attempt_other (hne : other ≠ name) :
    contentOf (call.attempt limits state name record).1.box other = contentOf state.box other := by
  unfold DrainCall.attempt
  dsimp only
  split
  · exact unlink_other hne
  split
  · exact unlink_other hne
  split
  · rfl
  split
  · rfl
  split
  · rfl
  · exact contentOf_replaceFile_other hne

/-- A record that is retried without an exception escapes nothing. -/
theorem attempt_returns (hretries : Retries limits record) :
    (call.attempt limits state name record).2 = none := by
  unfold DrainCall.attempt
  dsimp only
  split
  · rfl
  split
  · rfl
  rename_i hmore
  obtain ⟨hpower, hdump⟩ := hretries (not_le.mp hmore)
  rw [if_neg hpower]
  split
  · rfl
  · rw [if_neg (by simp [hdump])]

/-- A failed delivery that is written down tells that its record is retried. -/
theorem retries_of_attempt (hfailed : call.deliver name ≠ .accepted)
    (hworks : call.writable name = true)
    (h : (call.attempt limits state name record).2 = none) : Retries limits record := by
  intro hmore
  unfold DrainCall.attempt at h
  dsimp only at h
  rw [if_neg hfailed, if_neg (not_le.mpr hmore)] at h
  by_cases hpower : PowerOverflows (record.attempts + 1)
  · rw [if_pos hpower] at h
    cases h
  · rw [if_neg hpower, if_neg (by simp [hworks])] at h
    by_cases hdump : limits.dump record.members = true
    · rw [if_pos hdump] at h
      cases h
    · exact ⟨hpower, by simpa using hdump⟩

/-- A failed delivery leaves its record in place, with its text and its time, until the attempts are
used up. -/
theorem attempt_keeps (hread : readRecord limits (contentOf state.box name) = .ok record)
    (hfailed : call.deliver name ≠ .accepted) (hmore : record.attempts + 1 < maxAttempts) :
    ∃ kept, readRecord limits (contentOf (call.attempt limits state name record).1.box name) =
      .ok kept ∧ kept.createdAt = record.createdAt ∧ kept.text = record.text := by
  unfold DrainCall.attempt
  dsimp only
  rw [if_neg hfailed, if_neg (not_le.mpr hmore)]
  split
  · exact ⟨record, hread, rfl, rfl⟩
  split
  · exact ⟨record, hread, rfl, rfl⟩
  split
  · exact ⟨record, hread, rfl, rfl⟩
  · obtain ⟨kept, hkept, hcreated, -, htext⟩ :=
      readRecord_retried hread call.now (call.jitter name)
    exact ⟨kept, by rw [contentOf_replaceFile_self, hkept], hcreated, htext⟩

theorem visit_of_due (hread : readRecord limits (contentOf state.box name) = .ok record)
    (hdue : record.Due call.now) (hroom : state.attempted < call.batchSize) :
    call.visit limits state name = call.attempt limits state name record := by
  unfold DrainCall.visit
  rw [hread]
  dsimp only
  rw [if_neg hdue.1, if_neg]
  rintro (hlater | hfull)
  · rw [hdue.2] at hlater
    cases hlater
  · exact absurd hroom (not_lt.mpr hfull)

theorem visit_of_escape {escape : Escape}
    (hread : readRecord limits (contentOf state.box name) = .error (.escapes escape)) :
    call.visit limits state name = (state, some escape) := by
  unfold DrainCall.visit
  rw [hread]

theorem visit_of_rejected
    (hread : readRecord limits (contentOf state.box name) = .error .rejected) :
    call.visit limits state name = (call.unlink name state, none) := by
  unfold DrainCall.visit
  rw [hread]

theorem visit_of_expired (hread : readRecord limits (contentOf state.box name) = .ok record)
    (hexpired : record.Expired call.now) :
    call.visit limits state name = (call.unlink name state, none) := by
  unfold DrainCall.visit
  rw [hread]
  dsimp only
  rw [if_pos hexpired]

theorem visit_of_waiting (hread : readRecord limits (contentOf state.box name) = .ok record)
    (hexpired : ¬record.Expired call.now)
    (hwaits : ¬(record.Due call.now ∧ state.attempted < call.batchSize)) :
    call.visit limits state name = (state, none) := by
  unfold DrainCall.visit
  rw [hread]
  dsimp only
  rw [if_neg hexpired, if_pos]
  by_contra hnot
  rw [not_or, not_le] at hnot
  exact hwaits ⟨⟨hexpired, by simpa using hnot.1⟩, hnot.2⟩

/-- What a visit of a file can be. -/
theorem visit_cases (limits : StackLimits) (call : DrainCall) (state : Drained) (name : String) :
    (∃ escape, readRecord limits (contentOf state.box name) = .error (.escapes escape) ∧
      call.visit limits state name = (state, some escape)) ∨
    ((readRecord limits (contentOf state.box name) = .error .rejected ∨
        ∃ record, readRecord limits (contentOf state.box name) = .ok record ∧
          record.Expired call.now) ∧
      call.visit limits state name = (call.unlink name state, none)) ∨
    (∃ record, readRecord limits (contentOf state.box name) = .ok record ∧
      ¬record.Expired call.now ∧ ¬(record.Due call.now ∧ state.attempted < call.batchSize) ∧
      call.visit limits state name = (state, none)) ∨
    ∃ record, readRecord limits (contentOf state.box name) = .ok record ∧ record.Due call.now ∧
      state.attempted < call.batchSize ∧
      call.visit limits state name = call.attempt limits state name record := by
  cases hread : readRecord limits (contentOf state.box name) with
  | error raised =>
    cases raised with
    | rejected => exact Or.inr (Or.inl ⟨Or.inl rfl, visit_of_rejected hread⟩)
    | escapes escape => exact Or.inl ⟨escape, rfl, visit_of_escape hread⟩
  | ok record =>
    by_cases hexpired : record.Expired call.now
    · exact Or.inr (Or.inl ⟨Or.inr ⟨record, rfl, hexpired⟩, visit_of_expired hread hexpired⟩)
    · by_cases htries : record.Due call.now ∧ state.attempted < call.batchSize
      · exact Or.inr (Or.inr (Or.inr ⟨record, rfl, htries.1, htries.2,
          visit_of_due hread htries.1 htries.2⟩))
      · exact Or.inr (Or.inr (Or.inl ⟨record, rfl, hexpired, htries,
          visit_of_waiting hread hexpired htries⟩))

/-- A visit touches no other file. -/
theorem visit_other (hne : other ≠ name) :
    contentOf (call.visit limits state name).1.box other = contentOf state.box other := by
  rcases visit_cases limits call state name with ⟨escape, -, hvisit⟩ | ⟨-, hvisit⟩ |
    ⟨record, -, -, -, hvisit⟩ | ⟨record, -, -, -, hvisit⟩
  · rw [hvisit]
  · rw [hvisit]
    exact unlink_other hne
  · rw [hvisit]
  · rw [hvisit]
    exact attempt_other hne

/-- A visit tries the file's record when it is due and there is room, and nothing else. -/
theorem visit_tried : (call.visit limits state name).1.tried =
    state.tried ++ (((dueOf limits call.now state.box name).toList.take
      (call.batchSize - state.attempted)).map fun due => (due.1, due.2.text)) := by
  rcases visit_cases limits call state name with ⟨escape, hread, hvisit⟩ | ⟨hread, hvisit⟩ |
    ⟨record, hread, -, hwaits, hvisit⟩ | ⟨record, hread, hdue, hroom, hvisit⟩
  · simp [hvisit, dueOf, hread, Except.toOption]
  · have hnone : dueOf limits call.now state.box name = none := by
      rcases hread with hread | ⟨record, hread, hexpired⟩
      · simp [dueOf, hread, Except.toOption]
      · simp [dueOf, hread, Except.toOption, OutboxRecord.Due, hexpired]
    simp [hvisit, hnone]
  · rw [hvisit]
    by_cases hdue : record.Due call.now
    · have hfull : call.batchSize - state.attempted = 0 :=
        Nat.sub_eq_zero_of_le (not_lt.mp fun hroom => hwaits ⟨hdue, hroom⟩)
      simp [hfull]
    · simp [dueOf, hread, Except.toOption, hdue]
  · have hsome : dueOf limits call.now state.box name = some (name, record) := by
      simp [dueOf, hread, Except.toOption, hdue]
    obtain ⟨room, hsize⟩ : ∃ room, call.batchSize - state.attempted = room + 1 :=
      Nat.exists_eq_succ_of_ne_zero (Nat.sub_ne_zero_of_lt hroom)
    rw [hvisit, attempt_tried, hsome, hsize]
    simp

end Visit

section Loop

variable {limits : StackLimits} {call : DrainCall} {state : Drained} {names : List String}
  {name other : String} {record : OutboxRecord}

theorem visitAll_cons_of_none (h : (call.visit limits state name).2 = none) :
    call.visitAll limits state (name :: names) =
      call.visitAll limits (call.visit limits state name).1 names := by
  rw [DrainCall.visitAll]
  cases hvisit : call.visit limits state name with
  | mk next escape =>
    rw [hvisit] at h
    obtain rfl : escape = none := h
    rfl

theorem visitAll_cons_of_some {escape : Escape}
    (h : (call.visit limits state name).2 = some escape) :
    call.visitAll limits state (name :: names) =
      ((call.visit limits state name).1, some escape) := by
  rw [DrainCall.visitAll]
  cases hvisit : call.visit limits state name with
  | mk next raised =>
    rw [hvisit] at h
    obtain rfl : raised = some escape := h
    rfl

theorem mem_tried_visit (hne : other ≠ name) :
    other ∈ (call.visit limits state name).1.tried.map (·.1) ↔ other ∈ state.tried.map (·.1) := by
  have hnames : ∀ due ∈ (dueOf limits call.now state.box name).toList, due.1 = name := by
    intro due hdue
    obtain ⟨record, -, rfl⟩ := Option.map_eq_some_iff.mp (Option.mem_toList.mp hdue)
    rfl
  rw [visit_tried, List.map_append, List.mem_append]
  constructor
  · rintro (hmem | hmem)
    · exact hmem
    · obtain ⟨entry, hentry, rfl⟩ := List.mem_map.mp hmem
      obtain ⟨due, hdue, rfl⟩ := List.mem_map.mp hentry
      exact absurd (hnames due (List.mem_of_mem_take hdue)) hne
  · exact Or.inl

/-- The loop touches no file but those it is over. -/
theorem visitAll_other (hother : other ∉ names) :
    contentOf (call.visitAll limits state names).1.box other = contentOf state.box other ∧
      (other ∈ (call.visitAll limits state names).1.tried.map (·.1) ↔
        other ∈ state.tried.map (·.1)) := by
  induction names generalizing state with
  | nil => exact ⟨rfl, Iff.rfl⟩
  | cons name names ih =>
    obtain ⟨hne, hother⟩ := not_or.mp (List.mem_cons.not.mp hother)
    cases hescape : (call.visit limits state name).2 with
    | none =>
      obtain ⟨hcontent, htried⟩ := ih hother
      rw [visitAll_cons_of_none hescape]
      exact ⟨hcontent.trans (visit_other hne), htried.trans (mem_tried_visit hne)⟩
    | some escape =>
      rw [visitAll_cons_of_some hescape]
      exact ⟨visit_other hne, mem_tried_visit hne⟩

/-- What happens to a file in a loop that returns is what happens in its own visit. -/
theorem visitAll_visit (hnodup : names.Nodup) (hname : name ∈ names)
    (hreturns : (call.visitAll limits state names).2 = none)
    (hnew : name ∉ state.tried.map (·.1)) : ∃ before : Drained,
      contentOf before.box name = contentOf state.box name ∧ name ∉ before.tried.map (·.1) ∧
      (call.visit limits before name).2 = none ∧
      contentOf (call.visitAll limits state names).1.box name =
        contentOf (call.visit limits before name).1.box name ∧
      (name ∈ (call.visitAll limits state names).1.tried.map (·.1) ↔
        name ∈ (call.visit limits before name).1.tried.map (·.1)) := by
  induction names generalizing state with
  | nil => cases hname
  | cons first names ih =>
    obtain ⟨hfirst, hnodup⟩ := List.nodup_cons.mp hnodup
    cases hescape : (call.visit limits state first).2 with
    | some escape =>
      rw [visitAll_cons_of_some hescape] at hreturns
      cases hreturns
    | none =>
      rw [visitAll_cons_of_none hescape] at hreturns ⊢
      by_cases hsame : name = first
      · subst hsame
        exact ⟨state, rfl, hnew, hescape, (visitAll_other hfirst).1, (visitAll_other hfirst).2⟩
      · obtain ⟨before, hcontent, hbefore⟩ := ih hnodup
          ((List.mem_cons.mp hname).resolve_left hsame) hreturns
          ((mem_tried_visit hsame).not.mpr hnew)
        exact ⟨before, hcontent.trans (visit_other hsame), hbefore⟩

theorem dueRecords_congr {now : ℚ} {box box' : Outbox}
    (h : ∀ name ∈ names, contentOf box' name = contentOf box name) :
    dueRecords limits now box' names = dueRecords limits now box names := by
  apply List.filterMap_congr
  intro name hname
  rw [dueOf, dueOf, h name hname]

theorem dueRecords_cons {now : ℚ} {box : Outbox} : dueRecords limits now box (name :: names) =
    (dueOf limits now box name).toList ++ dueRecords limits now box names := by
  unfold dueRecords
  rw [List.filterMap_cons]
  cases dueOf limits now box name <;> rfl

/-- The room that a visit leaves in the batch. -/
theorem room_visit : call.batchSize - (call.visit limits state name).1.attempted =
    call.batchSize - state.attempted -
      (dueOf limits call.now state.box name).toList.length := by
  have hattempted : (call.visit limits state name).1.attempted =
      state.attempted + ((dueOf limits call.now state.box name).toList.take
        (call.batchSize - state.attempted)).length := by
    unfold Drained.attempted
    rw [visit_tried]
    simp [Drained.attempted]
  rw [hattempted, List.length_take]
  omega

/-- A loop that returns has tried the first due records that there was room for. -/
theorem visitAll_tried (hnodup : names.Nodup)
    (hreturns : (call.visitAll limits state names).2 = none) :
    (call.visitAll limits state names).1.tried = state.tried ++
      (((dueRecords limits call.now state.box names).take (call.batchSize - state.attempted)).map
        fun due => (due.1, due.2.text)) := by
  induction names generalizing state with
  | nil => simp [DrainCall.visitAll, dueRecords]
  | cons name names ih =>
    obtain ⟨hname, hnodup⟩ := List.nodup_cons.mp hnodup
    cases hescape : (call.visit limits state name).2 with
    | some escape =>
      rw [visitAll_cons_of_some hescape] at hreturns
      cases hreturns
    | none =>
      rw [visitAll_cons_of_none hescape] at hreturns ⊢
      have hlater : dueRecords limits call.now (call.visit limits state name).1.box names =
          dueRecords limits call.now state.box names :=
        dueRecords_congr fun other hother =>
          visit_other fun hsame => hname (hsame ▸ hother)
      rw [ih hnodup hreturns, hlater]
      rw [visit_tried, room_visit, dueRecords_cons, List.append_assoc, ← List.map_append,
        List.take_append]

/-- A loop returns when no file it reads and no record it retries lets an exception escape. -/
theorem visitAll_returns (hnodup : names.Nodup)
    (hreads : ∀ name ∈ names, ∀ escape,
      readRecord limits (contentOf state.box name) ≠ .error (.escapes escape))
    (hretries : ∀ due ∈ (dueRecords limits call.now state.box names).take
      (call.batchSize - state.attempted), Retries limits due.2) :
    (call.visitAll limits state names).2 = none := by
  induction names generalizing state with
  | nil => rfl
  | cons name names ih =>
    obtain ⟨hname, hnodup⟩ := List.nodup_cons.mp hnodup
    rw [dueRecords_cons, List.take_append] at hretries
    have hvisit : (call.visit limits state name).2 = none := by
      rcases visit_cases limits call state name with ⟨escape, hread, -⟩ | ⟨-, hvisit⟩ |
        ⟨record, -, -, -, hvisit⟩ | ⟨record, hread, hdue, hroom, hvisit⟩
      · exact absurd hread (hreads name List.mem_cons_self escape)
      · rw [hvisit]
      · rw [hvisit]
      · rw [hvisit]
        apply attempt_returns
        have hsome : dueOf limits call.now state.box name = some (name, record) := by
          simp [dueOf, hread, Except.toOption, hdue]
        obtain ⟨room, hsize⟩ : ∃ room, call.batchSize - state.attempted = room + 1 :=
          Nat.exists_eq_succ_of_ne_zero (Nat.sub_ne_zero_of_lt hroom)
        exact hretries (name, record) (by simp [hsome, hsize])
    have hcontent : ∀ other ∈ names,
        contentOf (call.visit limits state name).1.box other = contentOf state.box other :=
      fun other hother => visit_other fun hsame => hname (hsame ▸ hother)
    rw [visitAll_cons_of_none hvisit]
    apply ih hnodup
    · intro other hother
      rw [hcontent other hother]
      exact hreads other (List.mem_cons_of_mem _ hother)
    · rw [dueRecords_congr hcontent, room_visit]
      exact fun due hdue => hretries due (List.mem_append_right _ hdue)

end Loop

section Drain

variable {limits : StackLimits} {call : DrainCall} {box : Outbox} {name : String}
  {record : OutboxRecord}

theorem drain_of_opens (hopens : call.opens = true) :
    drain limits call box = call.visitAll limits ⟨box, [], 0⟩ (messages box) := by
  rw [drain, if_pos hopens]

theorem drain_of_shut (hshut : ¬call.opens = true) : drain limits call box = (⟨box, [], 0⟩, none) := by
  rw [drain, if_neg hshut]

/-- A record that was not delivered and may be tried again is left in place by a loop that
returns. -/
theorem drain_keeps (hreturns : (drain limits call box).2 = none)
    (hread : readRecord limits (contentOf box name) = .ok record)
    (hyoung : ¬record.Expired call.now)
    (hfailed : name ∈ (drain limits call box).1.tried.map (·.1) →
      call.deliver name ≠ .accepted ∧ record.attempts + 1 < maxAttempts) :
    ∃ kept, readRecord limits (contentOf (drain limits call box).1.box name) = .ok kept ∧
      kept.createdAt = record.createdAt ∧ kept.text = record.text := by
  by_cases hopens : call.opens = true
  · rw [drain_of_opens hopens] at hreturns hfailed ⊢
    by_cases hname : name ∈ messages box
    · obtain ⟨before, hcontent, hnew, -, hafter, htried⟩ :=
        visitAll_visit (nodup_messages box) hname hreturns List.not_mem_nil
      rw [hafter]
      rw [htried] at hfailed
      have hbefore : readRecord limits (contentOf before.box name) = .ok record := by
        rw [hcontent]
        exact hread
      rcases visit_cases limits call before name with ⟨escape, hraised, -⟩ | ⟨hdropped, -⟩ |
        ⟨-, -, -, -, hvisit⟩ | ⟨found, hfound, -, -, hvisit⟩
      · rw [hbefore] at hraised
        cases hraised
      · rcases hdropped with hraised | ⟨found, hfound, hexpired⟩
        · rw [hbefore] at hraised
          cases hraised
        · rw [hbefore] at hfound
          obtain rfl := Except.ok.inj hfound
          exact absurd hexpired hyoung
      · rw [hvisit]
        exact ⟨record, hbefore, rfl, rfl⟩
      · rw [hbefore] at hfound
        obtain rfl := Except.ok.inj hfound
        rw [hvisit] at hfailed ⊢
        obtain ⟨hrefused, hmore⟩ := hfailed (by simp)
        exact attempt_keeps hbefore hrefused hmore
    · rw [(visitAll_other hname).1]
      exact ⟨record, hread, rfl, rfl⟩
  · rw [drain_of_shut hopens]
    exact ⟨record, hread, rfl, rfl⟩

/-- Where nothing escapes, a drain does what it is for. -/
theorem drainsWell_of_nothingEscapes
    (h : NothingEscapes limits call.now call.batchSize box) : DrainsWell limits call box := by
  have hreturns : (drain limits call box).2 = none := by
    by_cases hopens : call.opens = true
    · rw [drain_of_opens hopens]
      exact visitAll_returns (nodup_messages box) h.1 h.2
    · rw [drain_of_shut hopens]
  have htried : call.opens = true → (drain limits call box).1.tried =
      ((dueRecords limits call.now box (messages box)).take call.batchSize).map fun due =>
        (due.1, due.2.text) := by
    intro hopens
    rw [drain_of_opens hopens] at hreturns ⊢
    exact visitAll_tried (nodup_messages box) hreturns
  constructor
  · exact hreturns
  · by_cases hopens : call.opens = true
    · rw [htried hopens, List.length_map]
      exact List.length_take_le _ _
    · rw [drain_of_shut hopens]
      exact Nat.zero_le _
  · exact htried
  · intro name record hread hyoung hfailed
    exact drain_keeps hreturns hread hyoung hfailed

/-- The drain that nothing is delivered in. -/
def DrainCall.refusing (now : ℚ) (batchSize : Nat) : DrainCall where
  now := now
  batchSize := batchSize
  opens := true
  deliver _ := .refused
  removable _ := true
  writable _ := true
  jitter _ := 1

/-- Every drain of a directory does what it is for exactly when nothing escapes. -/
theorem drainsWell_iff (limits : StackLimits) (now : ℚ) (batchSize : Nat) (box : Outbox) :
    (∀ call : DrainCall, call.now = now → call.batchSize = batchSize →
      DrainsWell limits call box) ↔ NothingEscapes limits now batchSize box := by
  constructor
  · intro hall
    have hwell := hall (.refusing now batchSize) rfl rfl
    have hreturns := hwell.returns
    rw [drain_of_opens rfl] at hreturns
    constructor
    · intro name hname escape hread
      obtain ⟨before, hcontent, -, hvisit, -⟩ :=
        visitAll_visit (nodup_messages box) hname hreturns List.not_mem_nil
      rw [visit_of_escape ((congrArg (readRecord limits) hcontent).trans hread)] at hvisit
      cases hvisit
    · rintro ⟨name, record⟩ hdue
      have htried : name ∈ (drain limits (.refusing now batchSize) box).1.tried.map (·.1) := by
        rw [hwell.prompt rfl, List.map_map]
        exact List.mem_map.mpr ⟨_, hdue, rfl⟩
      rw [drain_of_opens rfl] at htried
      obtain ⟨other, hname, hof⟩ := List.mem_filterMap.mp (List.mem_of_mem_take hdue)
      obtain ⟨found, hfound, hpair⟩ := Option.map_eq_some_iff.mp hof
      obtain ⟨rfl, rfl⟩ := Prod.mk.inj hpair
      obtain ⟨before, hcontent, hnew, hvisit, -, hmem⟩ :=
        visitAll_visit (nodup_messages box) hname hreturns List.not_mem_nil
      rw [hmem] at htried
      -- the visit has tried the record, so it is the attempt on it
      rcases visit_cases limits (.refusing now batchSize) before other with ⟨escape, -, hstop⟩ |
        ⟨-, hdrop⟩ | ⟨-, -, -, -, hwait⟩ | ⟨tried, hread, -, -, hattempt⟩
      · rw [hstop] at hvisit
        cases hvisit
      · rw [hdrop, unlink_tried] at htried
        exact absurd htried hnew
      · rw [hwait] at htried
        exact absurd htried hnew
      · rw [hattempt] at hvisit
        have hsame : tried = found := by
          rw [hcontent] at hread
          rw [hread] at hfound
          exact (Option.filter_eq_some_iff.mp hfound).1 |> Option.some_inj.mp
        subst hsame
        have hrefused : (DrainCall.refusing now batchSize).deliver other ≠ .accepted := nofun
        exact retries_of_attempt hrefused rfl hvisit
  · rintro h call rfl rfl
    exact drainsWell_of_nothingEscapes h

end Drain

section Runs

variable {limits : StackLimits} {call : DrainCall} {box : Outbox} {name : String}

/-- The attempts left to a file, none when it is no record. -/
def attemptsLeft (limits : StackLimits) (box : Outbox) (name : String) : Int :=
  ((readRecord limits (contentOf box name)).toOption.map fun record =>
    max 0 (maxAttempts - record.attempts)).getD 0

theorem attemptsLeft_nonneg : 0 ≤ attemptsLeft limits box name := by
  unfold attemptsLeft
  cases (readRecord limits (contentOf box name)).toOption with
  | none => exact le_rfl
  | some record => exact le_max_left _ _

theorem attemptsLeft_of_ok {record : OutboxRecord}
    (hread : readRecord limits (contentOf box name) = .ok record) :
    attemptsLeft limits box name = max 0 (maxAttempts - record.attempts) := by
  simp [attemptsLeft, hread, Except.toOption]

theorem attemptsLeft_of_rejected (hcontent : contentOf box name = .error .rejected) :
    attemptsLeft limits box name = 0 := by
  rw [attemptsLeft, hcontent]
  rfl

theorem attemptsLeft_congr {box' : Outbox} (h : contentOf box' name = contentOf box name) :
    attemptsLeft limits box' name = attemptsLeft limits box name := by
  rw [attemptsLeft, attemptsLeft, h]

variable (hworks : ∀ name, call.removable name = true ∧ call.writable name = true)

include hworks

/-- An attempt that fails uses up one of the attempts left. -/
theorem attempt_attemptsLeft {state : Drained} {record : OutboxRecord}
    (hread : readRecord limits (contentOf state.box name) = .ok record)
    (hmore : record.attempts < maxAttempts)
    (hreturns : (call.attempt limits state name record).2 = none) :
    (if call.deliver name ≠ .accepted then 1 else 0) +
        attemptsLeft limits (call.attempt limits state name record).1.box name ≤
      attemptsLeft limits state.box name := by
  obtain ⟨hremovable, hwritable⟩ := hworks name
  rw [attemptsLeft_of_ok hread, max_eq_right (by omega)]
  unfold DrainCall.attempt at hreturns ⊢
  dsimp only at hreturns ⊢
  by_cases haccepted : call.deliver name = .accepted
  · have hzero : (if call.deliver name ≠ .accepted then (1 : Int) else 0) = 0 :=
      if_neg (not_not.mpr haccepted)
    rw [hzero, if_pos haccepted, zero_add, attemptsLeft_of_rejected (unlink_self hremovable)]
    omega
  · rw [if_neg haccepted] at hreturns
    rw [if_neg haccepted, if_pos haccepted]
    by_cases hlast : maxAttempts ≤ record.attempts + 1
    · rw [if_pos hlast, attemptsLeft_of_rejected (unlink_self hremovable)]
      omega
    · rw [if_neg hlast] at hreturns ⊢
      by_cases hpower : PowerOverflows (record.attempts + 1)
      · rw [if_pos hpower] at hreturns
        cases hreturns
      · rw [if_neg hpower, if_neg (by simp [hwritable])] at hreturns ⊢
        by_cases hdump : limits.dump record.members = true
        · rw [if_pos hdump] at hreturns
          cases hreturns
        · obtain ⟨next, hnext, -, hattempts, -⟩ :=
            readRecord_retried hread call.now (call.jitter name)
          have hcontent : readRecord limits (contentOf (replaceFile name
              (.ok (.dict (record.retried call.now (call.jitter name)))) state.box) name) =
                .ok next := by
            rw [contentOf_replaceFile_self, hnext]
          rw [if_neg hdump, attemptsLeft_of_ok hcontent, hattempts, max_eq_right (by omega)]
          omega

/-- A drain that returns uses up an attempt of each file whose delivery fails. -/
theorem drain_attemptsLeft (hreturns : (drain limits call box).2 = none) (name : String) :
    (if FailsIn limits call box name then 1 else 0) +
        attemptsLeft limits (drain limits call box).1.box name ≤ attemptsLeft limits box name := by
  have hidle (h : name ∉ (drain limits call box).1.tried.map (·.1)) :
      (if FailsIn limits call box name then (1 : Int) else 0) = 0 := if_neg fun hfails => h hfails.1
  by_cases hopens : call.opens = true
  · by_cases hname : name ∈ messages box
    · have hdrain : drain limits call box = call.visitAll limits ⟨box, [], 0⟩ (messages box) :=
        drain_of_opens hopens
      rw [hdrain] at hreturns
      obtain ⟨before, hcontent, hnew, hvisit, hafter, htried⟩ :=
        visitAll_visit (nodup_messages box) hname hreturns List.not_mem_nil
      rw [← hdrain] at hafter htried
      rw [attemptsLeft_congr hafter]
      have hbefore : attemptsLeft limits box name = attemptsLeft limits before.box name :=
        (attemptsLeft_congr hcontent).symm
      rw [hbefore]
      rcases visit_cases limits call before name with ⟨escape, -, hstop⟩ | ⟨-, hdrop⟩ |
        ⟨-, -, -, -, hwait⟩ | ⟨record, hread, hdue, -, hattempt⟩
      · rw [hstop] at hvisit
        cases hvisit
      · rw [hdrop] at htried ⊢
        rw [hidle (by rw [htried, unlink_tried]; exact hnew),
          attemptsLeft_of_rejected (unlink_self (hworks name).1)]
        exact attemptsLeft_nonneg
      · rw [hwait] at htried ⊢
        rw [hidle (htried.not.mpr hnew), zero_add]
      · rw [hattempt] at hvisit htried ⊢
        have hmore : record.attempts < maxAttempts := not_le.mp fun h => hdue.1 (Or.inr h)
        have hfails : FailsIn limits call box name ↔ call.deliver name ≠ .accepted := by
          unfold FailsIn
          rw [htried]
          simp
        have hleft := attempt_attemptsLeft hworks hread hmore hvisit
        rw [if_congr hfails rfl rfl]
        exact hleft
    · rw [drain_of_opens hopens] at hidle ⊢
      have hidle := hidle fun h => absurd ((visitAll_other hname).2.mp h) List.not_mem_nil
      rw [attemptsLeft_congr (visitAll_other hname).1]
      rw [hidle, zero_add]
  · have htried : name ∉ (drain limits call box).1.tried.map (·.1) := by
      rw [drain_of_shut hopens]
      exact List.not_mem_nil
    rw [hidle htried, drain_of_shut hopens, zero_add]

omit hworks in
/-- Over a sequence of drains, no more deliveries of a message fail than it has attempts left. -/
theorem failedDeliveries_le {calls : List DrainCall} (hruns : RunsWell limits calls box)
    (name : String) : (failedDeliveries limits name calls box : Int) ≤
      attemptsLeft limits box name := by
  induction calls generalizing box with
  | nil => exact attemptsLeft_nonneg
  | cons call calls ih =>
    obtain ⟨hworks, hsafe, hrest⟩ := hruns
    have hstep := drain_attemptsLeft hworks (drainsWell_of_nothingEscapes hsafe).returns name
    have hlater := ih hrest
    rw [failedDeliveries]
    push_cast
    omega

end Runs

/-- The drains of a directory do what they are for exactly when nothing escapes; and over any
sequence of drains from which nothing escapes, a record that has not been tried a negative number
of times fails no more often than the limit of attempts. -/
theorem outbox_spec (limits : StackLimits) :
    (∀ now batchSize box, (∀ call : DrainCall, call.now = now → call.batchSize = batchSize →
      DrainsWell limits call box) ↔ NothingEscapes limits now batchSize box) ∧
    ∀ calls box, RunsWell limits calls box → ∀ name,
      (∀ record, readRecord limits (contentOf box name) = .ok record → 0 ≤ record.attempts) →
        (failedDeliveries limits name calls box : Int) ≤ maxAttempts := by
  refine ⟨drainsWell_iff limits, ?_⟩
  intro calls box hruns name hattempts
  have hle := failedDeliveries_le hruns name
  cases hread : readRecord limits (contentOf box name) with
  | error raised =>
    have hnone : attemptsLeft limits box name = 0 := by simp [attemptsLeft, hread, Except.toOption]
    rw [hnone] at hle
    exact hle.trans (by decide)
  | ok record =>
    have hnonneg := hattempts record hread
    rw [attemptsLeft_of_ok hread] at hle
    have hmax : max 0 (maxAttempts - record.attempts) ≤ maxAttempts :=
      max_le (by decide) (by omega)
    exact hle.trans hmax

/-- Stack enough for the records here. -/
def roomyStack : StackLimits where
  loads _ := false
  str _ := false
  dump _ := false

/-- One message that is due. -/
def dueOutbox : Outbox :=
  let due := "\x7b\"created_at\": 0, \"attempts\": 0, " ++
    "\"next_attempt_at\": 60, \"text\": \"order state unverified\"\x7d"
  [("0000000000001-b.json", loadsText roomyStack (some due.toList))]

/-- The drain of one message does what it is for, and its one failure is within the limit. -/
theorem outbox_spec_dueOutbox :
    (∀ call : DrainCall, call.now = 100 → call.batchSize = 3 →
      DrainsWell roomyStack call dueOutbox) ∧
    failedDeliveries roomyStack "0000000000001-b.json" [.refusing 100 3] dueOutbox = 1 ∧
    (failedDeliveries roomyStack "0000000000001-b.json" [.refusing 100 3] dueOutbox : Int) ≤
      maxAttempts := by
  have hmessages : ∀ name ∈ messages dueOutbox,
      (readRecord roomyStack (contentOf dueOutbox name)).toOption.map (·.attempts) = some 0 := by
    decide +kernel
  have hquiet : NothingEscapes roomyStack 100 3 dueOutbox := by
    constructor
    · intro name hname escape hescapes
      have hread := hmessages name hname
      rw [hescapes] at hread
      cases hread
    · have hdue : ∀ due ∈ (dueRecords roomyStack 100 dueOutbox (messages dueOutbox)).take 3,
          ¬PowerOverflows (due.2.attempts + 1) := by decide +kernel
      exact fun due hmem _ => ⟨hdue due hmem, rfl⟩
  refine ⟨((outbox_spec roomyStack).1 100 3 dueOutbox).mpr hquiet, by decide +kernel, ?_⟩
  apply (outbox_spec roomyStack).2
  · exact ⟨fun _ => ⟨rfl, rfl⟩, hquiet, trivial⟩
  · intro record hrecord
    have hread : (readRecord roomyStack
        (contentOf dueOutbox "0000000000001-b.json")).toOption.map (·.attempts) = some 0 := by
      decide +kernel
    rw [hrecord] at hread
    exact (Option.some.inj hread).ge

/-- A record with an infinite count of attempts, and a message that is due. -/
def stuckOutbox : Outbox :=
  let endless := "\x7b\"created_at\": 0, \"attempts\": Infinity, " ++
    "\"next_attempt_at\": 60, \"text\": \"x\"\x7d"
  let due := "\x7b\"created_at\": 0, \"attempts\": 0, " ++
    "\"next_attempt_at\": 60, \"text\": \"order state unverified\"\x7d"
  [("0000000000000-a.json", loadsText roomyStack (some endless.toList)),
    ("0000000000001-b.json", loadsText roomyStack (some due.toList))]

/-- The drain raises over the first record, and the message behind it is not tried. -/
theorem not_drainsWell_stuckOutbox :
    (drain roomyStack (.refusing 100 3) stuckOutbox).2 = some .overflowError ∧
      (drain roomyStack (.refusing 100 3) stuckOutbox).1.tried.map (·.1) = [] ∧
      (dueRecords roomyStack 100 stuckOutbox (messages stuckOutbox)).map (·.1) =
        ["0000000000001-b.json"] ∧
      ¬DrainsWell roomyStack (.refusing 100 3) stuckOutbox := by
  have hraises : (drain roomyStack (.refusing 100 3) stuckOutbox).2 = some .overflowError := by
    decide +kernel
  refine ⟨hraises, by decide +kernel, by decide +kernel, ?_⟩
  intro h
  rw [h.returns] at hraises
  cases hraises

end Poma
