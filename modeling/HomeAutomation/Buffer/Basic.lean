import HomeAutomation.Flatmap.Basic
import HomeAutomation.Mqtt.MatchTopic

/-!
# The message store (`buffer.cpp`)

One flat map from topics to flat maps from fields to values. `assignContent` cuts a payload
`key:value,key:value,...` into assignments and puts them into the topic's fields, then stamps the
fields with the clock. `mqttBufferGetMatching` copies the entries whose topic matches a filter.
-/

namespace HomeAutomation

/-- The fields of a topic. -/
abbrev FieldMap := MapInfo CString

/-- The topics of the store. -/
abbrev TopicMap := MapInfo FieldMap

def noKey : CString := "no_key".toList
def timestampKey : CString := "timestamp".toList

/-! ## Payloads -/

/-- A token that is not null and not empty. -/
def isSet (token : Option CString) : Bool := token.any fun s => !s.isEmpty

/-- One round of the loop of `assignContent`: the key and content of the entry it puts and the
cursor after it, or `none` when it breaks. A value is only read behind a non-empty key. -/
def nextAssignment (cursor : Option CString) : Option ((CString × CString) × Option CString) :=
  let (key, afterKey) := strsep [':'] cursor
  let (value, afterValue) := if isSet key then strsep [','] afterKey else (none, afterKey)
  if !isSet key && !isSet value then none
  else if isSet key && !isSet value then some ((noKey, key.getD []), afterValue)
  else if !isSet key && isSet value then some ((noKey, value.getD []), afterValue)
  else some ((key.getD [], value.getD []), afterValue)

theorem cursorSize_nextAssignment {cursor cursor' : Option CString} {a : CString × CString}
    (h : nextAssignment cursor = some (a, cursor')) : cursorSize cursor' < cursorSize cursor := by
  cases cursor with
  | none => simp [nextAssignment, isSet] at h
  | some s =>
    have hkey := cursorSize_strsep [':'] s
    have hvalue := cursorSize_strsep_le [','] (strsep [':'] (some s)).2
    have hcursor : cursor' = (strsep [','] (strsep [':'] (some s)).2).2 ∨
        cursor' = (strsep [':'] (some s)).2 := by
      simp only [nextAssignment] at h
      split_ifs at h <;> simp_all
    rcases hcursor with rfl | rfl <;> omega

/-- The assignments the loop of `assignContent` makes from a cursor on. -/
def assignments (cursor : Option CString) : List (CString × CString) :=
  match _h : nextAssignment cursor with
  | none => []
  | some (a, cursor') => a :: assignments cursor'
termination_by cursorSize cursor
decreasing_by exact cursorSize_nextAssignment _h

theorem assignments_break {cursor : Option CString} (h : nextAssignment cursor = none) :
    assignments cursor = [] := by
  rw [assignments]
  split
  · rfl
  · next h' => exact absurd (h.symm.trans h') (by simp)

theorem assignments_step {cursor cursor' : Option CString} {a : CString × CString}
    (h : nextAssignment cursor = some (a, cursor')) :
    assignments cursor = a :: assignments cursor' := by
  rw [assignments]
  split
  · next h' => exact absurd (h.symm.trans h') (by simp)
  · next h' =>
    rw [h, Option.some.injEq, Prod.mk.injEq] at h'
    obtain ⟨rfl, rfl⟩ := h'
    rfl

/-! ## Callbacks -/

/-- `assignContentChild`: the field takes a copy of the value. -/
def assignContentChild (source _destination : Option CString) : Except Fault (Option CString) :=
  match source with
  | none => .error .nullDeref
  | some value => .ok (some value)

/-- The loop of `assignContent`. -/
def assignContentLoop (fields : FieldMap) (cursor : Option CString) : Except Fault FieldMap :=
  match _h : nextAssignment cursor with
  | none => .ok fields
  | some (a, cursor') => do
    let fields ← flatmapPut assignContentChild fields a.1 (some a.2)
    assignContentLoop fields cursor'
termination_by cursorSize cursor
decreasing_by exact cursorSize_nextAssignment _h

theorem assignContentLoop_break {fields : FieldMap} {cursor : Option CString}
    (h : nextAssignment cursor = none) : assignContentLoop fields cursor = .ok fields := by
  rw [assignContentLoop]
  split
  · rfl
  · next h' => exact absurd (h.symm.trans h') (by simp)

theorem assignContentLoop_step {fields : FieldMap} {cursor cursor' : Option CString}
    {a : CString × CString} (h : nextAssignment cursor = some (a, cursor')) :
    assignContentLoop fields cursor =
      flatmapPut assignContentChild fields a.1 (some a.2) >>= fun fields =>
        assignContentLoop fields cursor' := by
  rw [assignContentLoop]
  split
  · next h' => exact absurd (h.symm.trans h') (by simp)
  · next h' =>
    rw [h, Option.some.injEq, Prod.mk.injEq] at h'
    obtain ⟨rfl, rfl⟩ := h'
    rfl

/-- `assignContent` when `millis()` is `now`. -/
def assignContent (now : BitVec 32) (source : CString) (destination : Option FieldMap) :
    Except Fault (Option FieldMap) := do
  let fields ← match destination with
    | none => flatmapInit (MapInfo.fresh 16)
    | some fields => .ok fields
  let fields ← assignContentLoop fields (some source)
  let fields ← flatmapPut assignContentChild fields timestampKey (some (decimal now.toNat))
  .ok (some fields)

section
variable {γ σ : Type}

/-- `for(index = 0; index < flatmap_getEntryCount(map); index++)`, with the entry at each index;
`n` indices are to go. -/
def forEntriesFrom (mapInfo : MapInfo γ) (body : σ → Entry γ → Except Fault σ) :
    (n index : Nat) → σ → Except Fault σ
  | 0, _, s => .ok s
  | n + 1, index, s => do
    match ← flatmapGetByIndex mapInfo index with
    | none => .error .nullDeref
    | some entry =>
      let s ← body s entry
      forEntriesFrom mapInfo body n (index + 1) s

def forEntries (mapInfo : MapInfo γ) (body : σ → Entry γ → Except Fault σ) (s : σ) :
    Except Fault σ :=
  forEntriesFrom mapInfo body (flatmapGetEntryCount mapInfo) 0 s

end

/-- `assignContentCopy`: a new field map with the entries of the source. -/
def assignContentCopy (source destination : Option FieldMap) : Except Fault (Option FieldMap) :=
  if destination.isSome then .error .assertion
  else match source with
    | none => .error .nullDeref
    | some fields => do
      let copy ← flatmapInit (MapInfo.fresh 16)
      let copy ← forEntries fields
        (fun copy entryInner => flatmapPut assignContentChild copy entryInner.key entryInner.content)
        copy
      .ok (some copy)

/-! ## The store -/

/-- The static variables of `buffer.cpp`. -/
structure Buffer where
  initialized : Bool
  mapInfo : TopicMap

/-- The static variables before the first call. -/
def Buffer.boot : Buffer := ⟨false, MapInfo.fresh 0⟩

/-- `initialize()`. -/
def initializeBuffer (b : Buffer) : Except Fault Buffer :=
  if b.initialized then .ok b
  else do
    let mapInfo ← flatmapInit (MapInfo.fresh 16)
    .ok ⟨true, mapInfo⟩

/-- `mqttBuffer_put` of the `topicLen` bytes at `topic` and the `dataLen` bytes at `data`, when
`millis()` is `now`. -/
def mqttBufferPut (b : Buffer) (topic data : List Char) (now : BitVec 32) : Except Fault Buffer := do
  let b ← initializeBuffer b
  let mapInfo ← flatmapPut (assignContent now) b.mapInfo (cstr topic) (cstr data)
  .ok { b with mapInfo := mapInfo }

/-- `mqttBuffer_getMatching`: the store afterwards and the copy. -/
def mqttBufferGetMatching (b : Buffer) (filter : CString) : Except Fault (Buffer × TopicMap) := do
  let b ← initializeBuffer b
  let mapCopy ← flatmapInit (MapInfo.fresh 16)
  let mapCopy ← forEntries b.mapInfo
    (fun mapCopy entry =>
      if 0 < matchTopic filter entry.key then
        flatmapPut assignContentCopy mapCopy entry.key entry.content
      else .ok mapCopy)
    mapCopy
  .ok (b, mapCopy)

/-- The field map stored for a topic, if there is one. -/
def storeEntry (b : Buffer) (topic : CString) : Except Fault (Option FieldMap) := do
  let b ← initializeBuffer b
  contentAt b.mapInfo topic

/-- The entry of the store at an index. -/
def storeEntryAt (b : Buffer) (index : Nat) : Except Fault (Option (Entry FieldMap)) := do
  let b ← initializeBuffer b
  flatmapGetByIndex b.mapInfo index

/-- A call of `mqttBuffer_put`. -/
structure Put where
  topic : List Char
  data : List Char
  now : BitVec 32
  deriving DecidableEq

/-- A run of `mqttBuffer_put` calls. -/
def mqttBufferPutAll (b : Buffer) (puts : List Put) : Except Fault Buffer :=
  puts.foldlM (fun b p => mqttBufferPut b p.topic p.data p.now) b

end HomeAutomation
