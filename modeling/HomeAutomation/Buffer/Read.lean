import HomeAutomation.Buffer.Snapshot

/-!
# Reading a snapshot

The readers of a snapshot take its entries by index and the fields of an entry by name, and go
through the pointers they get without a test for `NULL`.
-/

namespace HomeAutomation

/-- `(MapInfo*)entry->content` of `flatmap_getByIndex(&mapCopy, index)`. -/
def entryFields (mapCopy : TopicMap) (index : Nat) : Except Fault FieldMap := do
  match ← flatmapGetByIndex mapCopy index with
  | none => .error .nullDeref
  | some entry =>
    match entry.content with
    | none => .error .nullDeref
    | some fields => .ok fields

/-- `(char*)result->content` of `flatmap_get(fields, key)`. -/
def resultContent (fields : FieldMap) (key : CString) : Except Fault CString := do
  match ← contentAt fields key with
  | none => .error .nullDeref
  | some content => .ok content

/-! ## Snapshots of one topic -/

/-- Of the topics in the store the filter selects only the topic that it spells. -/
def Store.OnlyTopic (filter : CString) (s : Store) : Prop :=
  ∀ t ∈ s.keys, 0 < matchTopic filter t → t = filter

theorem Store.OnlyTopic.empty (filter : CString) : Store.OnlyTopic filter OrderedMap.empty := by
  intro t ht
  exact absurd ht (List.not_mem_nil)

theorem Store.OnlyTopic.put {filter : CString} {s : Store} (h : s.OnlyTopic filter) {topic : CString}
    (ht : 0 < matchTopic filter (trim topic) → trim topic = filter) (payload : CString)
    (now : BitVec 32) : (s.put topic payload now).OnlyTopic filter := by
  intro t hmem hmatch
  rw [Store.put, OrderedMap.mem_keys_alter] at hmem
  rcases hmem with hold | rfl
  · exact h t hold hmatch
  · exact ht hmatch

theorem Store.OnlyTopic.matching {filter : CString} {s : Store} (h : s.OnlyTopic filter) {f : Fields}
    (hf : s.lookup filter = some f) : (s.matching filter).entries = [(filter, f)] := by
  have hmem : (filter, f) ∈ (s.matching filter).entries := by
    refine List.mem_filter.mpr ⟨OrderedMap.lookup_eq_some.mp hf, ?_⟩
    simp [matchTopic_self]
  have hkey : ∀ e ∈ (s.matching filter).entries, e.1 = filter := by
    intro e he
    obtain ⟨hin, hmatch⟩ := List.mem_filter.mp he
    exact h e.1 (List.mem_map.mpr ⟨e, hin, rfl⟩) (by simpa using hmatch)
  have hnd := (s.matching filter).nodup
  generalize (s.matching filter).entries = l at hmem hkey hnd
  rcases l with _ | ⟨e, _ | ⟨e', l⟩⟩
  · exact absurd hmem (List.not_mem_nil)
  · rw [List.mem_singleton] at hmem
    rw [hmem]
  · -- two entries would have the same key
    have h1 := hkey e (by simp)
    have h2 := hkey e' (by simp)
    simp only [List.map_cons, List.nodup_cons, List.mem_cons, not_or] at hnd
    exact absurd (h1.trans h2.symm) hnd.1.1

/-! ## Entries and fields -/

section
variable {copy : TopicMap} {n : Store} {m : FieldMap} {f : Fields}

theorem entryFields_holds (h : Holds FieldsHold copy n) {i : Nat} {t : CString} {f : Fields}
    (hentry : n.entries[i]? = some (t, f)) :
    ∃ m, entryFields copy i = .ok m ∧ FieldsHold m f := by
  rcases h.getByIndex i with ⟨_, hnone⟩ | ⟨k, m, f', hget, hsome, hm⟩
  · rw [hentry] at hnone
    exact absurd hnone (Option.some_ne_none _)
  · rw [hentry, Option.some.injEq, Prod.mk.injEq] at hsome
    rw [← hsome.2] at hm
    exact ⟨m, by simp only [entryFields, hget, Runs.ok_bind], hm⟩

/-- Reading a field: its value, or the null pointer when no payload has assigned it. -/
theorem resultContent_holds (h : FieldsHold m f) (key : CString) :
    resultContent m key =
      match f.lookup (trim key) with
      | none => .error .nullDeref
      | some v => .ok v := by
  rcases Holds.content h key with ⟨hget, hnone⟩ | ⟨c, v, hget, hsome, hcv⟩
  · simp only [resultContent, hget, Runs.ok_bind, hnone]
  · simp only [resultContent, hget, Runs.ok_bind, hsome, hcv]

theorem resultContent_ok (h : FieldsHold m f) {k v : CString} (hv : f.lookup (trim k) = some v) :
    resultContent m k = .ok v := by
  rw [resultContent_holds h, hv]

end

end HomeAutomation
