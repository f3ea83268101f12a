import HomeAutomation.Buffer.LastWriter

/-!
# Snapshots of the store

`mqttBuffer_getMatching` copies the matching entries through `flatmap_put`, which trims and searches
each key again. As the stored keys are trimmed and distinct, each copied entry is new to the copy,
so no two entries merge and the assertion in `assignContentCopy` holds
(`mqttBufferGetMatching_exact`).
-/

namespace HomeAutomation

/-! ## Copying entries one by one -/

section
variable {γ σ ν : Type} {R : γ → ν → Prop} {m : MapInfo γ} {l : List (CString × ν)}
  {k : CString} {v : ν}

/-- The flat map `m` stands for the entries `l`. -/
def HoldsEntries (R : γ → ν → Prop) (m : MapInfo γ) (l : List (CString × ν)) : Prop :=
  ∃ n : OrderedMap CString ν, n.entries = l ∧ Holds R m n

theorem HoldsEntries.holds {n : OrderedMap CString ν} (h : HoldsEntries R m n.entries) :
    Holds R m n := by
  obtain ⟨n', hentries, h'⟩ := h
  rwa [OrderedMap.ext hentries] at h'

theorem next_key_notMem {n : OrderedMap CString ν} (h : l ++ [(k, v)] <+: n.entries) :
    k ∉ l.map Prod.fst := by
  have hnd := n.nodup.sublist (h.sublist.map Prod.fst)
  rw [List.map_append, List.nodup_append] at hnd
  intro hk
  exact hnd.2.2 k hk k (by simp) rfl

/-- A put of a new trimmed key appends it: the callback starts from `NULL`. -/
theorem HoldsEntries.put_new (h : HoldsEntries R m l)
    (assignContent : σ → Option γ → Except Fault (Option γ)) (content : σ) (hk : trim k = k)
    (hnew : k ∉ l.map Prod.fst) (hroom : l.length < 16)
    (hassign : ∃ c, assignContent content none = .ok (some c) ∧ R c v) :
    ∃ m', flatmapPut assignContent m k content = .ok m' ∧ HoldsEntries R m' (l ++ [(k, v)]) := by
  obtain ⟨n, rfl, h'⟩ := h
  have hentries : (n.alter k fun _ => v).entries = n.entries ++ [(k, v)] :=
    OrderedMap.alterEntries_of_notMem _ hnew
  have hput := h'.put assignContent k content (fun _ => v)
  rw [hk] at hput
  obtain ⟨m', hput', hm', _⟩ := hput
    (by rw [OrderedMap.size, hentries, List.length_append]; exact hroom)
    (fun _ => hassign)
    (fun _ w _ hw => absurd hw (by rw [OrderedMap.lookup_eq_none.mpr hnew]; intro e; cases e))
  exact ⟨m', hput', _, hentries, hm'⟩

end

/-- `assignContentCopy` copies a field map, into a null destination. -/
theorem assignContentCopy_holds {m : FieldMap} {f : Fields} (h : FieldsHold m f)
    (hsize : f.size ≤ 16) :
    ∃ m', assignContentCopy (some m) none = .ok (some m') ∧ FieldsHold m' f := by
  obtain ⟨copy₀, hinit, hcopy₀⟩ := flatmapInit_holds (γ := CString) (ν := CString) Eq
  obtain ⟨m', hloop, h'⟩ := forEntries_holds h
    (fun copy entryInner => flatmapPut assignContentChild copy entryInner.key entryInner.content)
    (S := HoldsEntries Eq)
    (by
      intro copy l k c v hpre hcv hcopy
      have hlen := hpre.length_le
      rw [List.length_append, List.length_singleton] at hlen
      refine hcopy.put_new assignContentChild (some c) ?_ (next_key_notMem hpre) ?_ ⟨c, rfl, hcv⟩
      · exact h.trimmed k (List.mem_map.mpr ⟨(k, v), hpre.subset (by simp), rfl⟩)
      · exact lt_of_lt_of_le hlen hsize)
    ⟨OrderedMap.empty, rfl, hcopy₀⟩
  refine ⟨m', ?_, h'.holds⟩
  simp only [assignContentCopy, Option.isSome_none, Bool.false_eq_true, if_false, hinit, hloop,
    Runs.ok_bind]

/-! ## The snapshot -/

/-- The topics of the store that a filter matches. -/
def Store.matching (s : Store) (filter : CString) : Store :=
  s.filterKeys fun t => 0 < matchTopic filter t

theorem copyMatching_holds {m copy : TopicMap} {s : Store} (h : Holds FieldsHold m s)
    (hfits : s.Fits) (filter : CString) (hcopy : Holds FieldsHold copy OrderedMap.empty) :
    ∃ copy', forEntries m (fun mapCopy entry =>
        if 0 < matchTopic filter entry.key then
          flatmapPut assignContentCopy mapCopy entry.key entry.content
        else .ok mapCopy) copy = .ok copy' ∧ Holds FieldsHold copy' (s.matching filter) := by
  obtain ⟨copy', hloop, hcopy'⟩ := forEntries_holds h
    (fun mapCopy entry =>
      if 0 < matchTopic filter entry.key then
        flatmapPut assignContentCopy mapCopy entry.key entry.content
      else .ok mapCopy)
    (S := fun copy l => HoldsEntries FieldsHold copy (l.filter fun e => 0 < matchTopic filter e.1))
    (by
      intro copy l k c f hpre hcf hcopy
      have hmem : (k, f) ∈ s.entries := hpre.subset (by simp)
      by_cases hmatch : 0 < matchTopic filter k
      · have hlen := hpre.length_le
        rw [List.length_append, List.length_singleton] at hlen
        have hfilter : (l.filter fun e => 0 < matchTopic filter e.1).length ≤ l.length :=
          List.length_filter_le _ _
        have hput := hcopy.put_new (k := k) assignContentCopy (some c)
          (h.trimmed k (List.mem_map.mpr ⟨(k, f), hmem, rfl⟩))
          (fun hk => next_key_notMem hpre ((List.filter_sublist.map Prod.fst).subset hk))
          (lt_of_lt_of_le (lt_of_le_of_lt hfilter hlen) hfits.topics)
          (assignContentCopy_holds hcf (hfits.fields k f (OrderedMap.lookup_eq_some.mpr hmem)))
        simpa [List.filter_append, hmatch] using hput
      · exact ⟨copy, by rw [if_neg hmatch], by simpa [List.filter_append, hmatch] using hcopy⟩)
    ⟨OrderedMap.empty, rfl, hcopy⟩
  exact ⟨copy', hloop, hcopy'.holds (n := s.matching filter)⟩

/-- **A snapshot stands for the matching part of the store**, and leaves the store in place. -/
theorem mqttBufferGetMatching_holds {b : Buffer} {s : Store} (h : BufferHolds b s) (hfits : s.Fits)
    (filter : CString) :
    ∃ b' copy, mqttBufferGetMatching b filter = .ok (b', copy) ∧ initializeBuffer b = .ok b' ∧
      b'.initialized = true ∧ Holds FieldsHold b'.mapInfo s ∧
      Holds FieldsHold copy (s.matching filter) := by
  obtain ⟨b', hinitb, hb', h'⟩ := initializeBuffer_holds h
  obtain ⟨copy₀, hinit, hcopy₀⟩ := flatmapInit_holds FieldsHold
  obtain ⟨copy, hloop, hcopy⟩ := copyMatching_holds h' hfits filter hcopy₀
  refine ⟨b', copy, ?_, hinitb, hb', h', hcopy⟩
  simp only [mqttBufferGetMatching, hinitb, hinit, hloop, Runs.ok_bind]

theorem mqttBufferGetMatching_initializes {b b' : Buffer} {filter : CString} {copy : TopicMap}
    (h : mqttBufferGetMatching b filter = .ok (b', copy)) : initializeBuffer b = .ok b' := by
  simp only [mqttBufferGetMatching, Runs.bind_eq_ok, Except.ok.injEq, Prod.mk.injEq] at h
  obtain ⟨b1, hinit, _, _, _, _, rfl, _⟩ := h
  exact hinit

theorem initializeBuffer_initialized {b b' : Buffer} (h : initializeBuffer b = .ok b') :
    b'.initialized = true := by
  unfold initializeBuffer at h
  split_ifs at h with hb
  · rw [Except.ok.injEq] at h
    rw [← h, hb]
  · simp only [Runs.bind_eq_ok, Except.ok.injEq] at h
    obtain ⟨m, _, rfl⟩ := h
    rfl

theorem initializeBuffer_of_initialized {b : Buffer} (hb : b.initialized = true) :
    initializeBuffer b = .ok b := by
  rw [initializeBuffer, if_pos hb]

/-- A snapshot of the initialised store is a snapshot of the store. -/
theorem mqttBufferGetMatching_afterInit {b b' : Buffer} (h : initializeBuffer b = .ok b')
    (filter : CString) : mqttBufferGetMatching b' filter = mqttBufferGetMatching b filter := by
  rw [mqttBufferGetMatching, mqttBufferGetMatching, h,
    initializeBuffer_of_initialized (initializeBuffer_initialized h)]

/-- Flat maps that stand for the same fields list the same entries. -/
theorem FieldsHold.getByIndex_eq {m m' : FieldMap} {f : Fields} (h : FieldsHold m f)
    (h' : FieldsHold m' f) (i : Nat) : flatmapGetByIndex m i = flatmapGetByIndex m' i := by
  rcases Holds.getByIndex h i with ⟨hget, hnone⟩ | ⟨k, c, v, hget, hsome, hcv⟩ <;>
    rcases Holds.getByIndex h' i with ⟨hget', hnone'⟩ | ⟨k', c', v', hget', hsome', hcv'⟩
  · rw [hget, hget']
  · rw [hnone] at hsome'
    cases hsome'
  · rw [hnone'] at hsome
    cases hsome
  · rw [hsome] at hsome'
    cases hsome'
    rw [hget, hget', hcv, hcv']

/-- **A snapshot is exact**: it lists the stored topics that the filter matches, in store order and
each once, each with the fields of the store; and the store is left as it was. -/
theorem mqttBufferGetMatching_exact (puts : List Put) (hfits : FitsRun puts) (filter : CString) :
    ∃ b b' copy, mqttBufferPutAll Buffer.boot puts = .ok b ∧
      mqttBufferGetMatching b filter = .ok (b', copy) ∧
      (∀ i, ∃ r, storeEntryAt b i = .ok r ∧ r.map Entry.key = (topicsOf puts)[i]?) ∧
      (∀ i, ∃ r, flatmapGetByIndex copy i = .ok r ∧
        r.map Entry.key = ((topicsOf puts).filter fun t => matchTopic filter t = 1)[i]?) ∧
      (topicsOf puts).Nodup ∧
      (∀ i e, flatmapGetByIndex copy i = .ok (some e) → ∃ fields stored, e.content = some fields ∧
        storeEntry b e.key = .ok (some stored) ∧
        ∀ j, flatmapGetByIndex fields j = flatmapGetByIndex stored j) ∧
      (∀ i, storeEntryAt b' i = storeEntryAt b i) ∧ (b.initialized = true → b' = b) := by
  obtain ⟨b, hrun, hb⟩ := mqttBufferPutAll_holds BufferHolds.boot puts hfits.fits
  obtain ⟨b', copy, hget, hinit, hb', h', hcopy⟩ := mqttBufferGetMatching_holds hb hfits.fits filter
  have htopics := Store.keys_putAll puts
  have hmatching : ((Store.putAll OrderedMap.empty puts).matching filter).keys =
      (topicsOf puts).filter fun t => matchTopic filter t = 1 := by
    rw [← htopics, Store.matching, OrderedMap.keys_filterKeys]
    simp only [matchTopic_pos]
  refine ⟨b, b', copy, hrun, hget, ?_, ?_, ?_, ?_, ?_, ?_⟩
  · intro i
    obtain ⟨r, hr, hkey⟩ := h'.keyAt i
    exact ⟨r, by rw [storeEntryAt, hinit, Runs.ok_bind, hr], by rw [hkey, htopics]⟩
  · intro i
    rw [← hmatching]
    exact hcopy.keyAt i
  · rw [← htopics]
    exact (Store.putAll OrderedMap.empty puts).nodup
  · intro i e he
    rcases hcopy.getByIndex i with ⟨hnone, _⟩ | ⟨t, c, f, hsome, hentry, hcf⟩
    · rw [hnone] at he
      cases he
    · rw [hsome] at he
      cases he
      have hmem : (t, f) ∈ (Store.putAll OrderedMap.empty puts).entries :=
        (List.mem_filter.mp (List.mem_of_getElem? hentry)).1
      have htrim : trim t = t := h'.trimmed t (List.mem_map.mpr ⟨(t, f), hmem, rfl⟩)
      have hlookup := OrderedMap.lookup_eq_some.mpr hmem
      rcases storeEntry_holds hb t with ⟨_, hnone⟩ | ⟨stored, f', hstored, hf', hholds⟩
      · rw [htrim, hlookup] at hnone
        cases hnone
      · rw [htrim, hlookup, Option.some.injEq] at hf'
        subst hf'
        exact ⟨c, stored, rfl, hstored, fun j => hcf.getByIndex_eq hholds j⟩
  · intro i
    rw [storeEntryAt, storeEntryAt, hinit, initializeBuffer_of_initialized hb']
  · intro hinitialized
    rw [initializeBuffer_of_initialized hinitialized, Except.ok.injEq] at hinit
    exact hinit.symm

/-- Of two stored topics a filter selects one. -/
theorem mqttBufferGetMatching_exact_two :
    ∃ b b' copy, mqttBufferPutAll Buffer.boot
        [⟨"room/override".toList, "state:on".toList, 7⟩, ⟨"heating".toList, "state:1".toList, 9⟩] =
          .ok b ∧
      mqttBufferGetMatching b "room/#".toList = .ok (b', copy) ∧
      (∃ r, flatmapGetByIndex copy 0 = .ok r ∧ r.map Entry.key = some "room/override".toList) ∧
      ∃ r, flatmapGetByIndex copy 1 = .ok r ∧ r.map Entry.key = none := by
  obtain ⟨b, b', copy, hrun, hget, _, hcopy, _⟩ := mqttBufferGetMatching_exact
    [⟨"room/override".toList, "state:on".toList, 7⟩, ⟨"heating".toList, "state:1".toList, 9⟩]
    (FitsRun.of_length (by decide) (by decide +kernel)) "room/#".toList
  have hkeys : ((topicsOf [⟨"room/override".toList, "state:on".toList, 7⟩,
      ⟨"heating".toList, "state:1".toList, 9⟩]).filter fun t =>
        matchTopic "room/#".toList t = 1) = ["room/override".toList] := by
    decide +kernel
  rw [hkeys] at hcopy
  exact ⟨b, b', copy, hrun, hget, hcopy 0, hcopy 1⟩

end HomeAutomation
