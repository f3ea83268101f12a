import HomeAutomation.Buffer.RoundTrip
import HomeAutomation.Buffer.Snapshot
import HomeAutomation.Mqtt.Levels

/-!
# Reading a topic back

A put stores its topic trimmed; a snapshot walks the filter as it is given. A topic used as a filter
so finds its own entry when it carries no whitespace the walk gets to see: none in front, and behind
it none, or only behind a level `#` that ends the walk (`matchTopic_trim_iff`).
-/

namespace HomeAutomation

/-! ## A topic against its trimmed self -/

/-- A level of whitespace only; the empty level is one. -/
def isBlank (level : CString) : Bool := level.all isspace

theorem isBlank_append (s t : CString) : isBlank (s ++ t) = (isBlank s && isBlank t) :=
  List.all_append

/-- The whitespace in front of a topic, the trimmed topic, and the whitespace behind it. -/
theorem topic_split (topic : CString) :
    topic = topic.takeWhile isspace ++
      (trim topic ++ (topic.dropWhile isspace).rtakeWhile isspace) := by
  rw [trim, Delimited.trim, List.rdropWhile_append_rtakeWhile, List.takeWhile_append_dropWhile]

theorem isBlank_of_mem_levels {s level : CString} (hs : ∀ c ∈ s, isspace c = true)
    (h : level ∈ levels s) : isBlank level = true := by
  rw [isBlank, List.all_eq_true]
  exact fun c hc => hs c (Delimited.mem_of_mem_splitOnP _ h hc)

theorem levels_eq_cons (s : CString) : ∃ x A, levels s = x :: A :=
  List.exists_cons_of_ne_nil (List.splitOnP_ne_nil _ s)

theorem levels_eq_concat (s : CString) : ∃ A x, levels s = A ++ [x] := by
  have hne : levels s ≠ [] := List.splitOnP_ne_nil _ s
  exact ⟨_, _, (List.dropLast_concat_getLast hne).symm⟩

theorem head_of_levels {s x : CString} {A : List CString} {c : Char} (h : levels s = x :: A)
    (hx : x.head? = some c) : s.head? = some c := by
  rw [levels, Delimited.splitOnP_cut, List.cons.injEq] at h
  obtain ⟨tail, htail⟩ := List.takeWhile_prefix (l := s) fun c => !levelSeparators.contains c
  have hcut : x ++ tail = s := by
    rw [← htail, ← h.1]
    rfl
  rw [← hcut, List.head?_append, hx]
  rfl

theorem eq_of_levels_singleton {s x : CString} (h : levels s = [x]) : s = x := by
  rw [levels, Delimited.splitOnP_cut, List.cons.injEq] at h
  rcases (Delimited.cut_cases levelSeparators.contains s).2 with ⟨_, hs⟩ | ⟨d, r, _, hr, _⟩
  · rw [hs, h.1]
  · rw [hr] at h
    exact absurd h.2 (List.splitOnP_ne_nil _ r)

/-- How many levels at the front of a string are blank. -/
def blankFront (s : CString) : Nat := ((levels s).takeWhile isBlank).length

/-- Whitespace behind a string keeps the blank levels at its front. -/
theorem blankFront_append_right (s : CString) {w : CString} (hw : ∀ c ∈ w, isspace c = true) :
    blankFront s ≤ blankFront (s ++ w) := by
  obtain ⟨A, x, hA⟩ := levels_eq_concat s
  obtain ⟨y, B, hB⟩ := levels_eq_cons w
  have hsw : levels (s ++ w) = A ++ (x ++ y) :: B := Delimited.splitOnP_append _ hA hB
  have hy : isBlank y = true := isBlank_of_mem_levels hw (hB ▸ List.mem_cons_self)
  rw [blankFront, blankFront, hA, hsw, List.takeWhile_append, List.takeWhile_append]
  split_ifs
  · rw [List.length_append, List.length_append, List.takeWhile_cons, List.takeWhile_cons,
      isBlank_append, hy, Bool.and_true]
    cases isBlank x <;> simp
  · exact le_refl _

/-- Whitespace in front of a string adds its line breaks to the blank levels. -/
theorem blankFront_append_left {w : CString} (hw : ∀ c ∈ w, isspace c = true) (s : CString)
    {A : List CString} {x : CString} (hA : levels w = A ++ [x]) :
    blankFront (w ++ s) = A.length + blankFront s := by
  obtain ⟨y, B, hB⟩ := levels_eq_cons s
  have hws : levels (w ++ s) = A ++ (x ++ y) :: B := Delimited.splitOnP_append _ hA hB
  have hblank : ∀ level ∈ A ++ [x], isBlank level = true :=
    fun level h => isBlank_of_mem_levels hw (hA ▸ h)
  have hx : isBlank x = true := hblank x (by simp)
  rw [blankFront, blankFront, hws, hB,
    List.takeWhile_append_of_pos fun level h => hblank level (List.mem_append_left _ h),
    List.length_append, List.takeWhile_cons, List.takeWhile_cons, isBlank_append, hx, Bool.true_and]
  cases isBlank y <;> rfl

/-- A filter with whitespace in front misses the trimmed topic: either it has more blank levels at
its front, or its first level starts with whitespace. -/
theorem leading_not_matches {w t v : CString} (hne : w ≠ []) (hw : ∀ c ∈ w, isspace c = true)
    (hv : ∀ c ∈ v, isspace c = true) (ht : ∀ c, t.head? = some c → isspace c = false) :
    ¬ Wildcard.Matches ['+'] ['#'] (levels (w ++ (t ++ v))) (levels t) := by
  intro h
  obtain ⟨A, x, hA⟩ := levels_eq_concat w
  have hfront : blankFront (w ++ (t ++ v)) ≤ blankFront t :=
    Wildcard.takeWhile_length_le ['+'] ['#'] rfl rfl h
  rw [blankFront_append_left hw _ hA] at hfront
  have hright := blankFront_append_right t hv
  obtain rfl : A = [] := List.length_eq_zero_iff.mp (by omega)
  -- the whitespace is the front of the first level
  obtain ⟨y, B, hB⟩ := levels_eq_cons (t ++ v)
  obtain ⟨z, C, hC⟩ := levels_eq_cons t
  have hlevels : levels (w ++ (t ++ v)) = (x ++ y) :: B := Delimited.splitOnP_append _ hA hB
  obtain rfl : w = x := eq_of_levels_singleton hA
  obtain ⟨c, w', rfl⟩ := List.exists_cons_of_ne_nil hne
  have hc : isspace c = true := hw c (by simp)
  rw [hlevels, hC, List.cons_append, Wildcard.Matches] at h
  have hhash : c :: (w' ++ y) ≠ ['#'] := by
    intro e
    rw [List.cons.injEq] at e
    rw [e.1] at hc
    exact absurd hc (by decide)
  have hplus : c :: (w' ++ y) ≠ ['+'] := by
    intro e
    rw [List.cons.injEq] at e
    rw [e.1] at hc
    exact absurd hc (by decide)
  have hz : c :: (w' ++ y) = z := (h.resolve_left hhash).1.resolve_right hplus
  have hhead : t.head? = some c := head_of_levels hC (by rw [← hz]; rfl)
  rw [ht c hhead] at hc
  exact absurd hc (by simp)

/-- A topic finds its trimmed self when no whitespace follows it, or a level `#` ends the walk
before. -/
theorem trailing_matches_iff {t v : CString} (hv : ∀ c ∈ v, isspace c = true) :
    Wildcard.Matches ['+'] ['#'] (levels (t ++ v)) (levels t) ↔
      v = [] ∨ ['#'] ∈ levels (t ++ v) := by
  obtain ⟨A, x, hA⟩ := levels_eq_concat t
  obtain ⟨y, B, hB⟩ := levels_eq_cons v
  have htv : levels (t ++ v) = A ++ (x ++ y) :: B := Delimited.splitOnP_append _ hA hB
  have hblank : ∀ level ∈ y :: B, isBlank level = true :=
    fun level h => isBlank_of_mem_levels hv (hB ▸ h)
  have hB' : ['#'] ∉ B := fun h => absurd (hblank _ (List.mem_cons_of_mem _ h)) (by decide)
  have hnil : v = [] ↔ y = [] ∧ B = [] := by
    constructor
    · intro h
      have hlevels : [[]] = y :: B := by
        rw [← hB, h]
        rfl
      rw [List.cons.injEq] at hlevels
      exact ⟨hlevels.1.symm, hlevels.2.symm⟩
    · rintro ⟨rfl, rfl⟩
      exact eq_of_levels_singleton hB
  have hend : Wildcard.Matches ['+'] ['#'] B [] ↔ B = [] := by
    cases B <;> simp [Wildcard.Matches]
  have hone : x ++ y = ['+'] → y = [] := by
    intro h
    rcases List.append_eq_singleton_iff.mp h with ⟨_, hy⟩ | ⟨_, hy⟩
    · exact absurd (hblank y List.mem_cons_self) (by rw [hy]; decide)
    · exact hy
  rw [htv, hA, Wildcard.matches_append_left, Wildcard.Matches, hend, hnil, List.mem_append,
    List.mem_cons]
  constructor
  · intro h
    rcases h with hmem | hhash | ⟨hx, hb⟩
    · exact Or.inr (Or.inl hmem)
    · exact Or.inr (Or.inr (Or.inl hhash.symm))
    · rcases hx with hx | hx
      · exact Or.inl ⟨List.append_cancel_left (hx.trans (List.append_nil x).symm), hb⟩
      · exact Or.inl ⟨hone hx, hb⟩
  · intro h
    rcases h with ⟨hy, hb⟩ | hmem | hhash | hmem
    · rw [hy, List.append_nil]
      exact Or.inr (Or.inr ⟨Or.inl rfl, hb⟩)
    · exact Or.inl hmem
    · exact Or.inr (Or.inl hhash.symm)
    · exact absurd hmem hB'

/-- A topic that finds its own entry when it is used as a filter. -/
def Readable (topic : CString) : Prop :=
  topic.dropWhile isspace = topic ∧ (trim topic = topic ∨ ['#'] ∈ levels topic)

instance (topic : CString) : Decidable (Readable topic) := by
  unfold Readable
  infer_instance

/-- **A topic against its trimmed self.** As a filter it matches what it is stored under if and only
if no whitespace stands in front of it, and behind it none, or only behind a level `#`. -/
theorem matchTopic_trim_iff (topic : CString) :
    matchTopic topic (trim topic) = 1 ↔ Readable topic := by
  have hsplit := topic_split topic
  have hwhole := List.takeWhile_append_dropWhile (p := isspace) (l := topic)
  have hback : ∀ c ∈ (topic.dropWhile isspace).rtakeWhile isspace, isspace c = true :=
    fun _ => List.mem_rtakeWhile_imp
  rw [matchTopic_matches]
  by_cases hw : topic.takeWhile isspace = []
  · rw [hw, List.nil_append] at hsplit hwhole
    have hbehind : (topic.dropWhile isspace).rtakeWhile isspace = [] ↔ trim topic = topic := by
      constructor
      · intro h
        rw [h, List.append_nil] at hsplit
        exact hsplit.symm
      · intro h
        rw [h] at hsplit
        exact List.append_right_eq_self.mp hsplit.symm
    have h := trailing_matches_iff (t := trim topic) hback
    rw [← hsplit, hbehind] at h
    rw [h, Readable, and_iff_right hwhole]
  · have hnot := leading_not_matches (t := trim topic) hw (fun _ => List.mem_takeWhile_imp) hback
      fun _ => Delimited.trim_head isspace
    rw [← hsplit] at hnot
    refine iff_of_false hnot ?_
    intro h
    rw [h.1] at hwhole
    exact hw (List.append_left_eq_self.mp hwhole)

/-! ## Putting and reading back -/

/-- The fields hold the values of the pairs, the last one of each key, and the clock. -/
structure HoldsValues (fields : FieldMap) (pairs : List (CString × CString)) (now : BitVec 32) :
    Prop where
  values : ∀ p ∈ pairs, trim p.1 ≠ timestampKey →
    contentAt fields p.1 = .ok (OrderedMap.valuesOf (trim p.1) (trimKeys pairs)).getLast?
  stamp : contentAt fields timestampKey = .ok (some (decimal now.toNat))

/-- What is put on the topic is found under it: after any run of puts, a put of any well-formed
payload that the store has room for is in the snapshot that the topic itself selects. -/
def ReadsBack (topic : CString) : Prop :=
  ∀ (puts : List Put) (pairs : List (CString × CString)) (trailing : Bool) (now : BitVec 32),
    pairs ≠ [] → (∀ p ∈ pairs, Encodable p) →
    FitsRun (puts ++ [⟨topic, encode pairs trailing, now⟩]) →
    ∃ b b' b'' copy i e fields, mqttBufferPutAll Buffer.boot puts = .ok b ∧
      mqttBufferPut b topic (encode pairs trailing) now = .ok b' ∧
      mqttBufferGetMatching b' topic = .ok (b'', copy) ∧
      flatmapGetByIndex copy i = .ok (some e) ∧ e.content = some fields ∧
      HoldsValues fields pairs now

/-- A snapshot lists every topic of the store that the filter matches. -/
theorem snapshot_lists {copy : TopicMap} {s : Store} {filter t : CString} {f : Fields}
    (h : Holds FieldsHold copy (s.matching filter)) (hs : s.lookup t = some f)
    (hmatch : matchTopic filter t = 1) :
    ∃ i fields, flatmapGetByIndex copy i = .ok (some ⟨t, some fields⟩) ∧ FieldsHold fields f := by
  have hmem : (t, f) ∈ (s.matching filter).entries := by
    refine List.mem_filter.mpr ⟨OrderedMap.lookup_eq_some.mp hs, ?_⟩
    simpa using matchTopic_pos.mpr hmatch
  obtain ⟨i, hi⟩ := List.mem_iff_getElem?.mp hmem
  rcases h.getByIndex i with ⟨_, hnone⟩ | ⟨k, c, v, hget, hentry, hc⟩
  · rw [hi] at hnone
    cases hnone
  · rw [hi] at hentry
    cases hentry
    exact ⟨i, c, hget, hc⟩

/-- The fields after a put of a written payload hold its values, whatever they were before. -/
theorem overwrite_holdsValues {fields : FieldMap} {old : Option Fields}
    {pairs : List (CString × CString)} {payload : CString} {now : BitVec 32}
    (hassign : payloadAssignments payload = trimKeys pairs)
    (h : FieldsHold fields (overwrite old (putAssignments payload now))) :
    HoldsValues fields pairs now where
  values p hp hk := by
    have hstamp : OrderedMap.valuesOf (trim p.1) [(timestampKey, decimal now.toNat)] = [] :=
      OrderedMap.valuesOf_eq_nil.mpr (by simpa using hk)
    have hassigned : OrderedMap.valuesOf (trim p.1) (trimKeys pairs) ≠ [] := by
      rw [Ne, OrderedMap.valuesOf_eq_nil, not_not, trimKeys, List.map_map]
      exact List.mem_map_of_mem hp
    rw [h.contentAt_eq, overwrite, OrderedMap.lookup_overwrite, putAssignments,
      OrderedMap.valuesOf_append, hstamp, List.append_nil, hassign,
      List.getLast?_eq_some_getLast hassigned, Option.some_or]
  stamp := by
    rw [h.contentAt_eq, trim_timestampKey, overwrite, OrderedMap.lookup_overwrite, putAssignments,
      OrderedMap.valuesOf_append]
    simp [OrderedMap.valuesOf]

/-- A put on a topic, and the snapshot that the topic selects. -/
theorem put_then_snapshot {puts : List Put} {topic : CString} {payload : CString} {now : BitVec 32}
    (htopic : nul ∉ topic) (hpayload : nul ∉ payload)
    (hfits : FitsRun (puts ++ [⟨topic, payload, now⟩])) :
    ∃ b b' b'' copy s old, mqttBufferPutAll Buffer.boot puts = .ok b ∧
      mqttBufferPut b topic payload now = .ok b' ∧
      mqttBufferGetMatching b' topic = .ok (b'', copy) ∧
      Holds FieldsHold copy (Store.matching s topic) ∧
      s.lookup (trim topic) = some (overwrite old (putAssignments payload now)) := by
  obtain ⟨b', hrun, hb'⟩ := mqttBufferPutAll_holds BufferHolds.boot _ hfits.fits
  obtain ⟨b, hputs, hput⟩ := Runs.foldlM_append_eq_ok.mp hrun
  obtain ⟨b'', copy, hget, _, _, _, hcopy⟩ := mqttBufferGetMatching_holds hb' hfits.fits topic
  refine ⟨b, b', b'', copy, _, (Store.putAll OrderedMap.empty puts).lookup (trim topic), hputs, ?_,
    hget, hcopy, ?_⟩
  · rw [List.foldlM_cons, Runs.bind_eq_ok] at hput
    obtain ⟨b₁, hput, hnil⟩ := hput
    rw [Runs.foldlM_nil, Except.ok.injEq] at hnil
    exact hnil ▸ hput
  · rw [Store.putAll, List.foldl_append, List.foldl_cons, List.foldl_nil, cstr_of_notMem htopic,
      cstr_of_notMem hpayload, Store.put, OrderedMap.lookup_alter, if_pos rfl, Store.putAll]

/-- **Reading back.** A topic finds what is put on it if and only if it is readable. -/
theorem readsBack_iff {topic : CString} (htopic : nul ∉ topic) :
    ReadsBack topic ↔ Readable topic := by
  constructor
  · intro h
    have hpairs : ∀ p ∈ [((['k'], ['v']) : CString × CString)], Encodable p := by decide
    have hfits : FitsRun ([] ++ [⟨topic, encode [(['k'], ['v'])] false, 0⟩]) := by
      refine FitsRun.of_length (by simp) ?_
      show (putAssignments (cstr (encode [(['k'], ['v'])] false)) 0 ++ []).length ≤ 16
      decide +kernel
    obtain ⟨b, b', b'', copy, i, e, fields, hputs, hput, hget, he, -, -⟩ :=
      h [] [(['k'], ['v'])] false 0 (by simp) hpairs hfits
    obtain ⟨b₁, b₂, copy', hrun, hget', _, hkeys, _⟩ := mqttBufferGetMatching_exact _ hfits topic
    have hrun' : mqttBufferPutAll Buffer.boot
        ([] ++ [⟨topic, encode [(['k'], ['v'])] false, 0⟩]) = .ok b' :=
      Runs.foldlM_append_eq_ok.mpr ⟨b, hputs, by rw [List.foldlM_cons, hput]; rfl⟩
    rw [hrun', Except.ok.injEq] at hrun
    rw [← hrun, hget, Except.ok.injEq, Prod.mk.injEq] at hget'
    obtain ⟨r, hr, hkey⟩ := hkeys i
    rw [← hget'.2, he, Except.ok.injEq] at hr
    rw [← hr, Option.map_some] at hkey
    -- the store has one topic, so the entry found is its entry
    have hmem := List.mem_filter.mp (List.mem_of_getElem? hkey.symm)
    obtain ⟨p, hp, hpkey⟩ := List.mem_map.mp (List.mem_eraseDups.mp hmem.1)
    rw [List.nil_append, List.mem_singleton] at hp
    rw [hp, Put.key, cstr_of_notMem htopic] at hpkey
    rw [← matchTopic_trim_iff, hpkey]
    simpa using hmem.2
  · intro h puts pairs trailing now hne hpairs hfits
    obtain ⟨b, b', b'', copy, s, old, hputs, hput, hget, hcopy, hlookup⟩ :=
      put_then_snapshot htopic (nul_notMem_encode hpairs trailing) hfits
    obtain ⟨i, fields, hentry, hfields⟩ :=
      snapshot_lists hcopy hlookup ((matchTopic_trim_iff topic).mpr h)
    exact ⟨b, b', b'', copy, i, _, fields, hputs, hput, hget, hentry, rfl,
      overwrite_holdsValues (payloadAssignments_encode hne hpairs trailing) hfields⟩

/-! ## Entries of two topics -/

/-- Two topics have entries of their own in every store that both were put on. -/
def SeparateEntries (t₁ t₂ : CString) : Prop :=
  ∀ puts, FitsRun puts → t₁ ∈ puts.map Put.topic → t₂ ∈ puts.map Put.topic →
    ∃ b i j e₁ e₂, mqttBufferPutAll Buffer.boot puts = .ok b ∧
      storeEntryAt b i = .ok (some e₁) ∧ e₁.key = trim t₁ ∧
      storeEntryAt b j = .ok (some e₂) ∧ e₂.key = trim t₂ ∧ i ≠ j

theorem mem_topicsOf {puts : List Put} {t : CString} (ht : nul ∉ t) (h : t ∈ puts.map Put.topic) :
    trim t ∈ topicsOf puts := by
  obtain ⟨p, hp, rfl⟩ := List.mem_map.mp h
  rw [topicsOf, List.mem_eraseDups, List.mem_map]
  exact ⟨p, hp, by rw [Put.key, cstr_of_notMem ht]⟩

theorem separateEntries_iff {t₁ t₂ : CString} (h₁ : nul ∉ t₁) (h₂ : nul ∉ t₂) :
    SeparateEntries t₁ t₂ ↔ trim t₁ ≠ trim t₂ := by
  constructor
  · intro h heq
    have hfits : FitsRun [⟨t₁, [], 0⟩, ⟨t₂, [], 0⟩] := by
      refine FitsRun.of_length (by simp) ?_
      show (putAssignments (cstr []) 0 ++ (putAssignments (cstr []) 0 ++ [])).length ≤ 16
      decide +kernel
    obtain ⟨b, i, j, e₁, e₂, hrun, he₁, hkey₁, he₂, hkey₂, hij⟩ :=
      h [⟨t₁, [], 0⟩, ⟨t₂, [], 0⟩] hfits (by simp) (by simp)
    obtain ⟨b', hrun', hentries, hnodup, _⟩ := mqttBufferPutAll_last_writer _ hfits
    rw [hrun, Except.ok.injEq] at hrun'
    subst hrun'
    obtain ⟨r₁, hr₁, htopic₁⟩ := hentries i
    obtain ⟨r₂, hr₂, htopic₂⟩ := hentries j
    rw [he₁, Except.ok.injEq] at hr₁
    rw [he₂, Except.ok.injEq] at hr₂
    rw [← hr₁, Option.map_some, hkey₁, heq] at htopic₁
    rw [← hr₂, Option.map_some, hkey₂] at htopic₂
    exact hij ((List.getElem?_inj (List.getElem?_eq_some_iff.mp htopic₁.symm).1 hnodup).mp
      (htopic₁.symm.trans htopic₂))
  · intro hne puts hfits hmem₁ hmem₂
    obtain ⟨b, hrun, hentries, _⟩ := mqttBufferPutAll_last_writer puts hfits
    have hentry : ∀ t, nul ∉ t → t ∈ puts.map Put.topic →
        ∃ i e, storeEntryAt b i = .ok (some e) ∧ e.key = trim t ∧
          (topicsOf puts)[i]? = some (trim t) := by
      intro t ht hmem
      obtain ⟨i, hi⟩ := List.mem_iff_getElem?.mp (mem_topicsOf ht hmem)
      obtain ⟨r, hr, hkey⟩ := hentries i
      rw [hi, Option.map_eq_some_iff] at hkey
      obtain ⟨e, rfl, hkey⟩ := hkey
      exact ⟨i, e, hr, hkey, hi⟩
    obtain ⟨i, e₁, he₁, hkey₁, hi⟩ := hentry t₁ h₁ hmem₁
    obtain ⟨j, e₂, he₂, hkey₂, hj⟩ := hentry t₂ h₂ hmem₂
    refine ⟨b, i, j, e₁, e₂, hrun, he₁, hkey₁, he₂, hkey₂, ?_⟩
    rintro rfl
    rw [hi, Option.some.injEq] at hj
    exact hne hj

/-- **What is put can be read back** under a topic with no whitespace in front, and none behind it
that a level `#` does not hide; and topics that differ beyond whitespace at their ends have entries
of their own. -/
theorem put_reads_back :
    (∀ topic, nul ∉ topic → trim topic ≠ [] → Readable topic → ReadsBack topic) ∧
      ∀ t₁ t₂, nul ∉ t₁ → nul ∉ t₂ → (SeparateEntries t₁ t₂ ↔ trim t₁ ≠ trim t₂) :=
  ⟨fun _ hnul _ h => (readsBack_iff hnul).mpr h, fun _ _ h₁ h₂ => separateEntries_iff h₁ h₂⟩

/-- The topics of an outlet and of a wildcard, put one after the other. -/
theorem put_reads_back_two : ReadsBack "room/outlet".toList ∧ ReadsBack "room/#/ ".toList ∧
    SeparateEntries "room/outlet".toList "room/#/ ".toList :=
  ⟨put_reads_back.1 _ (by decide +kernel) (by decide +kernel) (by decide +kernel),
    put_reads_back.1 _ (by decide +kernel) (by decide +kernel) (by decide +kernel),
    (put_reads_back.2 _ _ (by decide +kernel) (by decide +kernel)).mpr (by decide +kernel)⟩

/-- A space in front of a topic hides what is put on it from the topic itself, so does one behind
it, and both topics share the entry of the topic without the space. -/
theorem spaced_topic_not_read_back :
    ¬ ReadsBack " a".toList ∧ ¬ ReadsBack "a ".toList ∧ ¬ SeparateEntries " a".toList "a".toList := by
  refine ⟨?_, ?_, ?_⟩
  · rw [readsBack_iff (by decide +kernel)]
    decide +kernel
  · rw [readsBack_iff (by decide +kernel)]
    decide +kernel
  · rw [separateEntries_iff (by decide +kernel) (by decide +kernel)]
    decide +kernel

end HomeAutomation
