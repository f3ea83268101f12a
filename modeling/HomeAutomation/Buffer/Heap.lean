import HomeAutomation.Flatmap.Heap
import HomeAutomation.Buffer.Snapshot

/-!
# The message store on the heap

The callbacks and calls of `buffer.cpp` with their pointers. `TopicsAt p s F` says that the blocks `F`
are those of the store `s` at `p`: the flat map of topics, and for each topic a flat map of fields
behind a `MapInfo` of its own. A put replaces the store's blocks by those of the new store
(`mqttBufferPutP_spec`), a snapshot adds blocks of its own (`mqttBufferGetMatchingP_spec`), and
`flatmap_free` takes all of them away (`freeSnapshot_spec`).
-/

namespace HomeAutomation

open HeapLogic

/-! ## The callbacks -/

def assignContentChildP (source : CString) (destination : Nat) : HeapM Nat := do
  free destination
  strdup source

def freeContentChildP (content : Nat) : HeapM Unit := free content

/-- `malloc(sizeof(MapInfo))` and `flatmap_init`. -/
def newMapInfoP : HeapM Nat := do
  let destination ← alloc (.mapInfo ⟨0, 16, 0⟩)
  flatmapInitP destination
  pure destination

section
-- what comes of an access below a block (see `trimWhitespaceP`)
variable (below : Except Fault Unit)

/-- The loop of `assignContent`. -/
def assignContentLoopP (destination : Nat) (cursor : Option CString) : HeapM Unit :=
  match _h : nextAssignment cursor with
  | none => pure ()
  | some (a, cursor') => do
    flatmapPutP below assignContentChildP destination a.1 a.2
    assignContentLoopP destination cursor'
termination_by cursorSize cursor
decreasing_by exact cursorSize_nextAssignment _h

/-- `assignContent` when `millis()` is `now`. -/
def assignContentP (now : BitVec 32) (source : CString) (destination : Nat) : HeapM Nat := do
  let destination ← if destination = 0 then newMapInfoP else pure destination
  assignContentLoopP below destination (some source)
  flatmapPutP below assignContentChildP destination timestampKey (decimal now.toNat)
  pure destination

/-- The loop of `assignContentCopy` from `indexInner` on, with `n` entries to go. -/
def copyFieldsFromP (source destination : Nat) : (n indexInner : Nat) → HeapM Unit
  | 0, _ => pure ()
  | n + 1, indexInner => do
    match ← flatmapGetByIndexP source indexInner with
    | none => throw .nullDeref
    | some pos =>
      let entryInner ← readEntry source pos
      let key ← readStr entryInner.key
      let content ← readStr entryInner.content
      flatmapPutP below assignContentChildP destination key content
      copyFieldsFromP source destination n (indexInner + 1)

def assignContentCopyP (source destination : Nat) : HeapM Nat := do
  if destination ≠ 0 then throw .assertion
  let destination ← newMapInfoP
  let m ← readMap source
  copyFieldsFromP below source destination m.entriesLen 0
  pure destination

end

/-- `freeContent`: the pointer is null by the time it is freed. -/
def freeContentP (content : Nat) : HeapM Unit := do
  flatmapFreeP freeContentChildP content
  free 0

def freeContentCopyP (content : Nat) : HeapM Unit := do
  flatmapFreeP freeContentChildP content
  let m ← readMap content
  if m.entriesLen ≠ 0 then throw .assertion
  if m.entries ≠ 0 then throw .assertion
  free content

/-! ## The calls -/

section
variable (below : Except Fault Unit)

/-- `mqttBuffer_put` on the map at `mapInfo`. -/
def mqttBufferPutP (mapInfo : Nat) (topic data : List Char) (now : BitVec 32) : HeapM Unit :=
  flatmapPutP below (assignContentP below now) mapInfo (cstr topic) (cstr data)

/-- The loop of `mqttBuffer_getMatching` from `index` on, with `n` entries to go. -/
def copyMatchingFromP (mapInfo : Nat) (filter : CString) (mapCopy : Nat) :
    (n index : Nat) → HeapM Unit
  | 0, _ => pure ()
  | n + 1, index => do
    match ← flatmapGetByIndexP mapInfo index with
    | none => throw .nullDeref
    | some pos =>
      let entry ← readEntry mapInfo pos
      let key ← readStr entry.key
      if 0 < matchTopic filter key then
        flatmapPutP below (assignContentCopyP below) mapCopy key entry.content
      copyMatchingFromP mapInfo filter mapCopy n (index + 1)

/-- `mqttBuffer_getMatching` into the caller's `mapCopy`. -/
def mqttBufferGetMatchingP (mapInfo : Nat) (filter : CString) (mapCopy : Nat) : HeapM Unit := do
  writeMap mapCopy ⟨0, 16, 0⟩
  flatmapInitP mapCopy
  let m ← readMap mapInfo
  copyMatchingFromP below mapInfo filter mapCopy m.entriesLen 0

end

/-! ## Layout -/

abbrev StrAt (p : Nat) (s : CString) (F : Footprint Cell) : Prop := F = {(p, .str s)}

/-- The blocks of the fields of a topic. -/
def FieldsAt (p : Nat) (f : Fields) (F : Footprint Cell) : Prop := MapAt StrAt p f F

/-- The blocks of a store. -/
def TopicsAt (p : Nat) (s : Store) (F : Footprint Cell) : Prop := MapAt FieldsAt p s F

/-- The keys of fields can be trimmed. -/
def Fields.Trim (below : Except Fault Unit) (f : Fields) : Prop := ∀ k ∈ f.keys, Trims below k

/-- The topics of a store and the keys of their fields can be trimmed. -/
def Store.Trim (below : Except Fault Unit) (s : Store) : Prop :=
  ∀ t f, s.lookup t = some f → Trims below t ∧ f.Trim below

/-- The topic of a message and the keys in it can be trimmed. -/
def PutTrims (below : Except Fault Unit) (topic data : List Char) : Prop :=
  Trims below (cstr topic) ∧ ∀ a ∈ assignments (some (cstr data)), Trims below a.1

/-! ## What the callbacks do -/

variable {below : Except Fault Unit}

section
variable {p d : Nat} {f : Fields} {F : Footprint Cell}

theorem assignContentChildP_assigns (source : CString) (old : Option CString) :
    AssignsTo StrAt assignContentChildP source 0 old source := by
  have halloc : Spec 0 (strdup source) fun d F' => ∃ Fc, StrAt d source Fc ∧ F' = Fc + 0 := by
    refine Spec.alloc.mono ?_
    rintro d _ ⟨_, rfl⟩
    exact ⟨{(d, .str source)}, rfl, rfl⟩
  rcases old with _ | v
  · refine free_null.bind ?_
    rintro _ _ rfl
    exact halloc
  · rintro d _ rfl
    refine (free_spec rfl).bind ?_
    rintro _ _ rfl
    exact halloc

theorem putFieldP_spec (h : FieldsAt d f F) {key : CString} (htrims : Trims below key)
    (value : CString) (hroom : (f.alter (trim key) fun _ => value).size ≤ 16) :
    Spec F (flatmapPutP below assignContentChildP d key value) fun _ F' =>
      FieldsAt d (f.alter (trim key) fun _ => value) F' := by
  have hput := flatmapPutP_spec h htrims hroom (assignContentChildP_assigns value (f.lookup (trim key)))
  rw [add_zero] at hput
  refine hput.mono ?_
  rintro _ _ ⟨F₁, h₁, rfl⟩
  rwa [add_zero]

theorem newMapInfoP_spec {ν : Type} (C : Nat → ν → Footprint Cell → Prop) :
    Spec F newMapInfoP fun d F' => ∃ Fd, MapAt C d OrderedMap.empty Fd ∧ F' = Fd + F := by
  refine Spec.alloc.bind ?_
  rintro d _ ⟨_, rfl⟩
  refine Spec.seq (flatmapInitP_spec (C := C) rfl) rfl ?_
  intro _ Fd hFd
  exact Spec.pure ⟨Fd, hFd, rfl⟩

theorem assignContentLoopP_spec :
    ∀ (cursor : Option CString) {f : Fields} {F : Footprint Cell}, FieldsAt d f F →
      (∀ a ∈ assignments cursor, Trims below a.1) →
      (f.alterAll (fun s _ => s) ((assignments cursor).map fun a => (trim a.1, a.2))).size ≤ 16 →
      Spec F (assignContentLoopP below d cursor) fun _ F' => FieldsAt d
        (f.alterAll (fun s _ => s) ((assignments cursor).map fun a => (trim a.1, a.2))) F' := by
  intro cursor
  induction hn : cursorSize cursor using Nat.strong_induction_on generalizing cursor with
  | _ n ih =>
    intro f F h htrims hroom
    rw [assignContentLoopP]
    split
    · next hnext =>
      rw [assignments_break hnext]
      exact Spec.pure h
    · next a cursor' hnext =>
      have hlt : cursorSize cursor' < n := hn ▸ cursorSize_nextAssignment hnext
      rw [assignments_step hnext] at htrims hroom ⊢
      rw [List.map_cons, OrderedMap.alterAll_cons] at hroom ⊢
      obtain ⟨hkey, hrest⟩ := List.forall_mem_cons.mp htrims
      refine (putFieldP_spec h hkey a.2
        (le_trans (OrderedMap.size_le_alterAll _ _ _) hroom)).bind ?_
      intro _ F₁ h₁
      exact ih _ hlt cursor' rfl h₁ hrest hroom

theorem timestampKey_trims : Trims below timestampKey := by
  right
  rw [trim_timestampKey]
  decide

theorem assignP_spec (h : FieldsAt d f F) (now : BitVec 32) {source : CString}
    (htrims : ∀ a ∈ assignments (some source), Trims below a.1)
    (hroom : (overwrite (some f) (putAssignments source now)).size ≤ 16) :
    Spec F (do
      assignContentLoopP below d (some source)
      flatmapPutP below assignContentChildP d timestampKey (decimal now.toNat)
      pure d : HeapM Nat)
      fun d' F' => d' = d ∧ FieldsAt d (overwrite (some f) (putAssignments source now)) F' := by
  have hsplit : overwrite (some f) (putAssignments source now) =
      (f.alterAll (fun s _ => s) (payloadAssignments source)).alter timestampKey
        fun _ => decimal now.toNat := by
    rw [overwrite, putAssignments, Option.getD_some, OrderedMap.alterAll_append]
    rfl
  rw [hsplit] at hroom ⊢
  refine (assignContentLoopP_spec (some source) h htrims
    (le_trans (OrderedMap.size_le_alter _ _ _) hroom)).bind ?_
  intro _ F₁ h₁
  have hstamp : Trims below timestampKey := timestampKey_trims
  have hput := putFieldP_spec h₁ hstamp (decimal now.toNat)
  rw [trim_timestampKey] at hput
  refine (hput hroom).bind ?_
  intro _ F₂ h₂
  exact Spec.pure ⟨rfl, h₂⟩

theorem MapAt.ne_null {ν : Type} {C : Nat → ν → Footprint Cell → Prop} {n : OrderedMap CString ν}
    {G : Footprint Cell} {h : Heap Cell} (hmap : MapAt C p n F) (hown : Owns h (F + G)) : p ≠ 0 := by
  obtain ⟨_, _, q, block, es, Fe, hblocks⟩ := hmap
  exact (h.allocated p _ ((hown.mem p _).mpr (Multiset.mem_add.mpr (Or.inl hblocks.map_mem)))).1

/-- `assignContent` puts the payload's assignments over the old fields. -/
theorem assignContentP_assigns (now : BitVec 32) {source : CString} (old : Option Fields)
    (htrims : ∀ a ∈ assignments (some source), Trims below a.1)
    (hroom : (overwrite old (putAssignments source now)).size ≤ 16) :
    AssignsTo FieldsAt (assignContentP below now) source 0 old
      (overwrite old (putAssignments source now)) := by
  rcases old with _ | f
  · unfold AssignsTo assignContentP
    rw [if_pos rfl]
    refine (newMapInfoP_spec StrAt).bind ?_
    rintro d _ ⟨Fd, hFd, rfl⟩
    rw [add_zero]
    refine (assignP_spec hFd now htrims hroom).mono ?_
    rintro d' F' ⟨rfl, h'⟩
    exact ⟨F', h', (add_zero F').symm⟩
  · intro d Fd hFd h G hown
    rw [add_zero] at hown
    have hd := hFd.ne_null hown
    have hrun := (assignP_spec hFd now htrims hroom).mono (R := fun d' F' => ∃ Fc,
      FieldsAt d' (overwrite (some f) (putAssignments source now)) Fc ∧ F' = Fc + 0)
      (by
        rintro d' F' ⟨rfl, h'⟩
        exact ⟨F', h', (add_zero F').symm⟩)
    have hcall : assignContentP below now source d = (do
        assignContentLoopP below d (some source)
        flatmapPutP below assignContentChildP d timestampKey (decimal now.toNat)
        pure d : HeapM Nat) := by
      rw [assignContentP, if_neg hd]
      rfl
    rw [hcall]
    exact hrun h G hown

end

/-! ## A put -/

section
variable {p : Nat} {s : Store} {F : Footprint Cell}

/-- **A put on the heap**: the blocks of the store become those of the new store. -/
theorem mqttBufferPutP_spec (h : TopicsAt p s F) {topic data : List Char} (now : BitVec 32)
    (htrims : PutTrims below topic data)
    (hfits : (s.put (cstr topic) (cstr data) now).Fits) :
    Spec F (mqttBufferPutP below p topic data now) fun _ F' =>
      TopicsAt p (s.put (cstr topic) (cstr data) now) F' := by
  have hconst : s.put (cstr topic) (cstr data) now = s.alter (trim (cstr topic)) fun _ =>
      overwrite (s.lookup (trim (cstr topic))) (putAssignments (cstr data) now) :=
    (OrderedMap.alter_const_lookup s (trim (cstr topic)) fun old =>
      overwrite old (putAssignments (cstr data) now)).symm
  have hroom := hfits.fields (trim (cstr topic))
    (overwrite (s.lookup (trim (cstr topic))) (putAssignments (cstr data) now))
    (by rw [Store.put, OrderedMap.lookup_alter, if_pos rfl])
  have htopics := hfits.topics
  rw [hconst] at htopics ⊢
  have hput := flatmapPutP_spec h htrims.1 htopics
    (assignContentP_assigns now (s.lookup (trim (cstr topic))) htrims.2 hroom)
  rw [add_zero] at hput
  refine hput.mono ?_
  rintro _ _ ⟨F₁, h₁, rfl⟩
  rwa [add_zero]

end

section
variable {s : Store} {topic data : List Char}

theorem Store.Trim.empty : Store.Trim below OrderedMap.empty := by
  intro t f hf
  rw [OrderedMap.lookup_empty] at hf
  cases hf

theorem Store.Trim.put (h : s.Trim below) (htrims : PutTrims below topic data) (now : BitVec 32) :
    (s.put (cstr topic) (cstr data) now).Trim below := by
  intro t f hf
  rw [Store.put, OrderedMap.lookup_alter] at hf
  by_cases ht : t = trim (cstr topic)
  · rw [if_pos ht, Option.some.injEq] at hf
    subst hf
    refine ⟨ht ▸ htrims.1.trim, ?_⟩
    intro k hk
    rcases OrderedMap.mem_keys_alterAll.mp hk with hold | hnew
    · rcases hlookup : s.lookup (trim (cstr topic)) with _ | f
      · rw [hlookup] at hold
        exact absurd hold (by simp)
      · rw [hlookup] at hold
        exact (h _ f hlookup).2 k hold
    · obtain ⟨q, hq, rfl⟩ := List.mem_map.mp hnew
      rcases List.mem_append.mp hq with hq | hq
      · obtain ⟨a, ha, rfl⟩ := List.mem_map.mp hq
        exact (htrims.2 a ha).trim
      · rw [List.mem_singleton.mp hq]
        exact timestampKey_trims
  · rw [if_neg ht] at hf
    exact h t f hf

/-! ## A put that faults -/

variable {e : Fault} {mapInfo : Nat}

end

/-! ## A snapshot -/

section
variable {ν : Type} {n m : OrderedMap CString ν} {k : CString} {v : ν} {i : Nat}

theorem entries_copy (hm : m.entries = n.entries.take i) (hi : n.entries[i]? = some (k, v)) :
    (m.alter k fun _ => v).entries = n.entries.take (i + 1) ∧ m.lookup k = none := by
  have htake : n.entries.take (i + 1) = n.entries.take i ++ [(k, v)] := by
    rw [List.take_add_one, hi]
    rfl
  have hnew : k ∉ m.keys := by
    rw [OrderedMap.keys, hm]
    exact next_key_notMem (htake ▸ List.take_prefix _ _)
  refine ⟨?_, OrderedMap.lookup_eq_none.mpr hnew⟩
  rw [htake, ← hm]
  exact OrderedMap.alterEntries_of_notMem _ hnew

end

section
variable {src d q : Nat} {block : Block EntryP} {es : List EntryP} {f : Fields}
  {Fe S : Footprint Cell}

theorem copyFieldsFromP_spec (h : MapBlocks StrAt src q block es f.entries Fe S)
    (hsize : f.size ≤ 16) (htrimmed : ∀ k ∈ f.keys, trim k = k) (htrims : f.Trim below) :
    ∀ n index {c : Fields} {Fd : Footprint Cell}, index + n = f.size → FieldsAt d c Fd →
      c.entries = f.entries.take index →
      Spec (Fd + S) (copyFieldsFromP below src d n index) fun _ F' =>
        ∃ Fd', FieldsAt d f Fd' ∧ F' = Fd' + S := by
  intro n
  induction n with
  | zero =>
    intro index c Fd hindex hc hentries
    rw [List.take_of_length_le (by unfold OrderedMap.size at hindex; omega)] at hentries
    rw [OrderedMap.ext hentries] at hc
    exact Spec.pure ⟨Fd, hc, rfl⟩
  | succ n ih =>
    intro index c Fd hindex hc hentries
    have hlt : index < f.entries.length := by unfold OrderedMap.size at hindex; omega
    have hi : f.entries[index]? = some (f.entries[index].1, f.entries[index].2) :=
      List.getElem?_eq_getElem hlt
    generalize f.entries[index].1 = k at hi
    generalize f.entries[index].2 = v at hi
    obtain ⟨e, _, G, he, rfl, hFe, _⟩ := h.entries.focus hi
    have hkey : (e.key, .str k) ∈ S := h.entry_mem (by simp [hFe])
    have hcontent : (e.content, .str v) ∈ S := h.entry_mem (by simp [hFe])
    have hmem : k ∈ f.keys := List.mem_map.mpr ⟨(k, v), List.mem_of_getElem? hi, rfl⟩
    have hk : trim k = k := htrimmed k hmem
    obtain ⟨hcopy, _⟩ := entries_copy hentries hi
    have hroom : (c.alter (trim k) fun _ => v).size ≤ 16 := by
      rw [hk, OrderedMap.size, hcopy, List.length_take]
      exact le_trans (Nat.min_le_right _ _) hsize
    refine (flatmapGetByIndexP_spec (mem_behind h.map_mem) hlt).bind ?_
    rintro _ _ ⟨rfl, rfl⟩
    refine (readEntry_spec (mem_behind h.map_mem) (mem_behind h.block_mem) (h.read he)).bind ?_
    rintro e _ ⟨rfl, rfl⟩
    refine (readStr_spec (mem_behind hkey)).bind ?_
    rintro _ _ ⟨rfl, rfl⟩
    refine (readStr_spec (mem_behind hcontent)).bind ?_
    rintro _ _ ⟨rfl, rfl⟩
    refine Spec.seq (putFieldP_spec hc (htrims _ hmem) _ hroom) rfl ?_
    intro _ Fd₁ h₁
    rw [hk] at h₁
    exact ih (index + 1) (by omega) h₁ hcopy

theorem assignContentCopyP_assigns (h : FieldsAt src f S) (htrims : f.Trim below) :
    AssignsTo FieldsAt (assignContentCopyP below) src S none f := by
  obtain ⟨hsize, htrimmed, q, block, es, Fe, hblocks⟩ := h
  unfold AssignsTo assignContentCopyP
  rw [if_neg (by simp)]
  refine (newMapInfoP_spec StrAt).bind ?_
  rintro d _ ⟨Fd, hFd, rfl⟩
  refine (readMap_spec (mem_behind hblocks.map_mem)).bind ?_
  rintro _ _ ⟨rfl, rfl⟩
  refine (copyFieldsFromP_spec hblocks hsize htrimmed htrims f.size 0 (by omega) hFd rfl).bind ?_
  rintro _ _ ⟨Fd', h', rfl⟩
  exact Spec.pure ⟨Fd', h', rfl⟩

end

section
variable {p q mapCopy : Nat} {block : Block EntryP} {es : List EntryP} {s : Store}
  {Fe F : Footprint Cell}

theorem matching_take (filter : CString) {t : CString} {f : Fields} {i : Nat}
    (hi : s.entries[i]? = some (t, f)) :
    (s.entries.take (i + 1)).filter (fun e => 0 < matchTopic filter e.1) =
      (s.entries.take i).filter (fun e => 0 < matchTopic filter e.1) ++
        if 0 < matchTopic filter t then [(t, f)] else [] := by
  rw [List.take_add_one, hi, List.filter_append]
  by_cases hmatch : 0 < matchTopic filter t
  · simp [hmatch]
  · simp [hmatch]

theorem copyMatchingFromP_spec (h : MapBlocks FieldsAt p q block es s.entries Fe F)
    (hsize : s.size ≤ 16) (htrimmed : ∀ t ∈ s.keys, trim t = t) (htrims : s.Trim below)
    (filter : CString) :
    ∀ n index {c : Store} {Fc : Footprint Cell}, index + n = s.size → TopicsAt mapCopy c Fc →
      c.entries = (s.entries.take index).filter (fun e => 0 < matchTopic filter e.1) →
      Spec (Fc + F) (copyMatchingFromP below p filter mapCopy n index) fun _ F' =>
        ∃ Fc', TopicsAt mapCopy (s.matching filter) Fc' ∧ F' = Fc' + F := by
  intro n
  induction n with
  | zero =>
    intro index c Fc hindex hc hentries
    rw [List.take_of_length_le (by unfold OrderedMap.size at hindex; omega)] at hentries
    rw [OrderedMap.ext (n := s.matching filter) hentries] at hc
    exact Spec.pure ⟨Fc, hc, rfl⟩
  | succ n ih =>
    intro index c Fc hindex hc hentries
    have hlt : index < s.entries.length := by unfold OrderedMap.size at hindex; omega
    have hi : s.entries[index]? = some (s.entries[index].1, s.entries[index].2) :=
      List.getElem?_eq_getElem hlt
    generalize s.entries[index].1 = t at hi
    generalize s.entries[index].2 = f at hi
    obtain ⟨e, S, G, he, hS, hFe, _⟩ := h.entries.focus hi
    have hkey : (e.key, .str t) ∈ F := h.entry_mem (by simp [hFe])
    have ht : trim t = t :=
      htrimmed t (List.mem_map.mpr ⟨(t, f), List.mem_of_getElem? hi, rfl⟩)
    obtain ⟨htopic, hfields⟩ :=
      htrims t f (OrderedMap.lookup_eq_some.mpr (List.mem_of_getElem? hi))
    refine (flatmapGetByIndexP_spec (mem_behind h.map_mem) hlt).bind ?_
    rintro _ _ ⟨rfl, rfl⟩
    refine (readEntry_spec (mem_behind h.map_mem) (mem_behind h.block_mem) (h.read he)).bind ?_
    rintro e _ ⟨rfl, rfl⟩
    refine (readStr_spec (mem_behind hkey)).bind ?_
    rintro t _ ⟨rfl, rfl⟩
    have hnext := matching_take filter hi
    by_cases hmatch : 0 < matchTopic filter t
    · rw [if_pos hmatch] at hnext
      have hnew : t ∉ c.keys := by
        have hprefix : s.entries.take index ++ [(t, f)] <+: s.entries := by
          have htake := List.take_prefix (index + 1) s.entries
          rwa [List.take_add_one, hi] at htake
        intro hmem
        rw [OrderedMap.keys, hentries] at hmem
        exact next_key_notMem hprefix ((List.filter_sublist.map Prod.fst).subset hmem)
      have hcopy : (c.alter t fun _ => f).entries =
          (s.entries.take (index + 1)).filter (fun e => 0 < matchTopic filter e.1) := by
        rw [hnext, ← hentries]
        exact OrderedMap.alterEntries_of_notMem _ hnew
      have hroom : (c.alter (trim t) fun _ => f).size ≤ 16 := by
        rw [ht, OrderedMap.size, hcopy]
        refine le_trans (List.length_filter_le _ _) ?_
        rw [List.length_take]
        exact le_trans (Nat.min_le_right _ _) hsize
      have hassign : AssignsTo FieldsAt (assignContentCopyP below) e.content S
          (c.lookup (trim t)) f := by
        rw [ht, OrderedMap.lookup_eq_none.mpr hnew]
        exact assignContentCopyP_assigns hS hfields
      rw [if_pos hmatch]
      refine Spec.seq (flatmapPutP_spec hc htopic hroom hassign) (G := {(p, .mapInfo ⟨q, 16,
        s.entries.length⟩)} + ({(q, .entries block)} + ({(e.key, .str t)} + G))) ?_ ?_
      · rw [h.blocks, hFe]
        abel
      rintro _ _ ⟨Fc₁, h₁, rfl⟩
      rw [ht] at h₁
      have hF : Fc₁ + S + ({(p, .mapInfo ⟨q, 16, s.entries.length⟩)} +
          ({(q, .entries block)} + ({(e.key, .str t)} + G))) = Fc₁ + F := by
        rw [h.blocks, hFe]
        abel
      rw [hF]
      exact ih (index + 1) (by omega) h₁ hcopy
    · rw [if_neg hmatch, List.append_nil, ← hentries] at hnext
      rw [if_neg hmatch]
      exact ih (index + 1) (by omega) hc hnext.symm

/-- **A snapshot on the heap**: the store's blocks stay, and the copy has blocks of its own. -/
theorem mqttBufferGetMatchingP_spec (h : TopicsAt p s F) (htrims : s.Trim below)
    (filter : CString) {m : MapInfoP} :
    Spec ({(mapCopy, .mapInfo m)} + F) (mqttBufferGetMatchingP below p filter mapCopy) fun _ F' =>
      ∃ Fc, TopicsAt mapCopy (s.matching filter) Fc ∧ F' = Fc + F := by
  obtain ⟨hsize, htrimmed, q, block, es, Fe, hblocks⟩ := h
  refine (Spec.store badAccess rfl _).bind ?_
  rintro _ _ rfl
  refine Spec.seq (flatmapInitP_spec (C := FieldsAt) rfl) rfl ?_
  intro _ Fc hFc
  refine (readMap_spec (mem_behind hblocks.map_mem)).bind ?_
  rintro _ _ ⟨rfl, rfl⟩
  exact copyMatchingFromP_spec hblocks hsize htrimmed htrims filter s.size 0 (by omega) hFc rfl

/-! ## Freeing -/

theorem freeFieldsP_spec {c : Nat} {f : Fields} (h : FieldsAt c f F) :
    Spec F (flatmapFreeP freeContentChildP c) fun _ F' => F' = {(c, .mapInfo ⟨0, 16, 0⟩)} := by
  refine (flatmapFreeP_spec (L := fun F' => F' = 0) h ?_).mono ?_
  · rintro _ _ c _ _ rfl
    exact free_spec (by rw [add_zero])
  · rintro _ _ ⟨G, hG, rfl⟩
    rw [hG.eq_zero, add_zero]

theorem freeContentCopyP_spec {c : Nat} {f : Fields} (h : FieldsAt c f F) :
    Spec F (freeContentCopyP c) fun _ F' => F' = 0 := by
  refine (freeFieldsP_spec h).bind ?_
  rintro _ _ rfl
  refine (readMap_spec (Multiset.mem_singleton_self _)).bind ?_
  rintro _ _ ⟨rfl, rfl⟩
  rw [if_neg (by simp), if_neg (by simp)]
  exact free_spec (by rw [add_zero])

/-- `freeContent` leaves the `MapInfo` behind the pointer that it sets to null. -/
theorem freeContentP_spec {c : Nat} {f : Fields} (h : FieldsAt c f F) :
    Spec F (freeContentP c) fun _ F' => ∃ c, F' = {(c, .mapInfo ⟨0, 16, 0⟩)} := by
  refine (freeFieldsP_spec h).bind ?_
  rintro _ _ rfl
  exact free_null.mono fun _ _ hF => ⟨c, hF⟩

/-- **`flatmap_free` of a snapshot** takes away all of its blocks but the caller's `MapInfo`. -/
theorem freeSnapshot_spec (h : TopicsAt mapCopy s F) :
    Spec F (flatmapFreeP freeContentCopyP mapCopy) fun _ F' =>
      F' = {(mapCopy, .mapInfo ⟨0, 16, 0⟩)} := by
  refine (flatmapFreeP_spec (L := fun F' => F' = 0) h
    fun _ _ _ _ _ hc => freeContentCopyP_spec hc).mono ?_
  rintro _ _ ⟨G, hG, rfl⟩
  rw [hG.eq_zero, add_zero]

end

end HomeAutomation
