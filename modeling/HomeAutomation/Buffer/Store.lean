import HomeAutomation.Buffer.Basic
import HomeAutomation.Flatmap.Refinement

/-!
# The store as a map of maps

The purpose of the message store, as an ordered map from trimmed topics to ordered maps from
trimmed fields to values: a put on a topic overwrites the fields its payload assigns and the
timestamp (`Store.put`). `Holds R m n` connects a flat map of 16 slots to the ordered map it stands
for; `BufferHolds` does so for the store, and `mqttBufferPut_holds` is the refinement, as long as
no map needs more than its 16 slots (`Store.Fits`).
-/

namespace HomeAutomation

/-! ## Flat maps of related contents -/

section
variable {γ σ : Type} {ν : Type}

/-- The flat map `m`, made with 16 slots, stands for the ordered map `n`: same keys in the same
order, no null content, contents related by `R`. -/
def Holds (R : γ → ν → Prop) (m : MapInfo γ) (n : OrderedMap CString ν) : Prop :=
  ∃ d, Rep m d ∧ m.entriesMax = 16 ∧ d.Rel (fun o v => ∃ c, o = some c ∧ R c v) n

variable {R : γ → ν → Prop} {m : MapInfo γ} {n : OrderedMap CString ν}

theorem flatmapInit_holds (R : γ → ν → Prop) :
    ∃ m : MapInfo γ, flatmapInit (MapInfo.fresh 16) = .ok m ∧ Holds R m OrderedMap.empty := by
  obtain ⟨m, hinit, hrep, hmax⟩ := flatmapInit_sixteen (γ := γ)
  exact ⟨m, hinit, OrderedMap.empty, hrep, hmax, OrderedMap.Rel.empty⟩

theorem Holds.count (h : Holds R m n) : flatmapGetEntryCount m = n.size := by
  obtain ⟨d, hrep, _, hrel⟩ := h
  rw [flatmapGetEntryCount, hrep.len, hrel.size_eq]

theorem Holds.trimmed (h : Holds R m n) : ∀ k ∈ n.keys, trim k = k := by
  obtain ⟨d, hrep, _, hrel⟩ := h
  rw [← hrel.keys_eq]
  exact hrep.trimmed

theorem Holds.content (h : Holds R m n) (key : CString) :
    (contentAt m key = .ok none ∧ n.lookup (trim key) = none) ∨
      ∃ c v, contentAt m key = .ok (some c) ∧ n.lookup (trim key) = some v ∧ R c v := by
  obtain ⟨d, hrep, _, hrel⟩ := h
  rw [contentAt_rep hrep]
  rcases hrel.lookup (trim key) with ⟨hd, hn⟩ | ⟨a, v, ha, hv, c, hc, hR⟩
  · exact Or.inl ⟨by rw [hd]; rfl, hn⟩
  · exact Or.inr ⟨c, v, by rw [ha, hc]; rfl, hv, hR⟩

theorem Holds.getByIndex (h : Holds R m n) (i : Nat) :
    (flatmapGetByIndex m i = .ok none ∧ n.entries[i]? = none) ∨
      ∃ k c v, flatmapGetByIndex m i = .ok (some ⟨k, some c⟩) ∧ n.entries[i]? = some (k, v) ∧
        R c v := by
  obtain ⟨d, hrep, _, hrel⟩ := h
  rw [flatmapGetByIndex_rep hrep]
  rcases hrel.getElem? i with ⟨hd, hn⟩ | ⟨p, q, hp, hq, hkey, c, hc, hR⟩
  · exact Or.inl ⟨by rw [hd]; rfl, hn⟩
  · refine Or.inr ⟨q.1, c, q.2, ?_, hq, hR⟩
    rw [hp, ← hkey, ← hc]
    rfl

/-- A put with a callback that turns related contents into related contents. -/
theorem Holds.put (h : Holds R m n) (assignContent : σ → Option γ → Except Fault (Option γ))
    (key : CString) (content : σ) (g : Option ν → ν)
    (hroom : (n.alter (trim key) g).size ≤ 16)
    (hnew : n.lookup (trim key) = none →
      ∃ c, assignContent content none = .ok (some c) ∧ R c (g none))
    (hold : ∀ c v, R c v → n.lookup (trim key) = some v →
      ∃ c', assignContent content (some c) = .ok (some c') ∧ R c' (g (some v))) :
    ∃ m', flatmapPut assignContent m key content = .ok m' ∧ Holds R m' (n.alter (trim key) g) ∧
      ∀ k, trim k ≠ trim key → contentAt m' k = contentAt m k := by
  obtain ⟨d, hrep, hmax, hrel⟩ := h
  have hframe : ∀ {m' : MapInfo γ} {c' : Option γ}, Rep m' (d.alter (trim key) fun _ => c') →
      ∀ k, trim k ≠ trim key → contentAt m' k = contentAt m k := by
    intro m' c' hrep' k hk
    rw [contentAt_rep hrep', contentAt_rep hrep, OrderedMap.lookup_alter, if_neg hk]
  have hslot : trim key ∈ d.keys ∨ d.size < m.entriesMax := by
    rw [OrderedMap.size_alter] at hroom
    rw [hrel.keys_eq, hrel.size_eq, hmax]
    by_cases hk : trim key ∈ n.keys
    · exact Or.inl hk
    · rw [if_neg hk] at hroom
      exact Or.inr (by omega)
  rcases hrel.lookup (trim key) with ⟨hd, hn⟩ | ⟨o, v, ho, hv, c, hc, hR⟩
  · obtain ⟨c, hassign, hRc⟩ := hnew hn
    obtain ⟨m', hput, hrep', hmax'⟩ := flatmapPut_rep assignContent key content hrep hslot
      (by rw [hd]; exact hassign)
    refine ⟨m', hput, ⟨_, hrep', hmax'.trans hmax, ?_⟩, hframe hrep'⟩
    refine hrel.alter (trim key) ⟨c, rfl, hRc⟩ ?_
    intro a b _ ha _
    rw [hd] at ha
    cases ha
  · obtain ⟨c', hassign, hRc⟩ := hold c v hR hv
    obtain ⟨m', hput, hrep', hmax'⟩ := flatmapPut_rep assignContent key content hrep hslot
      (by rw [ho, hc]; exact hassign)
    refine ⟨m', hput, ⟨_, hrep', hmax'.trans hmax, ?_⟩, hframe hrep'⟩
    have hrel' : (d.alter (trim key) fun _ => some c').Rel (fun o v => ∃ c, o = some c ∧ R c v)
        (n.alter (trim key) fun _ => g (some v)) :=
      hrel.alter (trim key) ⟨c', rfl, hRc⟩ fun _ _ _ _ _ => ⟨c', rfl, hRc⟩
    have hg : (n.alter (trim key) fun _ => g (some v)) = n.alter (trim key) g := by
      rw [← hv]
      exact n.alter_const_lookup (trim key) g
    rwa [hg] at hrel'

/-- A loop over the entries: what a round preserves, indexed by the entries already passed, holds
of all of them at the end. -/
theorem forEntriesFrom_holds (h : Holds R m n) (body : σ → Entry γ → Except Fault σ)
    {S : σ → List (CString × ν) → Prop}
    (hstep : ∀ s l k c v, l ++ [(k, v)] <+: n.entries → R c v → S s l →
      ∃ s', body s ⟨k, some c⟩ = .ok s' ∧ S s' (l ++ [(k, v)])) :
    ∀ (len index : Nat) (s : σ), index + len = n.size → S s (n.entries.take index) →
      ∃ s', forEntriesFrom m body len index s = .ok s' ∧ S s' n.entries := by
  intro len
  induction len with
  | zero =>
    intro index s hlen hS
    have htake : n.entries.take index = n.entries :=
      List.take_of_length_le (by unfold OrderedMap.size at hlen; omega)
    rw [htake] at hS
    exact ⟨s, rfl, hS⟩
  | succ len ih =>
    intro index s hlen hS
    have hlt : index < n.entries.length := by unfold OrderedMap.size at hlen; omega
    rcases h.getByIndex index with ⟨_, hnone⟩ | ⟨k, c, v, hget, hentry, hR⟩
    · rw [List.getElem?_eq_getElem hlt] at hnone
      cases hnone
    · have htake : n.entries.take (index + 1) = n.entries.take index ++ [(k, v)] := by
        rw [List.take_add_one, hentry]
        rfl
      obtain ⟨s1, hbody, hS1⟩ := hstep s _ k c v (htake ▸ List.take_prefix _ _) hR hS
      obtain ⟨s', hrest, hS'⟩ := ih (index + 1) s1 (by omega) (htake ▸ hS1)
      refine ⟨s', ?_, hS'⟩
      simp only [forEntriesFrom, hget, hbody, Runs.ok_bind]
      exact hrest

/-- A loop whose body reads related contents alike is a loop over the entries. -/
theorem forEntries_eq_foldlM (h : Holds R m n) {body : σ → Entry γ → Except Fault σ}
    (g : σ → CString × ν → Except Fault σ)
    (hbody : ∀ s k c v, R c v → body s ⟨k, some c⟩ = g s (k, v)) (s : σ) :
    forEntries m body s = n.entries.foldlM g s := by
  have hfrom : ∀ (len index : Nat) (s : σ), index + len = n.size →
      forEntriesFrom m body len index s = (n.entries.drop index).foldlM g s := by
    intro len
    induction len with
    | zero =>
      intro index s hlen
      rw [List.drop_eq_nil_of_le (by unfold OrderedMap.size at hlen; omega)]
      rfl
    | succ len ih =>
      intro index s hlen
      have hlt : index < n.entries.length := by unfold OrderedMap.size at hlen; omega
      rcases h.getByIndex index with ⟨_, hnone⟩ | ⟨k, c, v, hget, hentry, hR⟩
      · rw [List.getElem?_eq_getElem hlt] at hnone
        exact absurd hnone (Option.some_ne_none _)
      · have hcons : n.entries.drop index = (k, v) :: n.entries.drop (index + 1) := by
          rw [List.drop_eq_getElem_cons hlt, (List.getElem?_eq_some_iff.mp hentry).2]
        rw [hcons, List.foldlM_cons, ← hbody s k c v hR]
        simp only [forEntriesFrom, hget, Runs.ok_bind]
        congr 1
        funext s'
        exact ih (index + 1) s' (by omega)
  rw [forEntries, h.count]
  exact hfrom n.size 0 s (by omega)

theorem forEntries_holds (h : Holds R m n) (body : σ → Entry γ → Except Fault σ)
    {S : σ → List (CString × ν) → Prop}
    (hstep : ∀ s l k c v, l ++ [(k, v)] <+: n.entries → R c v → S s l →
      ∃ s', body s ⟨k, some c⟩ = .ok s' ∧ S s' (l ++ [(k, v)])) {s : σ} (hS : S s []) :
    ∃ s', forEntries m body s = .ok s' ∧ S s' n.entries := by
  rw [forEntries, h.count]
  exact forEntriesFrom_holds h body hstep n.size 0 s (by omega) (by simpa using hS)

end

/-! ## The abstract store -/

/-- The values of a topic's fields. -/
abbrev Fields := OrderedMap CString CString

/-- The fields of every topic. -/
abbrev Store := OrderedMap CString Fields

/-- What a payload assigns, keys trimmed. -/
def payloadAssignments (payload : CString) : List (CString × CString) :=
  (assignments (some payload)).map fun a => (trim a.1, a.2)

/-- What a put assigns: the payload's assignments, then the timestamp. -/
def putAssignments (payload : CString) (now : BitVec 32) : List (CString × CString) :=
  payloadAssignments payload ++ [(timestampKey, decimal now.toNat)]

/-- The fields after a put, over the old ones. -/
def overwrite (old : Option Fields) (l : List (CString × CString)) : Fields :=
  (old.getD OrderedMap.empty).alterAll (fun s _ => s) l

def Store.put (s : Store) (topic payload : CString) (now : BitVec 32) : Store :=
  s.alter (trim topic) fun old => overwrite old (putAssignments payload now)

/-- Every map of the store is within 16 entries. -/
structure Store.Fits (s : Store) : Prop where
  topics : s.size ≤ 16
  fields : ∀ t f, s.lookup t = some f → f.size ≤ 16

theorem Store.fits_empty : Store.Fits OrderedMap.empty := by
  refine ⟨by simp, ?_⟩
  intro t f h
  rw [OrderedMap.lookup_empty] at h
  cases h

theorem size_le_overwrite (old : Fields) (l : List (CString × CString)) :
    old.size ≤ (overwrite (some old) l).size := OrderedMap.size_le_alterAll _ old l

theorem Store.fits_of_put {s : Store} {topic payload : CString} {now : BitVec 32}
    (h : (s.put topic payload now).Fits) : s.Fits := by
  refine ⟨le_trans (OrderedMap.size_le_alter s _ _) h.topics, ?_⟩
  intro t f hf
  by_cases ht : t = trim topic
  · subst ht
    have hnew := h.fields (trim topic) (overwrite (some f) (putAssignments payload now))
      (by rw [Store.put, OrderedMap.lookup_alter, if_pos rfl, hf])
    exact le_trans (size_le_overwrite f _) hnew
  · exact h.fields t f (by rw [Store.put, OrderedMap.lookup_alter, if_neg ht, hf])

/-- The value of a field of a topic. -/
def Store.value (s : Store) (topic k : CString) : Option CString :=
  (s.lookup topic).bind fun f => f.lookup k

/-- A put gives the fields of its topic the last values that the payload assigns; the timestamp
aside. -/
theorem Store.value_put (s : Store) (topic payload : CString) (now : BitVec 32) {k : CString}
    (hk : k ≠ timestampKey) :
    (s.put topic payload now).value (trim topic) k =
      ((OrderedMap.valuesOf k (payloadAssignments payload)).getLast?).or
        (s.value (trim topic) k) := by
  have hstamp : OrderedMap.valuesOf k [(timestampKey, decimal now.toNat)] = [] :=
    OrderedMap.valuesOf_eq_nil.mpr (by simpa using hk)
  have hold : ((s.lookup (trim topic)).getD OrderedMap.empty).lookup k =
      s.value (trim topic) k := by
    rw [Store.value]
    cases s.lookup (trim topic) <;> rfl
  rw [Store.value, Store.put, OrderedMap.lookup_alter, if_pos rfl, Option.bind_some, overwrite,
    OrderedMap.lookup_overwrite, putAssignments, OrderedMap.valuesOf_append, hstamp,
    List.append_nil, hold]

theorem Store.value_put_other (s : Store) {topic t : CString} (payload : CString) (now : BitVec 32)
    (ht : trim t ≠ trim topic) (k : CString) :
    (s.put t payload now).value (trim topic) k = s.value (trim topic) k := by
  rw [Store.value, Store.value, Store.put, OrderedMap.lookup_alter, if_neg (Ne.symm ht)]

/-! ## The refinement -/

/-- The field map `m` stands for the fields `f`. -/
def FieldsHold (m : FieldMap) (f : Fields) : Prop := Holds Eq m f

theorem FieldsHold.contentAt_eq {m : FieldMap} {f : Fields} (h : FieldsHold m f) (k : CString) :
    contentAt m k = .ok (f.lookup (trim k)) := by
  rcases Holds.content h k with ⟨hget, hnone⟩ | ⟨c, v, hget, hv, rfl⟩
  · rw [hget, hnone]
  · rw [hget, hv]

/-- The store `b` stands for `s`; before the first call it is empty. -/
def BufferHolds (b : Buffer) (s : Store) : Prop :=
  if b.initialized then Holds FieldsHold b.mapInfo s else s = OrderedMap.empty

theorem BufferHolds.boot : BufferHolds Buffer.boot OrderedMap.empty := by
  simp [BufferHolds, Buffer.boot]

theorem initializeBuffer_holds {b : Buffer} {s : Store} (h : BufferHolds b s) :
    ∃ b', initializeBuffer b = .ok b' ∧ b'.initialized = true ∧ Holds FieldsHold b'.mapInfo s := by
  unfold BufferHolds at h
  unfold initializeBuffer
  cases hb : b.initialized with
  | true =>
    rw [hb, if_pos rfl] at h
    exact ⟨b, by simp, hb, h⟩
  | false =>
    simp only [hb, Bool.false_eq_true, if_false] at h
    obtain ⟨m, hinit, hholds⟩ := flatmapInit_holds FieldsHold
    refine ⟨⟨true, m⟩, ?_, rfl, h ▸ hholds⟩
    simp only [Bool.false_eq_true, if_false, hinit, Runs.ok_bind]

theorem storeEntry_holds {b : Buffer} {s : Store} (h : BufferHolds b s) (t : CString) :
    (storeEntry b t = .ok none ∧ s.lookup (trim t) = none) ∨
      ∃ m f, storeEntry b t = .ok (some m) ∧ s.lookup (trim t) = some f ∧ FieldsHold m f := by
  obtain ⟨b', hinit, _, h'⟩ := initializeBuffer_holds h
  have heq : storeEntry b t = contentAt b'.mapInfo t := by
    rw [storeEntry, hinit, Runs.ok_bind]
  rw [heq]
  exact h'.content t

theorem BufferHolds.of_holds {b : Buffer} {s : Store} (hb : b.initialized = true)
    (h : Holds FieldsHold b.mapInfo s) : BufferHolds b s := by
  rw [BufferHolds, if_pos hb]
  exact h

theorem BufferHolds.afterInit {b b' : Buffer} {s : Store} (h : BufferHolds b s)
    (hinit : initializeBuffer b = .ok b') : BufferHolds b' s := by
  obtain ⟨b1, hinit1, hb1, h1⟩ := initializeBuffer_holds h
  rw [hinit, Except.ok.injEq] at hinit1
  exact hinit1 ▸ BufferHolds.of_holds hb1 h1

theorem assignContentChild_holds {m : FieldMap} {f : Fields} (h : FieldsHold m f)
    (key value : CString) (hroom : (f.alter (trim key) fun _ => value).size ≤ 16) :
    ∃ m', flatmapPut assignContentChild m key (some value) = .ok m' ∧
      FieldsHold m' (f.alter (trim key) fun _ => value) := by
  obtain ⟨m', hput, h', _⟩ := h.put assignContentChild key (some value) (fun _ => value) hroom
    (fun _ => ⟨value, rfl, rfl⟩) (fun _ _ _ _ => ⟨value, rfl, rfl⟩)
  exact ⟨m', hput, h'⟩

/-- The loop of `assignContent` overwrites with the payload's assignments. -/
theorem assignContentLoop_holds :
    ∀ (cursor : Option CString) {m : FieldMap} {f : Fields}, FieldsHold m f →
      (f.alterAll (fun s _ => s) ((assignments cursor).map fun a => (trim a.1, a.2))).size ≤ 16 →
      ∃ m', assignContentLoop m cursor = .ok m' ∧
        FieldsHold m'
      (f.alterAll (fun s _ => s) ((assignments cursor).map fun a => (trim a.1, a.2))) := by
  intro cursor
  induction hn : cursorSize cursor using Nat.strong_induction_on generalizing cursor with
  | _ n ih =>
    intro m f h hroom
    cases hnext : nextAssignment cursor with
    | none =>
      rw [assignments_break hnext, List.map_nil, OrderedMap.alterAll_nil]
      exact ⟨m, assignContentLoop_break hnext, h⟩
    | some step =>
      obtain ⟨a, cursor'⟩ := step
      have hlt : cursorSize cursor' < n := hn ▸ cursorSize_nextAssignment hnext
      rw [assignments_step hnext, List.map_cons, OrderedMap.alterAll_cons] at hroom ⊢
      obtain ⟨m1, hput, h1⟩ := assignContentChild_holds h a.1 a.2
        (le_trans (OrderedMap.size_le_alterAll _ _ _) hroom)
      obtain ⟨m', hloop, h'⟩ := ih _ hlt cursor' rfl h1 hroom
      exact ⟨m', by rw [assignContentLoop_step hnext, hput, Runs.ok_bind, hloop], h'⟩

theorem trim_timestampKey : trim timestampKey = timestampKey := by decide

/-- `assignContent` on fields that stand for `f`, or on a new topic. -/
theorem assignContent_holds (now : BitVec 32) (payload : CString) {m : FieldMap} {f : Fields}
    (h : FieldsHold m f) (hroom : (overwrite (some f) (putAssignments payload now)).size ≤ 16) :
    ∃ m', assignContent now payload (some m) = .ok (some m') ∧
      FieldsHold m' (overwrite (some f) (putAssignments payload now)) := by
  have hsplit : overwrite (some f) (putAssignments payload now) =
      (f.alterAll (fun s _ => s) (payloadAssignments payload)).alter timestampKey
        fun _ => decimal now.toNat := by
    rw [overwrite, putAssignments, Option.getD_some, OrderedMap.alterAll_append]
    rfl
  rw [hsplit] at hroom ⊢
  obtain ⟨m1, hloop, h1⟩ := assignContentLoop_holds (some payload) h
    (le_trans (OrderedMap.size_le_alter _ _ _) hroom)
  have hput := assignContentChild_holds h1 timestampKey (decimal now.toNat)
  rw [trim_timestampKey] at hput
  obtain ⟨m', hput, h'⟩ := hput hroom
  refine ⟨m', ?_, h'⟩
  simp only [assignContent, hloop, hput, Runs.ok_bind]

theorem assignContent_new (now : BitVec 32) (payload : CString)
    (hroom : (overwrite none (putAssignments payload now)).size ≤ 16) :
    ∃ m', assignContent now payload none = .ok (some m') ∧
      FieldsHold m' (overwrite none (putAssignments payload now)) := by
  obtain ⟨m, hinit, h⟩ := flatmapInit_holds (γ := CString) Eq
  obtain ⟨m', hassign, h'⟩ := assignContent_holds now payload (f := OrderedMap.empty) h hroom
  refine ⟨m', ?_, h'⟩
  rw [← hassign]
  simp only [assignContent, hinit, Runs.ok_bind]

/-- **`mqttBuffer_put` is the put of the abstract store.** -/
theorem mqttBufferPut_holds {b : Buffer} {s : Store} (h : BufferHolds b s) (topic data : List Char)
    (now : BitVec 32) (hfits : (s.put (cstr topic) (cstr data) now).Fits) :
    ∃ b', mqttBufferPut b topic data now = .ok b' ∧
      BufferHolds b' (s.put (cstr topic) (cstr data) now) ∧
      ∀ t, trim t ≠ trim (cstr topic) → storeEntry b' t = storeEntry b t := by
  obtain ⟨b1, hinit, hb1, h1⟩ := initializeBuffer_holds h
  have hlookup : (s.put (cstr topic) (cstr data) now).lookup (trim (cstr topic)) =
      some (overwrite (s.lookup (trim (cstr topic))) (putAssignments (cstr data) now)) := by
    rw [Store.put, OrderedMap.lookup_alter, if_pos rfl]
  have hroom := hfits.fields _ _ hlookup
  obtain ⟨m', hput, h', hframe⟩ := h1.put (assignContent now) (cstr topic) (cstr data) _ hfits.topics
    (fun hnone => assignContent_new now (cstr data) (by rw [hnone] at hroom; exact hroom))
    (fun c v hR hv => assignContent_holds now (cstr data) hR (by rw [hv] at hroom; exact hroom))
  refine ⟨{ b1 with mapInfo := m' }, ?_, BufferHolds.of_holds hb1 h', ?_⟩
  · simp only [mqttBufferPut, hinit, hput, Runs.ok_bind]
  · intro t ht
    have hb' : initializeBuffer { b1 with mapInfo := m' } = .ok { b1 with mapInfo := m' } := by
      simp [initializeBuffer, hb1]
    simp only [storeEntry, hb', hinit, Runs.ok_bind]
    exact hframe t ht

/-- The abstract store after a run of puts. -/
def Store.putAll (s : Store) (puts : List Put) : Store :=
  puts.foldl (fun s p => s.put (cstr p.topic) (cstr p.data) p.now) s

/-- A run of `mqttBuffer_put` calls is a run of abstract puts, as long as every map fits. -/
theorem mqttBufferPutAll_holds {b : Buffer} {s : Store} (h : BufferHolds b s) (puts : List Put)
    (hfits : (s.putAll puts).Fits) :
    ∃ b', mqttBufferPutAll b puts = .ok b' ∧ BufferHolds b' (s.putAll puts) :=
  Runs.foldlM_sim (R := BufferHolds) (B := Store.Fits)
    (fun _ _ p hb hfit => by
      obtain ⟨b', hput, hb', _⟩ := mqttBufferPut_holds hb p.topic p.data p.now hfit
      exact ⟨b', hput, hb'⟩)
    (fun _ _ hfit => Store.fits_of_put hfit) puts h hfits

end HomeAutomation
