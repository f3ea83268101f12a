import HomeAutomation.Buffer.Store

/-!
# Puts that succeed

The puts that return are exactly those after which every map of the store is within its 16 slots
(`mqttBufferPut_ok_iff`): a put that needs a seventeenth slot writes outside the block.
-/

namespace HomeAutomation

section
variable {γ σ ν : Type} {R : γ → ν → Prop} {m m' : MapInfo γ} {n : OrderedMap CString ν}
  {assignContent : σ → Option γ → Except Fault (Option γ)} {key : CString} {content : σ}

theorem Holds.put_room (h : Holds R m n) (hput : flatmapPut assignContent m key content = .ok m')
    (g : Option ν → ν) : (n.alter (trim key) g).size ≤ 16 := by
  obtain ⟨d, hrep, hmax, hrel⟩ := h
  have hle := hrep.le_max
  obtain ⟨hslot, _⟩ := flatmapPut_ok hrep hput
  rw [hmax, hrel.size_eq] at hle hslot
  rw [hrel.keys_eq] at hslot
  rw [OrderedMap.size_alter]
  split_ifs with hk
  · exact hle
  · exact hslot.resolve_left hk

/-- A put that returns has called the callback on the old content, and the callback has returned. -/
theorem Holds.put_assign (h : Holds R m n) (hput : flatmapPut assignContent m key content = .ok m') :
    (n.lookup (trim key) = none ∧ ∃ r, assignContent content none = .ok r) ∨
      ∃ c v, n.lookup (trim key) = some v ∧ R c v ∧ ∃ r, assignContent content (some c) = .ok r := by
  obtain ⟨d, hrep, _, hrel⟩ := h
  obtain ⟨_, r, hassign⟩ := flatmapPut_ok hrep hput
  rcases hrel.lookup (trim key) with ⟨hd, hn⟩ | ⟨o, v, ho, hv, c, hc, hcv⟩
  · rw [hd] at hassign
    exact Or.inl ⟨hn, r, hassign⟩
  · rw [ho, hc] at hassign
    exact Or.inr ⟨c, v, hv, hcv, r, hassign⟩

end

theorem assignContentLoop_room :
    ∀ (cursor : Option CString) {m m' : FieldMap} {f : Fields}, FieldsHold m f →
      assignContentLoop m cursor = .ok m' →
      (f.alterAll (fun s _ => s) ((assignments cursor).map fun a => (trim a.1, a.2))).size ≤ 16 := by
  intro cursor
  induction hn : cursorSize cursor using Nat.strong_induction_on generalizing cursor with
  | _ n ih =>
    intro m m' f h hloop
    cases hnext : nextAssignment cursor with
    | none =>
      obtain ⟨d, hrep, hmax, hrel⟩ := h
      rw [assignments_break hnext, List.map_nil, OrderedMap.alterAll_nil, ← hrel.size_eq, ← hmax]
      exact hrep.le_max
    | some step =>
      obtain ⟨a, cursor'⟩ := step
      have hlt : cursorSize cursor' < n := hn ▸ cursorSize_nextAssignment hnext
      rw [assignContentLoop_step hnext, Runs.bind_eq_ok] at hloop
      obtain ⟨m1, hput, hrest⟩ := hloop
      obtain ⟨m2, hput', h2⟩ :=
        assignContentChild_holds h a.1 a.2 (Holds.put_room h hput fun _ => a.2)
      rw [hput, Except.ok.injEq] at hput'
      subst hput'
      rw [assignments_step hnext, List.map_cons, OrderedMap.alterAll_cons]
      exact ih _ hlt cursor' rfl h2 hrest

theorem assignContent_room {now : BitVec 32} {payload : CString} {m : FieldMap} {f : Fields}
    {r : Option FieldMap} (h : FieldsHold m f)
    (hassign : assignContent now payload (some m) = .ok r) :
    (overwrite (some f) (putAssignments payload now)).size ≤ 16 := by
  simp only [assignContent, Runs.ok_bind, Runs.bind_eq_ok] at hassign
  obtain ⟨m1, hloop, m2, hput, _⟩ := hassign
  have hroom := assignContentLoop_room (some payload) h hloop
  obtain ⟨m1', hloop', h1⟩ := assignContentLoop_holds (some payload) h hroom
  rw [hloop, Except.ok.injEq] at hloop'
  subst hloop'
  have hstamp := Holds.put_room h1 hput fun _ => decimal now.toNat
  rw [trim_timestampKey] at hstamp
  rw [overwrite, putAssignments, Option.getD_some, OrderedMap.alterAll_append]
  exact hstamp

theorem assignContent_new_room {now : BitVec 32} {payload : CString} {r : Option FieldMap}
    (hassign : assignContent now payload none = .ok r) :
    (overwrite none (putAssignments payload now)).size ≤ 16 := by
  obtain ⟨m, hinit, h⟩ := flatmapInit_holds (γ := CString) (ν := CString) Eq
  refine assignContent_room (m := m) (f := OrderedMap.empty) (r := r) h ?_
  rw [← hassign]
  simp only [assignContent, hinit, Runs.ok_bind]

/-- **A put returns exactly when every map of the store fits afterwards.** -/
theorem mqttBufferPut_ok_iff {b : Buffer} {s : Store} (h : BufferHolds b s) (hfits : s.Fits)
    (topic data : List Char) (now : BitVec 32) :
    (∃ b', mqttBufferPut b topic data now = .ok b') ↔
      (s.put (cstr topic) (cstr data) now).Fits := by
  constructor
  · rintro ⟨b', hput⟩
    obtain ⟨b1, hinit, _, h1⟩ := initializeBuffer_holds h
    simp only [mqttBufferPut, hinit, Runs.ok_bind, Runs.bind_eq_ok] at hput
    obtain ⟨m', hput, _⟩ := hput
    refine ⟨h1.put_room hput _, ?_⟩
    intro t f hf
    rw [Store.put, OrderedMap.lookup_alter] at hf
    split_ifs at hf with ht
    · rw [Option.some.injEq] at hf
      rw [← hf]
      rcases h1.put_assign hput with ⟨hnone, r, hassign⟩ | ⟨c, v, hsome, hcv, r, hassign⟩
      · rw [hnone]
        exact assignContent_new_room hassign
      · rw [hsome]
        exact assignContent_room hcv hassign
    · exact hfits.fields t f hf
  · intro hfits'
    obtain ⟨b', hput, _⟩ := mqttBufferPut_holds h topic data now hfits'
    exact ⟨b', hput⟩

theorem mqttBufferPut_ok {b b' : Buffer} {s : Store} {topic data : List Char} {now : BitVec 32}
    (h : BufferHolds b s) (hfits : s.Fits) (hput : mqttBufferPut b topic data now = .ok b') :
    BufferHolds b' (s.put (cstr topic) (cstr data) now) ∧
      (s.put (cstr topic) (cstr data) now).Fits := by
  have hfits' := (mqttBufferPut_ok_iff h hfits topic data now).mp ⟨b', hput⟩
  obtain ⟨b1, hput', h', _⟩ := mqttBufferPut_holds h topic data now hfits'
  rw [hput, Except.ok.injEq] at hput'
  exact ⟨hput' ▸ h', hfits'⟩

theorem mqttBufferPutAll_ok {b b' : Buffer} {s : Store} {puts : List Put} (h : BufferHolds b s)
    (hfits : s.Fits) (hrun : mqttBufferPutAll b puts = .ok b') :
    BufferHolds b' (s.putAll puts) ∧ (s.putAll puts).Fits := by
  induction puts generalizing b s with
  | nil =>
    rw [mqttBufferPutAll, Runs.foldlM_nil, Except.ok.injEq] at hrun
    exact ⟨hrun ▸ h, hfits⟩
  | cons p puts ih =>
    rw [mqttBufferPutAll, List.foldlM_cons, Runs.bind_eq_ok] at hrun
    obtain ⟨b1, hput, hrest⟩ := hrun
    obtain ⟨h1, hfits1⟩ := mqttBufferPut_ok h hfits hput
    exact ih h1 hfits1 hrest

/-! ## Stores of few names -/

/-- The store has entries for these topics only, with these fields only. -/
structure Store.Within (topics fields : List CString) (s : Store) : Prop where
  topics : ∀ t ∈ s.keys, t ∈ topics
  fields : ∀ t f, s.lookup t = some f → ∀ k ∈ f.keys, k ∈ fields

section
variable {topics fields : List CString} {s : Store}

theorem Store.Within.empty : Store.Within topics fields OrderedMap.empty := by
  refine ⟨?_, ?_⟩
  · intro t ht
    exact absurd ht (List.not_mem_nil)
  · intro t f hf
    exact absurd hf (by simp)

theorem Store.Within.put (h : s.Within topics fields) {t p : CString}
    (ht : trim t ∈ topics) (hstamp : timestampKey ∈ fields)
    (hpayload : ∀ a ∈ payloadAssignments p, a.1 ∈ fields) (now : BitVec 32) :
    (s.put t p now).Within topics fields := by
  refine ⟨?_, ?_⟩
  · intro u hmem
    rw [Store.put, OrderedMap.mem_keys_alter] at hmem
    rcases hmem with hold | rfl
    · exact h.topics u hold
    · exact ht
  · intro u f hf k hk
    rw [Store.put, OrderedMap.lookup_alter] at hf
    split_ifs at hf with heq
    · rw [Option.some.injEq] at hf
      rw [← hf, overwrite, OrderedMap.mem_keys_alterAll] at hk
      rcases hk with hold | hnew
      · cases hs : s.lookup (trim t) with
        | none =>
          rw [hs] at hold
          exact absurd hold (by simp)
        | some f' =>
          rw [hs] at hold
          exact h.fields _ f' hs k hold
      · obtain ⟨a, ha, rfl⟩ := List.mem_map.mp hnew
        rcases List.mem_append.mp ha with hin | hin
        · exact hpayload a hin
        · rw [List.mem_singleton.mp hin]
          exact hstamp
    · exact h.fields u f hf k hk

theorem Store.Within.fits (h : s.Within topics fields) (ht : topics.length ≤ 16)
    (hf : fields.length ≤ 16) : s.Fits := by
  refine ⟨le_trans (OrderedMap.size_le_of_keys h.topics) ht, ?_⟩
  intro t f hlookup
  exact le_trans (OrderedMap.size_le_of_keys (h.fields t f hlookup)) hf

end

end HomeAutomation
