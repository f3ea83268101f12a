import HomeAutomation.Menu.Basic
import HomeAutomation.Temperature

/-!
# Readers and missing fields

`updateButton1()` and `Temperature::average` go through the pointers that `flatmap_get` returns.
They read through `NULL` exactly when a message stands in the store whose topic they select and
whose payloads never assigned the field (`readers_find_fields_iff`): any client of the broker can
put it there.
-/

namespace HomeAutomation

theorem trim_forMsKey : trim forMsKey = forMsKey := by decide

/-! ## What the refresh reads -/

/-- The value that the refresh computes from the fields of the override topic. -/
def remainingOf (other : CString → BitVec 32) (f : Fields) (now : BitVec 32) : Except Fault Int :=
  match f.lookup forMsKey with
  | none => .error .nullDeref
  | some forMs =>
    match f.lookup timestampKey with
    | none => .error .nullDeref
    | some timestamp =>
      .ok (strtodUint32 other forMs - (now - strtodUint32 other timestamp)).toInt

/-- The first entry of the snapshot decides; without one the refresh does nothing. -/
theorem timeRemaining_holds (other : CString → BitVec 32) {b : Buffer} {s : Store}
    (h : BufferHolds b s) (hfits : s.Fits) (now : BitVec 32) :
    ∃ b', initializeBuffer b = .ok b' ∧ BufferHolds b' s ∧ timeRemaining other b now =
      match (s.matching heatingControl).entries with
      | [] => .ok (b', none)
      | (_, f) :: _ => remainingOf other f now >>= fun value => .ok (b', some value) := by
  obtain ⟨b', copy, hget, hinit, hb', h', hcopy⟩ :=
    mqttBufferGetMatching_holds h hfits heatingControl
  refine ⟨b', hinit, BufferHolds.of_holds hb' h', ?_⟩
  simp only [timeRemaining, hget, Runs.ok_bind, hcopy.count, OrderedMap.size]
  cases hentries : (s.matching heatingControl).entries with
  | nil => simp
  | cons e l =>
    obtain ⟨t, f⟩ := e
    obtain ⟨m, hentry, hm⟩ := entryFields_holds hcopy (i := 0) (t := t) (f := f) (by rw [hentries]; rfl)
    have hforMs := resultContent_holds hm forMsKey
    have htimestamp := resultContent_holds hm timestampKey
    rw [trim_forMsKey] at hforMs
    rw [trim_timestampKey] at htimestamp
    simp only [List.length_cons, Nat.add_one_ne_zero, if_false, hentry, Runs.ok_bind, hforMs,
      htimestamp, remainingOf]
    cases f.lookup forMsKey with
    | none => rfl
    | some v =>
      cases f.lookup timestampKey with
      | none => rfl
      | some ts => rfl

theorem duration_ne_nullDeref (value : Int) : duration value ≠ .error .nullDeref := by
  unfold duration int32
  split_ifs <;> simp

theorem button1Title_ne_nullDeref (value : Int) : button1Title value ≠ .error .nullDeref := by
  have hduration := duration_ne_nullDeref value
  unfold button1Title
  cases hd : duration value with
  | ok text => split_ifs <;> simp
  | error e =>
    rw [hd] at hduration
    split_ifs
    · simpa using hduration
    · simpa using hduration
    · simp

/-- The refresh reads through `NULL` when it is not suspended, something is in the cache, and the
first entry lacks a field. -/
theorem updateButton1_null_iff (other : CString → BitVec 32) {b : Buffer} {s : Store}
    (h : BufferHolds b s) (hfits : s.Fits) (menu : Menu) (now : BitVec 32) :
    updateButton1 other menu b now = .error .nullDeref ↔
      menu.editingButton1Value = false ∧ ∃ e, (s.matching heatingControl).entries.head? = some e ∧
        (e.2.lookup forMsKey = none ∨ e.2.lookup timestampKey = none) := by
  obtain ⟨b', _, _, htime⟩ := timeRemaining_holds other h hfits now
  unfold updateButton1
  cases menu.editingButton1Value with
  | true => simp
  | false =>
    simp only [Bool.false_eq_true, if_false, true_and, htime]
    cases (s.matching heatingControl).entries with
    | nil => simp
    | cons e l =>
      simp only [List.head?_cons, Option.some.injEq, exists_eq_left', remainingOf]
      cases e.2.lookup forMsKey with
      | none => simp
      | some v =>
        cases e.2.lookup timestampKey with
        | none => simp
        | some ts =>
          simp only [Runs.ok_bind, updateButton1Value, reduceCtorEq, or_self, iff_false]
          have htitle := button1Title_ne_nullDeref
            (strtodUint32 other v - (now - strtodUint32 other ts)).toInt
          cases ht : button1Title (strtodUint32 other v - (now - strtodUint32 other ts)).toInt with
          | ok text => simp
          | error e' =>
            rw [ht] at htitle
            simpa using htitle

/-! ## Messages and readers -/

/-- Some payload on the topic assigns the field. -/
def Assigned (messages : List Put) (t k : CString) : Prop :=
  k ∈ (payloadsOn t messages).map Prod.fst

instance (messages : List Put) (t k : CString) : Decidable (Assigned messages t k) :=
  inferInstanceAs (Decidable (_ ∈ _))

theorem mqttReceiveAll_boot (q : MqttState) {messages : List Put} (hfits : FitsRun messages) :
    ∃ b, mqttReceiveAll ⟨q, Buffer.boot⟩ messages = .ok ⟨q, b⟩ ∧
      BufferHolds b (Store.putAll OrderedMap.empty messages) := by
  obtain ⟨b, hrun, hb⟩ := mqttBufferPutAll_holds BufferHolds.boot messages hfits.fits
  exact ⟨b, by rw [mqttReceiveAll_eq, hrun, Runs.ok_bind], hb⟩

theorem matching_entries (messages : List Put) (filter : CString) :
    ((Store.putAll OrderedMap.empty messages).matching filter).entries =
      ((topicsOf messages).filter fun t => 0 < matchTopic filter t).map fun t =>
        (t, overwrite none (assignmentsOn t messages)) := by
  show (Store.putAll OrderedMap.empty messages).entries.filter _ = _
  rw [Store.entries_putAll, List.filter_map]
  rfl

theorem updateButton1_missing_iff (other : CString → BitVec 32) {messages : List Put}
    (hfits : FitsRun messages) {b : Buffer}
    (hb : BufferHolds b (Store.putAll OrderedMap.empty messages)) (menu : Menu) (now : BitVec 32) :
    updateButton1 other menu b now = .error .nullDeref ↔
      menu.editingButton1Value = false ∧
        ∃ t, ((topicsOf messages).filter fun t => 0 < matchTopic heatingControl t).head? = some t ∧
          ¬ Assigned messages t forMsKey := by
  rw [updateButton1_null_iff other hb hfits.fits menu now, matching_entries, List.head?_map]
  refine and_congr_right fun _ => ?_
  cases hhead : ((topicsOf messages).filter fun t => 0 < matchTopic heatingControl t).head? with
  | none => simp
  | some t =>
    have ht : t ∈ topicsOf messages := (List.mem_filter.mp (List.mem_of_mem_head? hhead)).1
    simp only [Option.map_some, Option.some.injEq, exists_eq_left', Assigned,
      lookup_assignmentsOn_eq_none (k := forMsKey) (by decide),
      lookup_assignmentsOn_timestamp ht, or_false]

theorem temperatureAverage_missing_iff (strtod : CString → Rat) {messages : List Put}
    (hfits : FitsRun messages) {b : Buffer}
    (hb : BufferHolds b (Store.putAll OrderedMap.empty messages)) :
    temperatureAverage strtod b = .error .nullDeref ↔
      ∃ t ∈ topicsOf messages, 0 < matchTopic temperatureFilter t ∧
        ¬ Assigned messages t temperatureKey := by
  rw [temperatureAverage_null_iff strtod hb hfits.fits, matching_entries]
  have hmissing : ∀ t, (overwrite none (assignmentsOn t messages)).lookup temperatureKey = none ↔
      ¬ Assigned messages t temperatureKey := by
    intro t
    exact lookup_assignmentsOn_eq_none (by decide)
  constructor
  · rintro ⟨e, he, hnone⟩
    obtain ⟨t, ht, rfl⟩ := List.mem_map.mp he
    obtain ⟨hmem, hmatch⟩ := List.mem_filter.mp ht
    exact ⟨t, hmem, by simpa using hmatch, (hmissing t).mp hnone⟩
  · rintro ⟨t, hmem, hmatch, hnot⟩
    refine ⟨_, List.mem_map.mpr ⟨t, ?_, rfl⟩, (hmissing t).mpr hnot⟩
    exact List.mem_filter.mpr ⟨hmem, by simpa using hmatch⟩

/-- **Readers find their fields** if and only if payloads have assigned `forMs` on the first override
topic that the refresh selects, unless an edit suspends it, and `temperature` on every sensor
topic. -/
theorem readers_find_fields_iff (other : CString → BitVec 32) (strtod : CString → Rat)
    (q : MqttState) (messages : List Put) (hfits : FitsRun messages) (menu : Menu)
    (now : BitVec 32) :
    ∃ dev, mqttReceiveAll ⟨q, Buffer.boot⟩ messages = .ok dev ∧
      ((updateButton1 other menu dev.buffer now ≠ .error .nullDeref ∧
          temperatureAverage strtod dev.buffer ≠ .error .nullDeref) ↔
        (menu.editingButton1Value = true ∨
          ∀ t, ((topicsOf messages).filter fun t => 0 < matchTopic heatingControl t).head? = some t →
            Assigned messages t forMsKey) ∧
        ∀ t ∈ topicsOf messages, 0 < matchTopic temperatureFilter t →
          Assigned messages t temperatureKey) := by
  obtain ⟨b, hrun, hb⟩ := mqttReceiveAll_boot q hfits
  refine ⟨⟨q, b⟩, hrun, ?_⟩
  rw [Ne, updateButton1_missing_iff other hfits hb menu now, Ne,
    temperatureAverage_missing_iff strtod hfits hb]
  refine and_congr ?_ ?_
  · cases menu.editingButton1Value <;> simp
  · push Not
    rfl

/-- Messages as the devices send them. -/
theorem readers_find_fields_two :
    ∃ dev, mqttReceiveAll ⟨⟨[], true, true⟩, Buffer.boot⟩
        [⟨heatingControl, "state:on,forMs:1800000".toList, 5⟩,
         ⟨"7abr/sensor/temperature/inside/hall".toList, "temperature:19.5".toList, 6⟩] = .ok dev ∧
      updateButton1 (fun _ => 0) Menu.boot dev.buffer 7 ≠ .error .nullDeref ∧
      temperatureAverage (fun _ => 0) dev.buffer ≠ .error .nullDeref := by
  obtain ⟨dev, hrun, hiff⟩ := readers_find_fields_iff (fun _ => 0) (fun _ => 0) ⟨[], true, true⟩
    [⟨heatingControl, "state:on,forMs:1800000".toList, 5⟩,
     ⟨"7abr/sensor/temperature/inside/hall".toList, "temperature:19.5".toList, 6⟩]
    (FitsRun.of_length (by decide) (by decide +kernel)) Menu.boot 7
  refine ⟨dev, hrun, hiff.mpr ⟨Or.inr ?_, by decide +kernel⟩⟩
  intro t ht
  have hfirst : t = heatingControl := by
    have hhead : ((topicsOf [⟨heatingControl, "state:on,forMs:1800000".toList, 5⟩,
        ⟨"7abr/sensor/temperature/inside/hall".toList, "temperature:19.5".toList, 6⟩]).filter
          fun t => 0 < matchTopic heatingControl t).head? = some heatingControl := by
      decide +kernel
    rw [hhead, Option.some.injEq] at ht
    exact ht.symm
  rw [hfirst]
  decide +kernel

/-- An override message without `forMs`. -/
theorem readers_miss_fields :
    ∃ dev, mqttReceiveAll ⟨⟨[], true, true⟩, Buffer.boot⟩
        [⟨heatingControl, "state:on".toList, 5⟩] = .ok dev ∧
      updateButton1 (fun _ => 0) Menu.boot dev.buffer 7 = .error .nullDeref := by
  have hfits : FitsRun [⟨heatingControl, "state:on".toList, 5⟩] :=
    FitsRun.of_length (by decide) (by decide +kernel)
  obtain ⟨b, hrun, hb⟩ := mqttReceiveAll_boot ⟨[], true, true⟩ hfits
  refine ⟨_, hrun, ?_⟩
  rw [updateButton1_missing_iff (fun _ => 0) hfits hb Menu.boot 7]
  exact ⟨rfl, heatingControl, by decide +kernel, by decide +kernel⟩

end HomeAutomation
