import HomeAutomation.Buffer.LastWriter
import HomeAutomation.Mqtt.Levels
import HomeAutomation.Temperature
import Mathlib.Algebra.BigOperators.Group.List.Basic
import Mathlib.Algebra.Order.Ring.Rat

/-!
# The average of a zone

A `Temperature` subscribes to the topics of its zone, and its average is meant to be over these. The
loop of `average` reads back with a filter of its own, for all zones. So the readings it adds up are
those of the zone exactly when nothing is stored for another one.
-/

namespace HomeAutomation

/-- `TOPIC_TEMPERATURES`. -/
def topicTemperatures : CString := "7abr/sensor/temperature".toList

/-- The filter that the constructor subscribes to. -/
def zoneFilter (zone : CString) : CString :=
  snprintf (topicTemperatures.length + zone.length + 4)
    (format "%s/%s/#".toList [topicTemperatures, zone])

/-- The loop of `Temperature::average` with the readings it adds up: the store afterwards, and the
list of them. -/
def temperatureReadings (strtod : CString → Rat) (b : Buffer) :
    Except Fault (Buffer × List Rat) := do
  let (b, mapCopy) ← mqttBufferGetMatching b temperatureFilter
  let readings ← forEntries mapCopy
    (fun readings entry =>
      match entry.content with
      | none => .error .nullDeref
      | some fields => do
        let result ← resultContent fields temperatureKey
        .ok (readings ++ [strtod result]))
    []
  .ok (b, readings)

/-- The mean of some readings; that of none is no number. -/
def mean (readings : List Rat) : Option Rat :=
  if readings.length = 0 then none else some (readings.sum / readings.length)

/-! ## What the filters select -/

/-- The topic has all levels of `base`, and more. -/
def StrictlyBelow (base topic : CString) : Prop :=
  ∃ m, m ≠ [] ∧ levels topic = levels base ++ m

theorem levels_append (s t : CString) : levels (s ++ '/' :: t) = levels s ++ levels t :=
  List.splitOnP_append_cons s t rfl

/-- A filter that ends in a level `#` and has no wildcard before it selects what is below. -/
theorem matchTopic_below {base topic : CString} (hplus : '+' ∉ base) (hhash : '#' ∉ base) :
    0 < matchTopic (base ++ '/' :: ['#']) topic ↔ StrictlyBelow base topic := by
  have hlevel : ∀ c, c ∉ base → [c] ∉ levels base := by
    intro c hc hmem
    exact hc (Delimited.mem_of_mem_splitOnP _ hmem List.mem_cons_self)
  have hrest : levels ['#'] = [['#']] := by decide
  rw [matchTopic_pos, matchTopic_matches, levels_append, hrest,
    Wildcard.matches_literal_rest _ _ (hlevel '+' hplus) (hlevel '#' hhash)]
  rfl

theorem temperatureFilter_eq : temperatureFilter = topicTemperatures ++ '/' :: ['#'] := by
  decide +kernel

/-- The topic of a zone. -/
def zoneTopic (zone : CString) : CString := topicTemperatures ++ '/' :: zone

theorem zoneFilter_eq (zone : CString) : zoneFilter zone = zoneTopic zone ++ '/' :: ['#'] := by
  have hformat : "%s/%s/#".toList = '%' :: 's' :: (['/'] ++ '%' :: 's' :: ['/', '#']) := by
    decide +kernel
  have hprinted : format "%s/%s/#".toList [topicTemperatures, zone] =
      zoneTopic zone ++ '/' :: ['#'] := by
    rw [hformat, format_arg, format_append (by decide), format_arg,
      show format ['/', '#'] [] = ['/', '#'] from rfl, zoneTopic, List.append_assoc]
    rfl
  rw [zoneFilter, hprinted, snprintf, zoneTopic]
  refine List.take_of_length_le ?_
  simp only [List.length_append, List.length_cons, List.length_nil]
  omega

theorem topicTemperatures_plain : '+' ∉ topicTemperatures ∧ '#' ∉ topicTemperatures := by
  decide +kernel

theorem zoneFilter_selects {zone topic : CString} (hplus : '+' ∉ zone) (hhash : '#' ∉ zone) :
    0 < matchTopic (zoneFilter zone) topic ↔ StrictlyBelow (zoneTopic zone) topic := by
  have hbase : ∀ c, c ∉ topicTemperatures → c ∉ zone → c ≠ '/' → c ∉ zoneTopic zone := by
    intro c htop hzone hslash hmem
    rcases List.mem_append.mp hmem with h | h
    · exact htop h
    · rcases List.mem_cons.mp h with h | h
      · exact hslash h
      · exact hzone h
  rw [zoneFilter_eq]
  exact matchTopic_below (hbase '+' topicTemperatures_plain.1 hplus (by decide))
    (hbase '#' topicTemperatures_plain.2 hhash (by decide))

theorem temperatureFilter_selects (topic : CString) :
    0 < matchTopic temperatureFilter topic ↔ StrictlyBelow topicTemperatures topic := by
  rw [temperatureFilter_eq]
  exact matchTopic_below topicTemperatures_plain.1 topicTemperatures_plain.2

theorem StrictlyBelow.of_zone {zone topic : CString} (h : StrictlyBelow (zoneTopic zone) topic) :
    StrictlyBelow topicTemperatures topic := by
  obtain ⟨m, hm, hlevels⟩ := h
  rw [zoneTopic, levels_append, List.append_assoc] at hlevels
  exact ⟨levels zone ++ m, by simp [hm], hlevels⟩

/-! ## The readings of a store -/

/-- The stored topics that a filter selects, with their `temperature` fields. -/
def Store.temperatures (s : Store) (filter : CString) : List (CString × CString) :=
  (s.matching filter).entries.filterMap fun e => (e.2.lookup temperatureKey).map fun v => (e.1, v)

def Store.readings (strtod : CString → Rat) (s : Store) (filter : CString) : List Rat :=
  (s.temperatures filter).map fun e => strtod e.2

/-- Every topic that the loop comes upon has the field it reads. -/
def Store.AllRead (s : Store) : Prop :=
  ∀ e ∈ (s.matching temperatureFilter).entries, (e.2.lookup temperatureKey).isSome = true

/-- The values the loop reads, in its order. -/
def readValues (l : List (CString × Fields)) : List CString :=
  l.filterMap fun e => e.2.lookup temperatureKey

section
variable {strtod : CString → Rat} {s : Store}

theorem Store.readings_eq (strtod : CString → Rat) (s : Store) (filter : CString) :
    s.readings strtod filter = (readValues (s.matching filter).entries).map strtod := by
  rw [readings, temperatures, readValues, List.map_filterMap, List.map_filterMap]
  congr 1
  funext e
  rw [Option.map_map]
  rfl

/-- A loop that reads the field of every entry goes through their values. -/
theorem foldlM_readValues {σ : Type} (f : σ → CString → σ) {l : List (CString × Fields)}
    (h : ∀ e ∈ l, (e.2.lookup temperatureKey).isSome = true) (a : σ) :
    l.foldlM (fun a e =>
      match e.2.lookup temperatureKey with
      | none => Except.error Fault.nullDeref
      | some v => .ok (f a v)) a = .ok ((readValues l).foldl f a) := by
  induction l generalizing a with
  | nil => rfl
  | cons e l ih =>
    obtain ⟨v, hv⟩ := Option.isSome_iff_exists.mp (h e List.mem_cons_self)
    have hvalues : readValues (e :: l) = v :: readValues l := List.filterMap_cons_some hv
    rw [List.foldlM_cons, hv, Runs.ok_bind, ih (fun d hd => h d (List.mem_cons_of_mem e hd)), hvalues,
      List.foldl_cons]

theorem readValues_length {l : List (CString × Fields)}
    (h : ∀ e ∈ l, (e.2.lookup temperatureKey).isSome = true) : (readValues l).length = l.length := by
  induction l with
  | nil => rfl
  | cons e l ih =>
    obtain ⟨v, hv⟩ := Option.isSome_iff_exists.mp (h e List.mem_cons_self)
    have hvalues : readValues (e :: l) = v :: readValues l := List.filterMap_cons_some hv
    rw [hvalues, List.length_cons, List.length_cons,
      ih (fun d hd => h d (List.mem_cons_of_mem e hd))]

theorem foldl_add_readings (strtod : CString → Rat) (values : List CString) (total : Rat) :
    values.foldl (fun total v => total + strtod v) total = total + (values.map strtod).sum := by
  induction values generalizing total with
  | nil => simp
  | cons v values ih => rw [List.foldl_cons, ih, List.map_cons, List.sum_cons, add_assoc]

theorem foldl_snoc_readings (strtod : CString → Rat) (values : List CString) (l : List Rat) :
    values.foldl (fun l v => l ++ [strtod v]) l = l ++ values.map strtod := by
  induction values generalizing l with
  | nil => simp
  | cons v values ih => rw [List.foldl_cons, ih, List.map_cons, List.append_assoc]; rfl

/-- **What `average` takes the mean of**: the field of every topic that its own filter selects. -/
theorem temperatureReadings_holds (strtod : CString → Rat) {b : Buffer} (h : BufferHolds b s)
    (hfits : s.Fits) (hread : s.AllRead) :
    ∃ b', temperatureReadings strtod b = .ok (b', s.readings strtod temperatureFilter) ∧
      temperatureAverage strtod b = .ok (b', mean (s.readings strtod temperatureFilter)) := by
  obtain ⟨b', copy, hget, _, _, _, hcopy⟩ := mqttBufferGetMatching_holds h hfits temperatureFilter
  have hloop : ∀ {σ : Type} (f : σ → CString → σ) (a : σ),
      forEntries copy (fun a entry =>
        match entry.content with
        | none => .error .nullDeref
        | some fields => do
          let result ← resultContent fields temperatureKey
          .ok (f a result)) a =
        .ok ((readValues (s.matching temperatureFilter).entries).foldl f a) := by
    intro σ f a
    rw [← foldlM_readValues f hread]
    refine forEntries_eq_foldlM hcopy _ ?_ a
    intro a t m fields hm
    show (do let result ← resultContent m temperatureKey; Except.ok (f a result)) = _
    rw [resultContent_holds hm, trim_temperatureKey]
    cases fields.lookup temperatureKey <;> rfl
  have hlength : (readValues (s.matching temperatureFilter).entries).length =
      (s.matching temperatureFilter).size := readValues_length hread
  refine ⟨b', ?_, ?_⟩
  · simp only [temperatureReadings, hget, Runs.ok_bind]
    refine Runs.bind_eq_ok.mpr ⟨_, hloop (fun l v => l ++ [strtod v]) [], ?_⟩
    rw [foldl_snoc_readings, Store.readings_eq, List.nil_append]
  · simp only [temperatureAverage, hget, Runs.ok_bind, hcopy.count]
    refine Runs.bind_eq_ok.mpr ⟨_, hloop (fun total v => total + strtod v) 0, ?_⟩
    rw [foldl_add_readings, mean, Store.readings_eq, List.length_map, hlength, zero_add]

end

/-! ## One zone -/

/-- Nothing is stored for another zone. -/
def Store.OnlyZone (zone : CString) (s : Store) : Prop :=
  ∀ t ∈ s.keys, 0 < matchTopic temperatureFilter t → 0 < matchTopic (zoneFilter zone) t

section
variable {zone : CString} {s : Store}

theorem Store.matching_zone (hplus : '+' ∉ zone) (hhash : '#' ∉ zone) (s : Store) :
    (s.matching (zoneFilter zone)).entries = (s.matching temperatureFilter).entries.filter
      fun e => 0 < matchTopic (zoneFilter zone) e.1 := by
  show s.entries.filter _ = (s.entries.filter _).filter _
  rw [List.filter_filter]
  refine List.filter_congr ?_
  intro e _
  have hbelow : 0 < matchTopic (zoneFilter zone) e.1 → 0 < matchTopic temperatureFilter e.1 := by
    rw [zoneFilter_selects hplus hhash, temperatureFilter_selects]
    exact StrictlyBelow.of_zone
  simpa using hbelow

/-- The loop reads one reading per topic of the zone exactly when it comes upon no other. -/
theorem Store.readings_zone_iff (hplus : '+' ∉ zone) (hhash : '#' ∉ zone) (hread : s.AllRead)
    (strtod : CString → Rat) :
    s.readings strtod temperatureFilter = s.readings strtod (zoneFilter zone) ↔
      s.OnlyZone zone := by
  have hsub := s.matching_zone hplus hhash
  constructor
  · intro h
    have hlen := congrArg List.length h
    have hzone : ∀ e ∈ (s.matching (zoneFilter zone)).entries,
        (e.2.lookup temperatureKey).isSome = true := by
      intro e he
      rw [hsub] at he
      exact hread e (List.mem_filter.mp he).1
    rw [readings_eq, readings_eq, List.length_map, List.length_map, readValues_length hread,
      readValues_length hzone, hsub] at hlen
    have hall := List.length_filter_eq_length_iff.mp hlen.symm
    intro t ht hmatch
    obtain ⟨e, he, rfl⟩ := List.mem_map.mp ht
    have hmem : e ∈ (s.matching temperatureFilter).entries :=
      List.mem_filter.mpr ⟨he, by simpa using hmatch⟩
    simpa using hall e hmem
  · intro h
    have hentries : (s.matching (zoneFilter zone)).entries =
        (s.matching temperatureFilter).entries := by
      rw [hsub, List.filter_eq_self]
      intro e he
      obtain ⟨hin, hmatch⟩ := List.mem_filter.mp he
      simpa using h e.1 (List.mem_map.mpr ⟨e, hin, rfl⟩) (by simpa using hmatch)
    rw [readings_eq, readings_eq, hentries]

end

/-- On the topics strictly below the zone two stores hold the same temperatures. -/
def AgreeOnZone (zone : CString) (s₁ s₂ : Store) : Prop :=
  ∀ t, StrictlyBelow (zoneTopic zone) t → s₁.value t temperatureKey = s₂.value t temperatureKey

theorem Store.mem_temperatures {s : Store} {filter t v : CString} :
    (t, v) ∈ s.temperatures filter ↔ 0 < matchTopic filter t ∧ s.value t temperatureKey = some v := by
  rw [temperatures, List.mem_filterMap, value]
  constructor
  · rintro ⟨e, he, hv⟩
    rw [Option.map_eq_some_iff] at hv
    obtain ⟨w, hw, heq⟩ := hv
    obtain ⟨rfl, rfl⟩ := Prod.mk.inj heq
    obtain ⟨hin, hmatch⟩ := List.mem_filter.mp he
    rw [OrderedMap.lookup_eq_some.mpr hin]
    exact ⟨by simpa using hmatch, hw⟩
  · rintro ⟨hmatch, hv⟩
    obtain ⟨f, hf, hw⟩ := Option.bind_eq_some_iff.mp hv
    refine ⟨(t, f), List.mem_filter.mpr ⟨OrderedMap.lookup_eq_some.mp hf, by simpa using hmatch⟩, ?_⟩
    rw [hw]
    rfl

theorem Store.nodup_temperatures (s : Store) (filter : CString) : (s.temperatures filter).Nodup := by
  have hsub : ∀ l : List (CString × Fields),
      ((l.filterMap fun e => (e.2.lookup temperatureKey).map fun v => (e.1, v)).map
        Prod.fst).Sublist (l.map Prod.fst) := by
    intro l
    induction l with
    | nil => exact List.Sublist.slnil
    | cons e l ih =>
      cases hv : e.2.lookup temperatureKey with
      | none =>
        rw [List.filterMap_cons_none (by rw [hv]; rfl)]
        exact ih.cons _
      | some v =>
        rw [List.filterMap_cons_some (by rw [hv]; rfl)]
        exact ih.cons_cons _
  exact List.Nodup.of_map Prod.fst ((s.matching filter).nodup.sublist (hsub _))

theorem AgreeOnZone.readings_perm {zone : CString} (hplus : '+' ∉ zone) (hhash : '#' ∉ zone)
    {s₁ s₂ : Store} (h : AgreeOnZone zone s₁ s₂) (strtod : CString → Rat) :
    (s₁.readings strtod (zoneFilter zone)).Perm (s₂.readings strtod (zoneFilter zone)) := by
  refine List.Perm.map _ ?_
  rw [List.perm_ext_iff_of_nodup (s₁.nodup_temperatures _) (s₂.nodup_temperatures _)]
  rintro ⟨t, v⟩
  rw [Store.mem_temperatures, Store.mem_temperatures, zoneFilter_selects hplus hhash]
  exact and_congr_right fun hbelow => by rw [h t hbelow]

theorem mean_perm {l l' : List Rat} (h : l.Perm l') : mean l = mean l' := by
  rw [mean, mean, h.length_eq, h.sum_eq]

/-! ## Two runs -/

/-- After a run of puts `average` takes the mean of these readings, one per stored topic that the
zone's own filter matches. -/
def AveragesZone (strtod : CString → Rat) (zone : CString) (puts : List Put) (l : List Rat) : Prop :=
  ∃ b b', mqttBufferPutAll Buffer.boot puts = .ok b ∧ temperatureReadings strtod b = .ok (b', l) ∧
    temperatureAverage strtod b = .ok (b', mean l) ∧
    l = (Store.putAll OrderedMap.empty puts).readings strtod (zoneFilter zone)

/-- The averages after two runs are over the readings of the zone, the same ones in both. -/
def ZoneAverage (strtod : CString → Rat) (zone : CString) (puts₁ puts₂ : List Put) : Prop :=
  ∃ l₁ l₂, AveragesZone strtod zone puts₁ l₁ ∧ AveragesZone strtod zone puts₂ l₂ ∧ l₁.Perm l₂ ∧
    mean l₁ = mean l₂

theorem averagesZone_iff (strtod : CString → Rat) {zone : CString} (hplus : '+' ∉ zone)
    (hhash : '#' ∉ zone) {puts : List Put} (hfits : FitsRun puts)
    (hread : (Store.putAll OrderedMap.empty puts).AllRead) (l : List Rat) :
    AveragesZone strtod zone puts l ↔
      l = (Store.putAll OrderedMap.empty puts).readings strtod (zoneFilter zone) ∧
        (Store.putAll OrderedMap.empty puts).OnlyZone zone := by
  obtain ⟨b, hrun, hb⟩ := mqttBufferPutAll_holds BufferHolds.boot puts hfits.fits
  obtain ⟨b', hreadings, haverage⟩ := temperatureReadings_holds strtod hb hfits.fits hread
  rw [← Store.readings_zone_iff hplus hhash hread strtod]
  constructor
  · rintro ⟨b₁, b₁', hrun₁, hreadings₁, _, hl⟩
    rw [hrun, Except.ok.injEq] at hrun₁
    rw [← hrun₁, hreadings, Except.ok.injEq, Prod.mk.injEq] at hreadings₁
    exact ⟨hl, hreadings₁.2.trans hl⟩
  · rintro ⟨rfl, hsame⟩
    rw [← hsame]
    exact ⟨b, b', hrun, hreadings, haverage, hsame⟩

/-- **When the average is the zone's.** For two runs of puts that agree below the zone, `average`
takes the mean of the same readings, those of the zone, exactly when neither store holds a topic for
another zone. -/
theorem zone_average_iff (strtod : CString → Rat) {zone : CString} (hplus : '+' ∉ zone)
    (hhash : '#' ∉ zone) {puts₁ puts₂ : List Put} (hfits₁ : FitsRun puts₁) (hfits₂ : FitsRun puts₂)
    (hread₁ : (Store.putAll OrderedMap.empty puts₁).AllRead)
    (hread₂ : (Store.putAll OrderedMap.empty puts₂).AllRead)
    (hagree : AgreeOnZone zone (Store.putAll OrderedMap.empty puts₁)
      (Store.putAll OrderedMap.empty puts₂)) :
    ZoneAverage strtod zone puts₁ puts₂ ↔
      (Store.putAll OrderedMap.empty puts₁).OnlyZone zone ∧
        (Store.putAll OrderedMap.empty puts₂).OnlyZone zone := by
  constructor
  · rintro ⟨l₁, l₂, h₁, h₂, _⟩
    exact ⟨((averagesZone_iff strtod hplus hhash hfits₁ hread₁ l₁).mp h₁).2,
      ((averagesZone_iff strtod hplus hhash hfits₂ hread₂ l₂).mp h₂).2⟩
  · rintro ⟨hzone₁, hzone₂⟩
    have hperm := hagree.readings_perm hplus hhash strtod
    exact ⟨_, _, (averagesZone_iff strtod hplus hhash hfits₁ hread₁ _).mpr ⟨rfl, hzone₁⟩,
      (averagesZone_iff strtod hplus hhash hfits₂ hread₂ _).mpr ⟨rfl, hzone₂⟩, hperm, mean_perm hperm⟩

/-- A put on a topic outside the zone leaves the temperatures of the zone. -/
theorem AgreeOnZone.put {zone : CString} (hplus : '+' ∉ zone) (hhash : '#' ∉ zone) (s : Store)
    {topic : CString} (payload : CString) (now : BitVec 32)
    (houtside : ¬ 0 < matchTopic (zoneFilter zone) (trim topic)) :
    AgreeOnZone zone s (s.put topic payload now) := by
  intro t hbelow
  have hne : t ≠ trim topic := by
    rintro rfl
    exact houtside ((zoneFilter_selects hplus hhash).mpr hbelow)
  rw [Store.value, Store.value, Store.put, OrderedMap.lookup_alter, if_neg hne]

/-- A reading in the living room. -/
def livingroomPut : Put :=
  ⟨"7abr/sensor/temperature/inside/downstairs/livingroom/a".toList, "temperature:20".toList, 1000⟩

def livingroom : CString := "inside/downstairs/livingroom".toList

theorem livingroom_plain : '+' ∉ livingroom ∧ '#' ∉ livingroom := by decide +kernel

theorem livingroomPut_fits : FitsRun [livingroomPut] :=
  FitsRun.of_length (by decide) (by decide +kernel)

theorem livingroomPut_read : (Store.putAll OrderedMap.empty [livingroomPut]).AllRead := by
  unfold Store.AllRead
  decide +kernel

/-- The boiler's state does not count. -/
theorem zone_average_boiler :
    ZoneAverage (fun s => (decimalValue s : Rat)) livingroom [livingroomPut]
      [livingroomPut, ⟨"7abr/heating/state".toList, "state:1".toList, 2000⟩] := by
  refine (zone_average_iff _ livingroom_plain.1 livingroom_plain.2 livingroomPut_fits
    (FitsRun.of_length (by decide) (by decide +kernel)) livingroomPut_read ?_ ?_).mpr ⟨?_, ?_⟩
  · unfold Store.AllRead
    decide +kernel
  · exact AgreeOnZone.put livingroom_plain.1 livingroom_plain.2 _ _ _ (by decide +kernel)
  · unfold Store.OnlyZone
    decide +kernel
  · unfold Store.OnlyZone
    decide +kernel

/-- A sensor outside the house counts for the living room. -/
theorem zone_average_outside :
    let puts := [livingroomPut,
      ⟨"7abr/sensor/temperature/outside/garden/b".toList, "temperature:0".toList, 2000⟩]
    FitsRun [livingroomPut] ∧ FitsRun puts ∧
      (Store.putAll OrderedMap.empty [livingroomPut]).AllRead ∧
      (Store.putAll OrderedMap.empty puts).AllRead ∧
      AgreeOnZone livingroom (Store.putAll OrderedMap.empty [livingroomPut])
        (Store.putAll OrderedMap.empty puts) ∧
      ¬ ZoneAverage (fun s => (decimalValue s : Rat)) livingroom [livingroomPut] puts := by
  intro puts
  have hfits : FitsRun puts := FitsRun.of_length (by decide) (by decide +kernel)
  have hread : (Store.putAll OrderedMap.empty puts).AllRead := by
    unfold Store.AllRead
    decide +kernel
  refine ⟨livingroomPut_fits, hfits, livingroomPut_read, hread,
    AgreeOnZone.put livingroom_plain.1 livingroom_plain.2 _ _ _ (by decide +kernel), ?_⟩
  intro haverage
  obtain ⟨_, l₂, _, h₂, _⟩ := haverage
  have hzone := ((averagesZone_iff _ livingroom_plain.1 livingroom_plain.2 hfits hread l₂).mp h₂).2
  unfold Store.OnlyZone at hzone
  exact absurd hzone (by decide +kernel)

end HomeAutomation
