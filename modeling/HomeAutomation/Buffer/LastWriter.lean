import HomeAutomation.Buffer.Store
import Mathlib.Data.List.Flatten

/-!
# The store is last-writer-wins

What a run of `mqttBuffer_put` calls leaves in the store, read off the puts alone: for each topic
the last value that the payloads on it give to each field, and the clock of the latest put on it
(`mqttBufferPutAll_last_writer`).
-/

namespace HomeAutomation

/-- The topic of a put: cut at its first terminator and trimmed. -/
def Put.key (p : Put) : CString := trim (cstr p.topic)

/-- The puts on a topic. -/
def putsOn (t : CString) (puts : List Put) : List Put := puts.filter fun p => p.key = t

/-- The topics of a run, in first-put order. -/
def topicsOf (puts : List Put) : List CString := (puts.map Put.key).eraseDups

/-- The assignments of the payloads on a topic, in put order. -/
def payloadsOn (t : CString) (puts : List Put) : List (CString × CString) :=
  (putsOn t puts).flatMap fun p => payloadAssignments (cstr p.data)

/-- The same with the timestamp that each put adds. -/
def assignmentsOn (t : CString) (puts : List Put) : List (CString × CString) :=
  (putsOn t puts).flatMap fun p => putAssignments (cstr p.data) p.now

/-- The fields of a topic, in first-assignment order. -/
def fieldsOf (t : CString) (puts : List Put) : List CString :=
  ((assignmentsOn t puts).map Prod.fst).eraseDups

/-- No map of the store outgrows its 16 slots in the run. -/
structure FitsRun (puts : List Put) : Prop where
  topics : (topicsOf puts).length ≤ 16
  fields : ∀ t, (fieldsOf t puts).length ≤ 16

theorem FitsRun.of_length {puts : List Put} (hputs : puts.length ≤ 16)
    (hassign : (puts.flatMap fun p => putAssignments (cstr p.data) p.now).length ≤ 16) :
    FitsRun puts := by
  refine ⟨?_, ?_⟩
  · have hle := OrderedMap.length_eraseDups_le (puts.map Put.key)
    rw [List.length_map] at hle
    exact le_trans hle hputs
  · intro t
    have hle := OrderedMap.length_eraseDups_le ((assignmentsOn t puts).map Prod.fst)
    rw [List.length_map] at hle
    have hsub : (assignmentsOn t puts).Sublist
        (puts.flatMap fun p => putAssignments (cstr p.data) p.now) :=
      List.filter_sublist.flatMap _
    exact le_trans hle (le_trans hsub.length_le hassign)

/-! ## The abstract store after a run -/

theorem overwrite_append (old : Option Fields) (l l' : List (CString × CString)) :
    overwrite old (l ++ l') = overwrite (some (overwrite old l)) l' :=
  OrderedMap.alterAll_append _ _ l l'

theorem keys_overwrite_none (l : List (CString × CString)) :
    (overwrite none l).keys = (l.map Prod.fst).eraseDups := by
  rw [overwrite, OrderedMap.keys_alterAll, Option.getD_none, OrderedMap.keys_empty, List.nil_append]

theorem Store.putAll_eq (s : Store) (puts : List Put) :
    s.putAll puts = s.alterAll (fun p old => overwrite old (putAssignments (cstr p.data) p.now))
      (puts.map fun p => (p.key, p)) := by
  rw [Store.putAll, OrderedMap.alterAll, List.foldl_map]
  rfl

theorem Store.keys_putAll (puts : List Put) :
    (Store.putAll OrderedMap.empty puts).keys = topicsOf puts := by
  rw [Store.putAll_eq, OrderedMap.keys_alterAll, OrderedMap.keys_empty, List.nil_append, List.map_map]
  rfl

theorem foldl_overwrite (ps : List Put) (old : Option Fields) (hne : ps ≠ []) :
    ps.foldl (fun d p => some (overwrite d (putAssignments (cstr p.data) p.now))) old =
      some (overwrite old (ps.flatMap fun p => putAssignments (cstr p.data) p.now)) := by
  induction ps generalizing old with
  | nil => exact absurd rfl hne
  | cons p ps ih =>
    rw [List.foldl_cons, List.flatMap_cons, overwrite_append]
    by_cases hps : ps = []
    · subst hps
      rfl
    · exact ih _ hps

theorem Store.lookup_putAll (s : Store) (puts : List Put) (t : CString) :
    (s.putAll puts).lookup t =
      if putsOn t puts = [] then s.lookup t
      else some (overwrite (s.lookup t) (assignmentsOn t puts)) := by
  have hlist : ((puts.map fun p => (p.key, p)).filter fun q => q.1 = t).map Prod.snd =
      putsOn t puts := by
    rw [List.filter_map, List.map_map]
    exact List.map_id _
  rw [Store.putAll_eq, OrderedMap.lookup_alterAll, hlist]
  split_ifs with hnil
  · rw [hnil]
    rfl
  · exact foldl_overwrite _ _ hnil

theorem putsOn_eq_nil {t : CString} {puts : List Put} : putsOn t puts = [] ↔ t ∉ topicsOf puts := by
  rw [topicsOf, List.mem_eraseDups, List.mem_map, putsOn, List.filter_eq_nil_iff]
  simp

theorem FitsRun.fits {puts : List Put} (h : FitsRun puts) :
    (Store.putAll OrderedMap.empty puts).Fits := by
  refine ⟨?_, ?_⟩
  · rw [← OrderedMap.length_keys, Store.keys_putAll]
    exact h.topics
  · intro t f hf
    rw [Store.lookup_putAll] at hf
    split_ifs at hf with hnil
    · rw [OrderedMap.lookup_empty] at hf
      cases hf
    · rw [OrderedMap.lookup_empty, Option.some.injEq] at hf
      rw [← hf, ← OrderedMap.length_keys, keys_overwrite_none]
      exact h.fields t

/-- The value of a field other than the timestamp: the payloads decide. -/
theorem lookup_overwrite_puts (ps : List Put) {k : CString} (hk : k ≠ timestampKey) :
    (overwrite none (ps.flatMap fun p => putAssignments (cstr p.data) p.now)).lookup k =
      (OrderedMap.valuesOf k (ps.flatMap fun p => payloadAssignments (cstr p.data))).getLast? := by
  have hvalues : OrderedMap.valuesOf k (ps.flatMap fun p => putAssignments (cstr p.data) p.now) =
      OrderedMap.valuesOf k (ps.flatMap fun p => payloadAssignments (cstr p.data)) := by
    induction ps with
    | nil => rfl
    | cons p ps ih =>
      have hstamp : OrderedMap.valuesOf k [(timestampKey, decimal p.now.toNat)] = [] :=
        OrderedMap.valuesOf_eq_nil.mpr (by simpa using hk)
      rw [List.flatMap_cons, List.flatMap_cons, OrderedMap.valuesOf_append, OrderedMap.valuesOf_append,
        ih, putAssignments, OrderedMap.valuesOf_append, hstamp, List.append_nil]
  rw [overwrite, OrderedMap.lookup_overwrite, Option.getD_none, OrderedMap.lookup_empty, hvalues,
    Option.or_none]

theorem lookup_overwrite_timestamp (ps : List Put) (p : Put) (old : Option Fields) :
    (overwrite old ((ps ++ [p]).flatMap fun p => putAssignments (cstr p.data) p.now)).lookup
      timestampKey = some (decimal p.now.toNat) := by
  rw [overwrite, OrderedMap.lookup_overwrite, List.flatMap_append, List.flatMap_singleton,
    putAssignments, ← List.append_assoc, OrderedMap.valuesOf_append]
  simp [OrderedMap.valuesOf]

theorem Store.entries_putAll (puts : List Put) :
    (Store.putAll OrderedMap.empty puts).entries =
      (topicsOf puts).map fun t => (t, overwrite none (assignmentsOn t puts)) := by
  rw [← Store.keys_putAll]
  refine OrderedMap.entries_eq_map_keys _ ?_
  intro t ht
  rw [Store.keys_putAll] at ht
  have hputs : putsOn t puts ≠ [] := fun e => putsOn_eq_nil.mp e ht
  rw [Store.lookup_putAll, if_neg hputs, OrderedMap.lookup_empty]

theorem lookup_assignmentsOn_eq_none {t k : CString} {puts : List Put} (hk : k ≠ timestampKey) :
    (overwrite none (assignmentsOn t puts)).lookup k = none ↔
      k ∉ (payloadsOn t puts).map Prod.fst := by
  rw [assignmentsOn, lookup_overwrite_puts _ hk, List.getLast?_eq_none_iff,
    OrderedMap.valuesOf_eq_nil, payloadsOn]

theorem lookup_assignmentsOn_timestamp {t : CString} {puts : List Put} (ht : t ∈ topicsOf puts) :
    (overwrite none (assignmentsOn t puts)).lookup timestampKey ≠ none := by
  have hputs : putsOn t puts ≠ [] := fun e => putsOn_eq_nil.mp e ht
  obtain ⟨ps, p, hps⟩ := List.eq_nil_or_concat (putsOn t puts) |>.resolve_left hputs
  rw [List.concat_eq_append] at hps
  rw [assignmentsOn, hps, lookup_overwrite_timestamp]
  exact Option.some_ne_none _

/-! ## The store after a run -/

theorem Holds.keyAt {γ ν : Type} {R : γ → ν → Prop} {m : MapInfo γ} {n : OrderedMap CString ν}
    (h : Holds R m n) (i : Nat) :
    ∃ r, flatmapGetByIndex m i = .ok r ∧ r.map Entry.key = n.keys[i]? := by
  rcases h.getByIndex i with ⟨hget, hnone⟩ | ⟨k, c, v, hget, hentry, _⟩
  · exact ⟨none, hget, by simp [OrderedMap.keys, hnone]⟩
  · exact ⟨_, hget, by simp [OrderedMap.keys, hentry]⟩

/-- **The store is last-writer-wins, topic by topic and field by field.** -/
theorem mqttBufferPutAll_last_writer (puts : List Put) (hfits : FitsRun puts) :
    ∃ b, mqttBufferPutAll Buffer.boot puts = .ok b ∧
      (∀ i, ∃ r, storeEntryAt b i = .ok r ∧ r.map Entry.key = (topicsOf puts)[i]?) ∧
      (topicsOf puts).Nodup ∧
      (∀ t ∈ topicsOf puts, ∃ fields, storeEntry b t = .ok (some fields) ∧
        (∀ i, ∃ r, flatmapGetByIndex fields i = .ok r ∧ r.map Entry.key = (fieldsOf t puts)[i]?) ∧
        (fieldsOf t puts).Nodup ∧
        (∀ k, trim k ≠ timestampKey →
          contentAt fields k = .ok (OrderedMap.valuesOf (trim k) (payloadsOn t puts)).getLast?) ∧
        ∀ p, (putsOn t puts).getLast? = some p →
          contentAt fields timestampKey = .ok (some (decimal p.now.toNat))) ∧
      ∀ p, FitsRun (puts ++ [p]) → ∃ b', mqttBufferPut b p.topic p.data p.now = .ok b' ∧
        ∀ t, trim t ≠ p.key → storeEntry b' t = storeEntry b t := by
  obtain ⟨b, hrun, hb⟩ := mqttBufferPutAll_holds BufferHolds.boot puts hfits.fits
  have htopics := Store.keys_putAll puts
  refine ⟨b, hrun, ?_, ?_, ?_, ?_⟩
  · intro i
    obtain ⟨b', hinit, _, h'⟩ := initializeBuffer_holds hb
    obtain ⟨r, hr, hkey⟩ := h'.keyAt i
    exact ⟨r, by rw [storeEntryAt, hinit, Runs.ok_bind, hr], by rw [hkey, htopics]⟩
  · rw [← htopics]
    exact (Store.putAll OrderedMap.empty puts).nodup
  · intro t ht
    have hputs : putsOn t puts ≠ [] := fun e => putsOn_eq_nil.mp e ht
    have htrim : trim t = t := by
      obtain ⟨p, _, rfl⟩ := List.mem_map.mp (List.mem_eraseDups.mp ht)
      exact Delimited.trim_trim isspace _
    have hlookup := Store.lookup_putAll OrderedMap.empty puts t
    rw [if_neg hputs, OrderedMap.lookup_empty] at hlookup
    rcases storeEntry_holds hb t with ⟨_, hnone⟩ | ⟨fields, f, hentry, hsome, hf⟩
    · rw [htrim, hlookup] at hnone
      cases hnone
    · rw [htrim, hlookup, Option.some.injEq] at hsome
      subst hsome
      have hkeys := keys_overwrite_none (assignmentsOn t puts)
      have hread := hf.contentAt_eq
      refine ⟨fields, hentry, ?_, ?_, ?_, ?_⟩
      · intro i
        obtain ⟨r, hr, hkey⟩ := Holds.keyAt hf i
        exact ⟨r, hr, by rw [hkey, hkeys, fieldsOf]⟩
      · rw [fieldsOf, ← hkeys]
        exact (overwrite none (assignmentsOn t puts)).nodup
      · intro k hk
        rw [hread, assignmentsOn, lookup_overwrite_puts _ hk, payloadsOn]
      · intro p hp
        obtain ⟨ps, hps⟩ := List.getLast?_eq_some_iff.mp hp
        rw [hread, trim_timestampKey, assignmentsOn, hps, lookup_overwrite_timestamp]
  · intro p hfits'
    have hput : (Store.putAll OrderedMap.empty (puts ++ [p])) =
        (Store.putAll OrderedMap.empty puts).put (cstr p.topic) (cstr p.data) p.now := by
      rw [Store.putAll, List.foldl_append]
      rfl
    obtain ⟨b', hput', _, hframe⟩ := mqttBufferPut_holds hb p.topic p.data p.now
      (hput ▸ hfits'.fits)
    exact ⟨b', hput', hframe⟩

/-- A payload, then another one on the same topic: its field wins, the other field survives. -/
theorem mqttBufferPutAll_last_writer_two :
    ∃ b, mqttBufferPutAll Buffer.boot
        [⟨"room/override".toList, "state:on,forMs:5".toList, 7⟩,
         ⟨"room/override ".toList, "state:off".toList, 9⟩] = .ok b ∧
      ∃ fields, storeEntry b "room/override".toList = .ok (some fields) ∧
        contentAt fields "state".toList = .ok (some "off".toList) ∧
        contentAt fields "forMs".toList = .ok (some "5".toList) ∧
        contentAt fields timestampKey = .ok (some "9".toList) := by
  obtain ⟨b, hrun, _, _, hentries, _⟩ := mqttBufferPutAll_last_writer
    [⟨"room/override".toList, "state:on,forMs:5".toList, 7⟩,
     ⟨"room/override ".toList, "state:off".toList, 9⟩]
    (FitsRun.of_length (by decide) (by decide +kernel))
  obtain ⟨fields, hentry, _, _, hfields, hstamp⟩ :=
    hentries "room/override".toList (by decide +kernel)
  refine ⟨b, hrun, fields, hentry, ?_, ?_, ?_⟩
  · rw [hfields _ (by decide +kernel)]
    decide +kernel
  · rw [hfields _ (by decide +kernel)]
    decide +kernel
  · rw [hstamp ⟨"room/override ".toList, "state:off".toList, 9⟩ (by decide +kernel)]
    decide +kernel

end HomeAutomation
