import HomeAutomation.Buffer.LastWriter
import HomeAutomation.Buffer.Payload

/-!
# The payload format round-trips

What is stored for a payload that was written as a list of pairs: the pairs, keys trimmed, the last
value of each, and the clock.
-/

namespace HomeAutomation

/-! ## Written payloads -/

/-- `key:value`. -/
def segment (p : CString × CString) : CString := p.1 ++ ':' :: p.2

/-- Segments with commas between them. -/
def joined (segments : List CString) : CString := [','].intercalate segments

/-- `k_1:v_1,k_2:v_2,...`, also with a comma at the end. -/
def encode (pairs : List (CString × CString)) (trailing : Bool) : CString :=
  joined (pairs.map segment) ++ if trailing then [','] else []

/-- A pair that the format can carry. -/
structure Encodable (p : CString × CString) : Prop where
  notBlank : trim p.1 ≠ []
  colon : ':' ∉ p.1
  value : p.2 ≠ []
  comma : ',' ∉ p.2
  nulKey : nul ∉ p.1
  nulValue : nul ∉ p.2

instance (p : CString × CString) : Decidable (Encodable p) :=
  decidable_of_iff (trim p.1 ≠ [] ∧ ':' ∉ p.1 ∧ p.2 ≠ [] ∧ ',' ∉ p.2 ∧ nul ∉ p.1 ∧ nul ∉ p.2)
    ⟨fun ⟨h1, h2, h3, h4, h5, h6⟩ => ⟨h1, h2, h3, h4, h5, h6⟩,
      fun ⟨h1, h2, h3, h4, h5, h6⟩ => ⟨h1, h2, h3, h4, h5, h6⟩⟩

/-- The pairs as they are stored. -/
def trimKeys (pairs : List (CString × CString)) : List (CString × CString) :=
  pairs.map fun p => (trim p.1, p.2)

theorem Encodable.key {p : CString × CString} (h : Encodable p) : p.1 ≠ [] := by
  intro hnil
  refine h.notBlank ?_
  rw [hnil]
  rfl

theorem joined_cons_cons (s t : CString) (rest : List CString) :
    joined (s :: t :: rest) = s ++ ',' :: joined (t :: rest) := by
  rw [joined, List.intercalate_cons_cons, List.append_assoc]
  rfl

@[simp] theorem joined_singleton (s : CString) : joined [s] = s :=
  List.intercalate_singleton

theorem nul_notMem_joined {segments : List CString} (h : ∀ s ∈ segments, nul ∉ s) :
    nul ∉ joined segments := by
  induction segments with
  | nil => simp [joined]
  | cons s rest ih =>
    cases rest with
    | nil => simpa using h s (by simp)
    | cons t rest =>
      rw [joined_cons_cons, List.mem_append, List.mem_cons]
      rintro (hs | hcomma | hrest)
      · exact h s (by simp) hs
      · exact absurd hcomma (by decide)
      · exact ih (fun u hu => h u (by simp [hu])) hrest

theorem Encodable.nul_segment {p : CString × CString} (h : Encodable p) : nul ∉ segment p := by
  rw [segment, List.mem_append, List.mem_cons]
  rintro (hk | hcolon | hv)
  · exact h.nulKey hk
  · exact absurd hcolon (by decide)
  · exact h.nulValue hv

/-! ## Reading them -/

theorem payloadAssignments_front (pairs : List (CString × CString))
    (h : ∀ p ∈ pairs, Encodable p) (s : CString) (rest : List CString) :
    payloadAssignments (joined (pairs.map segment ++ s :: rest)) =
      trimKeys pairs ++ payloadAssignments (joined (s :: rest)) := by
  induction pairs with
  | nil => rfl
  | cons p pairs ih =>
    have hp := h p (by simp)
    have hsplit : joined ((p :: pairs).map segment ++ s :: rest) =
        p.1 ++ ':' :: (p.2 ++ ',' :: joined (pairs.map segment ++ s :: rest)) := by
      cases pairs with
      | nil =>
        rw [List.map_singleton, List.singleton_append, joined_cons_cons, segment]
        simp
      | cons q pairs =>
        rw [List.map_cons, List.map_cons, List.cons_append, List.cons_append, joined_cons_cons,
          segment]
        simp
    rw [hsplit, payloadAssignments_segment hp.key hp.colon hp.value hp.comma,
      ih fun q hq => h q (by simp [hq])]
    rfl

theorem payloadAssignments_nil : payloadAssignments [] = [] := by
  rw [payloadAssignments, assignments_break rfl]
  rfl

/-- A payload of well-formed segments is read as it was written. -/
theorem payloadAssignments_joined {pairs : List (CString × CString)} (hne : pairs ≠ [])
    (h : ∀ p ∈ pairs, Encodable p) :
    payloadAssignments (joined (pairs.map segment)) = trimKeys pairs := by
  obtain ⟨pairs, p, rfl⟩ := List.eq_nil_or_concat' pairs |>.resolve_left hne
  have hp := h p (by simp)
  rw [List.map_append, List.map_singleton,
    payloadAssignments_front pairs fun q hq => h q (by simp [hq]), joined_singleton, segment,
    payloadAssignments_last hp.key hp.colon hp.value hp.comma, trimKeys, trimKeys, List.map_append]
  rfl

theorem encode_trailing {pairs : List (CString × CString)} (hne : pairs ≠ []) :
    encode pairs true = joined (pairs.map segment ++ [[]]) := by
  rw [encode, if_pos rfl]
  induction pairs with
  | nil => exact absurd rfl hne
  | cons p pairs ih =>
    cases pairs with
    | nil => simp [joined_cons_cons]
    | cons q pairs =>
      have hih := ih (by simp)
      rw [List.map_cons, List.map_cons, joined_cons_cons, List.append_assoc, List.cons_append]
      rw [List.map_cons] at hih
      rw [hih]
      exact (joined_cons_cons _ _ _).symm

theorem payloadAssignments_encode {pairs : List (CString × CString)} (hne : pairs ≠ [])
    (h : ∀ p ∈ pairs, Encodable p) (trailing : Bool) :
    payloadAssignments (encode pairs trailing) = trimKeys pairs := by
  cases trailing with
  | false =>
    rw [encode, if_neg (by simp), List.append_nil]
    exact payloadAssignments_joined hne h
  | true =>
    rw [encode_trailing hne, payloadAssignments_front pairs h, joined_singleton,
      payloadAssignments_nil, List.append_nil]

theorem nul_notMem_encode {pairs : List (CString × CString)} (h : ∀ p ∈ pairs, Encodable p)
    (trailing : Bool) : nul ∉ encode pairs trailing := by
  have hjoined : nul ∉ joined (pairs.map segment) := by
    refine nul_notMem_joined ?_
    intro s hs
    obtain ⟨p, hp, rfl⟩ := List.mem_map.mp hs
    exact (h p hp).nul_segment
  rw [encode, List.mem_append]
  rintro (hmem | hmem)
  · exact hjoined hmem
  · split_ifs at hmem
    · exact absurd hmem (by decide)
    · exact absurd hmem (List.not_mem_nil)

/-! ## Storing them -/

/-- A payload on a topic that is not in the store makes fields of its own. -/
theorem mqttBufferPut_fresh {b : Buffer} {s : Store} (h : BufferHolds b s) (hfits : s.Fits)
    {topic : List Char} (data : List Char) (now : BitVec 32)
    (hfresh : s.lookup (trim (cstr topic)) = none) (htopics : s.size < 16)
    (hfields : (overwrite none (putAssignments (cstr data) now)).size ≤ 16) :
    ∃ b' fields, mqttBufferPut b topic data now = .ok b' ∧
      storeEntry b' (cstr topic) = .ok (some fields) ∧
      FieldsHold fields (overwrite none (putAssignments (cstr data) now)) := by
  have hlookup : ∀ t, (s.put (cstr topic) (cstr data) now).lookup t =
      if t = trim (cstr topic) then some (overwrite none (putAssignments (cstr data) now))
      else s.lookup t := by
    intro t
    rw [Store.put, OrderedMap.lookup_alter, hfresh]
  have hfits' : (s.put (cstr topic) (cstr data) now).Fits := by
    refine ⟨?_, ?_⟩
    · rw [Store.put, OrderedMap.size_alter]
      split_ifs <;> omega
    · intro t f hf
      rw [hlookup] at hf
      split_ifs at hf
      · rw [Option.some.injEq] at hf
        exact hf ▸ hfields
      · exact hfits.fields t f hf
  obtain ⟨b', hput, hb', -⟩ := mqttBufferPut_holds h topic data now hfits'
  rcases storeEntry_holds hb' (cstr topic) with ⟨_, hnone⟩ | ⟨fields, f, hentry, hsome, hf⟩
  · rw [hlookup, if_pos rfl] at hnone
    exact absurd hnone (Option.some_ne_none _)
  · rw [hlookup, if_pos rfl, Option.some.injEq] at hsome
    exact ⟨b', fields, hput, hentry, hsome ▸ hf⟩

/-- The fields of a new topic have the last values that the payload assigns. -/
theorem lookup_overwrite_put (payload : CString) (now : BitVec 32) {k : CString}
    (hk : k ≠ timestampKey) :
    (overwrite none (putAssignments payload now)).lookup k =
      (OrderedMap.valuesOf k (payloadAssignments payload)).getLast? := by
  have hstamp : OrderedMap.valuesOf k [(timestampKey, decimal now.toNat)] = [] :=
    OrderedMap.valuesOf_eq_nil.mpr (by simpa using hk)
  rw [overwrite, OrderedMap.lookup_overwrite, putAssignments, OrderedMap.valuesOf_append, hstamp,
    List.append_nil, Option.getD_none, OrderedMap.lookup_empty, Option.or_none]

theorem lookup_overwrite_stamp (payload : CString) (now : BitVec 32) :
    (overwrite none (putAssignments payload now)).lookup timestampKey =
      some (decimal now.toNat) := by
  rw [overwrite, OrderedMap.lookup_overwrite, putAssignments, OrderedMap.valuesOf_append]
  simp [OrderedMap.valuesOf]

theorem size_overwrite_put (payload : CString) (now : BitVec 32) {keys : List CString}
    (hkeys : ∀ k ∈ (payloadAssignments payload).map Prod.fst, k ≠ timestampKey → k ∈ keys)
    (hlen : keys.length ≤ 15) : (overwrite none (putAssignments payload now)).size ≤ 16 := by
  have hle : (overwrite none (putAssignments payload now)).size ≤
      (keys ++ [timestampKey]).length := by
    refine OrderedMap.size_le_of_keys ?_
    intro k hk
    rw [keys_overwrite_none, List.mem_eraseDups, putAssignments, List.map_append,
      List.mem_append] at hk
    rw [List.mem_append]
    by_cases hstamp : k = timestampKey
    · exact Or.inr (by simp [hstamp])
    · rcases hk with hk | hk
      · exact Or.inl (hkeys k hk hstamp)
      · exact absurd (by simpa using hk) hstamp
  rw [List.length_append, List.length_singleton] at hle
  omega

/-- The keys that a payload is to be stored under, the timestamp aside. -/
def storedKeys (assigned : List (CString × CString)) : List CString :=
  ((assigned.map Prod.fst).filter fun k => k ≠ timestampKey).eraseDups

theorem mem_storedKeys {assigned : List (CString × CString)} {k : CString}
    (hk : k ∈ assigned.map Prod.fst) (hstamp : k ≠ timestampKey) : k ∈ storedKeys assigned := by
  rw [storedKeys, List.mem_eraseDups, List.mem_filter]
  exact ⟨hk, by simpa using hstamp⟩

/-- The fields are the pairs, each key with its last value, and the clock; nothing else. -/
structure Carries (fields : FieldMap) (pairs : List (CString × CString)) (now : BitVec 32) :
    Prop where
  values : ∀ k, trim k ≠ timestampKey →
    contentAt fields k = .ok (OrderedMap.valuesOf (trim k) (trimKeys pairs)).getLast?
  stamp : contentAt fields timestampKey = .ok (some (decimal now.toNat))
  keys : ∀ i, ∃ r, flatmapGetByIndex fields i = .ok r ∧
    r.map Entry.key = ((trimKeys pairs).map Prod.fst ++ [timestampKey]).eraseDups[i]?

theorem Carries.of_holds {fields : FieldMap} {payload : CString} {pairs : List (CString × CString)}
    {now : BitVec 32} (hassign : payloadAssignments payload = trimKeys pairs)
    (hf : FieldsHold fields (overwrite none (putAssignments payload now))) :
    Carries fields pairs now where
  values k hk := by rw [hf.contentAt_eq, lookup_overwrite_put _ _ hk, hassign]
  stamp := by rw [hf.contentAt_eq, trim_timestampKey, lookup_overwrite_stamp]
  keys i := by
    obtain ⟨r, hget, hkey⟩ := Holds.keyAt hf i
    refine ⟨r, hget, ?_⟩
    rw [hkey, keys_overwrite_none, putAssignments, List.map_append, hassign]
    rfl

/-- **The payload format round-trips.** The fields that `assignContent` makes for a new topic carry
the pairs, and so do the fields that a put on a fresh topic stores. -/
theorem payload_round_trip (pairs : List (CString × CString)) (hne : pairs ≠ [])
    (hpairs : ∀ p ∈ pairs, Encodable p) (hkeys : (storedKeys (trimKeys pairs)).length ≤ 15)
    (trailing : Bool) (now : BitVec 32) :
    (∃ fields, assignContent now (encode pairs trailing) none = .ok (some fields) ∧
      Carries fields pairs now) ∧
    ∀ puts topic, FitsRun puts → trim (cstr topic) ∉ topicsOf puts → (topicsOf puts).length < 16 →
      ∃ b b' fields, mqttBufferPutAll Buffer.boot puts = .ok b ∧
        mqttBufferPut b topic (encode pairs trailing) now = .ok b' ∧
        storeEntry b' (cstr topic) = .ok (some fields) ∧ Carries fields pairs now := by
  have hassign := payloadAssignments_encode hne hpairs trailing
  have hsize := size_overwrite_put (encode pairs trailing) now
    (by
      rw [hassign]
      exact fun k => mem_storedKeys) hkeys
  refine ⟨?_, ?_⟩
  · obtain ⟨fields, hnew, hf⟩ := assignContent_new now _ hsize
    exact ⟨fields, hnew, Carries.of_holds hassign hf⟩
  · intro puts topic hfits hfresh hroom
    obtain ⟨b, hrun, hb⟩ := mqttBufferPutAll_holds BufferHolds.boot puts hfits.fits
    rw [← Store.keys_putAll, ← OrderedMap.lookup_eq_none] at hfresh
    rw [← Store.keys_putAll, OrderedMap.length_keys] at hroom
    have hcstr := cstr_of_notMem (nul_notMem_encode hpairs trailing)
    obtain ⟨b', fields, hput, hentry, hf⟩ := mqttBufferPut_fresh hb hfits.fits (encode pairs trailing)
      now hfresh hroom (by rw [hcstr]; exact hsize)
    rw [hcstr] at hf
    exact ⟨b, b', fields, hrun, hput, hentry, Carries.of_holds hassign hf⟩

/-- A comma in a key, a colon in a value and a comma at the end. -/
theorem payload_round_trip_two :
    ∃ b fields, mqttBufferPut Buffer.boot "room".toList "state:on, a,b :1:2 3,".toList 7 = .ok b ∧
      storeEntry b "room".toList = .ok (some fields) ∧
      contentAt fields "a,b".toList = .ok (some "1:2 3".toList) := by
  obtain ⟨b, b', fields, hrun, hput, hentry, hcarries⟩ := (payload_round_trip
    [("state".toList, "on".toList), (" a,b ".toList, "1:2 3".toList)] (by simp)
    (by decide +kernel) (by decide +kernel) true 7).2 [] "room".toList
    (FitsRun.of_length (by simp) (by simp)) (by decide +kernel) (by decide +kernel)
  rw [mqttBufferPutAll, Runs.foldlM_nil, Except.ok.injEq] at hrun
  subst hrun
  have htext : encode [("state".toList, "on".toList), (" a,b ".toList, "1:2 3".toList)] true =
      "state:on, a,b :1:2 3,".toList := by decide +kernel
  have hroom : cstr "room".toList = "room".toList := by decide +kernel
  rw [htext] at hput
  rw [hroom] at hentry
  refine ⟨b', fields, hput, hentry, ?_⟩
  rw [hcarries.values _ (by decide +kernel)]
  decide +kernel

end HomeAutomation
