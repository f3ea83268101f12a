import HomeAutomation.Buffer.LastWriter

/-!
# The display of the store

`mqttBuffer_dispalyAll` prints a rule, then each topic on a line of its own with a line for each of
its fields, the field names padded to 20 characters. When no message carries a line end the text can
be read back (`readDisplay`): it lists what is stored, in store order
(`mqttBufferDispalyAll_reads_back`).
-/

namespace HomeAutomation

/-! ## Printing -/

/-- `%-20s`. -/
def leftJustified (s : CString) : CString := s ++ List.replicate (20 - s.length) ' '

def ruleLine : CString := "-----------------".toList

/-- `printf("%s\t:\n", entry->key)`, without the line end. -/
def topicLine (key : CString) : CString := key ++ "\t:".toList

/-- `printf("\t %-20s: %s\n", entryInner->key, entryInner->content)`, without the line end. -/
def fieldLine (key value : CString) : CString :=
  "\t ".toList ++ leftJustified key ++ ": ".toList ++ value

/-- A round of the inner loop. -/
def displayField (text : CString) (entryInner : Entry CString) : Except Fault CString :=
  match entryInner.content with
  | none => .error .nullDeref
  | some value => .ok (text ++ fieldLine entryInner.key value ++ ['\n'])

/-- A round of the outer loop. -/
def displayTopic (text : CString) (entry : Entry FieldMap) : Except Fault CString :=
  match entry.content with
  | none => .error .nullDeref
  | some fields => forEntries fields displayField (text ++ topicLine entry.key ++ ['\n'])

/-- What `mqttBuffer_dispalyAll(MapInfo*)` prints. -/
def displayMap (mapInfo : TopicMap) : Except Fault CString :=
  forEntries mapInfo displayTopic (ruleLine ++ ['\n'])

/-- `mqttBuffer_dispalyAll()`: the store afterwards and the text. -/
def mqttBufferDispalyAll (b : Buffer) : Except Fault (Buffer × CString) := do
  let b ← initializeBuffer b
  let text ← displayMap b.mapInfo
  .ok (b, text)

/-! ## The lines -/

def fieldLines (l : List (CString × CString)) : List CString := l.map fun p => fieldLine p.1 p.2

/-- The lines of a topic. -/
def topicLines (p : CString × List (CString × CString)) : List CString :=
  topicLine p.1 :: fieldLines p.2

/-- The topics with their fields, as lists. -/
def Store.listing (s : Store) : List (CString × List (CString × CString)) :=
  s.entries.map fun e => (e.1, e.2.entries)

def unlines (lines : List CString) : CString := lines.flatMap fun line => line ++ ['\n']

theorem unlines_append (l l' : List CString) : unlines (l ++ l') = unlines l ++ unlines l' :=
  List.flatMap_append

def Store.display (s : Store) : CString := unlines (ruleLine :: s.listing.flatMap topicLines)

theorem displayField_holds {m : FieldMap} {f : Fields} (h : FieldsHold m f) (text : CString) :
    forEntries m displayField text = .ok (text ++ unlines (fieldLines f.entries)) := by
  have hloop := forEntries_holds h displayField
    (S := fun t l => t = text ++ unlines (fieldLines l))
    (by
      intro t l k c v _ hcv ht
      subst hcv
      refine ⟨_, rfl, ?_⟩
      rw [ht, fieldLines, fieldLines, List.map_append, unlines_append, ← List.append_assoc]
      simp [unlines])
    (s := text) (by simp [unlines, fieldLines])
  obtain ⟨t, hrun, rfl⟩ := hloop
  exact hrun

/-- **The display is the text of the store.** -/
theorem displayMap_holds {m : TopicMap} {s : Store} (h : Holds FieldsHold m s) :
    displayMap m = .ok s.display := by
  have hloop := forEntries_holds h displayTopic
    (S := fun t l => t = unlines (ruleLine ::
      (l.map fun e : CString × Fields => (e.1, e.2.entries)).flatMap topicLines))
    (by
      intro t l k c f _ hcf ht
      refine ⟨_, displayField_holds hcf _, ?_⟩
      rw [ht, List.map_append, List.flatMap_append, ← List.cons_append, unlines_append]
      simp [unlines, topicLines])
    (s := ruleLine ++ ['\n']) (by simp [unlines])
  obtain ⟨t, hrun, rfl⟩ := hloop
  exact hrun

theorem mqttBufferDispalyAll_holds {b : Buffer} {s : Store} (h : BufferHolds b s) :
    ∃ b', mqttBufferDispalyAll b = .ok (b', s.display) ∧ initializeBuffer b = .ok b' := by
  obtain ⟨b', hinit, _, h'⟩ := initializeBuffer_holds h
  refine ⟨b', ?_, hinit⟩
  simp only [mqttBufferDispalyAll, hinit, displayMap_holds h', Runs.ok_bind]

/-! ## Reading it back -/

def isFieldLine (line : CString) : Bool := line.take 2 == "\t ".toList

def readField (line : CString) : CString × CString :=
  let (key, value) := Delimited.cut (· == ':') (line.drop 2)
  (trim key, (value.getD []).drop 1)

/-- The topics that lines list, and the fields in front of the first topic. -/
def readLines : List CString → List (CString × CString) × List (CString × List (CString × CString))
  | [] => ([], [])
  | line :: rest =>
    let (fields, topics) := readLines rest
    if isFieldLine line then (readField line :: fields, topics)
    else ([], (line.take (line.length - 2), fields) :: topics)

/-- What a display lists. -/
def readDisplay (text : CString) : List (CString × List (CString × CString)) :=
  (readLines ((text.splitOnP (· == '\n')).dropLast.drop 1)).2

theorem splitOnP_unlines {lines : List CString} (h : ∀ line ∈ lines, '\n' ∉ line) :
    (unlines lines).splitOnP (· == '\n') = lines ++ [[]] := by
  induction lines with
  | nil => rfl
  | cons line lines ih =>
    have hfree : ∀ x ∈ line, (x == '\n') = false := by
      intro x hx
      have hne : x ≠ '\n' := fun e => h line (by simp) (e ▸ hx)
      simpa using hne
    have hcons : unlines (line :: lines) = line ++ '\n' :: unlines lines := by
      simp [unlines]
    rw [hcons, Delimited.splitOnP_cut, Delimited.cut_append_cons _ hfree rfl]
    change line :: (unlines lines).splitOnP (· == '\n') = _
    rw [ih fun l hl => h l (List.mem_cons_of_mem _ hl)]
    rfl

theorem isFieldLine_field (k v : CString) : isFieldLine (fieldLine k v) = true := by
  simp [isFieldLine, fieldLine]

theorem isFieldLine_topic {t : CString} (ht : trim t = t) : isFieldLine (topicLine t) = false := by
  rcases t with _ | ⟨c, t⟩
  · rfl
  · have hspace : isspace c = false :=
      Delimited.trim_head isspace (congrArg List.head? ht)
    have hne : c ≠ '\t' := by
      rintro rfl
      exact absurd hspace (by decide)
    have hfirst : (isFieldLine (topicLine (c :: t))) = true → c = '\t' := by
      intro h
      cases t <;> simp_all [isFieldLine, topicLine]
    exact Bool.eq_false_iff.mpr fun h => hne (hfirst h)

theorem trim_leftJustified {k : CString} (hk : trim k = k) : trim (leftJustified k) = k := by
  have hpad : ∀ c ∈ List.replicate (20 - k.length) ' ', isspace c = true := by
    intro c hc
    rw [(List.mem_replicate.mp hc).2]
    decide
  rcases k with _ | ⟨c, k⟩
  · exact (Delimited.trim_eq_nil_iff isspace).mpr hpad
  · have hspace : isspace c = false :=
      Delimited.trim_head isspace (congrArg List.head? hk)
    have hfront : ∀ l : List Char, (c :: l).dropWhile isspace = c :: l := by
      intro l
      rw [List.dropWhile_cons_of_neg (by simp [hspace])]
    rw [leftJustified, List.cons_append, trim, Delimited.trim, hfront, ← List.cons_append,
      List.rdropWhile, List.reverse_append, List.dropWhile_append_of_pos, ← List.rdropWhile]
    · rw [trim, Delimited.trim, hfront] at hk
      exact hk
    · intro x hx
      exact hpad x (List.mem_reverse.mp hx)

theorem readField_field {k v : CString} (hk : trim k = k) (hcolon : ':' ∉ k) :
    readField (fieldLine k v) = (k, v) := by
  have hfree : ∀ x ∈ leftJustified k, (x == ':') = false := by
    intro x hx
    have hne : x ≠ ':' := by
      rintro rfl
      rcases List.mem_append.mp hx with hx | hx
      · exact hcolon hx
      · exact absurd (List.mem_replicate.mp hx).2 (by decide)
    simpa using hne
  have hdrop : (fieldLine k v).drop 2 = leftJustified k ++ ':' :: ' ' :: v := by
    simp [fieldLine]
  rw [readField, hdrop, Delimited.cut_append_cons _ hfree rfl]
  simp only [trim_leftJustified hk, Option.getD_some, List.drop_one, List.tail_cons]

/-- Strings that come back from their lines. -/
structure Listable (p : CString × List (CString × CString)) : Prop where
  topic : trim p.1 = p.1
  fields : ∀ q ∈ p.2, trim q.1 = q.1 ∧ ':' ∉ q.1

theorem readLines_fields {l : List (CString × CString)} (h : ∀ q ∈ l, trim q.1 = q.1 ∧ ':' ∉ q.1)
    (rest : List CString) :
    readLines (fieldLines l ++ rest) = (l ++ (readLines rest).1, (readLines rest).2) := by
  induction l with
  | nil => rfl
  | cons q l ih =>
    have hq := h q (by simp)
    have hl := ih fun r hr => h r (List.mem_cons_of_mem _ hr)
    rw [fieldLines] at hl
    rw [fieldLines, List.map_cons, List.cons_append, readLines, hl]
    simp only [isFieldLine_field, readField_field hq.1 hq.2, if_true, List.cons_append]

theorem readLines_listing {l : List (CString × List (CString × CString))}
    (h : ∀ p ∈ l, Listable p) : readLines (l.flatMap topicLines) = ([], l) := by
  induction l with
  | nil => rfl
  | cons p l ih =>
    have hp := h p (by simp)
    have hl := ih fun r hr => h r (List.mem_cons_of_mem _ hr)
    have htake : (topicLine p.1).take ((topicLine p.1).length - 2) = p.1 := by
      simp [topicLine]
    rw [List.flatMap_cons, topicLines, List.cons_append, readLines, readLines_fields hp.fields, hl]
    simp only [isFieldLine_topic hp.topic, htake, Bool.false_eq_true, if_false, List.append_nil]

/-! ## What is stored can be read back -/

theorem mem_of_mem_strsep (delim : List Char) (s : CString) (x : Char) :
    (∀ token, (strsep delim (some s)).1 = some token → x ∈ token → x ∈ s ∧ x ∉ delim) ∧
      ∀ r, (strsep delim (some s)).2 = some r → x ∈ r → x ∈ s := by
  refine ⟨?_, ?_⟩
  · intro token htoken hx
    obtain rfl : (Delimited.cut delim.contains s).1 = token := Option.some.inj htoken
    obtain ⟨hmem, hfree⟩ := Delimited.mem_of_mem_cut delim.contains hx
    exact ⟨hmem, by simpa using hfree⟩
  · intro r hr hx
    exact Delimited.mem_of_mem_rest delim.contains hr hx

/-- What one round of `assignContent` reads comes from the text, and a key has no colon. -/
theorem nextAssignment_mem {s : CString} {a : CString × CString} {cursor : Option CString}
    (h : nextAssignment (some s) = some (a, cursor)) {x : Char} :
    (x ∈ a.1 → x ≠ ':' ∧ (x ∈ s ∨ x ∈ noKey)) ∧ (x ∈ a.2 → x ∈ s) ∧
      ∀ r, cursor = some r → x ∈ r → x ∈ s := by
  have hnoKey : x ∈ noKey → x ≠ ':' ∧ (x ∈ s ∨ x ∈ noKey) := by
    intro hx
    exact ⟨fun e => absurd (e ▸ hx) (by decide +kernel), Or.inr hx⟩
  obtain ⟨hkey, hafter⟩ := mem_of_mem_strsep [':'] s x
  simp only [nextAssignment] at h
  generalize hk : strsep [':'] (some s) = k at h hkey hafter
  obtain ⟨key, afterKey⟩ := k
  have hval : ∀ value afterValue, strsep [','] afterKey = (value, afterValue) →
      (∀ t, value = some t → x ∈ t → x ∈ s) ∧ ∀ r, afterValue = some r → x ∈ r → x ∈ s := by
    intro value afterValue hv
    rcases afterKey with _ | r
    · obtain ⟨rfl, rfl⟩ := Prod.mk.inj hv
      exact ⟨fun _ e => absurd e (by simp), fun _ e => absurd e (by simp)⟩
    · obtain ⟨htok, hrest⟩ := mem_of_mem_strsep [','] r x
      rw [hv] at htok hrest
      exact ⟨fun t ht hx => hafter r rfl (htok t ht hx).1,
        fun r' hr hx => hafter r rfl (hrest r' hr hx)⟩
  obtain ⟨token, rfl⟩ : ∃ token, key = some token := by
    rcases key with _ | token
    · simp [isSet] at h
    · exact ⟨token, rfl⟩
  cases hset : isSet (some token) with
  | false =>
    have hnone : isSet none = false := rfl
    simp [hset, hnone] at h
  | true =>
    simp only [hset, if_true] at h
    generalize hv : strsep [','] afterKey = v at h
    obtain ⟨value, afterValue⟩ := v
    obtain ⟨hvalue, hrest⟩ := hval value afterValue hv
    cases hvset : isSet value with
    | false =>
      simp only [hvset, Bool.not_true, Bool.not_false, Bool.false_and, Bool.and_true,
        Bool.false_eq_true, if_false, if_true, Option.some.injEq, Prod.mk.injEq] at h
      obtain ⟨rfl, rfl⟩ := h
      exact ⟨hnoKey, fun hx => (hkey token rfl hx).1, hrest⟩
    | true =>
      obtain ⟨v, rfl⟩ : ∃ v, value = some v := by
        rcases value with _ | v
        · simp [isSet] at hvset
        · exact ⟨v, rfl⟩
      simp only [hvset, Bool.not_true, Bool.and_false, Bool.false_and, Bool.false_eq_true,
        if_false, Option.some.injEq, Prod.mk.injEq, Option.getD_some] at h
      obtain ⟨rfl, rfl⟩ := h
      refine ⟨fun hx => ?_, hvalue v rfl, hrest⟩
      obtain ⟨hmem, hcolon⟩ := hkey token rfl hx
      exact ⟨fun e => hcolon (by simp [e]), Or.inl hmem⟩

theorem assignments_mem {x : Char} :
    ∀ (cursor : Option CString), ∀ a ∈ assignments cursor,
      (x ∈ a.1 → x ≠ ':' ∧ ((∃ s, cursor = some s ∧ x ∈ s) ∨ x ∈ noKey)) ∧
        (x ∈ a.2 → ∃ s, cursor = some s ∧ x ∈ s) := by
  intro cursor
  induction hn : cursorSize cursor using Nat.strong_induction_on generalizing cursor with
  | _ n ih =>
    intro a ha
    rcases cursor with _ | s
    · rw [assignments_break (by simp [nextAssignment, isSet])] at ha
      exact absurd ha List.not_mem_nil
    · rcases hnext : nextAssignment (some s) with _ | ⟨b, cursor'⟩
      · rw [assignments_break hnext] at ha
        exact absurd ha List.not_mem_nil
      · obtain ⟨hkey, hvalue, hrest⟩ := nextAssignment_mem hnext (x := x)
        rw [assignments_step hnext] at ha
        rcases List.mem_cons.mp ha with rfl | ha
        · refine ⟨fun hx => ⟨(hkey hx).1, ?_⟩, fun hx => ⟨s, rfl, hvalue hx⟩⟩
          exact (hkey hx).2.imp_left fun hmem => ⟨s, rfl, hmem⟩
        · obtain ⟨hkey', hvalue'⟩ := ih _ (hn ▸ cursorSize_nextAssignment hnext) cursor' rfl a ha
          have hback : (∃ r, cursor' = some r ∧ x ∈ r) → ∃ s', some s = some s' ∧ x ∈ s' := by
            rintro ⟨r, hr, hx⟩
            exact ⟨s, rfl, hrest r hr hx⟩
          exact ⟨fun hx => ⟨(hkey' hx).1, (hkey' hx).2.imp_left hback⟩, fun hx => hback (hvalue' hx)⟩

/-- A message without line ends. -/
def Put.OneLine (p : Put) : Prop := '\n' ∉ p.topic ∧ '\n' ∉ p.data

theorem mem_of_mem_cstr {buf : List Char} {x : Char} (h : x ∈ cstr buf) : x ∈ buf :=
  (List.takeWhile_prefix _).subset h

theorem putAssignments_listable {p : Put} (hp : p.OneLine) {q : CString × CString}
    (hq : q ∈ putAssignments (cstr p.data) p.now) :
    trim q.1 = q.1 ∧ ':' ∉ q.1 ∧ '\n' ∉ q.1 ∧ '\n' ∉ q.2 := by
  rcases List.mem_append.mp hq with hq | hq
  · obtain ⟨a, ha, rfl⟩ := List.mem_map.mp hq
    refine ⟨Delimited.trim_trim isspace _, ?_, ?_, ?_⟩
    · intro hx
      exact ((assignments_mem _ a ha).1 (Delimited.mem_of_mem_trim isspace hx)).1 rfl
    · intro hx
      rcases ((assignments_mem _ a ha).1 (Delimited.mem_of_mem_trim isspace hx)).2 with
        ⟨s, hs, hmem⟩ | hmem
      · obtain rfl : cstr p.data = s := Option.some.inj hs
        exact hp.2 (mem_of_mem_cstr hmem)
      · exact absurd hmem (by decide +kernel)
    · intro hx
      obtain ⟨s, hs, hmem⟩ := (assignments_mem _ a ha).2 hx
      obtain rfl : cstr p.data = s := Option.some.inj hs
      exact hp.2 (mem_of_mem_cstr hmem)
  · obtain rfl := List.mem_singleton.mp hq
    have hcolon : ':' ∉ timestampKey := by decide +kernel
    have hline : '\n' ∉ timestampKey := by decide +kernel
    exact ⟨trim_timestampKey, hcolon, hline, decimal_not_mem (by decide)⟩

/-! ## The round trip -/

theorem mem_entries_overwrite {l : List (CString × CString)} {q : CString × CString}
    (h : q ∈ (overwrite none l).entries) : q ∈ l := by
  have hlookup := OrderedMap.lookup_eq_some.mpr h
  rw [overwrite, OrderedMap.lookup_overwrite, Option.getD_none, OrderedMap.lookup_empty,
    Option.or_none] at hlookup
  have hmem := List.mem_of_getLast? hlookup
  obtain ⟨r, hr, hvalue⟩ := List.mem_map.mp hmem
  obtain ⟨hin, hkey⟩ := List.mem_filter.mp hr
  obtain rfl : r = q := Prod.ext (by simpa using hkey) hvalue
  exact hin

theorem splitOnP_display {l : List (CString × List (CString × CString))}
    (h : ∀ e ∈ l, '\n' ∉ e.1 ∧ ∀ q ∈ e.2, '\n' ∉ q.1 ∧ '\n' ∉ q.2) :
    (unlines (ruleLine :: l.flatMap topicLines)).splitOnP (· == '\n') =
      (ruleLine :: l.flatMap topicLines) ++ [[]] := by
  have htab : '\n' ∉ "\t ".toList ∧ '\n' ∉ "\t:".toList ∧ '\n' ∉ ": ".toList ∧ '\n' ∉ ruleLine := by
    decide +kernel
  obtain ⟨htab, htopic, hcolon, hrule⟩ := htab
  apply splitOnP_unlines
  intro line hline hx
  rcases List.mem_cons.mp hline with rfl | hline
  · exact hrule hx
  · obtain ⟨e, he, hline⟩ := List.mem_flatMap.mp hline
    obtain ⟨hkey, hfields⟩ := h e he
    rcases List.mem_cons.mp hline with rfl | hline
    · rcases List.mem_append.mp hx with hx | hx
      · exact hkey hx
      · exact htopic hx
    · obtain ⟨q, hq, rfl⟩ := List.mem_map.mp hline
      obtain ⟨hname, hvalue⟩ := hfields q hq
      simp only [fieldLine, leftJustified, List.mem_append, List.mem_replicate] at hx
      rcases hx with ((hx | hx | ⟨_, hx⟩) | hx) | hx
      · exact htab hx
      · exact hname hx
      · exact absurd hx (by decide)
      · exact hcolon hx
      · exact hvalue hx

/-- The display of a run of one-line messages reads back as its store. -/
theorem readDisplay_display {puts : List Put} (h : ∀ p ∈ puts, p.OneLine) :
    readDisplay (Store.putAll OrderedMap.empty puts).display =
      (Store.putAll OrderedMap.empty puts).listing := by
  have hentry : ∀ e ∈ (Store.putAll OrderedMap.empty puts).listing,
      (trim e.1 = e.1 ∧ '\n' ∉ e.1) ∧
        ∀ q ∈ e.2, trim q.1 = q.1 ∧ ':' ∉ q.1 ∧ '\n' ∉ q.1 ∧ '\n' ∉ q.2 := by
    intro e he
    rw [Store.listing, Store.entries_putAll, List.map_map] at he
    obtain ⟨t, ht, rfl⟩ := List.mem_map.mp he
    obtain ⟨p, hp, rfl⟩ := List.mem_map.mp (List.mem_eraseDups.mp ht)
    refine ⟨⟨Delimited.trim_trim isspace _, ?_⟩, ?_⟩
    · intro hx
      exact (h p hp).1 (mem_of_mem_cstr (Delimited.mem_of_mem_trim isspace hx))
    · intro q hq
      obtain ⟨p', hp', hmem⟩ := List.mem_flatMap.mp (mem_entries_overwrite hq)
      exact putAssignments_listable (h p' (List.mem_filter.mp hp').1) hmem
  rw [readDisplay, Store.display]
  generalize (Store.putAll OrderedMap.empty puts).listing = l at hentry ⊢
  have hlistable : ∀ e ∈ l, Listable e := by
    intro e he
    refine ⟨(hentry e he).1.1, ?_⟩
    intro q hq
    exact ⟨((hentry e he).2 q hq).1, ((hentry e he).2 q hq).2.1⟩
  rw [splitOnP_display fun e he => ⟨(hentry e he).1.2, fun q hq => ((hentry e he).2 q hq).2.2⟩,
    List.dropLast_concat, List.drop_one, List.tail_cons, readLines_listing hlistable]

/-- A stored entry and what the display lists for it. -/
def EntryListed : Option (Entry FieldMap) → Option (CString × List (CString × CString)) → Prop
  | none, none => True
  | some e, some p => e.key = p.1 ∧ ∃ fields, e.content = some fields ∧
      ∀ j, flatmapGetByIndex fields j = .ok (p.2[j]?.map fun q => ⟨q.1, some q.2⟩)
  | _, _ => False

theorem FieldsHold.getByIndex_entries {m : FieldMap} {f : Fields} (h : FieldsHold m f) (j : Nat) :
    flatmapGetByIndex m j = .ok (f.entries[j]?.map fun q => ⟨q.1, some q.2⟩) := by
  rcases Holds.getByIndex h j with ⟨hget, hnone⟩ | ⟨k, c, v, hget, hsome, rfl⟩
  · rw [hget, hnone]
    rfl
  · rw [hget, hsome]
    rfl

/-- **What is displayed is what is stored**: the text of a store of one-line messages lists its
topics in order, each with its fields in order and their values. -/
theorem mqttBufferDispalyAll_reads_back (puts : List Put) (hfits : FitsRun puts)
    (hlines : ∀ p ∈ puts, p.OneLine) :
    ∃ b b' text, mqttBufferPutAll Buffer.boot puts = .ok b ∧
      mqttBufferDispalyAll b = .ok (b', text) ∧
      ∀ i, ∃ r, storeEntryAt b i = .ok r ∧ EntryListed r (readDisplay text)[i]? := by
  obtain ⟨b, hrun, hb⟩ := mqttBufferPutAll_holds BufferHolds.boot puts hfits.fits
  obtain ⟨b', hshow, hinit⟩ := mqttBufferDispalyAll_holds hb
  obtain ⟨b₁, hinit₁, _, h'⟩ := initializeBuffer_holds hb
  refine ⟨b, b', _, hrun, hshow, ?_⟩
  intro i
  rw [readDisplay_display hlines, Store.listing, List.getElem?_map, storeEntryAt, hinit₁,
    Runs.ok_bind]
  rcases h'.getByIndex i with ⟨hget, hnone⟩ | ⟨t, c, f, hget, hsome, hcf⟩
  · exact ⟨_, hget, by rw [hnone]; trivial⟩
  · refine ⟨_, hget, ?_⟩
    rw [hsome]
    exact ⟨rfl, c, rfl, hcf.getByIndex_entries⟩

/-- Two topics, one of them put twice. -/
theorem mqttBufferDispalyAll_reads_back_two :
    ∃ b b' text, mqttBufferPutAll Buffer.boot
        [⟨"room/override".toList, "state:on,forMs:5".toList, 7⟩, ⟨"heating".toList, "1".toList, 9⟩,
         ⟨"room/override".toList, "state:off".toList, 12⟩] = .ok b ∧
      mqttBufferDispalyAll b = .ok (b', text) ∧
      ∀ i, ∃ r, storeEntryAt b i = .ok r ∧ EntryListed r (readDisplay text)[i]? :=
  mqttBufferDispalyAll_reads_back _ (FitsRun.of_length (by decide) (by decide +kernel))
    (by unfold Put.OneLine; decide +kernel)

end HomeAutomation
