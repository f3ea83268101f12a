import HomeAutomation.Buffer.Tasks

/-!
# Snapshots only grow

Entries are never taken out of the initialized store and never move. So of two snapshots with one
filter, taken by any tasks of a run, the later one has every topic of the earlier one at the same
index and every field of the topic at the same index (`snapshots_grow`): an index that a task has
found once is good for ever.
-/

namespace HomeAutomation

open Sections

/-! ## Stores that grow -/

/-- Every field keeps its place. -/
def FieldsGrow (f f' : Fields) : Prop := OrderedMap.Grows (fun _ _ => True) f f'

theorem FieldsGrow.refl (f : Fields) : FieldsGrow f f :=
  OrderedMap.EntriesGrow.refl (fun _ => trivial) f.entries

theorem FieldsGrow.trans (f f' f'' : Fields) (h : FieldsGrow f f') (h' : FieldsGrow f' f'') :
    FieldsGrow f f'' :=
  OrderedMap.EntriesGrow.trans (fun _ _ _ _ _ => trivial) h h'

/-- Every topic keeps its place, and so do its fields. -/
def Store.Grows (s s' : Store) : Prop := OrderedMap.Grows FieldsGrow s s'

theorem Store.grows_put (s : Store) (topic payload : CString) (now : BitVec 32) :
    s.Grows (s.put topic payload now) := by
  apply OrderedMap.grows_alter FieldsGrow.refl
  intro f
  exact OrderedMap.grows_alterAll (fun _ => trivial) (fun _ _ _ _ _ => trivial)
    (fun _ _ => trivial) f _

theorem Store.grows_putAll (s : Store) (puts : List Put) : s.Grows (s.putAll puts) := by
  induction puts generalizing s with
  | nil => exact OrderedMap.EntriesGrow.refl FieldsGrow.refl s.entries
  | cons p puts ih =>
    exact OrderedMap.EntriesGrow.trans FieldsGrow.trans
      (s.grows_put (cstr p.topic) (cstr p.data) p.now) (ih _)

theorem Store.Grows.matching {s s' : Store} (h : s.Grows s') (filter : CString) :
    (s.matching filter).Grows (s'.matching filter) :=
  OrderedMap.EntriesGrow.filter (fun t => 0 < matchTopic filter t) h

/-! ## Calls on a store that fits -/

/-- The put that a call makes. -/
def BufferCall.put? : BufferCall → Option Put
  | .put p => some p
  | _ => none

/-- The puts among the calls, in order. -/
def putsOf (calls : List BufferCall) : List Put := calls.filterMap BufferCall.put?

def Store.call (s : Store) (c : BufferCall) : Store := s.putAll c.put?.toList

theorem Store.foldl_call (s : Store) (calls : List BufferCall) :
    calls.foldl Store.call s = s.putAll (putsOf calls) := by
  induction calls generalizing s with
  | nil => rfl
  | cons c calls ih =>
    rw [List.foldl_cons, ih]
    cases c <;> rfl

theorem alone_holds {b : Buffer} {s : Store} (h : BufferHolds b s) {c : BufferCall}
    (hfits : (s.call c).Fits) :
    ∃ b' reply, c.alone b = .ok (b', reply) ∧ BufferHolds b' (s.call c) ∧
      ∀ filter copy, c = .getMatching filter → reply = .copied copy →
        Holds FieldsHold copy (s.matching filter) := by
  rcases c with p | filter | _
  · obtain ⟨b', hput, h', _⟩ := mqttBufferPut_holds h p.topic p.data p.now hfits
    refine ⟨b', .stored, ?_, h', fun _ _ hc => absurd hc (by simp)⟩
    rw [BufferCall.alone, hput]
    rfl
  · obtain ⟨b', copy, hget, _, hb', h', hcopy⟩ := mqttBufferGetMatching_holds h hfits filter
    refine ⟨b', .copied copy, ?_, BufferHolds.of_holds hb' h', ?_⟩
    · rw [BufferCall.alone, hget]
      rfl
    · intro filter' copy' hc hreply
      obtain rfl : filter = filter' := by simpa using hc
      obtain rfl : copy = copy' := by simpa using hreply
      exact hcopy
  · obtain ⟨b', hinit, hb', h'⟩ := initializeBuffer_holds h
    obtain ⟨b₁, hshow, hinit₁⟩ := mqttBufferDispalyAll_holds h
    obtain rfl : b' = b₁ := Except.ok.inj (hinit.symm.trans hinit₁)
    refine ⟨b', .displayed s.display, ?_, BufferHolds.of_holds hb' h', fun _ _ hc => absurd hc (by simp)⟩
    rw [BufferCall.alone, hshow]
    rfl

theorem Store.fits_of_call (s : Store) (c : BufferCall) (h : (s.call c).Fits) : s.Fits := by
  cases c with
  | put p => exact Store.fits_of_put h
  | getMatching _ => exact h
  | dispalyAll => exact h

theorem callAll_holds {b : Buffer} {s : Store} (h : BufferHolds b s) (calls : List BufferCall)
    (hfits : (s.putAll (putsOf calls)).Fits) :
    ∃ b', callAll b calls = .ok b' ∧ BufferHolds b' (s.putAll (putsOf calls)) := by
  rw [← Store.foldl_call] at hfits ⊢
  refine Runs.foldlM_sim (R := BufferHolds) (B := Store.Fits) ?_ Store.fits_of_call calls h hfits
  intro b₁ s₁ c h₁ hfit
  obtain ⟨b', reply, halone, h', _⟩ := alone_holds h₁ hfit
  exact ⟨b', by rw [halone]; rfl, h'⟩

theorem emptyTopics_holds : BufferHolds ⟨true, emptyTopics⟩ OrderedMap.empty := by
  obtain ⟨m, hinit, hm⟩ := flatmapInit_holds FieldsHold
  obtain rfl : m = emptyTopics := Except.ok.inj (hinit.symm.trans emptyTopics_init)
  exact BufferHolds.of_holds rfl hm

theorem Store.putAll_append (s : Store) (puts puts' : List Put) :
    s.putAll (puts ++ puts') = (s.putAll puts).putAll puts' := List.foldl_append

theorem Store.fits_of_putAll {s : Store} {puts : List Put} (h : (s.putAll puts).Fits) : s.Fits := by
  induction puts generalizing s with
  | nil => exact h
  | cons p puts ih => exact Store.fits_of_put (ih h)

/-! ## Snapshots in a run -/

section
variable {τ : Type} [DecidableEq τ] {w w' : BufferWorld τ}

/-- The store that the first `n` of the sections entered leave. -/
def storeAt (entered : List (τ × BufferCall)) (n : Nat) : Store :=
  Store.putAll OrderedMap.empty (putsOf ((entered.take n).map Prod.snd))

omit [DecidableEq τ] in
theorem storeAt_grows (entered : List (τ × BufferCall)) {n k : Nat} (h : n ≤ k) :
    (storeAt entered n).Grows (storeAt entered k) := by
  obtain ⟨rest, hrest⟩ := List.take_prefix_take_left (l := entered) h
  rw [storeAt, storeAt, ← hrest, List.map_append, putsOf, putsOf, List.filterMap_append,
    Store.putAll_append]
  exact Store.grows_putAll _ _

/-- A snapshot stands for the matching part of the store at its entry. -/
theorem snapshot_holds (h : Reachable BufferCall.steps (.ok emptyTopics) w)
    {entered : List (τ × BufferCall)} (hentered : w.entered <+: entered)
    (hfits : FitsRun (putsOf (entered.map Prod.snd))) {t : τ} {filter : CString} {n : Nat}
    {copy : TopicMap} (hleft : w.phase t = .left (.getMatching filter) n (.ok (.copied copy))) :
    Holds FieldsHold copy ((storeAt entered n).matching filter) := by
  obtain ⟨past, later, hpast, hn, hreply⟩ := (buffer_calls_atomic h).2 t _ n _ hleft
  obtain ⟨rest, rfl⟩ := hentered
  have hsplit : w.entered ++ rest = past ++ ((t, .getMatching filter) :: later ++ rest) := by
    rw [hpast, List.append_assoc]
  have htake : (w.entered ++ rest).take n = past := by
    rw [hsplit, ← hn]
    exact List.take_left
  have hfit : (storeAt (w.entered ++ rest) n).Fits := by
    have hall := hfits.fits
    rw [hsplit, List.map_append, putsOf, List.filterMap_append, Store.putAll_append] at hall
    rw [storeAt, htake]
    exact Store.fits_of_putAll hall
  rw [storeAt, htake] at hfit ⊢
  obtain ⟨b, hrun, hb⟩ := callAll_holds emptyTopics_holds (past.map Prod.snd) hfit
  obtain ⟨b', reply, halone, _, hcopy⟩ := alone_holds hb (c := .getMatching filter) hfit
  have hsame := hreply b hrun
  rw [halone] at hsame
  exact hcopy filter copy rfl (Except.ok.inj hsame).symm

theorem FieldsHold.keys_stay {m m' : FieldMap} {f f' : Fields} (h : FieldsHold m f)
    (h' : FieldsHold m' f') (hgrow : FieldsGrow f f') {j : Nat} {e : Entry CString}
    (he : flatmapGetByIndex m j = .ok (some e)) :
    ∃ e', flatmapGetByIndex m' j = .ok (some e') ∧ e'.key = e.key := by
  rw [h.getByIndex_entries, Except.ok.injEq, Option.map_eq_some_iff] at he
  obtain ⟨⟨k, v⟩, hentry, rfl⟩ := he
  obtain ⟨v', hentry', _⟩ := OrderedMap.EntriesGrow.getElem? hgrow hentry
  exact ⟨⟨k, some v'⟩, by rw [h'.getByIndex_entries, hentry']; rfl, rfl⟩

/-- **Snapshots only grow**: of two snapshots with one filter, whoever takes them, the later has the
topics of the earlier one at the same indices, and in each topic the fields at the same indices. -/
theorem snapshots_grow (h : Reachable BufferCall.steps (.ok emptyTopics) w)
    (hsteps : Relation.ReflTransGen (Step BufferCall.steps) w w')
    (hfits : FitsRun (putsOf (w'.entered.map Prod.snd))) {t t' : τ} {filter : CString} {n n' : Nat}
    {copy copy' : TopicMap}
    (hleft : w.phase t = .left (.getMatching filter) n (.ok (.copied copy)))
    (hleft' : w'.phase t' = .left (.getMatching filter) n' (.ok (.copied copy'))) (hn : n ≤ n')
    (i : Nat) (e : Entry FieldMap) (he : flatmapGetByIndex copy i = .ok (some e)) :
    ∃ e' fields fields', flatmapGetByIndex copy' i = .ok (some e') ∧ e'.key = e.key ∧
      e.content = some fields ∧ e'.content = some fields' ∧
      ∀ j f, flatmapGetByIndex fields j = .ok (some f) →
        ∃ f', flatmapGetByIndex fields' j = .ok (some f') ∧ f'.key = f.key := by
  have hcopy := snapshot_holds h (entered_front hsteps) hfits hleft
  have hcopy' := snapshot_holds (h.trans hsteps) (List.prefix_refl _) hfits hleft'
  have hgrow := (storeAt_grows w'.entered hn).matching filter
  rcases hcopy.getByIndex i with ⟨hnone, _⟩ | ⟨k, fields, f, hget, hentry, hfields⟩
  · exact absurd (he.symm.trans hnone) (by simp)
  obtain rfl : e = ⟨k, some fields⟩ := Option.some.inj (Except.ok.inj (he.symm.trans hget))
  obtain ⟨f', hentry', hfgrow⟩ := OrderedMap.EntriesGrow.getElem? hgrow hentry
  rcases hcopy'.getByIndex i with ⟨_, hnone⟩ | ⟨k', fields', f'', hget', hsome, hfields'⟩
  · exact absurd (hentry'.symm.trans hnone) (by simp)
  obtain ⟨rfl, rfl⟩ := Prod.mk.inj (Option.some.inj (hentry'.symm.trans hsome))
  refine ⟨⟨k, some fields'⟩, fields, fields', hget', rfl, rfl, rfl, ?_⟩
  intro j e₁ he₁
  exact hfields.keys_stay hfields' hfgrow he₁

theorem call_returns {b : Buffer} {s : Store} (hfree : w.owner = none)
    (hshared : w.shared = .ok b.mapInfo) (hb : b.initialized = true) (h : BufferHolds b s) {t : τ}
    (hout : (w.phase t).Out) {c : BufferCall} (hfits : (s.call c).Fits) :
    ∃ w' b' reply, Relation.ReflTransGen (Step BufferCall.steps) w w' ∧ w'.owner = none ∧
      w'.shared = .ok b'.mapInfo ∧ b'.initialized = true ∧ BufferHolds b' (s.call c) ∧
      w'.entered = w.entered ++ [(t, c)] ∧ c.alone b = .ok (b', reply) ∧
      w'.phase t = .left c w.entered.length (.ok reply) ∧ ∀ u, u ≠ t → w'.phase u = w.phase u := by
  obtain ⟨b', reply, halone, h', _⟩ := alone_holds h hfits
  have hrun := run_steps hb c
  rw [halone, ← hshared] at hrun
  refine ⟨_, b', reply, steps_whole hfree hout c, rfl, ?_, alone_initialized halone, h', rfl, halone,
    ?_, fun u hu => World.go_of_ne _ _ hu⟩
  · exact congrArg Prod.fst hrun
  · rw [World.go_self, hrun]
    rfl

end

theorem getMatching_reply {b b' : Buffer} {filter : CString} {reply : BufferReply}
    (h : (BufferCall.getMatching filter).alone b = .ok (b', reply)) :
    ∃ copy, reply = .copied copy := by
  rw [BufferCall.alone] at h
  rcases hget : mqttBufferGetMatching b filter with e | r
  · rw [hget] at h
    exact absurd h (by simp [Except.map])
  · rw [hget] at h
    exact ⟨r.2, (Prod.mk.inj (Except.ok.inj h)).2.symm⟩

/-- A put, then a snapshot by one task and a snapshot by the other. -/
theorem snapshots_grow_two : ∃ (w w' : BufferWorld Bool) (copy copy' : TopicMap)
    (e e' : Entry FieldMap),
    w.phase true = .left (.getMatching "heating".toList) 1 (.ok (.copied copy)) ∧
    w'.phase false = .left (.getMatching "heating".toList) 2 (.ok (.copied copy')) ∧
    flatmapGetByIndex copy 0 = .ok (some e) ∧ flatmapGetByIndex copy' 0 = .ok (some e') ∧
    e'.key = e.key := by
  have hfits : FitsRun [⟨"heating".toList, "state:1".toList, 7⟩] :=
    FitsRun.of_length (by decide) (by decide +kernel)
  obtain ⟨w₁, b₁, _, hsteps₁, hfree₁, hshared₁, hb₁, h₁, hentered₁, _, hleft₁, hother₁⟩ :=
    call_returns (w := World.start Bool BufferCall (Except Fault BufferReply) (.ok emptyTopics))
      (t := false) (c := .put ⟨"heating".toList, "state:1".toList, 7⟩) rfl rfl rfl
      emptyTopics_holds trivial hfits.fits
  obtain ⟨w₂, b₂, reply₂, hsteps₂, hfree₂, hshared₂, hb₂, h₂, hentered₂, halone₂, hleft₂, hother₂⟩ :=
    call_returns (t := true) (c := .getMatching "heating".toList) hfree₁ hshared₁ hb₁ h₁
      (by rw [hother₁ true (by decide)]; trivial) hfits.fits
  obtain ⟨copy, rfl⟩ := getMatching_reply halone₂
  obtain ⟨w₃, b₃, reply₃, hsteps₃, _, _, _, _, hentered₃, halone₃, hleft₃, _⟩ :=
    call_returns (t := false) (c := .getMatching "heating".toList) hfree₂ hshared₂ hb₂ h₂
      (by rw [hother₂ false (by decide), hleft₁]; trivial) hfits.fits
  obtain ⟨copy', rfl⟩ := getMatching_reply halone₃
  have hreach := (Reachable.start.trans hsteps₁).trans hsteps₂
  have hall : w₃.entered = [(false, .put ⟨"heating".toList, "state:1".toList, 7⟩),
      (true, .getMatching "heating".toList), (false, .getMatching "heating".toList)] := by
    rw [hentered₃, hentered₂, hentered₁]
    rfl
  have hone : w₁.entered.length = 1 := by
    rw [hentered₁]
    rfl
  have htwo : w₂.entered.length = 2 := by
    rw [hentered₂, hentered₁]
    rfl
  rw [hone] at hleft₂
  rw [htwo] at hleft₃
  have hputs : FitsRun (putsOf (w₃.entered.map Prod.snd)) := by
    rw [hall]
    exact hfits
  have hcopy := snapshot_holds hreach (entered_front hsteps₃) hputs hleft₂
  have hsize : ((storeAt w₃.entered 1).matching "heating".toList).entries[0]? ≠ none := by
    rw [hall]
    decide +kernel
  rcases hcopy.getByIndex 0 with ⟨_, hnone⟩ | ⟨k, c, _, hget, _, _⟩
  · exact absurd hnone hsize
  obtain ⟨e', _, _, hget', hkey, _⟩ :=
    snapshots_grow hreach hsteps₃ hputs hleft₂ hleft₃ (by omega) 0 _ hget
  exact ⟨w₂, w₃, copy, copy', _, e', hleft₂, hleft₃, hget, hget', hkey⟩

end HomeAutomation
