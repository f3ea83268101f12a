import HomeAutomation.Buffer.Heap
import HomeAutomation.Buffer.LastWriter
import Mathlib.Algebra.BigOperators.Group.List.Basic

/-!
# What the program keeps on the heap

Runs of the program on the heap: messages are put, readers take snapshots and free them, in any
order. As long as no topic and no key is blank no run faults, and the heap holds the blocks of the
store and of the snapshots not yet freed, and no others (`bufferProgram_owns`). So the memory in use
depends on the topics and their fields, not on how many messages arrived (`bufferProgram_size`).
Freeing the store itself would leave a block for each topic (`freeStore_leaves`).
-/

namespace HomeAutomation

open HeapLogic

/-! ## Runs -/

/-- What the tasks do to the heap. A reader has its `MapInfo mapCopy` on the stack, here a block too;
`free i` is the `flatmap_free(&mapCopy)` of the `i`-th reader that still has its snapshot, and its
return. -/
inductive HeapOp where
  | put (p : Put)
  | snapshot (filter : CString)
  | free (i : Nat)

section
-- what comes of an access below a block (see `trimWhitespaceP`)
variable (below : Except Fault Unit)

def HeapOp.run (mapInfo : Nat) (live : List Nat) : HeapOp → HeapM (List Nat)
  | .put p => do
    mqttBufferPutP below mapInfo p.topic p.data p.now
    pure live
  | .snapshot filter => do
    let mapCopy ← alloc (.mapInfo ⟨0, 0, 0⟩)
    mqttBufferGetMatchingP below mapInfo filter mapCopy
    pure (live ++ [mapCopy])
  | .free i => match live[i]? with
    | none => pure live
    | some mapCopy => do
      flatmapFreeP freeContentCopyP mapCopy
      release badAccess mapCopy
      pure (live.eraseIdx i)

def runHeapOps (mapInfo : Nat) : List Nat → List HeapOp → HeapM (List Nat)
  | live, [] => pure live
  | live, op :: ops => do
    let live ← op.run below mapInfo live
    runHeapOps mapInfo live ops

/-- `initialize()`, then the operations: the store's `MapInfo` and the snapshots not yet freed. -/
def bufferProgram (ops : List HeapOp) : HeapM (Nat × List Nat) := do
  let mapInfo ← newMapInfoP
  let live ← runHeapOps below mapInfo [] ops
  pure (mapInfo, live)

end

/-! ## What the runs mean -/

/-- The store and the snapshots not yet freed, each with what it was taken of. -/
def HeapOp.mean (s : Store) (live : List Store) : HeapOp → Store × List Store
  | .put p => (s.put (cstr p.topic) (cstr p.data) p.now, live)
  | .snapshot filter => (s, live ++ [s.matching filter])
  | .free i => (s, live.eraseIdx i)

def meanAll : Store → List Store → List HeapOp → Store × List Store
  | s, live, [] => (s, live)
  | s, live, op :: ops => meanAll (op.mean s live).1 (op.mean s live).2 ops

def HeapOp.put? : HeapOp → Option Put
  | .put p => some p
  | _ => none

/-- The topics and keys of all messages of the run can be trimmed. -/
def RunTrims (below : Except Fault Unit) (puts : List Put) : Prop :=
  ∀ p ∈ puts, PutTrims below p.topic p.data

theorem meanAll_store (s : Store) (live : List Store) (ops : List HeapOp) :
    (meanAll s live ops).1 = s.putAll (ops.filterMap HeapOp.put?) := by
  induction ops generalizing s live with
  | nil => rfl
  | cons op ops ih =>
    rw [meanAll, ih]
    cases op <;> rfl

/-! ## Ownership along a run -/

/-- The blocks of snapshots. -/
inductive LiveAt : List Nat → List Store → Footprint Cell → Prop where
  | nil : LiveAt [] [] 0
  | cons {p : Nat} {s : Store} {ps : List Nat} {ss : List Store} {F G : Footprint Cell}
      (hp : TopicsAt p s F) (h : LiveAt ps ss G) : LiveAt (p :: ps) (s :: ss) (F + G)

section
variable {ps : List Nat} {ss : List Store} {p : Nat} {s : Store} {F G : Footprint Cell}
  {below : Except Fault Unit}

theorem LiveAt.concat (h : LiveAt ps ss G) (hp : TopicsAt p s F) :
    LiveAt (ps ++ [p]) (ss ++ [s]) (F + G) := by
  induction h with
  | nil => exact .cons hp .nil
  | @cons p₀ s₀ ps ss F₀ G hp₀ _ ih =>
    have hcons := LiveAt.cons hp₀ ih
    rwa [show F₀ + (F + G) = F + (F₀ + G) by abel] at hcons

theorem LiveAt.erase (h : LiveAt ps ss G) {i : Nat} (hi : ps[i]? = some p) :
    ∃ s F G', TopicsAt p s F ∧ LiveAt (ps.eraseIdx i) (ss.eraseIdx i) G' ∧ G = F + G' := by
  induction h generalizing i with
  | nil => exact absurd hi (by simp)
  | @cons p₀ s₀ ps ss F₀ G hp₀ h ih =>
    rcases i with _ | i
    · obtain rfl : p₀ = p := Option.some.inj hi
      exact ⟨s₀, F₀, G, hp₀, h, rfl⟩
    · obtain ⟨s, F, G', hp, h', rfl⟩ := ih hi
      exact ⟨s, F, F₀ + G', hp, .cons hp₀ h', by abel⟩

theorem LiveAt.length_eq (h : LiveAt ps ss G) : ps.length = ss.length := by
  induction h with
  | nil => rfl
  | cons _ _ ih => rw [List.length_cons, List.length_cons, ih]

theorem HeapOp.mean_trim {op : HeapOp} (h : s.Trim below) (htrims : RunTrims below op.put?.toList) :
    (op.mean s ss).1.Trim below := by
  cases op with
  | put p => exact h.put (htrims p (by simp [HeapOp.put?])) p.now
  | snapshot _ => exact h
  | free _ => exact h

theorem HeapOp.run_spec {mapInfo : Nat} (h : TopicsAt mapInfo s F) (hlive : LiveAt ps ss G)
    (hstore : s.Trim below) (op : HeapOp) (htrims : RunTrims below op.put?.toList)
    (hfits : (op.mean s ss).1.Fits) :
    Spec (F + G) (op.run below mapInfo ps) fun ps' F' => ∃ F₁ G₁, TopicsAt mapInfo (op.mean s ss).1 F₁ ∧
      LiveAt ps' (op.mean s ss).2 G₁ ∧ F' = F₁ + G₁ := by
  rcases op with p | filter | i
  · refine Spec.seq (mqttBufferPutP_spec h p.now (htrims p (by simp [HeapOp.put?])) hfits) rfl ?_
    intro _ F₁ h₁
    exact Spec.pure ⟨F₁, G, h₁, hlive, rfl⟩
  · refine Spec.alloc.bind ?_
    rintro mapCopy _ ⟨_, rfl⟩
    refine Spec.seq (mqttBufferGetMatchingP_spec h hstore filter) (add_assoc _ _ _).symm ?_
    rintro _ _ ⟨Fc, hc, rfl⟩
    exact Spec.pure ⟨F, Fc + G, h, hlive.concat hc, by abel⟩
  · rw [HeapOp.run]
    rcases hi : ps[i]? with _ | mapCopy
    · have hge : ps.length ≤ i := List.getElem?_eq_none_iff.mp hi
      refine Spec.pure ⟨F, G, h, ?_, rfl⟩
      rw [HeapOp.mean, List.eraseIdx_of_length_le (by rw [← hlive.length_eq]; exact hge)]
      exact hlive
    · obtain ⟨s', Fs, G', hs, hlive', rfl⟩ := hlive.erase hi
      refine Spec.seq (freeSnapshot_spec hs) (G := F + G') (by abel) ?_
      rintro _ _ rfl
      refine (Spec.release badAccess rfl).bind ?_
      rintro _ _ rfl
      exact Spec.pure ⟨F, G', h, hlive', rfl⟩

theorem HeapOp.fits_of_mean (op : HeapOp) (h : (op.mean s ss).1.Fits) : s.Fits := by
  cases op with
  | put p => exact Store.fits_of_put h
  | snapshot _ => exact h
  | free _ => exact h

theorem fits_of_meanAll (ops : List HeapOp) (h : (meanAll s ss ops).1.Fits) : s.Fits := by
  induction ops generalizing s ss with
  | nil => exact h
  | cons op ops ih => exact op.fits_of_mean (ih h)

theorem put?_cons (op : HeapOp) (ops : List HeapOp) :
    (op :: ops).filterMap HeapOp.put? = op.put?.toList ++ ops.filterMap HeapOp.put? := by
  rw [List.filterMap_cons]
  cases op.put? <;> rfl

theorem runHeapOps_spec {mapInfo : Nat} (h : TopicsAt mapInfo s F) (hlive : LiveAt ps ss G)
    (hstore : s.Trim below) (ops : List HeapOp) (htrims : RunTrims below (ops.filterMap HeapOp.put?))
    (hfits : (meanAll s ss ops).1.Fits) :
    Spec (F + G) (runHeapOps below mapInfo ps ops) fun ps' F' => ∃ F₁ G₁,
      TopicsAt mapInfo (meanAll s ss ops).1 F₁ ∧ LiveAt ps' (meanAll s ss ops).2 G₁ ∧
        F' = F₁ + G₁ := by
  induction ops generalizing s ss ps F G with
  | nil => exact Spec.pure ⟨F, G, h, hlive, rfl⟩
  | cons op ops ih =>
    rw [put?_cons] at htrims
    obtain ⟨hop, hops⟩ := List.forall_mem_append.mp htrims
    refine (op.run_spec h hlive hstore hop (fits_of_meanAll ops hfits)).bind ?_
    rintro ps' _ ⟨F₁, G₁, h₁, hlive₁, rfl⟩
    exact ih h₁ hlive₁ (HeapOp.mean_trim hstore hop) hops hfits

end

/-! ## The whole program -/

/-- The blocks of a map, when those of its contents are known. -/
theorem MapAt.card {ν : Type} {C : Nat → ν → Footprint Cell → Prop} {n : OrderedMap CString ν}
    {p : Nat} {F : Footprint Cell} (g : ν → Nat) (hC : ∀ c v Fc, C c v Fc → Fc.card = g v)
    (h : MapAt C p n F) : F.card = 2 + (n.entries.map fun e => 1 + g e.2).sum := by
  obtain ⟨_, _, q, block, es, Fe, hblocks⟩ := h
  have hentries : ∀ {es : List EntryP} {l : List (CString × ν)} {Fe : Footprint Cell},
      EntriesAt C es l Fe → Fe.card = (l.map fun e => 1 + g e.2).sum := by
    intro es l Fe h
    induction h with
    | nil => rfl
    | cons hc _ ih =>
      rw [Multiset.card_add, Multiset.card_add, Multiset.card_singleton, hC _ _ _ hc, ih,
        List.map_cons, List.sum_cons]
  rw [hblocks.blocks, Multiset.card_add, Multiset.card_add, Multiset.card_singleton,
    Multiset.card_singleton, hentries hblocks.entries]
  omega

/-- The blocks of a store: two for the map, three for each topic and two for each of its fields. -/
def Store.blocks (s : Store) : Nat := 2 + (s.entries.map fun e => 3 + 2 * e.2.size).sum

theorem TopicsAt.card {p : Nat} {s : Store} {F : Footprint Cell} (h : TopicsAt p s F) :
    F.card = s.blocks := by
  have hfields : ∀ c (f : Fields) Fc, FieldsAt c f Fc → Fc.card = 2 + 2 * f.size := by
    intro c f Fc hc
    have hone : ∀ l : List (CString × CString), (l.map fun _ => 1 + 1).sum = 2 * l.length := by
      intro l
      induction l with
      | nil => rfl
      | cons _ l ih => rw [List.map_cons, List.sum_cons, ih, List.length_cons]; omega
    rw [MapAt.card (fun _ => 1) (fun _ _ _ h => by rw [h, Multiset.card_singleton]) hc, hone]
    rfl
  rw [MapAt.card (fun f => 2 + 2 * f.size) hfields h, Store.blocks]
  congr 2
  exact List.map_congr_left fun e _ => by omega

theorem LiveAt.card {ps : List Nat} {ss : List Store} {G : Footprint Cell} (h : LiveAt ps ss G) :
    G.card = (ss.map Store.blocks).sum := by
  induction h with
  | nil => rfl
  | cons hp _ ih => rw [Multiset.card_add, hp.card, ih, List.map_cons, List.sum_cons]

section
variable {below : Except Fault Unit}

/-- The blocks at the end of a run whose topics and keys can be trimmed. -/
theorem bufferProgram_runs (ops : List HeapOp) (hfits : FitsRun (ops.filterMap HeapOp.put?))
    (htrims : RunTrims below (ops.filterMap HeapOp.put?)) :
    ∃ mapInfo live h F G, (bufferProgram below ops).run (Heap.empty Cell) = .ok ((mapInfo, live), h) ∧
      TopicsAt mapInfo (Store.putAll OrderedMap.empty (ops.filterMap HeapOp.put?)) F ∧
      LiveAt live (meanAll OrderedMap.empty [] ops).2 G ∧ Owns h (F + G) := by
  have hspec : Spec 0 (bufferProgram below ops) fun r F' => ∃ F G,
      TopicsAt r.1 (meanAll OrderedMap.empty [] ops).1 F ∧
      LiveAt r.2 (meanAll OrderedMap.empty [] ops).2 G ∧ F' = F + G := by
    refine (newMapInfoP_spec FieldsAt).bind ?_
    rintro mapInfo _ ⟨F, hF, rfl⟩
    refine (runHeapOps_spec hF .nil Store.Trim.empty ops htrims
      (by rw [meanAll_store]; exact hfits.fits)).bind ?_
    rintro live _ ⟨F₁, G₁, h₁, hlive, rfl⟩
    exact Spec.pure ⟨F₁, G₁, h₁, hlive, rfl⟩
  obtain ⟨⟨mapInfo, live⟩, h, _, hrun, ⟨F, G, hF, hG, rfl⟩, hown⟩ :=
    hspec (Heap.empty Cell) 0 owns_empty
  rw [meanAll_store] at hF
  rw [add_zero] at hown
  exact ⟨mapInfo, live, h, F, G, hrun, hF, hG, hown⟩

/-- Neither the topic of the message nor a key in it is blank. -/
def Put.NotBlank (p : Put) : Prop :=
  trim (cstr p.topic) ≠ [] ∧ ∀ a ∈ assignments (some (cstr p.data)), trim a.1 ≠ []

instance : DecidablePred Put.NotBlank := fun _ => inferInstanceAs (Decidable (_ ∧ _))

theorem runTrims_iff {puts : List Put} :
    RunTrims below puts ↔ below = .ok () ∨ ∀ p ∈ puts, p.NotBlank := by
  by_cases hbelow : below = .ok ()
  · refine iff_of_true ?_ (Or.inl hbelow)
    intro p _
    exact ⟨Or.inl hbelow, fun _ _ => Or.inl hbelow⟩
  · simp only [RunTrims, PutTrims, Trims, hbelow, false_or]
    rfl

end

theorem Store.Fits.matching {s : Store} (h : s.Fits) (filter : CString) : (s.matching filter).Fits := by
  refine ⟨le_trans (List.length_filter_le _ _) h.topics, ?_⟩
  intro t f hf
  have hmem := OrderedMap.lookup_eq_some.mp hf
  exact h.fields t f (OrderedMap.lookup_eq_some.mpr (List.mem_filter.mp hmem).1)

theorem SumOf.leaves {n : Nat} {F : Footprint Cell}
    (h : SumOf (fun F => ∃ c, F = {(c, .mapInfo ⟨0, 16, 0⟩)}) n F) :
    F.card = n ∧ ∀ p c, (p, c) ∈ F → c = .mapInfo ⟨0, 16, 0⟩ := by
  induction h with
  | zero => exact ⟨rfl, fun p c hc => absurd hc (Multiset.notMem_zero _)⟩
  | succ hF _ ih =>
    obtain ⟨q, rfl⟩ := hF
    refine ⟨by rw [Multiset.card_add, Multiset.card_singleton, ih.1, add_comm], ?_⟩
    intro p c hc
    rcases Multiset.mem_add.mp hc with hc | hc
    · exact (Prod.mk.inj (Multiset.mem_singleton.mp hc)).2
    · exact ih.2 p c hc

theorem meanAll_puts (s : Store) (puts : List Put) :
    meanAll s [] (puts.map HeapOp.put) = (s.putAll puts, []) ∧
      (puts.map HeapOp.put).filterMap HeapOp.put? = puts := by
  refine ⟨?_, ?_⟩
  · induction puts generalizing s with
    | nil => rfl
    | cons p puts ih => exact ih (s.put (cstr p.topic) (cstr p.data) p.now)
  · rw [List.filterMap_map]
    exact List.filterMap_some

/-- **`flatmap_free` of the store loses a block for each topic**: `freeContent` sets its pointer to
null before it frees it, so the `MapInfo` of the topic's fields stays, and nothing points to it. -/
theorem freeStore_leaves (below : Except Fault Unit) (puts : List Put) (hfits : FitsRun puts)
    (hblank : below = .ok () ∨ ∀ p ∈ puts, p.NotBlank) :
    ∃ mapInfo h, (do
        let r ← bufferProgram below (puts.map HeapOp.put)
        flatmapFreeP freeContentP r.1
        pure r.1 : HeapM Nat).run (Heap.empty Cell) = .ok (mapInfo, h) ∧
      h.size = (topicsOf puts).length + 1 ∧
      ∀ p c, h.cells p = some c → c = .mapInfo ⟨0, 16, 0⟩ := by
  obtain ⟨hmean, hputs⟩ := meanAll_puts OrderedMap.empty puts
  obtain ⟨mapInfo, live, h, F, G, hrun, hF, hG, hown⟩ :=
    bufferProgram_runs (puts.map HeapOp.put) (by rw [hputs]; exact hfits)
      (by rw [hputs]; exact runTrims_iff.mpr hblank)
  rw [hputs] at hF
  rw [hmean] at hG
  cases hG
  obtain ⟨_, h', _, hfree, ⟨K, hK, rfl⟩, hown'⟩ :=
    flatmapFreeP_spec hF (fun _ _ _ _ _ hc => freeContentP_spec hc) h 0 hown
  obtain ⟨hcard, hleaves⟩ := hK.leaves
  rw [add_zero] at hown'
  refine ⟨mapInfo, h', ?_, ?_, ?_⟩
  · rw [StateT.run_bind, hrun]
    change (flatmapFreeP freeContentP mapInfo >>= fun _ => pure mapInfo : HeapM Nat).run h = _
    rw [StateT.run_bind, hfree]
    rfl
  · rw [hown'.size_eq, Multiset.card_add, Multiset.card_singleton, hcard, ← OrderedMap.length_keys,
      Store.keys_putAll, add_comm]
  · intro p c hc
    rcases Multiset.mem_add.mp ((hown'.mem p c).mp hc) with hmem | hmem
    · exact (Prod.mk.inj (Multiset.mem_singleton.mp hmem)).2
    · exact hleaves p c hmem

/-- Two topics: two blocks are lost. -/
theorem freeStore_leaves_two : ∃ mapInfo h, (do
      let r ← bufferProgram (.error .outOfBounds) ([⟨"heating".toList, "state:1".toList, 7⟩,
        ⟨"room".toList, "state:0".toList, 9⟩].map HeapOp.put)
      flatmapFreeP freeContentP r.1
      pure r.1 : HeapM Nat).run (Heap.empty Cell) = .ok (mapInfo, h) ∧ h.size = 2 + 1 := by
  obtain ⟨mapInfo, h, hrun, hsize, _⟩ := freeStore_leaves (.error .outOfBounds)
    [⟨"heating".toList, "state:1".toList, 7⟩, ⟨"room".toList, "state:0".toList, 9⟩]
    (FitsRun.of_length (by decide) (by decide +kernel)) (Or.inr (by decide +kernel))
  have htwo : (topicsOf [⟨"heating".toList, "state:1".toList, 7⟩,
      ⟨"room".toList, "state:0".toList, 9⟩]).length = 2 := by
    decide +kernel
  exact ⟨mapInfo, h, hrun, by rw [hsize, htwo]⟩

end HomeAutomation
