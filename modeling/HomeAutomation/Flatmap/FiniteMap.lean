import HomeAutomation.Flatmap.Refinement

/-!
# Runs of `flatmap_put`

What a run of puts on a map made by `flatmap_init` leaves behind (`flatmapPutAll_finite_map`), as
long as its distinct trimmed keys fit in `entriesMax`; and that exactly those runs keep the block
whole (`keepsWhole_iff`): the growth branch gives `realloc` a number of entries where a number of
bytes is wanted.
-/

namespace HomeAutomation

variable {γ σ : Type}

/-- The distinct trimmed keys of a run of puts, in first-put order. -/
def distinctKeys (puts : List (CString × σ)) : List CString :=
  (puts.map fun p => trim p.1).eraseDups

/-- The contents put under keys that trim to `trim k`, in put order. -/
def contentsOf (k : CString) (puts : List (CString × σ)) : List σ :=
  (puts.filter fun p => trim p.1 = trim k).map Prod.snd

/-- The ordered map that a run of puts builds on the empty map. -/
def putAllMap (f : σ → Option γ → Option γ) (puts : List (CString × σ)) :
    OrderedMap CString (Option γ) :=
  OrderedMap.empty.alterAll (fun s o => f s o.join) (puts.map fun p => (trim p.1, p.2))

theorem keys_putAllMap (f : σ → Option γ → Option γ) (puts : List (CString × σ)) :
    (putAllMap f puts).keys = distinctKeys puts := by
  rw [putAllMap, OrderedMap.keys_alterAll, OrderedMap.keys_empty, List.nil_append, List.map_map]
  rfl

theorem size_putAllMap (f : σ → Option γ → Option γ) (puts : List (CString × σ)) :
    (putAllMap f puts).size = (distinctKeys puts).length := by
  rw [← OrderedMap.length_keys, keys_putAllMap]

theorem mem_distinctKeys {puts : List (CString × σ)} {k : CString} :
    k ∈ distinctKeys puts ↔ ∃ p ∈ puts, trim p.1 = k := by
  rw [distinctKeys, List.mem_eraseDups, List.mem_map]

theorem lookup_putAllMap (f : σ → Option γ → Option γ) (puts : List (CString × σ)) (k : CString) :
    ((putAllMap f puts).lookup (trim k)).join = (contentsOf k puts).foldl (fun d s => f s d) none := by
  have hjoin : ∀ (l : List σ) (o : Option (Option γ)),
      (l.foldl (fun d s => some (f s d.join)) o).join = l.foldl (fun d s => f s d) o.join := by
    intro l
    induction l with
    | nil => intro o; rfl
    | cons s l ih => intro o; exact ih _
  rw [putAllMap, OrderedMap.lookup_alterAll, hjoin, OrderedMap.lookup_empty, List.filter_map,
    List.map_map]
  rfl

theorem flatmapPutAll_fresh (f : σ → Option γ → Option γ) {entriesMax : Nat} {m₀ : MapInfo γ}
    (h₀ : flatmapInit (MapInfo.fresh entriesMax) = .ok m₀) (puts : List (CString × σ))
    (hroom : (distinctKeys puts).length ≤ initialMax entriesMax) :
    ∃ m, flatmapPutAll (fun s d => .ok (f s d)) m₀ puts = .ok m ∧ Rep m (putAllMap f puts) ∧
      m.entriesMax = initialMax entriesMax := by
  obtain ⟨hrep, hmax⟩ := flatmapInit_fresh h₀
  have hsize : (putAllMap f puts).size ≤ m₀.entriesMax := by
    rw [size_putAllMap, hmax]
    exact hroom
  obtain ⟨m, hrun, hrep', hmax'⟩ := flatmapPutAll_rep f hrep puts hsize
  exact ⟨m, hrun, hrep', hmax'.trans hmax⟩

/-- **A run of puts makes the finite map of its trimmed keys.** `flatmap_get` finds exactly the keys
that were put, with the fold of the callback over what was put under them; `flatmap_getByIndex`
lists the distinct trimmed keys in first-put order. -/
theorem flatmapPutAll_finite_map (f : σ → Option γ → Option γ) (entriesMax : Nat)
    (puts : List (CString × σ)) (m₀ : MapInfo γ)
    (h₀ : flatmapInit (MapInfo.fresh entriesMax) = .ok m₀)
    (hroom : (distinctKeys puts).length ≤ initialMax entriesMax) :
    ∃ m, flatmapPutAll (fun s d => .ok (f s d)) m₀ puts = .ok m ∧
      (∀ k, flatmapGet m k = .ok none ↔ ∀ p ∈ puts, trim p.1 ≠ trim k) ∧
      (∀ k, (∃ p ∈ puts, trim p.1 = trim k) → ∃ pos e, flatmapGet m k = .ok (some pos) ∧
        flatmapGetByIndex m pos = .ok (some e) ∧ e.key = trim k ∧
        e.content = (contentsOf k puts).foldl (fun d s => f s d) none) ∧
      flatmapGetEntryCount m = (distinctKeys puts).length ∧
      (∀ i, ∃ r, flatmapGetByIndex m i = .ok r ∧ r.map Entry.key = (distinctKeys puts)[i]?) ∧
      (∀ i, flatmapGetByIndex m i = .ok none ↔ (distinctKeys puts).length ≤ i) ∧
      (distinctKeys puts).Nodup ∧ ∀ k ∈ distinctKeys puts, trim k = k := by
  obtain ⟨m, hrun, hrep, _⟩ := flatmapPutAll_fresh f h₀ puts hroom
  have hkeys := keys_putAllMap f puts
  have hget := flatmapGet_rep hrep
  have hindex := flatmapGetByIndex_rep hrep
  have hlen : (putAllMap f puts).entries.length = (distinctKeys puts).length := size_putAllMap f puts
  refine ⟨m, hrun, ?_, ?_, ?_, ?_, ?_, ?_, ?_⟩
  · intro k
    have hnone : (putAllMap f puts).lookup (trim k) = none ↔ ∀ p ∈ puts, trim p.1 ≠ trim k := by
      rw [OrderedMap.lookup_eq_none, hkeys, mem_distinctKeys]
      push Not
      rfl
    rcases hget k with ⟨hnull, hlook⟩ | ⟨pos, c, hsome, _, hlook⟩
    · exact ⟨fun _ => hnone.mp hlook, fun _ => hnull⟩
    · refine ⟨fun h => ?_, fun h => ?_⟩
      · rw [hsome] at h
        exact absurd h (by simp)
      · rw [hnone.mpr h] at hlook
        exact absurd hlook (by simp)
  · intro k hput
    have hmem : trim k ∈ (putAllMap f puts).keys := by
      rw [hkeys, mem_distinctKeys]
      exact hput
    rcases hget k with ⟨_, hlook⟩ | ⟨pos, c, hsome, hpos, hlook⟩
    · exact absurd hmem (OrderedMap.lookup_eq_none.mp hlook)
    · refine ⟨pos, ⟨trim k, c⟩, hsome, ?_, rfl, ?_⟩
      · rw [hindex, hpos]
        rfl
      · rw [← lookup_putAllMap, hlook]
        rfl
  · rw [flatmapGetEntryCount, hrep.len, size_putAllMap]
  · intro i
    refine ⟨_, hindex i, ?_⟩
    rw [← hkeys, OrderedMap.keys, List.getElem?_map, Option.map_map]
    rfl
  · intro i
    rw [hindex, ← hlen, Except.ok.injEq, Option.map_eq_none_iff, List.getElem?_eq_none_iff]
  · rw [← hkeys]
    exact (putAllMap f puts).nodup
  · rw [← hkeys]
    exact hrep.trimmed

/-- Two keys that trim alike and a third one, on the default map. -/
theorem flatmapPutAll_finite_map_three :
    ∃ m₀ : MapInfo CString, flatmapInit (MapInfo.fresh 0) = .ok m₀ ∧
      ∃ m, flatmapPutAll (fun (s : CString) _ => .ok (some s)) m₀
          [(['a'], ['1']), ([' ', 'b'], ['2']), (['a', ' '], ['3'])] = .ok m ∧
        flatmapGetEntryCount m = 2 := by
  obtain ⟨m₀, h₀⟩ : ∃ m₀ : MapInfo CString, flatmapInit (MapInfo.fresh 0) = .ok m₀ := ⟨_, rfl⟩
  obtain ⟨m, hrun, _, _, hcount, _⟩ := flatmapPutAll_finite_map (fun (s : CString) _ => some s) 0
    [(['a'], ['1']), ([' ', 'b'], ['2']), (['a', ' '], ['3'])] m₀ h₀ (by decide)
  exact ⟨m₀, h₀, m, hrun, hcount.trans (by decide)⟩

/-! ## Growth -/

/-- The entries in use are within `entriesMax`, and the block has room for `entriesMax` of them. -/
structure Whole (m : MapInfo γ) : Prop where
  len_le : m.entriesLen ≤ m.entriesMax
  room : m.entriesMax * sizeofEntry ≤ m.entries.bytes

/-- A run keeps the map whole: every prefix of it succeeds, its slots being written inside the
block, in a whole state; and a put of a new key into a full map moves no entry. -/
def KeepsWhole (f : σ → Option γ → Option γ) (m₀ : MapInfo γ) (puts : List (CString × σ)) : Prop :=
  (∀ l, l <+: puts → ∃ m, flatmapPutAll (fun s d => .ok (f s d)) m₀ l = .ok m ∧ Whole m) ∧
  ∀ l p, l ++ [p] <+: puts → ∀ m m', flatmapPutAll (fun s d => .ok (f s d)) m₀ l = .ok m →
    flatmapPutAll (fun s d => .ok (f s d)) m₀ (l ++ [p]) = .ok m' →
    flatmapGet m p.1 = .ok none → m.entriesMax ≤ m.entriesLen →
    ∀ i < m.entriesLen, flatmapGetByIndex m' i = flatmapGetByIndex m i

theorem Rep.whole {m : MapInfo γ} {d : OrderedMap CString (Option γ)} (h : Rep m d) : Whole m := by
  refine ⟨by rw [h.len]; exact h.le_max, ?_⟩
  have hroom := h.room
  rw [m.entries.fits] at hroom
  unfold sizeofEntry at hroom ⊢
  omega

theorem distinctKeys_append_singleton (puts : List (CString × σ)) (p : CString × σ) :
    distinctKeys (puts ++ [p]) =
      if trim p.1 ∈ distinctKeys puts then distinctKeys puts else distinctKeys puts ++ [trim p.1] := by
  have hmem : trim p.1 ∈ puts.map (fun q => trim q.1) ↔ trim p.1 ∈ distinctKeys puts := by
    rw [distinctKeys, List.mem_eraseDups]
  rw [distinctKeys, List.map_append, List.eraseDups_append]
  by_cases h : trim p.1 ∈ distinctKeys puts
  · rw [if_pos h]
    simp [List.removeAll, hmem.mpr h, distinctKeys]
  · rw [if_neg h]
    have hnot : trim p.1 ∉ puts.map (fun q => trim q.1) := fun e => h (hmem.mp e)
    simp only [List.map_cons, List.map_nil, List.removeAll, List.elem_eq_mem, hnot, decide_false,
      Bool.not_false, List.filter_cons_of_pos, List.filter_nil, List.eraseDups_cons,
      List.eraseDups_nil]
    rfl

theorem length_distinctKeys_prefix {l puts : List (CString × σ)} (h : l <+: puts) :
    (distinctKeys l).length ≤ (distinctKeys puts).length := by
  obtain ⟨r, rfl⟩ := h
  rw [distinctKeys, distinctKeys, List.map_append, List.eraseDups_append, List.length_append]
  omega

theorem exists_full_put (n : Nat) :
    ∀ puts : List (CString × σ), n < (distinctKeys puts).length →
      ∃ l p, l ++ [p] <+: puts ∧ (distinctKeys l).length = n ∧ trim p.1 ∉ distinctKeys l := by
  intro puts
  induction puts using List.reverseRecOn with
  | nil => intro h; simp [distinctKeys] at h
  | append_singleton puts p ih =>
    intro h
    by_cases hn : n < (distinctKeys puts).length
    · obtain ⟨l, q, hpre, hlen, hnew⟩ := ih hn
      exact ⟨l, q, hpre.trans (List.prefix_append _ _), hlen, hnew⟩
    · rw [distinctKeys_append_singleton] at h
      split_ifs at h with hmem
      · exact absurd h hn
      · rw [List.length_append, List.length_singleton] at h
        exact ⟨puts, p, List.prefix_refl _, by omega, hmem⟩

/-- **Growth loses the block.** A run of puts keeps the map whole if and only if its distinct
trimmed keys fit in the `entriesMax` the map was made with, so that the growth branch is not
taken. -/
theorem keepsWhole_iff (f : σ → Option γ → Option γ) (entriesMax : Nat) (m₀ : MapInfo γ)
    (h₀ : flatmapInit (MapInfo.fresh entriesMax) = .ok m₀) (puts : List (CString × σ)) :
    KeepsWhole f m₀ puts ↔ (distinctKeys puts).length ≤ initialMax entriesMax := by
  constructor
  · rintro ⟨hwhole, _⟩
    by_contra hlt
    obtain ⟨l, p, hpre, hlen, hnew⟩ := exists_full_put (initialMax entriesMax) puts (by omega)
    obtain ⟨m, hrun, hrep, hmax⟩ := flatmapPutAll_fresh f h₀ l (by omega)
    have hfull : flatmapPut (fun s d => .ok (f s d)) m p.1 p.2 = .error .outOfBounds := by
      refine flatmapPut_full hrep ?_ ?_
      · rw [keys_putAllMap]
        exact hnew
      · rw [size_putAllMap]
        omega
    obtain ⟨m', hrun', _⟩ := hwhole _ hpre
    unfold flatmapPutAll at hrun hrun'
    rw [Runs.foldlM_append_ok hrun, List.foldlM_cons, hfull] at hrun'
    exact absurd hrun' (by simp)
  · intro hfits
    refine ⟨?_, ?_⟩
    · intro l hpre
      have hle := length_distinctKeys_prefix hpre
      obtain ⟨m, hrun, hrep, _⟩ := flatmapPutAll_fresh f h₀ l (by omega)
      exact ⟨m, hrun, hrep.whole⟩
    · -- a new key never meets a full map here
      intro l p hpre m m' hrun hrun' hnull hfull
      have hle := length_distinctKeys_prefix hpre
      have hle' := length_distinctKeys_prefix ((List.prefix_append l [p]).trans hpre)
      obtain ⟨n, hrunl, hrep, hmax⟩ := flatmapPutAll_fresh f h₀ l (by omega)
      rw [hrun, Except.ok.injEq] at hrunl
      subst hrunl
      have hnew : trim p.1 ∉ distinctKeys l := by
        rcases flatmapGet_rep hrep p.1 with ⟨_, hlook⟩ | ⟨pos, c, hsome, _⟩
        · rw [OrderedMap.lookup_eq_none, keys_putAllMap] at hlook
          exact hlook
        · rw [hnull] at hsome
          cases hsome
      rw [distinctKeys_append_singleton, if_neg hnew, List.length_append,
        List.length_singleton] at hle
      rw [hmax, hrep.len, size_putAllMap] at hfull
      omega

/-- Two puts on a map of two slots keep it whole. -/
theorem keepsWhole_two :
    ∃ m₀ : MapInfo CString, flatmapInit (MapInfo.fresh 2) = .ok m₀ ∧
      KeepsWhole (fun (s : CString) _ => some s) m₀
        [(['a'], ['1']), (['b'], ['2']), (['a'], ['3'])] := by
  obtain ⟨m₀, h₀⟩ : ∃ m₀ : MapInfo CString, flatmapInit (MapInfo.fresh 2) = .ok m₀ := ⟨_, rfl⟩
  exact ⟨m₀, h₀, (keepsWhole_iff _ 2 m₀ h₀ _).mpr (by decide)⟩

/-- Seventeen topics on the map the message store is made with. -/
def seventeenPuts : List (CString × CString) :=
  (List.range 17).map fun i => ([Char.ofNat (97 + i)], ['1'])

/-- The seventeenth key is written outside the block. -/
theorem not_keepsWhole_seventeen :
    ¬ ∀ m₀ : MapInfo CString, flatmapInit (MapInfo.fresh 16) = .ok m₀ →
      KeepsWhole (fun (s : CString) _ => some s) m₀ seventeenPuts := by
  intro h
  obtain ⟨m₀, h₀⟩ : ∃ m₀ : MapInfo CString, flatmapInit (MapInfo.fresh 16) = .ok m₀ := ⟨_, rfl⟩
  obtain ⟨m, hrun, _⟩ := (h m₀ h₀).1 seventeenPuts (List.prefix_refl _)
  cases h₀
  cases hrun

end HomeAutomation
