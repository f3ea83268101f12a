import HomeAutomation.Flatmap.Basic
import HomeAutomation.Lib.OrderedMap
import HomeAutomation.Lib.Runs

/-!
# The flat map is an ordered finite map on trimmed keys

`Rep m d`: the block of `m` holds the entries of the ordered map `d`, in order, with room for
`entriesMax` of them. As long as there is room, `flatmap_get` looks up the trimmed key
(`flatmapGet_rep`), `flatmap_put` alters its value (`flatmapPut_rep`), and a run of puts is a run of
updates (`flatmapPutAll_rep`). A put of a new key into a full map writes outside the block
(`flatmapPut_full`).
-/

namespace HomeAutomation

variable {γ σ : Type}

/-! ## Blocks -/

theorem Block.read_eq_ok {α : Type} {b : Block α} {i : Nat} {a : α} (h : b.slots[i]? = some (some a)) :
    b.read i = .ok a := by
  rw [Block.read, h]

theorem Block.write_ok {α : Type} {b : Block α} {i : Nat} (a : α) (h : i < b.slots.length) :
    ∃ b', b.write i a = .ok b' ∧ b'.slots = b.slots.set i (some a) ∧ b'.bytes = b.bytes := by
  rw [Block.write, if_pos h]
  exact ⟨_, rfl, rfl, rfl⟩

theorem Block.write_outOfBounds {α : Type} {b : Block α} {i : Nat} (a : α)
    (h : b.slots.length ≤ i) : b.write i a = .error .outOfBounds := by
  rw [Block.write, if_neg (by omega)]

theorem Block.calloc_eq_some {α : Type} {n : Nat} {b : Block α} (h : Block.calloc n = some b) :
    b.slots = List.replicate n none ∧ b.bytes = n * sizeofEntry := by
  unfold Block.calloc at h
  split_ifs at h
  rw [Option.some.injEq] at h
  subst h
  exact ⟨rfl, rfl⟩

theorem Block.length_realloc {α : Type} (b : Block α) (bytes : Nat) :
    (b.realloc bytes).slots.length = bytes / sizeofEntry := (b.realloc bytes).fits

/-! ## The representation -/

/-- The map `m` holds the entries of `d`: they are in its first slots, in order, and the block has
room for `entriesMax` entries. The keys are stored trimmed. -/
structure Rep (m : MapInfo γ) (d : OrderedMap CString (Option γ)) : Prop where
  len : m.entriesLen = d.size
  slots : ∀ (i : Nat) (p : CString × Option γ), d.entries[i]? = some p →
    m.entries.slots[i]? = some (some ⟨p.1, p.2⟩)
  le_max : d.size ≤ m.entriesMax
  room : m.entriesMax ≤ m.entries.slots.length
  trimmed : ∀ k ∈ d.keys, trim k = k

theorem flatmapInit_fresh {entriesMax : Nat} {m : MapInfo γ}
    (h : flatmapInit (MapInfo.fresh entriesMax) = .ok m) :
    Rep m OrderedMap.empty ∧ m.entriesMax = initialMax entriesMax := by
  unfold flatmapInit at h
  rw [if_neg (by simp [MapInfo.fresh, Block.null])] at h
  cases hcalloc : Block.calloc (α := Entry γ) (initialMax entriesMax) with
  | none =>
    rw [show (MapInfo.fresh entriesMax : MapInfo γ).entriesMax = entriesMax from rfl, hcalloc] at h
    exact absurd h (by simp)
  | some b =>
    rw [show (MapInfo.fresh entriesMax : MapInfo γ).entriesMax = entriesMax from rfl, hcalloc,
      Except.ok.injEq] at h
    subst h
    refine ⟨⟨rfl, by simp, by simp, ?_, by simp⟩, rfl⟩
    simp [(Block.calloc_eq_some hcalloc).1]

theorem flatmapInit_sixteen :
    ∃ m : MapInfo γ, flatmapInit (MapInfo.fresh 16) = .ok m ∧ Rep m OrderedMap.empty ∧
      m.entriesMax = 16 := by
  have h : ∃ m : MapInfo γ, flatmapInit (MapInfo.fresh 16) = .ok m := ⟨_, rfl⟩
  obtain ⟨m, hm⟩ := h
  obtain ⟨hrep, hmax⟩ := flatmapInit_fresh hm
  exact ⟨m, hm, hrep, hmax⟩

section
variable {m : MapInfo γ} {d : OrderedMap CString (Option γ)}

theorem Rep.read (h : Rep m d) {i : Nat} {p : CString × Option γ} (hp : d.entries[i]? = some p) :
    m.entries.read i = .ok ⟨p.1, p.2⟩ := Block.read_eq_ok (h.slots i p hp)

theorem flatmapGetByIndex_rep (h : Rep m d) (i : Nat) :
    flatmapGetByIndex m i = .ok (d.entries[i]?.map fun p => Entry.mk p.1 p.2) := by
  unfold flatmapGetByIndex
  rw [h.len]
  by_cases hi : d.size ≤ i
  · rw [if_pos hi, List.getElem?_eq_none hi]
    rfl
  · have hlt : i < d.entries.length := by unfold OrderedMap.size at hi; omega
    have hp : d.entries[i]? = some d.entries[i] := List.getElem?_eq_getElem hlt
    rw [if_neg hi, h.read hp, hp]
    rfl

theorem flatmapGetFrom_rep (h : Rep m d) (key : CString) :
    ∀ n pos, pos + n = d.size →
      flatmapGetFrom m key n pos =
        .ok (((d.entries.drop pos).findIdx? (fun p => p.1 = trim key)).map (· + pos)) := by
  intro n
  induction n with
  | zero =>
    intro pos hpos
    rw [List.drop_eq_nil_of_le (by unfold OrderedMap.size at hpos; omega)]
    rfl
  | succ n ih =>
    intro pos hpos
    have hlt : pos < d.entries.length := by unfold OrderedMap.size at hpos; omega
    have hread := h.read (List.getElem?_eq_getElem hlt)
    rw [flatmapGetFrom, hread, Runs.ok_bind, trimWhitespace_string, List.drop_eq_getElem_cons hlt,
      List.findIdx?_cons]
    by_cases hkey : d.entries[pos].1 = trim key
    · rw [if_pos hkey, if_pos (by simpa using hkey)]
      simp
    · rw [if_neg hkey, if_neg (by simpa using hkey), ih (pos + 1) (by omega), Option.map_map]
      congr 2
      funext i
      simp only [Function.comp]
      omega

theorem flatmapGet_rep (h : Rep m d) (key : CString) :
    (flatmapGet m key = .ok none ∧ d.lookup (trim key) = none) ∨
      ∃ pos c, flatmapGet m key = .ok (some pos) ∧ d.entries[pos]? = some (trim key, c) ∧
        d.lookup (trim key) = some c := by
  have hget : flatmapGet m key = .ok (d.entries.findIdx? (fun p => p.1 = trim key)) := by
    rw [flatmapGet, h.len, flatmapGetFrom_rep h key d.size 0 (by omega)]
    simp
  rw [hget]
  cases hfind : d.entries.findIdx? (fun p => p.1 = trim key) with
  | none =>
    left
    refine ⟨rfl, OrderedMap.lookup_eq_none.mpr ?_⟩
    intro hmem
    obtain ⟨p, hp, hk⟩ := List.mem_map.mp hmem
    have := List.findIdx?_eq_none_iff.mp hfind p hp
    simp [hk] at this
  | some pos =>
    right
    obtain ⟨hlt, hkey, _⟩ := List.findIdx?_eq_some_iff_getElem.mp hfind
    have hk : d.entries[pos].1 = trim key := by simpa using hkey
    have hentry : d.entries[pos]? = some (trim key, d.entries[pos].2) := by
      rw [List.getElem?_eq_getElem hlt, ← hk]
    exact ⟨pos, d.entries[pos].2, rfl, hentry,
      OrderedMap.lookup_eq_some.mpr (List.mem_of_getElem? hentry)⟩

theorem contentAt_rep (h : Rep m d) (key : CString) :
    contentAt m key = .ok (d.lookup (trim key)).join := by
  unfold contentAt
  rcases flatmapGet_rep h key with ⟨hget, hnone⟩ | ⟨pos, c, hget, hpos, hsome⟩
  · rw [hget, hnone]
    rfl
  · rw [hget, hsome, Runs.ok_bind]
    simp only [h.read hpos, Runs.ok_bind]
    rfl

/-! ## Puts -/

theorem alterEntries_eq_set {κ ν : Type} [DecidableEq κ] {k : κ} {c : ν} (f : Option ν → ν) :
    ∀ {l : List (κ × ν)} {pos : Nat}, (l.map Prod.fst).Nodup → l[pos]? = some (k, c) →
      OrderedMap.alterEntries k f l = l.set pos (k, f (some c)) := by
  intro l
  induction l with
  | nil => intro pos _ h; simp at h
  | cons p l ih =>
    intro pos hnd h
    obtain ⟨a, b⟩ := p
    rw [List.map_cons, List.nodup_cons] at hnd
    cases pos with
    | zero =>
      simp only [List.getElem?_cons_zero, Option.some.injEq, Prod.mk.injEq] at h
      rw [OrderedMap.alterEntries, if_pos h.1, List.set_cons_zero, h.1, h.2]
    | succ pos =>
      rw [List.getElem?_cons_succ] at h
      have hk : k ∈ l.map Prod.fst := List.mem_map.mpr ⟨(k, c), List.mem_of_getElem? h, rfl⟩
      have ha : a ≠ k := fun e => hnd.1 (e ▸ hk)
      rw [OrderedMap.alterEntries, if_neg ha, List.set_cons_succ, ih hnd.2 h]

theorem flatmapAssign_rep {assignContent : σ → Option γ → Except Fault (Option γ)} {content : σ}
    {k : CString} {c c' : Option γ} {pos : Nat} (h : Rep m d) (hpos : d.entries[pos]? = some (k, c))
    (hassign : assignContent content c = .ok c') :
    ∃ m', flatmapAssign assignContent m pos content = .ok m' ∧ Rep m' (d.alter k fun _ => c') ∧
      m'.entriesMax = m.entriesMax := by
  have hlt : pos < d.entries.length := (List.getElem?_eq_some_iff.mp hpos).1
  have hslot : pos < m.entries.slots.length := by
    have h1 := h.le_max
    have h2 := h.room
    unfold OrderedMap.size at h1
    omega
  obtain ⟨b, hwrite, hslots, hbytes⟩ := Block.write_ok (⟨k, c'⟩ : Entry γ) hslot
  have hentries : (d.alter k fun _ => c').entries = d.entries.set pos (k, c') :=
    alterEntries_eq_set (fun _ => c') d.nodup hpos
  have hk : k ∈ d.keys := List.mem_map.mpr ⟨(k, c), List.mem_of_getElem? hpos, rfl⟩
  have hkeys : (d.alter k fun _ => c').keys = d.keys := by
    rw [OrderedMap.keys_alter, if_pos hk]
  have hsize : (d.alter k fun _ => c').size = d.size := by
    rw [← OrderedMap.length_keys, hkeys, OrderedMap.length_keys]
  refine ⟨{ m with entries := b }, ?_, ⟨?_, ?_, ?_, ?_, ?_⟩, rfl⟩
  · simp only [flatmapAssign, h.read hpos, hassign, hwrite, Runs.ok_bind]
  · rw [hsize]
    exact h.len
  · intro i p hp
    rw [hentries] at hp
    simp only [hslots]
    by_cases hi : pos = i
    · subst hi
      rw [List.getElem?_set_self hlt, Option.some.injEq] at hp
      rw [List.getElem?_set_self hslot, ← hp]
    · rw [List.getElem?_set_ne hi] at hp ⊢
      exact h.slots i p hp
  · rw [hsize]
    exact h.le_max
  · simp only [hslots, List.length_set]
    exact h.room
  · rw [hkeys]
    exact h.trimmed

theorem flatmapAppend_rep {key : CString} (h : Rep m d) (hnew : trim key ∉ d.keys)
    (hroom : d.size < m.entriesMax) :
    ∃ m', flatmapAppend m key = .ok m' ∧ Rep m' (d.alter (trim key) fun _ => none) ∧
      m'.entriesMax = m.entriesMax := by
  have hslot : m.entriesLen < m.entries.slots.length := by
    have h1 := h.room
    rw [h.len]
    omega
  obtain ⟨b, hwrite, hslots, hbytes⟩ := Block.write_ok (⟨trim key, none⟩ : Entry γ) hslot
  have hentries : (d.alter (trim key) fun _ => none).entries = d.entries ++ [(trim key, none)] :=
    OrderedMap.alterEntries_of_notMem _ hnew
  have hsize : (d.alter (trim key) fun _ => none).size = d.size + 1 := by
    rw [OrderedMap.size_alter, if_neg hnew]
  refine ⟨{ m with entries := b, entriesLen := m.entriesLen + 1 }, ?_, ⟨?_, ?_, ?_, ?_, ?_⟩, rfl⟩
  · simp only [flatmapAppend, trimWhitespace_string, hwrite, Runs.ok_bind]
  · rw [hsize]
    exact congrArg (· + 1) h.len
  · intro i p hp
    simp only [hslots]
    rw [hentries] at hp
    rw [h.len]
    by_cases hi : i < d.size
    · rw [List.getElem?_append_left hi] at hp
      rw [List.getElem?_set_ne (by omega)]
      exact h.slots i p hp
    · rw [List.getElem?_append_right (by unfold OrderedMap.size at hi; omega)] at hp
      have hzero : i - d.entries.length = 0 := by
        have := (List.getElem?_eq_some_iff.mp hp).1
        simpa using this
      have hie : d.size = i := by unfold OrderedMap.size at hi ⊢; omega
      rw [hzero, List.getElem?_cons_zero, Option.some.injEq] at hp
      rw [← hie, ← h.len, List.getElem?_set_self hslot, ← hp]
  · rw [hsize]
    exact hroom
  · simp only [hslots, List.length_set]
    exact h.room
  · intro k hk
    rcases OrderedMap.mem_keys_alter.mp hk with hk | hk
    · exact h.trimmed k hk
    · rw [hk]
      exact Delimited.trim_trim isspace key

/-- **`flatmap_put` alters the value of the trimmed key**, when the key is stored or there is room. -/
theorem flatmapPut_rep (assignContent : σ → Option γ → Except Fault (Option γ)) (key : CString)
    (content : σ) {c' : Option γ} (h : Rep m d) (hroom : trim key ∈ d.keys ∨ d.size < m.entriesMax)
    (hassign : assignContent content (d.lookup (trim key)).join = .ok c') :
    ∃ m', flatmapPut assignContent m key content = .ok m' ∧
      Rep m' (d.alter (trim key) fun _ => c') ∧ m'.entriesMax = m.entriesMax := by
  rcases flatmapGet_rep h key with ⟨hget, hnone⟩ | ⟨pos, c, hget, hpos, hsome⟩
  · have hnew := OrderedMap.lookup_eq_none.mp hnone
    have hlt : d.size < m.entriesMax := hroom.resolve_left hnew
    have hgrow : flatmapGrow m = m := by
      rw [flatmapGrow, if_neg (by rw [h.len]; omega)]
    obtain ⟨m1, happend, hrep1, hmax1⟩ := flatmapAppend_rep h hnew hlt
    have hpos1 : (d.alter (trim key) fun _ => none).entries[m.entriesLen]? = some (trim key, none) := by
      show (OrderedMap.alterEntries _ _ _)[m.entriesLen]? = _
      rw [OrderedMap.alterEntries_of_notMem _ hnew, h.len]
      exact List.getElem?_concat_length
    rw [hnone] at hassign
    obtain ⟨m2, hass2, hrep2, hmax2⟩ := flatmapAssign_rep hrep1 hpos1 hassign
    refine ⟨m2, ?_, ?_, by rw [hmax2, hmax1]⟩
    · simp only [flatmapPut, hget, hgrow, happend, Runs.ok_bind]
      exact hass2
    · have heq : ((d.alter (trim key) fun _ => none).alter (trim key) fun _ => c') =
          d.alter (trim key) fun _ => c' := by
        ext1
        show OrderedMap.alterEntries _ _ (OrderedMap.alterEntries _ _ _) = OrderedMap.alterEntries _ _ _
        rw [alterEntries_eq_set _ (OrderedMap.nodup_alterEntries _ _ d.nodup) hpos1,
          OrderedMap.alterEntries_of_notMem _ hnew, OrderedMap.alterEntries_of_notMem _ hnew, h.len]
        simp [OrderedMap.size]
      rwa [heq] at hrep2
  · rw [hsome] at hassign
    obtain ⟨m2, hass2, hrep2, hmax2⟩ := flatmapAssign_rep h hpos hassign
    refine ⟨m2, ?_, hrep2, hmax2⟩
    simp only [flatmapPut, hget, Runs.ok_bind]
    exact hass2

/-- A put of a new key into a full map writes outside the reallocated block. -/
theorem flatmapPut_full {assignContent : σ → Option γ → Except Fault (Option γ)} {key : CString}
    {content : σ} (h : Rep m d) (hnew : trim key ∉ d.keys) (hfull : m.entriesMax ≤ d.size) :
    flatmapPut assignContent m key content = .error .outOfBounds := by
  rcases flatmapGet_rep h key with ⟨hget, _⟩ | ⟨pos, c, _, hpos, _⟩
  · have hmax := h.le_max
    have hwrite : (flatmapGrow m).entries.write m.entriesLen ⟨trim key, none⟩ =
        .error .outOfBounds := by
      refine Block.write_outOfBounds _ ?_
      rw [flatmapGrow, if_pos (by rw [h.len]; exact hfull)]
      simp only [Block.length_realloc, sizeofEntry, sizeMax]
      rw [h.len]
      omega
    have hlen : (flatmapGrow m).entriesLen = m.entriesLen := by
      rw [flatmapGrow]
      split_ifs <;> rfl
    simp only [flatmapPut, hget, Runs.ok_bind, flatmapAppend, trimWhitespace_string, hlen, hwrite,
      Runs.error_bind]
  · exact absurd (List.mem_map.mpr ⟨_, List.mem_of_getElem? hpos, rfl⟩) hnew

theorem flatmapAssign_ok {assignContent : σ → Option γ → Except Fault (Option γ)} {content : σ}
    {k : CString} {c : Option γ} {pos : Nat} {m' : MapInfo γ} (h : Rep m d)
    (hpos : d.entries[pos]? = some (k, c))
    (hput : flatmapAssign assignContent m pos content = .ok m') :
    ∃ c', assignContent content c = .ok c' := by
  simp only [flatmapAssign, h.read hpos, Runs.ok_bind, Runs.bind_eq_ok] at hput
  obtain ⟨c', hassign, _⟩ := hput
  exact ⟨c', hassign⟩

/-- A put that returns had a slot for its key, and its callback returned. -/
theorem flatmapPut_ok {assignContent : σ → Option γ → Except Fault (Option γ)} {key : CString}
    {content : σ} {m' : MapInfo γ} (h : Rep m d)
    (hput : flatmapPut assignContent m key content = .ok m') :
    (trim key ∈ d.keys ∨ d.size < m.entriesMax) ∧
      ∃ c', assignContent content (d.lookup (trim key)).join = .ok c' := by
  rcases flatmapGet_rep h key with ⟨hget, hnone⟩ | ⟨pos, c, hget, hpos, hsome⟩
  · have hnew := OrderedMap.lookup_eq_none.mp hnone
    have hlt : d.size < m.entriesMax := by
      by_contra hfull
      rw [flatmapPut_full h hnew (by omega)] at hput
      exact absurd hput (by simp)
    have hgrow : flatmapGrow m = m := by
      rw [flatmapGrow, if_neg (by rw [h.len]; omega)]
    obtain ⟨m1, happend, hrep1, _⟩ := flatmapAppend_rep h hnew hlt
    have hpos1 : (d.alter (trim key) fun _ => none).entries[m.entriesLen]? = some (trim key, none) := by
      show (OrderedMap.alterEntries _ _ _)[m.entriesLen]? = _
      rw [OrderedMap.alterEntries_of_notMem _ hnew, h.len]
      exact List.getElem?_concat_length
    simp only [flatmapPut, hget, hgrow, happend, Runs.ok_bind] at hput
    refine ⟨Or.inr hlt, ?_⟩
    rw [hnone]
    exact flatmapAssign_ok hrep1 hpos1 hput
  · simp only [flatmapPut, hget, Runs.ok_bind] at hput
    refine ⟨Or.inl (List.mem_map.mpr ⟨_, List.mem_of_getElem? hpos, rfl⟩), ?_⟩
    rw [hsome]
    exact flatmapAssign_ok h hpos hput

end

/-- A run of puts with a callback that does not fail is a run of updates, as long as the distinct
keys fit in `entriesMax`. -/
theorem flatmapPutAll_rep (f : σ → Option γ → Option γ) {m : MapInfo γ}
    {d : OrderedMap CString (Option γ)} (h : Rep m d) (puts : List (CString × σ))
    (hroom : (d.alterAll (fun s o => f s o.join) (puts.map fun p => (trim p.1, p.2))).size ≤
      m.entriesMax) :
    ∃ m', flatmapPutAll (fun s o => .ok (f s o)) m puts = .ok m' ∧
      Rep m' (d.alterAll (fun s o => f s o.join) (puts.map fun p => (trim p.1, p.2))) ∧
      m'.entriesMax = m.entriesMax := by
  unfold OrderedMap.alterAll at hroom ⊢
  rw [List.foldl_map] at hroom ⊢
  obtain ⟨m', hrun, hrep, hmax⟩ := Runs.foldlM_sim
    (R := fun m' d' => Rep m' d' ∧ m'.entriesMax = m.entriesMax)
    (B := fun d' => d'.size ≤ m.entriesMax)
    (f := fun m' p => flatmapPut (fun s o => .ok (f s o)) m' p.1 p.2)
    (g := fun d' p => d'.alter (trim p.1) fun o => f p.2 o.join)
    (by
      rintro m1 d1 p ⟨hrep, hmax⟩ hbound
      have hput : trim p.1 ∈ d1.keys ∨ d1.size < m1.entriesMax := by
        rw [OrderedMap.size_alter] at hbound
        by_cases hk : trim p.1 ∈ d1.keys
        · exact Or.inl hk
        · rw [if_neg hk] at hbound
          exact Or.inr (by omega)
      obtain ⟨m2, hput, hrep2, hmax2⟩ :=
        flatmapPut_rep (fun s o => .ok (f s o)) p.1 p.2 hrep hput rfl
      have heq : (d1.alter (trim p.1) fun _ => f p.2 (d1.lookup (trim p.1)).join) =
          d1.alter (trim p.1) fun o => f p.2 o.join :=
        OrderedMap.alter_const_lookup d1 (trim p.1) fun o => f p.2 o.join
      exact ⟨m2, hput, heq ▸ hrep2, by rw [hmax2, hmax]⟩)
    (fun d1 p hb => le_trans (OrderedMap.size_le_alter d1 _ _) hb)
    puts ⟨h, rfl⟩ hroom
  exact ⟨m', hrun, hrep, hmax⟩

end HomeAutomation
