import HomeAutomation.Lib.Heap
import HomeAutomation.Flatmap.Refinement
import HomeAutomation.Flatmap.TrimSafe

/-!
# The flat map on the heap

`flatmap.c` with its pointers: an entry holds a pointer to its key and one to its content, a
`MapInfo` one to its block of entries, and all of them are allocated and freed. `MapAt C p n F` says
that the blocks `F` are those of a flat map at `p` that stands for the ordered map `n`, with contents
laid out by `C`. `flatmapPutP_spec` and `flatmapFreeP_spec` say what `flatmap_put` and `flatmap_free`
do to the blocks: the first allocates for a new entry only and frees what it replaces, the second
frees everything.
-/

namespace HomeAutomation

open HeapLogic

/-- `struct Entry`, with its pointers. -/
structure EntryP where
  key : Nat
  content : Nat
  deriving DecidableEq

/-- `struct MapInfo`, with its pointer; the callbacks are arguments of the functions. -/
structure MapInfoP where
  entries : Nat
  entriesMax : Nat
  entriesLen : Nat

/-- What is on the heap. -/
inductive Cell where
  | str (s : CString)
  | entries (block : Block EntryP)
  | mapInfo (m : MapInfoP)

abbrev HeapM (α : Type) := Prog Cell Fault α

/-- What an access without a block is. -/
def badAccess (p : Nat) : Fault := if p = 0 then .nullDeref else .outOfBounds

def readStr (p : Nat) : HeapM CString := do
  match ← load badAccess p with
  | .str s => pure s
  | _ => throw .outOfBounds

def readMap (p : Nat) : HeapM MapInfoP := do
  match ← load badAccess p with
  | .mapInfo m => pure m
  | _ => throw .outOfBounds

def readBlock (p : Nat) : HeapM (Block EntryP) := do
  match ← load badAccess p with
  | .entries block => pure block
  | _ => throw .outOfBounds

def writeStr (p : Nat) (s : CString) : HeapM Unit := store badAccess p (.str s)

def writeMap (p : Nat) (m : MapInfoP) : HeapM Unit := store badAccess p (.mapInfo m)

def strdup (s : CString) : HeapM Nat := alloc (.str s)

/-- `free`, which ignores the null pointer. -/
def free (p : Nat) : HeapM Unit := if p = 0 then pure () else release badAccess p

/-- `mapInfo->entries[index]`. -/
def readEntry (mapInfo index : Nat) : HeapM EntryP := do
  let m ← readMap mapInfo
  let block ← readBlock m.entries
  liftM (block.read index)

def writeEntry (mapInfo index : Nat) (entry : EntryP) : HeapM Unit := do
  let m ← readMap mapInfo
  let block ← readBlock m.entries
  let block ← liftM (block.write index entry)
  store badAccess m.entries (.entries block)

/-! ## The functions -/

def flatmapInitP (mapInfo : Nat) : HeapM Unit := do
  let m ← readMap mapInfo
  if m.entries ≠ 0 then throw .assertion
  match Block.calloc (initialMax m.entriesMax) with
  | none => throw .assertion
  | some block =>
    let entries ← alloc (.entries block)
    writeMap mapInfo ⟨entries, initialMax m.entriesMax, 0⟩

section
variable (below : Except Fault Unit)

/-- `trimWhitespace(string)`, in place. On a blank string it goes on to the byte below the block;
`below` is what comes of that: a fault, or nothing where that byte is no whitespace. -/
def trimWhitespaceP (string : Nat) : HeapM Unit := do
  let s ← readStr string
  let t := trimWhitespace s
  writeStr string t.string
  if t.accesses.any (· < 0) then liftM below

/-- The loop of `flatmap_get` from position `pos` on, with `n` positions to go. -/
def flatmapGetFromP (mapInfo : Nat) (key : CString) : (n pos : Nat) → HeapM (Option Nat)
  | 0, _ => pure none
  | n + 1, pos => do
    let tmpKey ← strdup key
    trimWhitespaceP below tmpKey
    let entry ← readEntry mapInfo pos
    let entryKey ← readStr entry.key
    let trimmed ← readStr tmpKey
    free tmpKey
    if entryKey = trimmed then pure (some pos) else flatmapGetFromP mapInfo key n (pos + 1)

/-- `flatmap_get`: the slot behind the pointer it returns. -/
def flatmapGetP (mapInfo : Nat) (key : CString) : HeapM (Option Nat) := do
  let m ← readMap mapInfo
  flatmapGetFromP below mapInfo key m.entriesLen 0

/-- The growth branch of `flatmap_put`; `realloc` moves the block. -/
def flatmapGrowP (mapInfo : Nat) : HeapM Unit := do
  let m ← readMap mapInfo
  if m.entriesMax ≤ m.entriesLen then
    let block ← readBlock m.entries
    free m.entries
    let entries ← alloc (.entries (block.realloc (m.entriesMax * 2 % sizeMax)))
    writeMap mapInfo { m with entriesMax := m.entriesMax * 2 % sizeMax, entries := entries }

/-- The new candidate of `flatmap_put`, in the slot returned. -/
def flatmapAppendP (mapInfo : Nat) (key : CString) : HeapM Nat := do
  let m ← readMap mapInfo
  writeMap mapInfo { m with entriesLen := m.entriesLen + 1 }
  let tmp ← strdup key
  trimWhitespaceP below tmp
  let copy ← strdup (← readStr tmp)
  writeEntry mapInfo m.entriesLen ⟨copy, 0⟩
  free tmp
  pure m.entriesLen

variable {σ : Type} (assignContent : σ → Nat → HeapM Nat)

/-- The callback of `flatmap_put` on the candidate in slot `pos`: the callback takes `*destination`
and returns what it leaves there. -/
def flatmapAssignP (mapInfo pos : Nat) (content : σ) : HeapM Unit := do
  let candidate ← readEntry mapInfo pos
  let destination ← assignContent content candidate.content
  writeEntry mapInfo pos { candidate with content := destination }

def flatmapPutP (mapInfo : Nat) (key : CString) (content : σ) : HeapM Unit := do
  match ← flatmapGetP below mapInfo key with
  | some pos => flatmapAssignP assignContent mapInfo pos content
  | none =>
    flatmapGrowP mapInfo
    let pos ← flatmapAppendP below mapInfo key
    flatmapAssignP assignContent mapInfo pos content

end

/-- `flatmap_getByIndex`: the slot behind the pointer it returns. -/
def flatmapGetByIndexP (mapInfo index : Nat) : HeapM (Option Nat) := do
  let m ← readMap mapInfo
  pure (if m.entriesLen ≤ index then none else some index)

section
variable (freeContent : Nat → HeapM Unit)

/-- The loop of `flatmap_free`, with `n` entries to go. -/
def flatmapFreeFromP (mapInfo : Nat) : (n : Nat) → HeapM Unit
  | 0 => pure ()
  | n + 1 => do
    let m ← readMap mapInfo
    match ← flatmapGetByIndexP mapInfo (m.entriesLen - 1) with
    | none => throw .nullDeref
    | some pos =>
      let entry ← readEntry mapInfo pos
      free entry.key
      writeEntry mapInfo pos { entry with key := 0 }
      freeContent entry.content
      writeEntry mapInfo pos ⟨0, 0⟩
      let m ← readMap mapInfo
      writeMap mapInfo { m with entriesLen := m.entriesLen - 1 }
      flatmapFreeFromP mapInfo n

def flatmapFreeP (mapInfo : Nat) : HeapM Unit := do
  let m ← readMap mapInfo
  flatmapFreeFromP freeContent mapInfo m.entriesLen
  let m ← readMap mapInfo
  free m.entries
  writeMap mapInfo { m with entries := 0 }

end

/-! ## What the accesses do -/

section
variable {F G : Footprint Cell} {p : Nat} {s : CString} {m : MapInfoP} {block : Block EntryP}

theorem readStr_spec (h : (p, .str s) ∈ F) : Spec F (readStr p) fun r F' => r = s ∧ F' = F := by
  refine (Spec.load badAccess h).bind ?_
  rintro _ _ ⟨rfl, rfl⟩
  exact Spec.pure ⟨rfl, rfl⟩

theorem readMap_spec (h : (p, .mapInfo m) ∈ F) : Spec F (readMap p) fun r F' => r = m ∧ F' = F := by
  refine (Spec.load badAccess h).bind ?_
  rintro _ _ ⟨rfl, rfl⟩
  exact Spec.pure ⟨rfl, rfl⟩

theorem readBlock_spec (h : (p, .entries block) ∈ F) :
    Spec F (readBlock p) fun r F' => r = block ∧ F' = F := by
  refine (Spec.load badAccess h).bind ?_
  rintro _ _ ⟨rfl, rfl⟩
  exact Spec.pure ⟨rfl, rfl⟩

theorem liftM_spec {α : Type} {x : Except Fault α} {a : α} (h : x = .ok a) :
    Spec F (liftM x : HeapM α) fun r F' => r = a ∧ F' = F := by
  subst h
  exact fun h G hown => ⟨a, h, F, rfl, ⟨rfl, rfl⟩, hown⟩

theorem free_null : Spec F (free 0) fun _ F' => F' = F := by
  rw [free, if_pos rfl]
  exact Spec.pure rfl

theorem free_spec {c : Cell} (hF : F = {(p, c)} + G) : Spec F (free p) fun _ F' => F' = G := by
  intro h K hown
  have hmem : (p, c) ∈ F + K := by simp [hF]
  have hne := (h.allocated p c ((hown.mem p c).mpr hmem)).1
  rw [free, if_neg hne]
  exact Spec.release badAccess hF h K hown

theorem readEntry_spec {i : Nat} {e : EntryP} (hm : (p, .mapInfo m) ∈ F)
    (hb : (m.entries, .entries block) ∈ F) (he : block.read i = .ok e) :
    Spec F (readEntry p i) fun r F' => r = e ∧ F' = F := by
  refine (readMap_spec hm).bind ?_
  rintro _ _ ⟨rfl, rfl⟩
  refine (readBlock_spec hb).bind ?_
  rintro _ _ ⟨rfl, rfl⟩
  exact liftM_spec he

theorem writeEntry_spec {i : Nat} {e : EntryP} {block' : Block EntryP} (hm : (p, .mapInfo m) ∈ F)
    (hF : F = {(m.entries, .entries block)} + G) (he : block.write i e = .ok block') :
    Spec F (writeEntry p i e) fun _ F' => F' = {(m.entries, .entries block')} + G := by
  have hb : (m.entries, .entries block) ∈ F := by simp [hF]
  refine (readMap_spec hm).bind ?_
  rintro _ _ ⟨rfl, rfl⟩
  refine (readBlock_spec hb).bind ?_
  rintro _ _ ⟨rfl, rfl⟩
  refine (liftM_spec he).bind ?_
  rintro _ _ ⟨rfl, rfl⟩
  exact Spec.store badAccess hF _

/-- `trimWhitespace` can be called on a copy of `s`: it stays in the block, or nothing comes of it
below. -/
def Trims (below : Except Fault Unit) (s : CString) : Prop := below = .ok () ∨ trim s ≠ []

theorem Trims.trim {below : Except Fault Unit} (h : Trims below s) : Trims below (trim s) := by
  have htwice : HomeAutomation.trim (HomeAutomation.trim s) = HomeAutomation.trim s :=
    Delimited.trim_trim isspace s
  rw [Trims, htwice]
  exact h

theorem trimWhitespaceP_spec {below : Except Fault Unit} (htrims : Trims below s)
    (hF : F = {(p, .str s)} + G) :
    Spec F (trimWhitespaceP below p) fun _ F' => F' = {(p, .str (trim s))} + G := by
  refine (readStr_spec (s := s) (by simp [hF])).bind ?_
  rintro _ _ ⟨rfl, rfl⟩
  refine (Spec.store badAccess hF _).bind ?_
  rintro _ _ rfl
  rw [trimWhitespace_string]
  split_ifs with hany
  · rcases htrims with hnothing | hne
    · exact (liftM_spec hnothing).mono fun _ _ h => h.2
    · obtain ⟨a, ha, hneg⟩ := List.any_eq_true.mp hany
      have hinside := (trimWhitespace_inside hne a ha).1
      exact absurd (of_decide_eq_true hneg) (not_lt.mpr hinside)
  · exact Spec.pure rfl

end

/-! ## Layout -/

section
variable {ν : Type}

/-- The entries `es` point to the keys and contents of `l`. -/
inductive EntriesAt (C : Nat → ν → Footprint Cell → Prop) :
    List EntryP → List (CString × ν) → Footprint Cell → Prop where
  | nil : EntriesAt C [] [] 0
  | cons {e : EntryP} {k : CString} {v : ν} {es : List EntryP} {l : List (CString × ν)}
      {Fc F : Footprint Cell} (hc : C e.content v Fc) (h : EntriesAt C es l F) :
      EntriesAt C (e :: es) ((k, v) :: l) ({(e.key, .str k)} + Fc + F)

/-- The blocks `F` of a flat map with 16 slots at `p`: its `MapInfo`, its block of entries at `q`,
and those `Fe` of its entries. -/
structure MapBlocks (C : Nat → ν → Footprint Cell → Prop) (p q : Nat) (block : Block EntryP)
    (es : List EntryP) (l : List (CString × ν)) (Fe F : Footprint Cell) : Prop where
  entries : EntriesAt C es l Fe
  slots : block.slots = es.map some ++ List.replicate (16 - es.length) none
  blocks : F = {(p, .mapInfo ⟨q, 16, l.length⟩)} + ({(q, .entries block)} + Fe)

/-- The blocks `F` are those of a flat map at `p` that stands for `n`. -/
def MapAt (C : Nat → ν → Footprint Cell → Prop) (p : Nat) (n : OrderedMap CString ν)
    (F : Footprint Cell) : Prop :=
  n.size ≤ 16 ∧ (∀ k ∈ n.keys, trim k = k) ∧ ∃ q block es Fe, MapBlocks C p q block es n.entries Fe F

variable {C : Nat → ν → Footprint Cell → Prop} {es : List EntryP} {l : List (CString × ν)}
  {F : Footprint Cell}

theorem EntriesAt.length_eq (h : EntriesAt C es l F) : es.length = l.length := by
  induction h with
  | nil => rfl
  | cons _ _ ih => rw [List.length_cons, List.length_cons, ih]

theorem EntriesAt.focus (h : EntriesAt C es l F) {i : Nat} {k : CString} {v : ν}
    (hi : l[i]? = some (k, v)) :
    ∃ e Fc G, es[i]? = some e ∧ C e.content v Fc ∧ F = {(e.key, .str k)} + Fc + G ∧
      ∀ c' v' Fc', C c' v' Fc' →
        EntriesAt C (es.set i ⟨e.key, c'⟩) (l.set i (k, v')) ({(e.key, .str k)} + Fc' + G) := by
  induction h generalizing i with
  | nil => exact absurd hi (by simp)
  | @cons e k₀ v₀ es l Fc F hc h ih =>
    rcases i with _ | i
    · obtain ⟨rfl, rfl⟩ := Prod.mk.inj (Option.some.inj hi)
      exact ⟨e, Fc, F, rfl, hc, rfl, fun c' v' Fc' hc' => .cons hc' h⟩
    · obtain ⟨e', Fc', G, he, hc', hF, hback⟩ := ih hi
      refine ⟨e', Fc', {(e.key, .str k₀)} + Fc + G, he, hc', by rw [hF]; abel, ?_⟩
      intro c₁ v₁ Fc₁ hc₁
      have hcons := EntriesAt.cons (k := k₀) hc (hback c₁ v₁ Fc₁ hc₁)
      rw [List.set_cons_succ, List.set_cons_succ]
      rwa [show {(e'.key, Cell.str k)} + Fc₁ + ({(e.key, Cell.str k₀)} + Fc + G) =
        {(e.key, Cell.str k₀)} + Fc + ({(e'.key, Cell.str k)} + Fc₁ + G) by abel]

theorem EntriesAt.concat (h : EntriesAt C es l F) {e : EntryP} {k : CString} {v : ν}
    {Fc : Footprint Cell} (hc : C e.content v Fc) :
    EntriesAt C (es ++ [e]) (l ++ [(k, v)]) ({(e.key, .str k)} + Fc + F) := by
  induction h with
  | nil => exact .cons hc .nil
  | @cons e₀ k₀ v₀ es l Fc₀ F hc₀ h ih =>
    have hcons := EntriesAt.cons (k := k₀) hc₀ ih
    rwa [show {(e.key, Cell.str k)} + Fc + ({(e₀.key, Cell.str k₀)} + Fc₀ + F) =
      {(e₀.key, Cell.str k₀)} + Fc₀ + ({(e.key, Cell.str k)} + Fc + F) by abel]

theorem EntriesAt.of_concat {k : CString} {v : ν} (h : EntriesAt C es (l ++ [(k, v)]) F) :
    ∃ es' e Fc G, es = es' ++ [e] ∧ C e.content v Fc ∧ F = {(e.key, .str k)} + Fc + G ∧
      EntriesAt C es' l G := by
  induction l generalizing es F with
  | nil =>
    cases h with
    | @cons e _ _ es _ Fc F hc h =>
      cases h with
      | nil => exact ⟨[], e, Fc, 0, rfl, hc, rfl, .nil⟩
  | cons q l ih =>
    cases h with
    | @cons e k₀ v₀ es _ Fc F hc h =>
      obtain ⟨es', e', Fc', G, rfl, hc', rfl, h'⟩ := ih h
      exact ⟨e :: es', e', Fc', {(e.key, .str k₀)} + Fc + G, rfl, hc', by abel, .cons hc h'⟩

/-! ## Reading a map -/

section
variable {p q : Nat} {block : Block EntryP} {Fe G : Footprint Cell}

theorem MapBlocks.map_mem (h : MapBlocks C p q block es l Fe F) :
    (p, .mapInfo ⟨q, 16, l.length⟩) ∈ F := by
  rw [h.blocks]
  simp

theorem MapBlocks.block_mem (h : MapBlocks C p q block es l Fe F) : (q, .entries block) ∈ F := by
  rw [h.blocks]
  simp

theorem MapBlocks.entry_mem (h : MapBlocks C p q block es l Fe F) {c : Nat × Cell} (hc : c ∈ Fe) :
    c ∈ F := by
  rw [h.blocks]
  simp [hc]

theorem MapBlocks.read (h : MapBlocks C p q block es l Fe F) {i : Nat} {e : EntryP}
    (he : es[i]? = some e) : block.read i = .ok e := by
  apply Block.read_eq_ok
  have hlt := (List.getElem?_eq_some_iff.mp he).1
  rw [h.slots, List.getElem?_append_left (by simpa using hlt), List.getElem?_map, he]
  rfl

variable {below : Except Fault Unit} {key : CString}

theorem flatmapGetFromP_spec (h : MapBlocks C p q block es l Fe F) (htrims : Trims below key) :
    ∀ n pos, pos + n = l.length → Spec F (flatmapGetFromP below p key n pos) fun r F' =>
      r = ((l.drop pos).findIdx? fun e => e.1 = trim key).map (· + pos) ∧ F' = F := by
  intro n
  induction n with
  | zero =>
    intro pos hpos
    rw [List.drop_eq_nil_of_le (by omega)]
    exact Spec.pure ⟨rfl, rfl⟩
  | succ n ih =>
    intro pos hpos
    have hlt : pos < l.length := by omega
    obtain ⟨e, Fc, G, he, _, hFe, _⟩ := h.entries.focus
      (List.getElem?_eq_getElem hlt : l[pos]? = some (l[pos].1, l[pos].2))
    have hkey : (e.key, .str l[pos].1) ∈ F := h.entry_mem (by simp [hFe])
    refine Spec.alloc.bind ?_
    rintro tmpKey _ ⟨_, rfl⟩
    refine (trimWhitespaceP_spec htrims rfl).bind ?_
    rintro _ _ rfl
    refine (readEntry_spec (mem_behind h.map_mem) (mem_behind h.block_mem) (h.read he)).bind ?_
    rintro _ _ ⟨rfl, rfl⟩
    refine (readStr_spec (mem_behind hkey)).bind ?_
    rintro _ _ ⟨rfl, rfl⟩
    refine (readStr_spec mem_front).bind ?_
    rintro _ _ ⟨rfl, rfl⟩
    refine (free_spec rfl).bind ?_
    rintro _ _ rfl
    rw [List.drop_eq_getElem_cons hlt, List.findIdx?_cons]
    by_cases hsame : l[pos].1 = trim key
    · rw [if_pos hsame, if_pos (by simpa using hsame)]
      exact Spec.pure ⟨by simp, rfl⟩
    · rw [if_neg hsame, if_neg (by simpa using hsame)]
      refine (ih (pos + 1) (by omega)).mono ?_
      rintro _ _ ⟨rfl, rfl⟩
      refine ⟨?_, rfl⟩
      rw [Option.map_map]
      congr 1
      funext i
      simp only [Function.comp]
      omega

theorem flatmapGetP_spec (h : MapBlocks C p q block es l Fe F) (htrims : Trims below key) :
    Spec F (flatmapGetP below p key) fun r F' =>
      r = l.findIdx? (fun e => e.1 = trim key) ∧ F' = F := by
  refine (readMap_spec h.map_mem).bind ?_
  rintro _ _ ⟨rfl, rfl⟩
  refine (flatmapGetFromP_spec h htrims l.length 0 (by omega)).mono ?_
  rintro _ _ ⟨rfl, rfl⟩
  exact ⟨by simp, rfl⟩

/-! ## Putting an entry -/

theorem set_first_free (es : List EntryP) (e : EntryP) (hlt : es.length < 16) :
    (es.map some ++ List.replicate (16 - es.length) none).set es.length (some e) =
      es.map some ++ [some e] ++ List.replicate (15 - es.length) none := by
  have hfree : List.replicate (16 - es.length) (none : Option EntryP) =
      none :: List.replicate (15 - es.length) none := by
    rw [← List.replicate_succ]
    congr 1
    omega
  rw [hfree, List.set_append_right _ _ (by simp)]
  simp

theorem flatmapGrowP_spec (h : MapBlocks C p q block es l Fe F) (hroom : l.length < 16) :
    Spec F (flatmapGrowP p) fun _ F' => F' = F := by
  refine (readMap_spec h.map_mem).bind ?_
  rintro _ _ ⟨rfl, rfl⟩
  rw [if_neg (by simp only; omega)]
  exact Spec.pure rfl

/-- The new candidate: a copy of the trimmed key, and no content. -/
theorem flatmapAppendP_spec (h : MapBlocks C p q block es l Fe F) (hroom : l.length < 16)
    (htrims : Trims below key) :
    Spec F (flatmapAppendP below p key) fun r F' => r = l.length ∧ ∃ copy block',
      block'.slots = (es.map some ++ [some ⟨copy, 0⟩]) ++ List.replicate (15 - es.length) none ∧
      F' = {(p, .mapInfo ⟨q, 16, l.length + 1⟩)} +
        ({(q, .entries block')} + ({(copy, .str (trim key))} + Fe)) := by
  have hlen := h.entries.length_eq
  refine (readMap_spec h.map_mem).bind ?_
  rintro _ _ ⟨rfl, rfl⟩
  refine (Spec.store badAccess h.blocks _).bind ?_
  rintro _ _ rfl
  refine Spec.alloc.bind ?_
  rintro tmp _ ⟨_, rfl⟩
  refine (trimWhitespaceP_spec htrims rfl).bind ?_
  rintro _ _ rfl
  refine (readStr_spec mem_front).bind ?_
  rintro _ _ ⟨rfl, rfl⟩
  refine Spec.alloc.bind ?_
  rintro copy _ ⟨_, rfl⟩
  have hslot : l.length < block.slots.length := by
    rw [h.slots]
    simp
    omega
  obtain ⟨block', hwrite, hslots, _⟩ := Block.write_ok (⟨copy, 0⟩ : EntryP) hslot
  refine (writeEntry_spec (m := ⟨q, 16, l.length + 1⟩)
    (G := {(copy, .str (trim key))} + ({(tmp, .str (trim key))} +
      ({(p, .mapInfo ⟨q, 16, l.length + 1⟩)} + Fe)))
    (mem_behind (mem_behind mem_front)) (by abel) hwrite).bind ?_
  rintro _ _ rfl
  refine (free_spec (G := {(q, .entries block')} + ({(copy, .str (trim key))} +
    ({(p, .mapInfo ⟨q, 16, l.length + 1⟩)} + Fe))) (by abel)).bind ?_
  rintro _ _ rfl
  refine Spec.pure ⟨rfl, copy, block', ?_, by abel⟩
  rw [hslots, h.slots, ← hlen]
  exact set_first_free es ⟨copy, 0⟩ (by omega)

/-- What a callback of `flatmap_put` does to a content: starting from `NULL` when there is no old
value, from the old value's blocks otherwise, it returns the blocks of the value `w`. It may read the
blocks `S`. -/
def AssignsTo {σ : Type} (C : Nat → ν → Footprint Cell → Prop) (assignContent : σ → Nat → HeapM Nat)
    (content : σ) (S : Footprint Cell) (old : Option ν) (w : ν) : Prop :=
  match old with
  | none => Spec S (assignContent content 0) fun d F' => ∃ Fc, C d w Fc ∧ F' = Fc + S
  | some v => ∀ d Fc, C d v Fc →
      Spec (Fc + S) (assignContent content d) fun d' F' => ∃ Fc', C d' w Fc' ∧ F' = Fc' + S

variable {σ : Type} {assignContent : σ → Nat → HeapM Nat} {content : σ} {S : Footprint Cell} {w : ν}

theorem flatmapAppendP_assign (h : MapBlocks C p q block es l Fe F) (hroom : l.length < 16)
    (htrims : Trims below key) (hassign : AssignsTo C assignContent content S none w) :
    Spec (F + S) (do
      flatmapGrowP p
      let pos ← flatmapAppendP below p key
      flatmapAssignP assignContent p pos content)
      fun _ F' => ∃ block' es' Fe' F₁,
        MapBlocks C p q block' es' (l ++ [(trim key, w)]) Fe' F₁ ∧ F' = F₁ + S := by
  have hlen := h.entries.length_eq
  refine (flatmapGrowP_spec h hroom).seq rfl ?_
  rintro _ _ rfl
  refine (flatmapAppendP_spec h hroom htrims).seq rfl ?_
  rintro _ _ ⟨rfl, copy, block', hslots, rfl⟩
  have hread : block'.read l.length = .ok ⟨copy, 0⟩ := by
    apply Block.read_eq_ok
    rw [hslots, ← hlen, List.getElem?_append_left (by simp), List.getElem?_append_right (by simp)]
    simp
  have hslot : l.length < block'.slots.length := by
    rw [hslots]
    simp
    omega
  refine (readEntry_spec (m := ⟨q, 16, l.length + 1⟩) (by simp) (by simp)
    hread).bind ?_
  rintro _ _ ⟨rfl, rfl⟩
  refine Spec.seq hassign (add_comm _ _) ?_
  rintro d _ ⟨Fc, hc, rfl⟩
  obtain ⟨block'', hwrite, hslots', _⟩ := Block.write_ok (⟨copy, d⟩ : EntryP) hslot
  refine (writeEntry_spec (m := ⟨q, 16, l.length + 1⟩)
    (G := {(p, .mapInfo ⟨q, 16, l.length + 1⟩)} + ({(copy, .str (trim key))} + Fc + Fe) + S)
    (by simp) (by abel) hwrite).mono ?_
  rintro _ _ rfl
  refine ⟨block'', es ++ [⟨copy, d⟩], {(copy, .str (trim key))} + Fc + Fe, _,
    ⟨h.entries.concat (e := ⟨copy, d⟩) hc, ?_, rfl⟩, ?_⟩
  · rw [hslots', hslots, ← hlen, List.set_append_left _ _ (by simp), List.set_append_right _ _ (by simp)]
    simp
  · rw [List.length_append, List.length_singleton]
    abel

theorem flatmapAssignP_spec (h : MapBlocks C p q block es l Fe F) {pos : Nat} {k : CString} {v : ν}
    (hpos : l[pos]? = some (k, v)) (hassign : AssignsTo C assignContent content S (some v) w) :
    Spec (F + S) (flatmapAssignP assignContent p pos content)
      fun _ F' => ∃ block' es' Fe' F₁,
        MapBlocks C p q block' es' (l.set pos (k, w)) Fe' F₁ ∧ F' = F₁ + S := by
  obtain ⟨e, Fc, G, he, hc, hFe, hback⟩ := h.entries.focus hpos
  have hlt : pos < es.length := (List.getElem?_eq_some_iff.mp he).1
  refine (readEntry_spec (Multiset.mem_add.mpr (Or.inl h.map_mem))
    (Multiset.mem_add.mpr (Or.inl h.block_mem)) (h.read he)).bind ?_
  rintro e _ ⟨rfl, rfl⟩
  refine Spec.seq (hassign e.content Fc hc) (G := {(p, .mapInfo ⟨q, 16, l.length⟩)} +
    ({(q, .entries block)} + ({(e.key, .str k)} + G))) ?_ ?_
  · rw [h.blocks, hFe]
    abel
  rintro d _ ⟨Fc', hc', rfl⟩
  have hslot : pos < block.slots.length := by
    rw [h.slots]
    simp
    omega
  obtain ⟨block', hwrite, hslots, _⟩ := Block.write_ok (⟨e.key, d⟩ : EntryP) hslot
  refine (writeEntry_spec (m := ⟨q, 16, l.length⟩)
    (G := {(p, .mapInfo ⟨q, 16, l.length⟩)} + ({(e.key, .str k)} + Fc' + G) + S)
    (by simp) (by abel) hwrite).mono ?_
  rintro _ _ rfl
  refine ⟨block', es.set pos ⟨e.key, d⟩, {(e.key, .str k)} + Fc' + G, _,
    ⟨hback d w Fc' hc', ?_, rfl⟩, ?_⟩
  · rw [hslots, h.slots, List.set_append_left _ _ (by simpa using hlt), List.length_set, List.map_set]
  · rw [List.length_set]
    abel

end

variable {σ : Type} {assignContent : σ → Nat → HeapM Nat} {content : σ} {S : Footprint Cell} {w : ν}
  {p : Nat} {n : OrderedMap CString ν} {below : Except Fault Unit} {key : CString}

/-- **`flatmap_put` on the heap**: it puts the value that the callback makes of the old one, and the
blocks are those of the new map. -/
theorem flatmapPutP_spec (h : MapAt C p n F) (htrims : Trims below key)
    (hroom : (n.alter (trim key) fun _ => w).size ≤ 16)
    (hassign : AssignsTo C assignContent content S (n.lookup (trim key)) w) :
    Spec (F + S) (flatmapPutP below assignContent p key content) fun _ F' =>
      ∃ F₁, MapAt C p (n.alter (trim key) fun _ => w) F₁ ∧ F' = F₁ + S := by
  obtain ⟨hsize, htrimmed, q, block, es, Fe, hblocks⟩ := h
  have htrimmed' : ∀ k ∈ (n.alter (trim key) fun _ => w).keys, trim k = k := by
    intro k hk
    rcases OrderedMap.mem_keys_alter.mp hk with hk | rfl
    · exact htrimmed k hk
    · exact Delimited.trim_trim isspace key
  refine Spec.seq (flatmapGetP_spec hblocks htrims) rfl ?_
  rintro (_ | pos) _ ⟨hfind, rfl⟩
  · have hnew : trim key ∉ n.keys := by
      intro hmem
      obtain ⟨e, he, hk⟩ := List.mem_map.mp hmem
      have hne := List.findIdx?_eq_none_iff.mp hfind.symm e he
      simp [hk] at hne
    have hlookup := OrderedMap.lookup_eq_none.mpr hnew
    have hentries : (n.alter (trim key) fun _ => w).entries = n.entries ++ [(trim key, w)] :=
      OrderedMap.alterEntries_of_notMem _ hnew
    rw [OrderedMap.size_alter, if_neg hnew] at hroom
    rw [hlookup] at hassign
    refine (flatmapAppendP_assign hblocks (by unfold OrderedMap.size at hroom; omega) htrims
      hassign).mono ?_
    rintro _ _ ⟨block', es', Fe', F₁, hblocks', rfl⟩
    refine ⟨F₁, ⟨?_, htrimmed', q, block', es', Fe', hentries ▸ hblocks'⟩, rfl⟩
    rw [OrderedMap.size_alter, if_neg hnew]
    exact hroom
  · obtain ⟨hlt, hkey, _⟩ := List.findIdx?_eq_some_iff_getElem.mp hfind.symm
    have hk : n.entries[pos].1 = trim key := by simpa using hkey
    have hpos : n.entries[pos]? = some (trim key, n.entries[pos].2) := by
      rw [List.getElem?_eq_getElem hlt, ← hk]
    have hlookup : n.lookup (trim key) = some n.entries[pos].2 :=
      OrderedMap.lookup_eq_some.mpr (List.mem_of_getElem? hpos)
    have hentries : (n.alter (trim key) fun _ => w).entries = n.entries.set pos (trim key, w) :=
      alterEntries_eq_set (fun _ => w) n.nodup hpos
    rw [hlookup] at hassign
    refine (flatmapAssignP_spec hblocks hpos hassign).mono ?_
    rintro _ _ ⟨block', es', Fe', F₁, hblocks', rfl⟩
    exact ⟨F₁, ⟨hroom, htrimmed', q, block', es', Fe', hentries ▸ hblocks'⟩, rfl⟩

/-! ## Blank keys -/

section
variable {e : Fault} {key : CString} {α : Type}

variable {σ : Type} {assignContent : σ → Nat → HeapM Nat} {content : σ} {mapInfo : Nat}

end

/-! ## Making and freeing a map -/

theorem flatmapInitP_spec (hF : F = {(p, .mapInfo ⟨0, 16, 0⟩)}) :
    Spec F (flatmapInitP p) fun _ F' => MapAt C p OrderedMap.empty F' := by
  refine (readMap_spec (m := ⟨0, 16, 0⟩) (by simp [hF])).bind ?_
  rintro _ _ ⟨rfl, rfl⟩
  have hcalloc : (Block.calloc (initialMax 16) : Option (Block EntryP)) =
      some ⟨128, List.replicate 16 none, rfl⟩ := rfl
  rw [if_neg (by simp), hcalloc]
  refine Spec.alloc.bind ?_
  rintro q _ ⟨_, rfl⟩
  refine (Spec.store badAccess (by rw [hF, add_comm]) _).mono ?_
  rintro _ _ rfl
  refine ⟨by simp, by simp, q, ⟨128, List.replicate 16 none, rfl⟩, [], 0, ⟨.nil, rfl, ?_⟩⟩
  rw [add_zero]
  rfl

/-- `n` footprints of one kind. -/
inductive SumOf (L : Footprint Cell → Prop) : Nat → Footprint Cell → Prop where
  | zero : SumOf L 0 0
  | succ {n : Nat} {F G : Footprint Cell} (hF : L F) (h : SumOf L n G) : SumOf L (n + 1) (F + G)

theorem SumOf.eq_zero {n : Nat} (h : SumOf (fun F => F = 0) n F) : F = 0 := by
  induction h with
  | zero => rfl
  | succ hF _ ih => rw [hF, ih, add_zero]

theorem flatmapGetByIndexP_spec {m : MapInfoP} (h : (p, .mapInfo m) ∈ F) {i : Nat}
    (hi : i < m.entriesLen) : Spec F (flatmapGetByIndexP p i) fun r F' => r = some i ∧ F' = F := by
  refine (readMap_spec h).bind ?_
  rintro _ _ ⟨rfl, rfl⟩
  rw [if_neg (by omega)]
  exact Spec.pure ⟨rfl, rfl⟩

variable {freeContent : Nat → HeapM Unit} {L : Footprint Cell → Prop} {q : Nat}

/-- The loop of `flatmap_free` frees the keys, and leaves what the callback leaves of each content. -/
theorem flatmapFreeFromP_spec (l : List (CString × ν))
    (hfree : ∀ k v c Fc, (k, v) ∈ l → C c v Fc → Spec Fc (freeContent c) fun _ F' => L F') :
    ∀ {es : List EntryP} {block : Block EntryP} {rest : List (Option EntryP)} {Fe : Footprint Cell},
      EntriesAt C es l Fe → block.slots = es.map some ++ rest →
      Spec ({(p, .mapInfo ⟨q, 16, l.length⟩)} + ({(q, .entries block)} + Fe))
        (flatmapFreeFromP freeContent p l.length) fun _ F' => ∃ block' G, SumOf L l.length G ∧
          F' = {(p, .mapInfo ⟨q, 16, 0⟩)} + ({(q, .entries block')} + G) := by
  induction l using List.reverseRecOn with
  | nil =>
    intro es block rest Fe hes _
    cases hes
    exact Spec.pure ⟨block, 0, .zero, rfl⟩
  | append_singleton l kv ih =>
    obtain ⟨k, v⟩ := kv
    intro es block rest Fe hes hslots
    obtain ⟨es, e, Fc, G, rfl, hc, rfl, hes'⟩ := hes.of_concat
    have hlen := hes'.length_eq
    have hread : block.read l.length = .ok e := by
      apply Block.read_eq_ok
      rw [hslots, List.map_append, List.append_assoc, List.getElem?_append_right (by simp [hlen])]
      simp [hlen]
    have hslot : l.length < block.slots.length := by
      rw [hslots]
      simp
      omega
    obtain ⟨block₁, hwrite₁, hslots₁, _⟩ := Block.write_ok (⟨0, e.content⟩ : EntryP) hslot
    obtain ⟨block₂, hwrite₂, hslots₂, _⟩ :=
      Block.write_ok (⟨0, 0⟩ : EntryP) (b := block₁) (i := l.length) (by rw [hslots₁]; simpa using hslot)
    rw [List.length_append, List.length_singleton, flatmapFreeFromP]
    refine (readMap_spec mem_front).bind ?_
    rintro _ _ ⟨rfl, rfl⟩
    refine (flatmapGetByIndexP_spec (i := l.length) mem_front (by simp)).bind ?_
    rintro _ _ ⟨rfl, rfl⟩
    refine (readEntry_spec mem_front (mem_behind mem_front) hread).bind ?_
    rintro e _ ⟨rfl, rfl⟩
    refine (free_spec (p := e.key) (c := .str k) (G := {(p, .mapInfo ⟨q, 16, l.length + 1⟩)} +
      ({(q, .entries block)} + (Fc + G))) (by abel)).bind ?_
    rintro _ _ rfl
    refine (writeEntry_spec (m := ⟨q, 16, l.length + 1⟩)
      (G := {(p, .mapInfo ⟨q, 16, l.length + 1⟩)} + (Fc + G)) mem_front (by abel) hwrite₁).bind ?_
    rintro _ _ rfl
    refine Spec.seq (hfree k v e.content Fc (by simp) hc) (G := {(q, .entries block₁)} +
      ({(p, .mapInfo ⟨q, 16, l.length + 1⟩)} + G)) (by abel) ?_
    rintro _ F₁ hF₁
    refine (writeEntry_spec (m := ⟨q, 16, l.length + 1⟩)
      (G := {(p, .mapInfo ⟨q, 16, l.length + 1⟩)} + (F₁ + G)) (by simp) (by abel) hwrite₂).bind ?_
    rintro _ _ rfl
    refine (readMap_spec (m := ⟨q, 16, l.length + 1⟩) (by simp)).bind ?_
    rintro _ _ ⟨rfl, rfl⟩
    refine (Spec.store badAccess (a := .mapInfo ⟨q, 16, l.length + 1⟩)
      (G := {(q, .entries block₂)} + (F₁ + G)) (by abel) _).bind ?_
    rintro _ _ rfl
    have hrest : block₂.slots = es.map some ++ (some ⟨0, 0⟩ :: rest) := by
      rw [hslots₂, hslots₁, hslots, List.set_set, ← hlen]
      simp
    have hloop := (ih (fun k v c Fc hmem => hfree k v c Fc (by simp [hmem])) hes' hrest).frame F₁
    rw [show {(p, Cell.mapInfo ⟨q, 16, l.length⟩)} + ({(q, Cell.entries block₂)} + G) + F₁ =
      {(p, Cell.mapInfo ⟨q, 16, l.length⟩)} + ({(q, Cell.entries block₂)} + (F₁ + G)) by abel] at hloop
    refine hloop.mono ?_
    rintro _ _ ⟨_, ⟨block', G', hG', rfl⟩, rfl⟩
    exact ⟨block', F₁ + G', .succ hF₁ hG', by abel⟩

/-- **`flatmap_free` on the heap**: the keys and the block of entries are freed, and of the contents
what the callback leaves. -/
theorem flatmapFreeP_spec (h : MapAt C p n F)
    (hfree : ∀ k v c Fc, (k, v) ∈ n.entries → C c v Fc →
      Spec Fc (freeContent c) fun _ F' => L F') :
    Spec F (flatmapFreeP freeContent p) fun _ F' => ∃ G, SumOf L n.size G ∧
      F' = {(p, .mapInfo ⟨0, 16, 0⟩)} + G := by
  obtain ⟨_, _, q, block, es, Fe, hblocks⟩ := h
  refine (readMap_spec hblocks.map_mem).bind ?_
  rintro _ _ ⟨rfl, rfl⟩
  have hloop := flatmapFreeFromP_spec (p := p) (q := q) n.entries hfree hblocks.entries hblocks.slots
  rw [← hblocks.blocks] at hloop
  refine hloop.bind ?_
  rintro _ _ ⟨block', G, hG, rfl⟩
  refine (readMap_spec mem_front).bind ?_
  rintro _ _ ⟨rfl, rfl⟩
  refine (free_spec (p := q) (c := .entries block') (G := {(p, .mapInfo ⟨q, 16, 0⟩)} + G)
    (by abel)).bind ?_
  rintro _ _ rfl
  refine (Spec.store badAccess rfl _).mono ?_
  rintro _ _ rfl
  exact ⟨G, hG, rfl⟩

end

end HomeAutomation
