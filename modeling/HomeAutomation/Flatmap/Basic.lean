import HomeAutomation.CString

/-!
# The flat map (`flatmap.c`)

`MapInfo` owns a heap block of entries, the number of entries it has room for (`entriesMax`) and
the number in use (`entriesLen`). The block is modelled by its size in bytes, as given to `calloc`
or `realloc`, and by the whole entry slots that fit in it; reading or writing a slot that does not
fit is a fault. A `void*` content is an `Option`, `none` being `NULL`. An `Entry*` into the block
is the index of its slot. The callback `assignContent` is an argument of `flatmapPut`.
-/

namespace HomeAutomation

/-- `sizeof(Entry)`: two 32-bit pointers. -/
def sizeofEntry : Nat := 8

/-- The number of values of `size_t`. -/
def sizeMax : Nat := 2 ^ 32

/-- `struct Entry`. -/
structure Entry (γ : Type) where
  key : CString
  content : Option γ
  deriving DecidableEq

/-! ## Heap blocks -/

/-- The block behind `entries`: its size in bytes and the slots that fit; a slot is `none` until an
entry is stored in it. -/
structure Block (α : Type) where
  bytes : Nat
  slots : List (Option α)
  fits : slots.length = bytes / sizeofEntry

namespace Block
variable {α : Type}

/-- The null pointer: a block of no bytes. -/
def null : Block α := ⟨0, [], rfl⟩

/-- `calloc(n, sizeof(Entry))`; it fails when the product is not a `size_t`. -/
def calloc (n : Nat) : Option (Block α) :=
  if n * sizeofEntry < sizeMax then
    some ⟨n * sizeofEntry, List.replicate n none, by simp [sizeofEntry]⟩
  else none

/-- `realloc(block, bytes)`: the first `min(old, new)` bytes are kept, so the slots that still fit
whole are. -/
def realloc (b : Block α) (bytes : Nat) : Block α :=
  ⟨bytes, b.slots.take (bytes / sizeofEntry) ++
      List.replicate (bytes / sizeofEntry - b.slots.length) none, by
    rw [List.length_append, List.length_take, List.length_replicate]
    omega⟩

def read (b : Block α) (i : Nat) : Except Fault α :=
  match b.slots[i]? with
  | some (some a) => .ok a
  | some none => .error .nullDeref
  | none => .error .outOfBounds

def write (b : Block α) (i : Nat) (a : α) : Except Fault (Block α) :=
  if i < b.slots.length then .ok ⟨b.bytes, b.slots.set i (some a), by simpa using b.fits⟩
  else .error .outOfBounds

end Block

/-! ## `trimWhitespace` -/

/-- The state of the first loop of `trimWhitespace`: the buffer with its terminator, the cursor
`j`, the flag, and the indices touched so far. -/
structure TrimState where
  string : List Char
  j : Nat
  leadingSpace : Bool
  accesses : List Int

/-- What `trimWhitespace` leaves: the string in the buffer, and the indices it touched. -/
structure TrimResult where
  string : CString
  accesses : List Int
  deriving DecidableEq

/-- One round of the first loop. -/
def trimLeadingStep (t : TrimState) (i : Nat) : TrimState :=
  let c := t.string.getD i nul
  if isspace c = false ∨ t.leadingSpace = false then
    { string := t.string.set t.j c, j := t.j + 1, leadingSpace := false,
      accesses := t.accesses ++ [(i : Int), (t.j : Int)] }
  else { t with accesses := t.accesses ++ [(i : Int)] }

/-- The second loop, its cursor being one less than the number given. Below the buffer the cursor
has wrapped: the loop reads the byte before the string, which is empty by then. What it goes on to do
there depends on the memory (`TrimMemory`). -/
def trimTrailing (string : List Char) (accesses : List Int) : Nat → TrimResult
  | 0 => { string := [], accesses := accesses ++ [-1] }
  | n + 1 =>
    if isspace (string.getD n nul) then
      trimTrailing (string.set n nul) (accesses ++ [(n : Int), (n : Int)]) n
    else { string := string.take (n + 1), accesses := accesses ++ [(n : Int)] }

/-- `trimWhitespace` on the string `s`; `strlen` reads up to the terminator first. -/
def trimWhitespace (s : CString) : TrimResult :=
  let t := (List.range s.length).foldl trimLeadingStep
    { string := s ++ [nul], j := 0, leadingSpace := true,
      accesses := (List.range (s.length + 1)).map Int.ofNat }
  trimTrailing (t.string.set t.j nul) (t.accesses ++ [(t.j : Int)]) t.j

/-! ## The map -/

/-- `struct MapInfo`, without its two callbacks. -/
structure MapInfo (γ : Type) where
  entries : Block (Entry γ)
  entriesMax : Nat
  entriesLen : Nat

section
variable {γ σ : Type}

/-- A map before `flatmap_init`: `{.entries = NULL, .entriesMax = entriesMax, .entriesLen = 0}`. -/
def MapInfo.fresh (entriesMax : Nat) : MapInfo γ := ⟨Block.null, entriesMax, 0⟩

/-- The `entriesMax` that `flatmap_init` settles on. -/
def initialMax (entriesMax : Nat) : Nat := if entriesMax = 0 then 16 else entriesMax

def flatmapInit (mapInfo : MapInfo γ) : Except Fault (MapInfo γ) :=
  if mapInfo.entries.bytes ≠ 0 then .error .assertion
  else
    match Block.calloc (initialMax mapInfo.entriesMax) with
    | none => .error .assertion
    | some entries =>
      .ok { entries := entries, entriesMax := initialMax mapInfo.entriesMax, entriesLen := 0 }

/-- `flatmap_getByIndex`, with the entry behind the pointer it returns. -/
def flatmapGetByIndex (mapInfo : MapInfo γ) (index : Nat) : Except Fault (Option (Entry γ)) :=
  if mapInfo.entriesLen ≤ index then .ok none
  else do
    let entry ← mapInfo.entries.read index
    .ok (some entry)

def flatmapGetEntryCount (mapInfo : MapInfo γ) : Nat := mapInfo.entriesLen

/-- The loop of `flatmap_get` from position `pos` on, with `n` positions to go. -/
def flatmapGetFrom (mapInfo : MapInfo γ) (key : CString) : (n pos : Nat) → Except Fault (Option Nat)
  | 0, _ => .ok none
  | n + 1, pos => do
    let entry ← mapInfo.entries.read pos
    if entry.key = (trimWhitespace key).string then .ok (some pos)
    else flatmapGetFrom mapInfo key n (pos + 1)

/-- `flatmap_get`: the slot of the entry whose key is the trimmed `key`. -/
def flatmapGet (mapInfo : MapInfo γ) (key : CString) : Except Fault (Option Nat) :=
  flatmapGetFrom mapInfo key mapInfo.entriesLen 0

/-- The growth branch of `flatmap_put`. The new size is given to `realloc` in entries. -/
def flatmapGrow (mapInfo : MapInfo γ) : MapInfo γ :=
  if mapInfo.entriesMax ≤ mapInfo.entriesLen then
    { mapInfo with
      entriesMax := mapInfo.entriesMax * 2 % sizeMax
      entries := mapInfo.entries.realloc (mapInfo.entriesMax * 2 % sizeMax) }
  else mapInfo

/-- The new candidate of `flatmap_put`: the slot at `entriesLen` gets the trimmed key. -/
def flatmapAppend (mapInfo : MapInfo γ) (key : CString) : Except Fault (MapInfo γ) := do
  let entries ← mapInfo.entries.write mapInfo.entriesLen ⟨(trimWhitespace key).string, none⟩
  .ok { mapInfo with entries := entries, entriesLen := mapInfo.entriesLen + 1 }

/-- The callback of `flatmap_put` on the candidate in slot `pos`. -/
def flatmapAssign (assignContent : σ → Option γ → Except Fault (Option γ)) (mapInfo : MapInfo γ)
    (pos : Nat) (content : σ) : Except Fault (MapInfo γ) := do
  let candidate ← mapInfo.entries.read pos
  let destination ← assignContent content candidate.content
  let entries ← mapInfo.entries.write pos { candidate with content := destination }
  .ok { mapInfo with entries := entries }

def flatmapPut (assignContent : σ → Option γ → Except Fault (Option γ)) (mapInfo : MapInfo γ)
    (key : CString) (content : σ) : Except Fault (MapInfo γ) := do
  match ← flatmapGet mapInfo key with
  | some pos => flatmapAssign assignContent mapInfo pos content
  | none =>
    let grown ← flatmapAppend (flatmapGrow mapInfo) key
    flatmapAssign assignContent grown mapInfo.entriesLen content

/-- `flatmap_get` and a read of the content through the pointer, when it is not null. -/
def contentAt (mapInfo : MapInfo γ) (key : CString) : Except Fault (Option γ) := do
  match ← flatmapGet mapInfo key with
  | none => .ok none
  | some pos =>
    let entry ← mapInfo.entries.read pos
    .ok entry.content

/-- A run of `flatmap_put` calls. -/
def flatmapPutAll (assignContent : σ → Option γ → Except Fault (Option γ)) (mapInfo : MapInfo γ)
    (puts : List (CString × σ)) : Except Fault (MapInfo γ) :=
  puts.foldlM (fun m p => flatmapPut assignContent m p.1 p.2) mapInfo

end

/-! ## `trimWhitespace` trims -/

/-- The first loop after `i` rounds: the kept characters are at the front of the buffer, and those
still to come are in place. -/
structure TrimLeading (s : CString) (i : Nat) (t : TrimState) : Prop where
  length : t.string.length = s.length + 1
  kept : t.string.take t.j = (s.take i).dropWhile isspace
  cursor : t.j = ((s.take i).dropWhile isspace).length
  ahead : t.string.drop i = (s ++ [nul]).drop i
  flag : t.leadingSpace = false ↔ (s.take i).dropWhile isspace ≠ []

theorem TrimLeading.cursor_le {s : CString} {i : Nat} {t : TrimState} (h : TrimLeading s i t) :
    t.j ≤ i := by
  rw [h.cursor]
  refine le_trans (List.dropWhile_sublist _).length_le ?_
  rw [List.length_take]
  omega

theorem trimLeadingStep_inv {s : CString} {i : Nat} {t : TrimState} (hi : i < s.length)
    (h : TrimLeading s i t) : TrimLeading s (i + 1) (trimLeadingStep t i) := by
  have hj := h.cursor_le
  obtain ⟨hlen, hkept, hcursor, hahead, hflag⟩ := h
  have hc : t.string.getD i nul = s[i] := by
    have h0 : t.string[i]? = (s ++ [nul])[i]? := by
      have := congrArg (fun l => l[0]?) hahead
      simpa using this
    rw [List.getD_eq_getElem?_getD, h0, List.getElem?_append_left hi, List.getElem?_eq_getElem hi]
    rfl
  have htake : s.take (i + 1) = s.take i ++ [s[i]] := by
    rw [List.take_add_one, List.getElem?_eq_getElem hi]
    rfl
  have hnext : t.string.drop (i + 1) = (s ++ [nul]).drop (i + 1) := by
    rw [← List.drop_drop, hahead, List.drop_drop]
  have hdrop : (s.take (i + 1)).dropWhile isspace =
      if isspace s[i] = false ∨ t.leadingSpace = false then (s.take i).dropWhile isspace ++ [s[i]]
      else [] := by
    rw [htake, List.dropWhile_append]
    by_cases hnil : (s.take i).dropWhile isspace = []
    · have hlead : ¬ t.leadingSpace = false := fun e => hflag.mp e hnil
      cases hsp : isspace s[i] <;> simp [hnil, hlead, hsp]
    · have hlead := hflag.mpr hnil
      have hempty : ((s.take i).dropWhile isspace).isEmpty = false := by simpa using hnil
      simp [hlead, hempty]
  unfold trimLeadingStep
  rw [hc]
  by_cases hkeep : isspace s[i] = false ∨ t.leadingSpace = false
  · rw [if_pos hkeep] at hdrop ⊢
    refine ⟨?_, ?_, ?_, ?_, ?_⟩
    · simpa using hlen
    · rw [hdrop, ← hkept]
      simp only
      rw [List.take_add_one, List.take_set_of_le (le_refl _), List.getElem?_set_self (by omega)]
      rfl
    · rw [hdrop, List.length_append, ← hcursor]
      rfl
    · simp only
      rw [List.drop_set_of_lt (by omega)]
      exact hnext
    · simp [hdrop]
  · rw [if_neg hkeep] at hdrop ⊢
    have hnil : (s.take i).dropWhile isspace = [] := by
      by_contra hne
      exact hkeep (Or.inr (hflag.mpr hne))
    refine ⟨hlen, ?_, ?_, hnext, ?_⟩
    · rw [hdrop, hkept, hnil]
    · rw [hdrop, hcursor, hnil]
    · rw [hdrop]
      rw [hnil] at hflag
      exact hflag

theorem trimLeading_run (s : CString) (acc : List Int) :
    ∀ i ≤ s.length, TrimLeading s i
      ((List.range i).foldl trimLeadingStep ⟨s ++ [nul], 0, true, acc⟩) := by
  intro i
  induction i with
  | zero =>
    intro _
    exact ⟨by simp, by simp, by simp, by simp, by simp⟩
  | succ i ih =>
    intro hi
    rw [List.range_succ, List.foldl_append]
    exact trimLeadingStep_inv hi (ih (by omega))

theorem trimLeading_end (s : CString) : TrimLeading s s.length
    ((List.range s.length).foldl trimLeadingStep
      ⟨s ++ [nul], 0, true, (List.range (s.length + 1)).map Int.ofNat⟩) :=
  trimLeading_run s _ s.length (le_refl _)

theorem trimTrailing_string (n : Nat) : ∀ (string : List Char) (acc : List Int),
    n ≤ string.length → (trimTrailing string acc n).string = (string.take n).rdropWhile isspace := by
  induction n with
  | zero => intro string acc _; simp [trimTrailing]
  | succ n ih =>
    intro string acc hn
    have htake : string.take (n + 1) = string.take n ++ [string[n]] := by
      rw [List.take_add_one, List.getElem?_eq_getElem hn]
      rfl
    have hget : string.getD n nul = string[n] := by
      rw [List.getD_eq_getElem?_getD, List.getElem?_eq_getElem hn]
      rfl
    rw [trimTrailing, hget, htake]
    by_cases hsp : isspace string[n] = true
    · rw [if_pos hsp, ih _ _ (by simp; omega), List.rdropWhile_concat_pos _ _ _ hsp,
        List.take_set_of_le (le_refl _)]
    · rw [if_neg hsp, List.rdropWhile_concat_neg _ _ _ hsp]

/-- **`trimWhitespace` removes the leading and trailing whitespace.** -/
@[simp] theorem trimWhitespace_string (s : CString) : (trimWhitespace s).string = trim s := by
  obtain ⟨hlen, hkept, hcursor, hahead, hflag⟩ := trimLeading_end s
  rw [List.take_length] at hkept hcursor
  unfold trimWhitespace
  simp only
  rw [trimTrailing_string, List.take_set_of_le (le_refl _), hkept]
  · rfl
  · rw [List.length_set, hlen, hcursor]
    have := (List.dropWhile_sublist (p := isspace) (l := s)).length_le
    omega

end HomeAutomation
