import HomeAutomation.Flatmap.Basic
import HomeAutomation.Lib.Cells

/-!
# `trimWhitespace` in memory

`trimWhitespace` once more, on the memory around its argument and with the `size_t` cursors of the
source. A memory gives `string[i]` for every `size_t i`; the cells behind the string's object, among
them the one before the string (`string[SIZE_MAX]`), hold anything. The second loop of the source has
no bound, so it gets a number of rounds; it never needs more than there are cells.

The call on a string refines the one of `Basic` in what it leaves in the string and in the indices it
touches, up to the first one below the string.
-/

namespace HomeAutomation

open Cells

/-! ## The call -/

/-- `string[i]`, for every `size_t i`. -/
abbrev Memory := BitVec 32 → Char

/-- `trimWhitespace` at work: the memory, the indices touched so far, the cursor `j` and the flag. -/
structure TrimCells where
  memory : Memory
  accesses : List (BitVec 32)
  j : BitVec 32
  leadingSpace : Bool

/-- `strlen` from the index `len` on, in at most `fuel` reads. -/
def strlenFrom (m : Memory) : (fuel : Nat) → (len : BitVec 32) → Option (BitVec 32)
  | 0, _ => none
  | fuel + 1, len => if m len = nul then some len else strlenFrom m fuel (len + 1)

def strlen (m : Memory) : Option (BitVec 32) := strlenFrom m sizeMax 0

/-- One round of the first loop. -/
def trimLeadingCells (t : TrimCells) (i : BitVec 32) : TrimCells :=
  let c := t.memory i
  if isspace c = false ∨ t.leadingSpace = false then
    { memory := Function.update t.memory t.j c, accesses := t.accesses ++ [i, t.j], j := t.j + 1,
      leadingSpace := false }
  else { t with accesses := t.accesses ++ [i] }

/-- The second loop, in at most `fuel` rounds. -/
def trimTrailingCells : (fuel : Nat) → TrimCells → Option TrimCells
  | 0, _ => none
  | fuel + 1, t =>
    if isspace (t.memory t.j) then
      trimTrailingCells fuel
        { t with
          memory := Function.update t.memory t.j nul
          accesses := t.accesses ++ [t.j, t.j]
          j := t.j - 1 }
    else some { t with accesses := t.accesses ++ [t.j] }

/-- The first loop, behind `strlen`. -/
def trimLeadingAll (m : Memory) (len : BitVec 32) : TrimCells :=
  (List.range len.toNat).foldl (fun t i => trimLeadingCells t (BitVec.ofNat 32 i))
    { memory := m, accesses := (List.range (len.toNat + 1)).map (BitVec.ofNat 32), j := 0,
      leadingSpace := true }

/-- `string[j] = '\0'; j--;` -/
def trimTerminate (t : TrimCells) : TrimCells :=
  { t with
    memory := Function.update t.memory t.j nul
    accesses := t.accesses ++ [t.j]
    j := t.j - 1 }

/-- `trimWhitespace` on the string in the memory. -/
def trimWhitespaceCells (m : Memory) : Option TrimCells := do
  let len ← strlen m
  trimTrailingCells sizeMax (trimTerminate (trimLeadingAll m len))

/-! ## Strings in memory -/

/-- The memory holds the string `s` and its terminator. An object takes fewer than `2 ^ 32` bytes:
none contains the null pointer's. -/
structure StringIn (m : Memory) (s : CString) : Prop where
  holds : Holds m (s ++ [nul])
  nul_free : nul ∉ s

namespace StringIn
variable {m : Memory} {s : CString}

theorem length_lt (h : StringIn m s) : s.length + 1 < sizeMax := by
  simpa [sizeMax] using h.holds.fits

theorem toNat_length (h : StringIn m s) : (BitVec.ofNat 32 s.length).toNat = s.length := by
  have hlt := h.length_lt
  rw [BitVec.toNat_ofNat]
  apply Nat.mod_eq_of_lt
  unfold sizeMax at hlt
  omega

theorem char (h : StringIn m s) {i : Nat} (hi : i < s.length) :
    m (BitVec.ofNat 32 i) = s[i] := by
  rw [h.holds.cell i (by simp; omega), List.getElem_append_left hi]

theorem terminator (h : StringIn m s) : m (BitVec.ofNat 32 s.length) = nul := by
  rw [h.holds.cell s.length (by simp), List.getElem_concat_length rfl]

theorem strlenFrom (h : StringIn m s) (fuel : Nat) : ∀ n, n ≤ s.length → s.length < n + fuel →
    HomeAutomation.strlenFrom m fuel (BitVec.ofNat 32 n) = some (BitVec.ofNat 32 s.length) := by
  induction fuel with
  | zero =>
    intro n hn hfuel
    omega
  | succ fuel ih =>
    intro n hn hfuel
    rw [HomeAutomation.strlenFrom]
    rcases Nat.lt_or_eq_of_le hn with hlt | rfl
    · have hne : m (BitVec.ofNat 32 n) ≠ nul := by
        rw [h.char hlt]
        intro e
        exact h.nul_free (e ▸ List.getElem_mem hlt)
      have hnext : BitVec.ofNat 32 n + 1 = BitVec.ofNat 32 (n + 1) := (BitVec.ofNat_add n 1).symm
      rw [if_neg hne, hnext]
      exact ih (n + 1) hlt (by omega)
    · rw [if_pos h.terminator]

theorem strlen (h : StringIn m s) :
    HomeAutomation.strlen m = some (BitVec.ofNat 32 s.length) := by
  have hlt := h.length_lt
  exact h.strlenFrom sizeMax 0 (Nat.zero_le _) (by omega)

end StringIn

/-! ## The two loops refine those of `Basic` -/

/-- The memory holds the buffer, and the cursor, the flag and the indices are the same. -/
structure TrimRefines (u : TrimCells) (t : TrimState) : Prop where
  holds : Holds u.memory t.string
  accesses : u.accesses = t.accesses.map (BitVec.ofInt 32)
  cursor : u.j = BitVec.ofNat 32 t.j
  flag : u.leadingSpace = t.leadingSpace

theorem trimLeadingCells_refines {u : TrimCells} {t : TrimState} (h : TrimRefines u t) {i : Nat}
    (hi : i < t.string.length) (hj : t.j < t.string.length) :
    TrimRefines (trimLeadingCells u (BitVec.ofNat 32 i)) (trimLeadingStep t i) := by
  obtain ⟨hholds, hacc, hcursor, hflag⟩ := h
  unfold trimLeadingCells trimLeadingStep
  rw [hholds.getD hi nul, hcursor, hflag]
  by_cases hkeep : isspace (t.string.getD i nul) = false ∨ t.leadingSpace = false
  · rw [if_pos hkeep, if_pos hkeep]
    refine ⟨hholds.set hj _, ?_, ?_, rfl⟩
    · simp [hacc]
    · exact (BitVec.ofNat_add t.j 1).symm
  · rw [if_neg hkeep, if_neg hkeep]
    refine ⟨hholds, ?_, rfl, rfl⟩
    simp [hacc]

theorem trimLeadingCells_run {m : Memory} {s : CString} (h : StringIn m s)
    {acc : List (BitVec 32)} {acc' : List Int} (hacc : acc = acc'.map (BitVec.ofInt 32)) :
    ∀ i ≤ s.length, TrimRefines
      ((List.range i).foldl (fun t i => trimLeadingCells t (BitVec.ofNat 32 i)) ⟨m, acc, 0, true⟩)
      ((List.range i).foldl trimLeadingStep ⟨s ++ [nul], 0, true, acc'⟩) := by
  intro i
  induction i with
  | zero =>
    intro _
    exact ⟨h.holds, hacc, rfl, rfl⟩
  | succ i ih =>
    intro hi
    have hinv := trimLeading_run s acc' i (by omega)
    have hj := hinv.cursor_le
    rw [List.range_succ, List.foldl_append, List.foldl_append]
    apply trimLeadingCells_refines (ih (by omega))
    · rw [hinv.length]
      omega
    · rw [hinv.length]
      omega

theorem update_nul {m : Memory} {a : BitVec 32} (h : m a = nul) (j : BitVec 32) :
    Function.update m j nul a = nul := by
  by_cases haj : a = j
  · rw [haj, Function.update_self]
  · rwa [Function.update_of_ne haj]

/-- The second loop clears cells only, and reads at its cursor first. -/
theorem trimTrailingCells_frame (fuel : Nat) : ∀ u r : TrimCells, trimTrailingCells fuel u = some r →
    (∀ a, u.memory a = nul → r.memory a = nul) ∧
      ∃ below, r.accesses = u.accesses ++ u.j :: below := by
  induction fuel with
  | zero =>
    intro u r h
    exact absurd h (by simp [trimTrailingCells])
  | succ fuel ih =>
    intro u r h
    rw [trimTrailingCells] at h
    split_ifs at h with hsp
    · obtain ⟨hnul, below, hbelow⟩ := ih _ _ h
      refine ⟨?_, u.j :: (u.j - 1) :: below, ?_⟩
      · intro a ha
        apply hnul
        exact update_nul ha u.j
      · rw [hbelow]
        simp
    · obtain rfl := Option.some.inj h
      exact ⟨fun a ha => ha, [], rfl⟩

/-- Behind a terminator the second loop leaves what the one of `Basic` does, and touches the same
indices. Below the string the two part. -/
theorem trimTrailingCells_refines (n : Nat) : ∀ (fuel : Nat) (u r : TrimCells) (string : List Char)
    (acc : List Int), Holds u.memory string → n < string.length → string.getD n nul = nul →
    u.accesses = acc.map (BitVec.ofInt 32) → u.j = BitVec.ofNat 32 n - 1 →
    trimTrailingCells fuel u = some r →
    Holds r.memory ((trimTrailing string acc n).string ++ [nul]) ∧
      ∃ below, r.accesses = (trimTrailing string acc n).accesses.map (BitVec.ofInt 32) ++ below ∧
        ((trimTrailing string acc n).string ≠ [] → below = []) := by
  induction n with
  | zero =>
    intro fuel u r string acc hholds hn hnul hacc hj h
    obtain ⟨hkeep, below, hbelow⟩ := trimTrailingCells_frame fuel u r h
    refine ⟨⟨by simp [trimTrailing], ?_⟩, below, ?_, by simp [trimTrailing]⟩
    · intro i hi
      obtain rfl : i = 0 := by simpa [trimTrailing] using hi
      apply hkeep
      rw [hholds.getD hn nul, hnul]
    · rw [hbelow, hacc, hj]
      simp [trimTrailing]
  | succ n ih =>
    intro fuel u r string acc hholds hn hnul hacc hj h
    rw [ofNat_succ_sub_one] at hj
    obtain _ | fuel := fuel
    · exact absurd h (by simp [trimTrailingCells])
    rw [trimTrailingCells, hj, hholds.getD (by omega) nul] at h
    rw [trimTrailing]
    split_ifs at h ⊢ with hsp
    · -- the cell is cleared: it is the terminator of the next round
      apply ih fuel _ r _ _ (hholds.set (by omega) nul) (by simp; omega) ?_ ?_ rfl h
      · rw [List.getD_eq_getElem?_getD, List.getElem?_set_self (by omega)]
        rfl
      · simp [hacc]
    · obtain rfl := Option.some.inj h
      refine ⟨?_, [], by simp [hacc], fun _ => rfl⟩
      have hstring : string.take (n + 1) ++ [nul] = string.take (n + 2) := by
        rw [List.getD_eq_getElem?_getD, List.getElem?_eq_getElem hn, Option.getD_some] at hnul
        rw [List.take_add_one (i := n + 1), List.getElem?_eq_getElem hn, hnul]
        rfl
      rw [hstring]
      exact hholds.take _

/-- The second loop ends at the latest where it meets a terminator, `n` places below its cursor. -/
theorem trimTrailingCells_total (n : Nat) : ∀ (fuel : Nat) (u : TrimCells), n < fuel →
    u.memory (u.j - BitVec.ofNat 32 n) = nul → ∃ r, trimTrailingCells fuel u = some r := by
  induction n with
  | zero =>
    intro fuel u hfuel hnul
    obtain ⟨fuel, rfl⟩ := Nat.exists_eq_succ_of_ne_zero (Nat.ne_of_gt hfuel)
    have hstop : ¬ isspace (u.memory u.j) = true := by
      rw [BitVec.sub_zero] at hnul
      rw [hnul]
      decide
    exact ⟨_, by rw [trimTrailingCells, if_neg hstop]⟩
  | succ n ih =>
    intro fuel u hfuel hnul
    obtain ⟨fuel, rfl⟩ := Nat.exists_eq_succ_of_ne_zero (Nat.ne_of_gt (Nat.zero_lt_of_lt hfuel))
    rw [trimTrailingCells]
    split_ifs with hsp
    · apply ih
      · omega
      · have hcell : u.j - 1 - BitVec.ofNat 32 n = u.j - BitVec.ofNat 32 (n + 1) := by
          rw [BitVec.ofNat_add]
          bv_omega
        change Function.update u.memory u.j nul (u.j - 1 - BitVec.ofNat 32 n) = nul
        rw [hcell]
        exact update_nul hnul u.j
    · exact ⟨_, rfl⟩

/-! ## The whole call -/

theorem trimTerminate_refines {u : TrimCells} {t : TrimState} (h : TrimRefines u t)
    (hj : t.j < t.string.length) :
    Holds (trimTerminate u).memory (t.string.set t.j nul) ∧
      (trimTerminate u).accesses = (t.accesses ++ [(t.j : Int)]).map (BitVec.ofInt 32) ∧
      (trimTerminate u).j = BitVec.ofNat 32 t.j - 1 := by
  obtain ⟨hholds, hacc, hcursor, hflag⟩ := h
  unfold trimTerminate
  rw [hcursor]
  exact ⟨hholds.set hj nul, by simp [hacc], rfl⟩

theorem trimTerminate_total (u : TrimCells) :
    ∃ r, trimTrailingCells sizeMax (trimTerminate u) = some r := by
  apply trimTrailingCells_total (2 ^ 32 - 1)
  · decide
  · have hcell : u.j - 1 - BitVec.ofNat 32 (2 ^ 32 - 1) = u.j := by bv_omega
    unfold trimTerminate
    simp only
    rw [hcell, Function.update_self]

/-- **The call refines `trimWhitespace`.** It ends, leaves the same string, and touches the same
indices; only when nothing is left of the string does it touch others after them. -/
theorem trimWhitespaceCells_refines {m : Memory} {s : CString} (h : StringIn m s) :
    ∃ r, trimWhitespaceCells m = some r ∧ StringIn r.memory (trimWhitespace s).string ∧
      ∃ below, r.accesses = (trimWhitespace s).accesses.map (BitVec.ofInt 32) ++ below ∧
        ((trimWhitespace s).string ≠ [] → below = []) := by
  have hreads : (List.range (s.length + 1)).map (BitVec.ofNat 32) =
      ((List.range (s.length + 1)).map Int.ofNat).map (BitVec.ofInt 32) := by
    rw [List.map_map]
    apply List.map_congr_left
    intro i _
    exact (BitVec.ofInt_natCast 32 i).symm
  have hinv := trimLeading_end s
  have hrun := trimLeadingCells_run h hreads s.length (le_refl _)
  have hlen := hinv.length
  have hj := hinv.cursor_le
  obtain ⟨hholds, hacc, hcursor⟩ := trimTerminate_refines hrun (by omega)
  obtain ⟨r, hr⟩ := trimTerminate_total (trimLeadingAll m (BitVec.ofNat 32 s.length))
  have hcall : trimWhitespaceCells m = some r := by
    rw [trimWhitespaceCells, h.strlen]
    exact hr
  rw [trimLeadingAll, h.toNat_length] at hr
  obtain ⟨hstring, hbelow⟩ := trimTrailingCells_refines _ _ _ r _ _ hholds
    (by rw [List.length_set]; omega)
    (by rw [List.getD_eq_getElem?_getD, List.getElem?_set_self (by omega)]; rfl) hacc hcursor hr
  refine ⟨r, hcall, ⟨hstring, ?_⟩, hbelow⟩
  rw [trimWhitespace_string]
  exact fun hmem => h.nul_free (Delimited.mem_of_mem_trim isspace hmem)

end HomeAutomation
