import HomeAutomation.Buffer.Basic
import HomeAutomation.Flatmap.TrimMemory

/-!
# When `trimWhitespace` stays inside its string

The second loop of `trimWhitespace` goes down from the last character kept and has no test for the
start of the string. A kept character stops it. When none is left, for the empty string and for one
of whitespace only, `j` wraps to `SIZE_MAX` and the loop goes on below the string.
-/

namespace HomeAutomation

/-! ## The indices of the two loops -/

/-- An index of a string of `n` characters or of its terminator. -/
def Inside (n : Nat) (a : Int) : Prop := 0 ≤ a ∧ a ≤ n

theorem inside_natCast {n i : Nat} (h : i ≤ n) : Inside n (i : Int) := by
  unfold Inside
  omega

theorem trimLeadingStep_accesses {t : TrimState} {i : Nat} {a : Int}
    (ha : a ∈ (trimLeadingStep t i).accesses) : a ∈ t.accesses ∨ a = i ∨ a = t.j := by
  unfold trimLeadingStep at ha
  simp only at ha
  split_ifs at ha
  · simpa using ha
  · rcases List.mem_append.mp ha with ha | ha
    · exact Or.inl ha
    · exact Or.inr (Or.inl (List.mem_singleton.mp ha))

theorem trimLeading_inside (s : CString) {acc : List Int} (h : ∀ a ∈ acc, Inside s.length a) :
    ∀ i ≤ s.length, ∀ a ∈ ((List.range i).foldl trimLeadingStep ⟨s ++ [nul], 0, true, acc⟩).accesses,
      Inside s.length a := by
  intro i
  induction i with
  | zero =>
    intro _
    exact h
  | succ i ih =>
    intro hi
    have hj := (trimLeading_run s acc i (by omega)).cursor_le
    rw [List.range_succ, List.foldl_append]
    intro a ha
    rcases trimLeadingStep_accesses ha with ha | rfl | rfl
    · exact ih (by omega) a ha
    · exact inside_natCast (by omega)
    · exact inside_natCast (by omega)

/-- Where the second loop leaves a character, it has not gone below the string. -/
theorem trimTrailing_inside {len : Nat} (n : Nat) : ∀ (string : List Char) (acc : List Int),
    (∀ a ∈ acc, Inside len a) → n ≤ len + 1 → (trimTrailing string acc n).string ≠ [] →
    ∀ a ∈ (trimTrailing string acc n).accesses, Inside len a := by
  induction n with
  | zero =>
    intro string acc _ _ hne
    exact absurd rfl hne
  | succ n ih =>
    intro string acc h hn hne
    have hcell := inside_natCast (n := len) (i := n) (by omega)
    rw [trimTrailing] at hne ⊢
    split_ifs at hne ⊢
    · apply ih _ _ ?_ (by omega) hne
      exact List.forall_mem_append.mpr ⟨h, List.forall_mem_cons.mpr
        ⟨hcell, List.forall_mem_singleton.mpr hcell⟩⟩
    · exact List.forall_mem_append.mpr ⟨h, List.forall_mem_singleton.mpr hcell⟩

theorem trimTrailing_below (n : Nat) : ∀ (string : List Char) (acc : List Int), n ≤ string.length →
    (trimTrailing string acc n).string = [] → -1 ∈ (trimTrailing string acc n).accesses := by
  induction n with
  | zero =>
    intro string acc _ _
    simp [trimTrailing]
  | succ n ih =>
    intro string acc hn hnil
    rw [trimTrailing] at hnil ⊢
    split_ifs at hnil ⊢
    · apply ih _ _ ?_ hnil
      rw [List.length_set]
      omega
    · have hlen := congrArg List.length hnil
      rw [List.length_take, List.length_nil] at hlen
      omega

variable {s : CString}

theorem trimWhitespace_inside (h : trim s ≠ []) :
    ∀ a ∈ (trimWhitespace s).accesses, Inside s.length a := by
  have hreads : ∀ a ∈ (List.range (s.length + 1)).map Int.ofNat, Inside s.length a := by
    intro a ha
    obtain ⟨i, hi, rfl⟩ := List.mem_map.mp ha
    apply inside_natCast
    rw [List.mem_range] at hi
    omega
  have hj := (trimLeading_end s).cursor_le
  have hleading := trimLeading_inside s hreads s.length (le_refl _)
  rw [← trimWhitespace_string] at h
  apply trimTrailing_inside _ _ _ ?_ (by omega) h
  exact List.forall_mem_append.mpr ⟨hleading, List.forall_mem_singleton.mpr (inside_natCast hj)⟩

theorem trimWhitespace_below (h : trim s = []) : -1 ∈ (trimWhitespace s).accesses := by
  have hinv := trimLeading_end s
  have hlen := hinv.length
  have hj := hinv.cursor_le
  rw [← trimWhitespace_string] at h
  apply trimTrailing_below _ _ _ ?_ h
  rw [List.length_set]
  omega

/-! ## The call -/

/-- The call is a safe trim of the string in the memory: it ends, every index it touches is one of
the string or its terminator, the trimmed string is left, and a second call leaves it so. -/
def TrimsSafely (m : Memory) (s : CString) : Prop :=
  ∃ r, trimWhitespaceCells m = some r ∧ (∀ a ∈ r.accesses, a.toNat ≤ s.length) ∧
    StringIn r.memory (trim s) ∧
    ∃ r', trimWhitespaceCells r.memory = some r' ∧ StringIn r'.memory (trim s)

variable {m : Memory}

theorem trimWhitespaceCells_inside (h : StringIn m s) (hne : trim s ≠ []) :
    ∃ r, trimWhitespaceCells m = some r ∧ (∀ a ∈ r.accesses, a.toNat ≤ s.length) ∧
      StringIn r.memory (trim s) := by
  obtain ⟨r, hr, hstring, below, haccesses, hbelow⟩ := trimWhitespaceCells_refines h
  rw [trimWhitespace_string] at hstring hbelow
  rw [hbelow hne, List.append_nil] at haccesses
  refine ⟨r, hr, ?_, hstring⟩
  intro a ha
  rw [haccesses] at ha
  obtain ⟨z, hz, rfl⟩ := List.mem_map.mp ha
  obtain ⟨hlow, hhigh⟩ := trimWhitespace_inside hne z hz
  have hlt := h.length_lt
  unfold sizeMax at hlt
  obtain ⟨i, rfl⟩ := Int.eq_ofNat_of_zero_le hlow
  rw [BitVec.ofInt_natCast, BitVec.toNat_ofNat]
  omega

theorem trimWhitespaceCells_below (h : StringIn m s) (hnil : trim s = []) {r : TrimCells}
    (hr : trimWhitespaceCells m = some r) : -1 ∈ r.accesses := by
  obtain ⟨r', hr', _, below, haccesses, _⟩ := trimWhitespaceCells_refines h
  obtain rfl := Option.some.inj (hr.symm.trans hr')
  rw [haccesses, List.mem_append, List.mem_map]
  exact Or.inl ⟨-1, trimWhitespace_below hnil, rfl⟩

theorem not_trimsSafely (h : StringIn m s) (hnil : trim s = []) : ¬ TrimsSafely m s := by
  rintro ⟨r, hr, hinside, _⟩
  have hlast := hinside _ (trimWhitespaceCells_below h hnil hr)
  have hlt := h.length_lt
  have hmax : (-1 : BitVec 32).toNat = 2 ^ 32 - 1 := by decide
  rw [hmax] at hlast
  unfold sizeMax at hlt
  omega

/-- **`trimWhitespace` is a safe trim exactly of the strings with a character to keep.** -/
theorem trimWhitespace_safe_iff (h : StringIn m s) :
    TrimsSafely m s ↔ ∃ c ∈ s, isspace c = false := by
  constructor
  · intro hsafe
    by_contra hblank
    apply not_trimsSafely h ?_ hsafe
    rw [Delimited.trim_eq_nil_iff]
    intro c hc
    by_contra hkept
    exact hblank ⟨c, hc, by simpa using hkept⟩
  · rintro ⟨c, hc, hkept⟩
    have hne : trim s ≠ [] := by
      intro hnil
      rw [(Delimited.trim_eq_nil_iff isspace).mp hnil c hc] at hkept
      exact absurd hkept (by simp)
    obtain ⟨r, hr, hinside, hstring⟩ := trimWhitespaceCells_inside h hne
    have htwice : trim (trim s) = trim s := Delimited.trim_trim isspace s
    obtain ⟨r', hr', _, hstring'⟩ := trimWhitespaceCells_inside hstring (by rwa [htwice])
    rw [htwice] at hstring'
    exact ⟨r, hr, hinside, hstring, r', hr', hstring'⟩

/-- A memory with the string `s` in it, `c` in the cell before it and terminators elsewhere. -/
def memoryOf (c : Char) (s : CString) : Memory := fun i =>
  if i = -1 then c else s.getD i.toNat nul

theorem stringIn_memoryOf (c : Char) (hnul : nul ∉ s) (hlen : s.length + 1 < sizeMax) :
    StringIn (memoryOf c s) s := by
  unfold sizeMax at hlen
  refine ⟨⟨by simpa using hlen, ?_⟩, hnul⟩
  intro i hi
  rw [List.length_append, List.length_singleton] at hi
  have hbefore : BitVec.ofNat 32 i ≠ -1 := by bv_omega
  have hindex : (BitVec.ofNat 32 i).toNat = i := by
    rw [BitVec.toNat_ofNat]
    exact Nat.mod_eq_of_lt (by omega)
  rw [memoryOf, if_neg hbefore, hindex, List.getD_eq_getElem?_getD]
  obtain hlt | rfl := Nat.lt_or_eq_of_le (Nat.le_of_lt_succ hi)
  · rw [List.getElem?_eq_getElem hlt, List.getElem_append_left hlt]
    rfl
  · simp

/-- A string with whitespace at both ends and in the middle. -/
theorem trimsSafely_inner_space :
    TrimsSafely (memoryOf ' ' [' ', 'a', ' ', 'b', ' ']) [' ', 'a', ' ', 'b', ' '] ↔
      ∃ c ∈ [' ', 'a', ' ', 'b', ' '], isspace c = false :=
  trimWhitespace_safe_iff (stringIn_memoryOf ' ' (by decide) (by decide))

/-- The payload ` :1` has a key of one space. Trimming it leaves the string, and the space before it
in memory is overwritten. -/
theorem blank_key_clears_below :
    (assignments (some [' ', ':', '1'])).map Prod.fst = [[' ']] ∧
      StringIn (memoryOf ' ' [' ']) [' '] ∧ ¬ TrimsSafely (memoryOf ' ' [' ']) [' '] ∧
      (trimWhitespaceCells (memoryOf ' ' [' '])).map (fun r => (r.memory (-1), r.accesses)) =
        some (nul, [0, 1, 0, 0, -1, -1, -2]) := by
  have hin : StringIn (memoryOf ' ' [' ']) [' '] := stringIn_memoryOf ' ' (by decide) (by decide)
  refine ⟨?_, hin, not_trimsSafely hin (by decide), ?_⟩
  · decide +kernel
  · decide +kernel

end HomeAutomation
