import HomeAutomation.CString

/-!
# C buffers

An array of `n` characters, `bytes` being all of them. The functions of `string.h` that read or
write one through a pointer take the offset of the pointer; an access outside the array is a fault.
-/

namespace HomeAutomation

/-- `char buffer[n]`. -/
structure CBuffer (n : Nat) where
  bytes : List Char
  size : bytes.length = n
  deriving DecidableEq

namespace CBuffer
variable {m n : Nat}

/-- All zeros, as a static buffer is at boot. -/
def zeros (n : Nat) : CBuffer n := ⟨List.replicate n nul, List.length_replicate⟩

/-- The `k` bytes at offset `i`. -/
def load (b : CBuffer n) (i k : Nat) : Except Fault (List Char) :=
  if i + k ≤ n then .ok ((b.bytes.drop i).take k) else .error .outOfBounds

/-- Bytes written at offset `i`. -/
def store (b : CBuffer n) (i : Nat) (p : List Char) : Except Fault (CBuffer n) :=
  if h : i + p.length ≤ n then
    .ok ⟨b.bytes.take i ++ p ++ b.bytes.drop (i + p.length), by
      have hsize := b.size
      simp only [List.length_append, List.length_take, List.length_drop]
      omega⟩
  else .error .outOfBounds

/-- The string at offset `i`; reading it goes on to the next terminator. -/
def strAt (b : CBuffer n) (i : Nat) : Except Fault CString :=
  if nul ∈ b.bytes.drop i then .ok (cstr (b.bytes.drop i)) else .error .outOfBounds

/-- `bzero(b + i, k)`. -/
def bzero (b : CBuffer n) (i k : Nat) : Except Fault (CBuffer n) := b.store i (List.replicate k nul)

/-- `memmove(b, b + i, k)`. -/
def memmove (b : CBuffer n) (i k : Nat) : Except Fault (CBuffer n) := do
  let p ← b.load i k
  b.store 0 p

/-- At most `k` characters of the string at offset `i`; no byte behind them is read. -/
def strnAt (b : CBuffer n) (i k : Nat) : Except Fault CString :=
  if i + k ≤ n ∨ nul ∈ b.bytes.drop i then .ok ((cstr (b.bytes.drop i)).take k)
  else .error .outOfBounds

/-- `strncpy(dst, src + i, k)`: what is copied is filled up with zeros to `k` bytes. -/
def strncpy (dst : CBuffer m) (src : CBuffer n) (i k : Nat) : Except Fault (CBuffer m) := do
  let s ← src.strnAt i k
  dst.store 0 (s ++ List.replicate (k - s.length) nul)

/-! ## Strings in buffers -/

/-- The buffer starts with the string `s` and its terminator. -/
def Holds (b : CBuffer n) (s : CString) : Prop := nul ∉ s ∧ ∃ tail, b.bytes = s ++ nul :: tail

/-- The buffer holds the string `s` and nothing else but zeros. -/
def Clean (b : CBuffer n) (s : CString) : Prop :=
  nul ∉ s ∧ s.length < n ∧ b.bytes = s ++ List.replicate (n - s.length) nul

variable {b : CBuffer n} {s : CString}

theorem Holds.length_lt (h : b.Holds s) : s.length < n := by
  obtain ⟨_, tail, hb⟩ := h
  have hsize := b.size
  rw [hb, List.length_append, List.length_cons] at hsize
  omega

theorem Holds.cstr_bytes (h : b.Holds s) : cstr b.bytes = s := by
  obtain ⟨hs, tail, hb⟩ := h
  rw [hb, cstr_append_nul hs]

theorem Clean.holds (h : b.Clean s) : b.Holds s := by
  obtain ⟨hs, hlt, hb⟩ := h
  refine ⟨hs, List.replicate (n - s.length - 1) nul, ?_⟩
  rw [hb, ← List.replicate_succ]
  congr 2
  omega

theorem clean_zeros (h : 0 < n) : (zeros n).Clean [] := ⟨by simp, h, rfl⟩

theorem Clean.unique {c : CBuffer n} (h : b.Clean s) (hc : c.Clean s) : b = c := by
  rw [CBuffer.mk.injEq, h.2.2, hc.2.2]

theorem Clean.eq_zeros (h : b.Clean []) : b = zeros n := by
  obtain ⟨_, _, hb⟩ := h
  rw [zeros, CBuffer.mk.injEq, hb]
  rfl

/-- Behind an offset into its string a buffer starts with what is left of it. -/
theorem Holds.drop (h : b.Holds s) {i : Nat} (hi : i ≤ s.length) :
    nul ∉ s.drop i ∧ ∃ tail, b.bytes.drop i = s.drop i ++ nul :: tail := by
  obtain ⟨hs, tail, hb⟩ := h
  refine ⟨fun hmem => hs (List.mem_of_mem_drop hmem), tail, ?_⟩
  rw [hb, List.drop_append_of_le_length hi]

theorem Holds.strAt (h : b.Holds s) {i : Nat} (hi : i ≤ s.length) :
    b.strAt i = .ok (s.drop i) := by
  obtain ⟨hfree, tail, hdrop⟩ := h.drop hi
  rw [CBuffer.strAt, hdrop, cstr_append_nul hfree, if_pos (by simp)]

theorem Holds.strnAt (h : b.Holds s) {i : Nat} (hi : i ≤ s.length) (k : Nat) :
    b.strnAt i k = .ok ((s.drop i).take k) := by
  obtain ⟨hfree, tail, hdrop⟩ := h.drop hi
  rw [CBuffer.strnAt, hdrop, cstr_append_nul hfree, if_pos (Or.inr (by simp))]

theorem Holds.strAt_zero (h : b.Holds s) : b.strAt 0 = .ok s := h.strAt (Nat.zero_le _)

theorem holds_of_strAt (h : b.strAt 0 = .ok s) : b.Holds s := by
  unfold CBuffer.strAt at h
  rw [List.drop_zero] at h
  split_ifs at h with hmem
  rw [Except.ok.injEq] at h
  subst h
  exact ⟨nul_notMem_cstr _, cstr_split hmem⟩

theorem Holds.unique {t : CString} (h : b.Holds s) (ht : b.Holds t) : s = t := by
  have heq := h.strAt_zero
  rw [ht.strAt_zero, Except.ok.injEq] at heq
  exact heq.symm

theorem store_ok {i : Nat} {p : List Char} (h : i + p.length ≤ n) :
    ∃ b', b.store i p = .ok b' ∧ b'.bytes = b.bytes.take i ++ p ++ b.bytes.drop (i + p.length) := by
  unfold store
  rw [dif_pos h]
  exact ⟨_, rfl, rfl⟩

theorem bzero_all (b : CBuffer n) : b.bzero 0 n = .ok (zeros n) := by
  have hfit : 0 + (List.replicate n nul).length ≤ n := by rw [List.length_replicate]; omega
  unfold bzero store
  rw [dif_pos hfit, Except.ok.injEq, zeros, CBuffer.mk.injEq, List.take_zero, List.nil_append,
    List.length_replicate, Nat.zero_add, List.drop_of_length_le b.size.le, List.append_nil]

theorem Holds.bzero (h : b.Holds s) :
    ∃ b', b.bzero s.length (n - s.length) = .ok b' ∧ b'.Clean s := by
  have hlt := h.length_lt
  obtain ⟨hs, tail, hb⟩ := h
  obtain ⟨b', hb', hbytes⟩ := store_ok (b := b) (i := s.length)
    (p := List.replicate (n - s.length) nul) (by rw [List.length_replicate]; omega)
  refine ⟨b', hb', hs, hlt, ?_⟩
  have hend : s.length + (n - s.length) = b.bytes.length := by rw [b.size]; omega
  rw [hbytes, List.length_replicate, hend, List.drop_length, List.append_nil, hb,
    List.take_left]

theorem Clean.store (h : b.Clean s) {p : CString} (hp : nul ∉ p) (hfit : s.length + p.length < n) :
    ∃ b', b.store s.length p = .ok b' ∧ b'.Clean (s ++ p) := by
  obtain ⟨hs, _, hb⟩ := h
  obtain ⟨b', hb', hbytes⟩ := store_ok (b := b) (i := s.length) (p := p) hfit.le
  refine ⟨b', hb', ?_, by rw [List.length_append]; exact hfit, ?_⟩
  · rw [List.mem_append]
    exact fun h => h.elim hs hp
  · rw [hbytes, hb, List.take_left, List.drop_length_add_append, List.drop_replicate,
      List.length_append, Nat.sub_sub]

theorem Holds.memmove (h : b.Holds s) {i : Nat} (hi : i ≤ s.length) :
    ∃ b', b.memmove i ((s.drop i).length + 1) = .ok b' ∧ b'.Holds (s.drop i) := by
  have hlt := h.length_lt
  obtain ⟨hfree, tail, hdrop⟩ := h.drop hi
  have hload : b.load i ((s.drop i).length + 1) = .ok (s.drop i ++ [nul]) := by
    rw [load, if_pos (by rw [List.length_drop]; omega), hdrop, List.take_length_add_append]
    rfl
  obtain ⟨b', hb', hbytes⟩ := store_ok (b := b) (i := 0) (p := s.drop i ++ [nul]) (by
    rw [List.length_append, List.length_drop, List.length_singleton]
    omega)
  refine ⟨b', ?_, hfree, b.bytes.drop (0 + (s.drop i ++ [nul]).length), ?_⟩
  · rw [CBuffer.memmove, hload]
    exact hb'
  · rw [hbytes, List.take_zero, List.nil_append, List.append_assoc]
    rfl

/-! ### One place behind the terminator -/

theorem Clean.drop_past (h : b.Clean s) :
    b.bytes.drop (s.length + 1) = List.replicate (n - (s.length + 1)) nul := by
  rw [h.2.2, List.drop_length_add_append, List.drop_replicate, Nat.sub_sub]

/-- There is no such place when the terminator is the last byte. -/
theorem Clean.strAt_end (h : b.Clean s) (hend : s.length + 1 = n) :
    b.strAt (s.length + 1) = .error .outOfBounds := by
  rw [CBuffer.strAt, h.drop_past, hend, Nat.sub_self]
  rfl

theorem Clean.strAt_past (h : b.Clean s) (hlt : s.length + 1 < n) :
    b.strAt (s.length + 1) = .ok [] := by
  have hsucc : n - (s.length + 1) = n - (s.length + 1) - 1 + 1 := by omega
  rw [CBuffer.strAt, h.drop_past, hsucc, List.replicate_succ, if_pos (List.mem_cons_self ..)]
  rfl

theorem Clean.memmove_past (h : b.Clean s) (hlt : s.length + 1 < n) :
    ∃ b', b.memmove (s.length + 1) 1 = .ok b' ∧ b'.Holds [] := by
  have hsucc : n - (s.length + 1) = n - (s.length + 1) - 1 + 1 := by omega
  have hload : b.load (s.length + 1) 1 = .ok [nul] := by
    rw [load, if_pos (by omega), h.drop_past, hsucc]
    rfl
  obtain ⟨b', hb', hbytes⟩ := store_ok (b := b) (i := 0) (p := [nul])
    (by rw [List.length_singleton]; omega)
  refine ⟨b', ?_, by simp, b.bytes.drop (0 + [nul].length), ?_⟩
  · rw [CBuffer.memmove, hload]
    exact hb'
  · rw [hbytes, List.take_zero]
    rfl

/-! ### A last byte that is a terminator -/

/-- The last byte is a terminator, whatever stands before it. -/
def Ends (b : CBuffer n) : Prop := b.bytes.getLast? = some nul

theorem holds_of_mem (h : nul ∈ b.bytes) : b.Holds (cstr b.bytes) :=
  ⟨nul_notMem_cstr _, cstr_split h⟩

theorem Holds.mem (h : b.Holds s) : nul ∈ b.bytes := by
  obtain ⟨_, tail, hb⟩ := h
  rw [hb]
  simp

theorem Ends.mem (h : b.Ends) : nul ∈ b.bytes := List.mem_of_getLast? h

theorem Clean.ends (h : b.Clean s) : b.Ends := by
  obtain ⟨_, hlt, hb⟩ := h
  rw [Ends, hb, List.getLast?_append, List.getLast?_replicate, if_neg (by omega), Option.some_or]

/-- Every place of the buffer has a terminator at it or behind it. -/
theorem Ends.mem_drop (h : b.Ends) {i : Nat} (hi : i < n) : nul ∈ b.bytes.drop i := by
  refine List.mem_of_getLast? ?_
  rw [List.getLast?_drop, if_neg (by rw [b.size]; omega)]
  exact h

theorem Ends.store (h : b.Ends) {i : Nat} {p : List Char} (hfit : i + p.length < n) :
    ∃ b', b.store i p = .ok b' ∧ b'.Ends := by
  obtain ⟨b', hb', hbytes⟩ := store_ok (b := b) hfit.le
  refine ⟨b', hb', ?_⟩
  rw [Ends, hbytes, List.getLast?_append, List.getLast?_drop, if_neg (by rw [b.size]; omega), h,
    Option.some_or]

theorem Ends.memmove (h : b.Ends) {i : Nat} (hpos : 0 < i) (hi : i < n) :
    ∃ b', b.memmove i ((cstr (b.bytes.drop i)).length + 1) = .ok b' ∧ b'.Ends := by
  obtain ⟨tail, htail⟩ := cstr_split (h.mem_drop hi)
  have hlen := congrArg List.length htail
  rw [List.length_drop, b.size, List.length_append, List.length_cons] at hlen
  have hload : b.load i ((cstr (b.bytes.drop i)).length + 1) =
      .ok ((b.bytes.drop i).take ((cstr (b.bytes.drop i)).length + 1)) := by
    rw [load, if_pos (by omega)]
  obtain ⟨b', hb', hends⟩ := h.store (i := 0)
    (p := (b.bytes.drop i).take ((cstr (b.bytes.drop i)).length + 1)) (by
      have hle := List.length_take_le ((cstr (b.bytes.drop i)).length + 1) (b.bytes.drop i)
      omega)
  exact ⟨b', by rw [CBuffer.memmove, hload]; exact hb', hends⟩

theorem Ends.strncpy {dst : CBuffer m} {src : CBuffer n} (hdst : dst.Ends) (hsrc : src.Ends)
    {i k : Nat} (hi : i < n) (hk : k < m) : ∃ b', dst.strncpy src i k = .ok b' ∧ b'.Ends := by
  have hread : src.strnAt i k = .ok ((cstr (src.bytes.drop i)).take k) := by
    rw [strnAt, if_pos (Or.inr (hsrc.mem_drop hi))]
  have hle := List.length_take_le k (cstr (src.bytes.drop i))
  obtain ⟨b', hb', hends⟩ := hdst.store (i := 0) (p := (cstr (src.bytes.drop i)).take k ++
    List.replicate (k - ((cstr (src.bytes.drop i)).take k).length) nul) (by
      rw [List.length_append, List.length_replicate]
      omega)
  exact ⟨b', by rw [CBuffer.strncpy, hread]; exact hb', hends⟩

/-! ### Copying -/

theorem strncpy_ok {src : CBuffer n} (h : src.Holds s) {i k : Nat} (hi : i ≤ s.length)
    (hfit : k ≤ m) :
    ∃ b', (zeros m).strncpy src i k = .ok b' ∧
      b'.bytes = (s.drop i).take k ++ List.replicate (m - ((s.drop i).take k).length) nul := by
  have hread := h.strnAt hi k
  have hlen : ((s.drop i).take k).length ≤ k := List.length_take_le _ _
  obtain ⟨b', hb', hbytes⟩ := store_ok (b := zeros m) (i := 0)
    (p := (s.drop i).take k ++ List.replicate (k - ((s.drop i).take k).length) nul) (by
      rw [List.length_append, List.length_replicate]
      omega)
  refine ⟨b', ?_, ?_⟩
  · rw [CBuffer.strncpy, hread]
    exact hb'
  · rw [hbytes, List.take_zero, List.nil_append, List.length_append, List.length_replicate, zeros,
      List.drop_replicate, List.append_assoc, List.replicate_append_replicate]
    congr 2
    omega

theorem strncpy_error {src : CBuffer n} {dst : CBuffer m} (h : src.Holds s) {i k : Nat}
    (hi : i ≤ s.length) (hfit : m < k) : dst.strncpy src i k = .error .outOfBounds := by
  have hread := h.strnAt hi k
  have hlen : ((s.drop i).take k).length ≤ k := List.length_take_le _ _
  have hbig : ¬ 0 + ((s.drop i).take k ++
      List.replicate (k - ((s.drop i).take k).length) nul).length ≤ m := by
    rw [List.length_append, List.length_replicate]
    omega
  rw [CBuffer.strncpy, hread]
  show dst.store 0 _ = _
  rw [CBuffer.store, dif_neg hbig]

end CBuffer

end HomeAutomation
