import HomeAutomation.CString
import HomeAutomation.Lib.Runs

/-!
# The relay's state over HTTP (`getUrl.cpp`)

`HttpRequest::get` has libcurl hand the body to `writeData` piece by piece. Each piece overwrites
`match.result` with a comparison of its own, so the last piece alone decides what is read.
-/

namespace HomeAutomation

/-- `strncmp(s, buf, n)`: a string against memory that ends with `buf`. -/
def strncmp : CString → List Char → Nat → Except Fault Int
  | _, _, 0 => .ok 0
  | _, [], _ + 1 => .error .outOfBounds
  | s, b :: buf, n + 1 =>
    let a := s.head?.getD nul
    if a ≠ b then .ok ((a.toNat : Int) - b.toNat)
    else if a = nul then .ok 0
    else strncmp s.tail buf n

structure Match where
  string : Option CString
  result : Nat
  deriving DecidableEq, Repr

/-- `size * nmemb - 1`, a `size_t`. -/
def sizeLessOne (buffer : List Char) : Nat :=
  if buffer = [] then 2 ^ 32 - 1 else buffer.length - 1

/-- `HttpRequest::writeData`; what it returns is the number of bytes it took. -/
def writeData (buffer : List Char) (_match : Match) : Except Fault (Match × Nat) :=
  match _match.string with
  | none => .ok (_match, buffer.length)
  | some string => do
    let difference ← strncmp string buffer (sizeLessOne buffer)
    .ok ({ _match with result := if difference = 0 then 1 else 0 }, buffer.length)

/-- A transfer: the body arrives in pieces, passed on in their order. -/
def transfer (_match : Match) (chunks : List (List Char)) : Except Fault Match :=
  chunks.foldlM (fun m chunk => do
    let (m, _) ← writeData chunk m
    .ok m) _match

/-- `HttpRequest::get` with `performed` for `curl_easy_perform() == CURLE_OK`. -/
def HttpRequest.get (_match : Match) (chunks : List (List Char)) (performed : Bool) :
    Except Fault (Match × Nat) := do
  let _match ← transfer _match chunks
  if performed then
    match _match.string with
    | some _ => .ok (_match, _match.result)
    | none => .ok (_match, 0)
  else .error .assertion

/-! ## The comparison -/

theorem strncmp_cons_ne {a b : Char} {s : CString} {buf : List Char} {n : Nat} (h : a ≠ b) :
    strncmp (a :: s) (b :: buf) (n + 1) = .ok ((a.toNat : Int) - b.toNat) := by
  simp [strncmp, h]

theorem strncmp_cons_self {a : Char} {s : CString} {buf : List Char} {n : Nat} (h : a ≠ nul) :
    strncmp (a :: s) (a :: buf) (n + 1) = strncmp s buf n := by
  simp [strncmp, h]

/-- As long as neither side ends, `strncmp` compares the first `n` characters. -/
theorem strncmp_eq_zero {s : CString} {buf : List Char} {n : Nat} (hs : nul ∉ s)
    (hns : n ≤ s.length) (hnb : n ≤ buf.length) :
    strncmp s buf n = .ok 0 ↔ s.take n = buf.take n := by
  induction n generalizing s buf with
  | zero => simp [strncmp]
  | succ n ih =>
    obtain ⟨a, s, rfl⟩ := List.exists_cons_of_length_pos (by omega : 0 < s.length)
    obtain ⟨b, buf, rfl⟩ := List.exists_cons_of_length_pos (by omega : 0 < buf.length)
    have ha : a ≠ nul := fun e => hs (by simp [e])
    rw [List.take_succ_cons, List.take_succ_cons, List.cons.injEq]
    by_cases hab : a = b
    · subst hab
      rw [strncmp_cons_self ha, ih (fun h => hs (by simp [h])) (by simpa using hns)
        (by simpa using hnb)]
      simp
    · rw [strncmp_cons_ne hab, Except.ok.injEq, Int.sub_eq_zero, Int.natCast_inj]
      constructor
      · exact fun h => absurd (Char.toNat_inj.mp h) hab
      · exact fun h => absurd h.1 hab

theorem strncmp_ok (s : CString) {buf : List Char} {n : Nat} (h : n ≤ buf.length) :
    ∃ d, strncmp s buf n = .ok d := by
  induction n generalizing s buf with
  | zero => exact ⟨0, by simp [strncmp]⟩
  | succ n ih =>
    obtain ⟨b, buf, rfl⟩ := List.exists_cons_of_length_pos (by omega : 0 < buf.length)
    rw [strncmp]
    split_ifs
    · exact ⟨_, rfl⟩
    · exact ⟨_, rfl⟩
    · exact ih s.tail (by simpa using h)

/-! ## What a transfer leaves in `match.result` -/

/-- The result of one piece. -/
def pieceResult (string : CString) (chunk : List Char) : Nat :=
  if strncmp string chunk (chunk.length - 1) = .ok 0 then 1 else 0

theorem writeData_ok (string : CString) {chunk : List Char} (hchunk : chunk ≠ []) (result : Nat) :
    writeData chunk ⟨some string, result⟩ =
      .ok (⟨some string, pieceResult string chunk⟩, chunk.length) := by
  obtain ⟨d, hd⟩ := strncmp_ok string (n := chunk.length - 1) (Nat.sub_le chunk.length 1)
  simp only [writeData, sizeLessOne, if_neg hchunk, hd, Runs.ok_bind, pieceResult, Except.ok.injEq]

theorem transfer_last (string : CString) {chunks : List (List Char)} {last : List Char}
    (hchunks : ∀ chunk ∈ chunks, chunk ≠ []) (hlast : last ≠ []) (result : Nat) :
    transfer ⟨some string, result⟩ (chunks ++ [last]) =
      .ok ⟨some string, pieceResult string last⟩ := by
  induction chunks generalizing result with
  | nil => simp [transfer, writeData_ok string hlast]
  | cons chunk chunks ih =>
    have htail := ih (fun c hc => hchunks c (by simp [hc])) (pieceResult string chunk)
    rw [transfer] at htail ⊢
    rw [List.cons_append, List.foldlM_cons, writeData_ok string (hchunks chunk (by simp))]
    exact htail

/-! ## What a body can make the program read -/

/-- Whatever was read before and however the body is cut, `get` reads `result` from it, and returns
that. -/
def Reads (string : CString) (body : List Char) (result : Nat) : Prop :=
  ∀ before chunks, (∀ chunk ∈ chunks, chunk ≠ []) → chunks.flatten = body →
    HttpRequest.get ⟨some string, before⟩ chunks true = .ok (⟨some string, result⟩, result)

/-- What is read depends on the body alone, and it is 1 only for the string to match with one
byte behind it. -/
def ReadsBody (string : CString) (body : List Char) : Prop :=
  ∃ result, Reads string body result ∧ (result = 1 → ∃ x, body = string ++ [x])

variable {string : CString} {body : List Char} {result : Nat}

theorem HttpRequest.get_eq_ok {before : Nat} {chunks : List (List Char)} {m : Match}
    (h : transfer ⟨some string, before⟩ chunks = .ok m) (hstring : m.string = some string) :
    HttpRequest.get ⟨some string, before⟩ chunks true = .ok (m, m.result) := by
  rw [HttpRequest.get, h, Runs.ok_bind, if_pos rfl, hstring]

theorem Reads.last_piece (h : Reads string body result) (chunks : List (List Char))
    (last : List Char) (hchunks : ∀ chunk ∈ chunks, chunk ≠ []) (hlast : last ≠ [])
    (hbody : chunks.flatten ++ last = body) : pieceResult string last = result := by
  have hread := h 0 (chunks ++ [last]) (by
    intro chunk hchunk
    rcases List.mem_append.mp hchunk with hchunk | hchunk
    · exact hchunks chunk hchunk
    · exact List.mem_singleton.mp hchunk ▸ hlast) (by simpa using hbody)
  rw [HttpRequest.get_eq_ok (transfer_last string hchunks hlast 0) rfl, Except.ok.injEq,
    Prod.mk.injEq] at hread
  exact hread.2

theorem Reads.end_piece (h : Reads string body result) (front last : List Char) (hlast : last ≠ [])
    (hbody : front ++ last = body) : pieceResult string last = result := by
  by_cases hfront : front = []
  · exact h.last_piece [] last (by simp) hlast (by simpa [hfront] using hbody)
  · refine h.last_piece [front] last ?_ hlast (by simpa using hbody)
    intro chunk hchunk
    exact List.mem_singleton.mp hchunk ▸ hfront

/-- What is read is the common verdict on all non-empty ends. -/
theorem reads_of_ends (hbody : body ≠ [])
    (h : ∀ front last, last ≠ [] → front ++ last = body → pieceResult string last = result) :
    Reads string body result := by
  intro before chunks hchunks hflat
  have hne : chunks ≠ [] := by
    rintro rfl
    exact hbody (by simpa using hflat.symm)
  obtain ⟨chunks, last, rfl⟩ := List.eq_nil_or_concat' chunks |>.resolve_left hne
  have hlast : last ≠ [] := hchunks last (by simp)
  have hfront : ∀ chunk ∈ chunks, chunk ≠ [] := fun c hc => hchunks c (by simp [hc])
  have htransfer := transfer_last string hfront hlast before
  rw [h chunks.flatten last hlast (by simpa using hflat)] at htransfer
  exact HttpRequest.get_eq_ok htransfer rfl

theorem pieceResult_singleton (string : CString) (x : Char) : pieceResult string [x] = 1 := by
  simp [pieceResult, strncmp]

/-- The body whose ends all pass is a repeated character and one more byte. -/
theorem eq_replicate_of_take {a : Char} {s : List Char} (h : (a :: s).take s.length = s) :
    s = List.replicate s.length a := by
  induction s generalizing a with
  | nil => rfl
  | cons b s ih =>
    rw [List.length_cons, List.take_succ_cons, List.cons.injEq] at h
    obtain ⟨rfl, h⟩ := h
    rw [List.length_cons, List.replicate_succ, ← ih h]

/-- **When the relay's state is read off the body.** For a body that is the string and one more
byte, and a string that repeats one character, or none. -/
theorem readsBody_iff (hstring : nul ∉ string) (hbody : body ≠ []) :
    ReadsBody string body ↔
      ∃ a x, string = List.replicate string.length a ∧ body = string ++ [x] := by
  constructor
  · rintro ⟨result, hreads, hone⟩
    have hresult : result = 1 := by
      have hlast := hreads.end_piece _ [body.getLast hbody] (by simp)
        (List.dropLast_append_getLast hbody)
      rw [← hlast, pieceResult_singleton]
    obtain ⟨x, hx⟩ := hone hresult
    cases string with
    | nil => exact ⟨x, x, rfl, hx⟩
    | cons a s =>
      refine ⟨a, x, ?_, hx⟩
      have htail := hreads.end_piece [a] (s ++ [x]) (by simp) (by simp [hx])
      have heq : strncmp (a :: s) (s ++ [x]) s.length = .ok 0 := by
        by_contra hne
        rw [pieceResult, if_neg (by simpa using hne)] at htail
        omega
      rw [strncmp_eq_zero hstring (by simp) (by simp), List.take_left] at heq
      rw [List.length_cons, List.replicate_succ, ← eq_replicate_of_take heq]
  · rintro ⟨a, x, hrep, rfl⟩
    refine ⟨1, reads_of_ends hbody ?_, fun _ => ⟨x, rfl⟩⟩
    intro front last hlast hsplit
    obtain ⟨s, y, rfl⟩ := List.eq_nil_or_concat' last |>.resolve_left hlast
    rw [← List.append_assoc] at hsplit
    obtain ⟨hs, -⟩ := List.append_inj' hsplit rfl
    have hmem : ∀ c ∈ s, c = a := by
      intro c hc
      have hcs : c ∈ string := hs ▸ List.mem_append_right front hc
      rw [hrep] at hcs
      exact List.eq_of_mem_replicate hcs
    have hle : s.length ≤ string.length := by
      rw [← hs, List.length_append]
      omega
    have htake : string.take s.length = s := by
      rw [List.eq_replicate_of_mem hmem]
      nth_rewrite 1 [hrep]
      rw [List.length_replicate, List.take_replicate, Nat.min_eq_left hle]
    have hzero : strncmp string (s ++ [y]) ((s ++ [y]).length - 1) = .ok 0 := by
      rw [List.length_append, List.length_singleton, Nat.add_sub_cancel,
        strncmp_eq_zero hstring hle (by simp), htake, List.take_left]
    rw [pieceResult, if_pos hzero]

theorem readsBody_digit : ReadsBody ['1'] ['1', '\n'] :=
  (readsBody_iff (by decide) (by decide)).mpr ⟨'1', '\n', rfl, rfl⟩

/-- `OFF` is read as off in one piece, and as on when its newline comes alone. -/
theorem off_read_as_on : ¬ ReadsBody "ON".toList "OFF\n".toList := by
  rintro ⟨result, hreads, -⟩
  have hwhole := hreads 0 ["OFF\n".toList] (by decide) rfl
  have hcut := hreads 0 ["OFF".toList, "\n".toList] (by decide) rfl
  have hdiffer : HttpRequest.get ⟨some "ON".toList, 0⟩ ["OFF\n".toList] true ≠
      HttpRequest.get ⟨some "ON".toList, 0⟩ ["OFF".toList, "\n".toList] true := by decide
  exact hdiffer (hwhole.trans hcut.symm)

end HomeAutomation
