import HomeAutomation.GoogleSheet.Response

/-!
# The first piece of a response

The first read that returns bytes, and what the loop looks for in these bytes alone: a blank, the
status code behind it, and the `'\r'` at the end of the status line.
-/

namespace HomeAutomation

/-- What the first read that returns anything returns. -/
def firstPiece : List Incoming → List Char
  | [] => []
  | .data p _ :: _ => p.take (pageSize - 1)
  | _ :: rest => firstPiece rest

theorem firstPiece_length (incoming : List Incoming) : (firstPiece incoming).length < pageSize := by
  induction incoming with
  | nil => decide
  | cons i incoming ih =>
    cases i with
    | want => exact ih
    | error => exact ih
    | data p hp => exact Nat.lt_of_le_of_lt (List.length_take_le _ _) (by decide)

/-! ## The first read -/

open ReadState

theorem readResponse_want (rest : List Incoming) (location : CBuffer locationSize) :
    readResponse (.want :: rest) location = readResponse rest location := by
  have hstart : (start location).pageBuffer.Holds [] := (CBuffer.clean_zeros (by decide)).holds
  obtain ⟨wiped, hwiped, hloop⟩ := readLoop_eq hstart (.want :: rest)
  rw [readResponse, hloop, hwiped.eq_zeros]
  rfl

theorem readResponse_data {p : List Char} (hp : p ≠ []) (rest : List Incoming)
    (location : CBuffer locationSize) (hnul : nul ∉ p) :
    ∃ rest' stored, stored.Clean (p.take (pageSize - 1)) ∧
      p ++ delivered rest = p.take (pageSize - 1) ++ delivered rest' ∧
      (Incoming.error ∉ rest → Incoming.error ∉ rest') ∧
      readResponse (.data p hp :: rest) location =
        (ReadState.mk stored location (.zeros 4) false).received >>= goOn rest' := by
  have hstart : (start location).pageBuffer.Holds [] := (CBuffer.clean_zeros (by decide)).holds
  obtain ⟨wiped, hwiped, hloop⟩ := readLoop_eq hstart (.data p hp :: rest)
  obtain ⟨rest', hread, htext, herr⟩ := connRead_data hp rest (show pageSize - 1 ≠ 0 by decide)
  have hfree : nul ∉ p.take (pageSize - 1) := fun h => hnul (List.mem_of_mem_take h)
  have hfit : ([] : CString).length + (p.take (pageSize - 1)).length < pageSize := by
    have hlen : (p.take (pageSize - 1)).length ≤ pageSize - 1 := List.length_take_le _ _
    have hsize : pageSize = 1024 := rfl
    rw [List.length_nil]
    omega
  obtain ⟨stored, hstored, hclean⟩ := hwiped.store hfree hfit
  refine ⟨rest', stored, hclean, htext, herr, ?_⟩
  have hne : p.take (pageSize - 1) ≠ [] := by
    rw [Ne, List.take_eq_nil_iff]
    exact fun h => h.elim (by decide) hp
  rw [List.length_nil, Nat.sub_zero, hread] at hloop
  simp only [if_neg hne] at hloop
  rw [readResponse, hloop]
  show (wiped.store ([] : CString).length _ >>= _) = _
  rw [hstored]
  rfl

theorem readResponse_first {incoming : List Incoming} (location : CBuffer locationSize)
    (herr : Incoming.error ∉ incoming) (hnul : nul ∉ delivered incoming)
    (hne : delivered incoming ≠ []) :
    ∃ rest stored, stored.Clean (firstPiece incoming) ∧
      delivered incoming = firstPiece incoming ++ delivered rest ∧ Incoming.error ∉ rest ∧
      readResponse incoming location =
        (ReadState.mk stored location (.zeros 4) false).received >>= goOn rest := by
  induction incoming with
  | nil => exact absurd rfl hne
  | cons i incoming ih =>
    have herr' : Incoming.error ∉ incoming := fun h => herr (by simp [h])
    cases i with
    | want =>
      rw [readResponse_want]
      exact ih herr' hnul hne
    | error => exact absurd (by simp) herr
    | data p hp =>
      obtain ⟨rest, stored, hclean, htext, herr'', hread⟩ :=
        readResponse_data hp incoming location (fun h => hnul (List.mem_append_left _ h))
      exact ⟨rest, stored, hclean, htext, herr'' herr', hread⟩

/-! ## The status line -/

theorem findBlank_append {a : List Char} (hblank : ' ' ∉ a) (hlf : '\n' ∉ a) (b : List Char) :
    findBlank (a ++ b) = (do
      let i ← findBlank b
      .ok (i.map (· + a.length))) := by
  induction a with
  | nil =>
    cases h : findBlank b with
    | error e => rw [List.nil_append, h, Runs.error_bind]
    | ok i => simp [h]
  | cons c a ih =>
    have hc : c ≠ ' ' := fun e => hblank (by simp [e])
    have hc' : c ≠ '\n' := fun e => hlf (by simp [e])
    rw [List.cons_append, findBlank, if_neg hc', if_neg hc,
      ih (fun h => hblank (by simp [h])) (fun h => hlf (by simp [h]))]
    cases findBlank b with
    | error e => rfl
    | ok i =>
      simp only [Runs.ok_bind, Option.map_map]
      rfl

/-- Without a blank and a line feed the scan for the blank comes to the end of the buffer. -/
theorem findBlank_free {a : List Char} (hblank : ' ' ∉ a) (hlf : '\n' ∉ a) :
    findBlank a = .error .outOfBounds := by
  have h := findBlank_append hblank hlf []
  rwa [List.append_nil] at h

section
variable {stored : CBuffer pageSize} {location : CBuffer locationSize} {p head q : CString}

theorem received_first : (ReadState.mk stored location (.zeros 4) false).received = (do
    let round ← (ReadState.mk stored location (.zeros 4) false).statusLine
    match round with
    | .exit s => .ok (.exit s)
    | .next s => s.headers) := by
  have hstatus : (CBuffer.zeros 4).strAt 0 = .ok [] :=
    (CBuffer.clean_zeros (by decide)).holds.strAt_zero
  unfold received
  rw [hstatus]
  rfl

/-- **Without a blank and a line feed in the first piece the scan for the status code runs off the
page.** -/
theorem received_noBlank (hp : stored.Clean p) (hblank : ' ' ∉ p) (hlf : '\n' ∉ p) :
    (ReadState.mk stored location (.zeros 4) false).received = .error .outOfBounds := by
  have hfree : ∀ c : Char, c ≠ nul → c ∉ p → c ∉ stored.bytes := by
    intro c hc hmem hin
    rw [hp.2.2, List.mem_append] at hin
    exact hin.elim hmem (fun h => hc (List.eq_of_mem_replicate h))
  have hscan := findBlank_free (hfree ' ' (by decide) hblank) (hfree '\n' (by decide) hlf)
  rw [received_first, statusLine, hscan]
  rfl

/-- With a blank, the status code is what follows it, as far as it is there. -/
theorem received_blank (location : CBuffer locationSize)
    (hp : stored.Clean (head ++ ' ' :: q)) (hblank : ' ' ∉ head) (hlf : '\n' ∉ head) :
    ∃ status : CBuffer 4, status.Holds (q.take 3) ∧
      (ReadState.mk stored location (.zeros 4) false).received =
        match strstr (head ++ ' ' :: q) ['\r'] with
        | none => .ok (.exit ⟨stored, location, status, false⟩)
        | some lineEnd =>
          (ReadState.mk stored location status false).dropLine lineEnd >>= headers := by
  have hscan : findBlank stored.bytes = .ok (some head.length) := by
    rw [hp.2.2, List.append_assoc, findBlank_append hblank hlf]
    simp [findBlank]
  have hdrop : (head ++ ' ' :: q).drop (head.length + 1) = q := by
    rw [List.drop_length_add_append]
    rfl
  have hbehind : head.length + 1 ≤ (head ++ ' ' :: q).length := by simp
  obtain ⟨status, hcopy, hbytes⟩ := CBuffer.strncpy_ok (m := 4) (k := 3) hp.holds hbehind (by decide)
  rw [hdrop] at hbytes
  refine ⟨status, ⟨?_, List.replicate (3 - (q.take 3).length) nul, ?_⟩, ?_⟩
  · exact fun h => hp.1 (by simp [List.mem_of_mem_take h])
  · have hlen : (q.take 3).length ≤ 3 := List.length_take_le _ _
    have hsucc : 4 - (q.take 3).length = 3 - (q.take 3).length + 1 := by omega
    rw [hbytes, hsucc]
    rfl
  · rw [received_first, statusLine, hscan]
    simp only [Runs.ok_bind, hcopy, hp.holds.strAt_zero]
    cases strstr (head ++ ' ' :: q) ['\r'] with
    | none => rfl
    | some lineEnd =>
      show _ = (ReadState.mk stored location status false).dropLine lineEnd >>= headers
      rw [bind_assoc]
      rfl

end

end HomeAutomation
