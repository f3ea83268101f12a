import HomeAutomation.GoogleSheet.Connect
import HomeAutomation.GoogleSheet.Response

/-!
# The buffers of a response

When reading a response stays inside `pageBuffer`, `locationBuffer` and `statusCode`. Three things lead
outside: bytes without a blank and a line feed, of which the scan for the status code does not find
the end; a first `'\r'` on the last place a page has for text, as the line behind it starts two places
on; and a `Location` value that fills `locationBuffer` (`buffers_in_bounds_iff`).
-/

namespace HomeAutomation

open ReadState

/-! ## The status line -/

/-- The scan for the status code comes to an end exactly when there is something to end it. -/
theorem findBlank_ok {l : List Char} : (∃ r, findBlank l = .ok r) ↔ ' ' ∈ l ∨ '\n' ∈ l := by
  induction l with
  | nil => simp [findBlank]
  | cons c l ih =>
    rw [findBlank, List.mem_cons, List.mem_cons]
    split_ifs with hlf hblank
    · simp [hlf]
    · simp [hblank]
    · have hne : ' ' ≠ c := fun e => hblank e.symm
      have hne' : '\n' ≠ c := fun e => hlf e.symm
      rw [or_iff_right hne, or_iff_right hne', ← ih]
      constructor
      · intro h
        obtain ⟨r, h⟩ := h
        obtain ⟨i, hi, _⟩ := Runs.bind_eq_ok.mp h
        exact ⟨i, hi⟩
      · intro h
        obtain ⟨i, hi⟩ := h
        exact ⟨_, Runs.bind_eq_ok.mpr ⟨i, hi, rfl⟩⟩

theorem findBlank_some {l : List Char} {i : Nat} (h : findBlank l = .ok (some i)) :
    l[i]? = some ' ' := by
  induction l generalizing i with
  | nil => exact absurd h (by simp [findBlank])
  | cons c l ih =>
    rw [findBlank] at h
    split_ifs at h with hlf hblank
    · exact absurd h (by simp)
    · rw [Except.ok.injEq, Option.some.injEq] at h
      rw [← h, hblank]
      rfl
    · obtain ⟨j, hj, hi⟩ := Runs.bind_eq_ok.mp h
      rw [Except.ok.injEq, Option.map_eq_some_iff] at hi
      obtain ⟨j, rfl, rfl⟩ := hi
      exact ih hj

namespace ReadState
variable {s s' : ReadState}

/-- What the scan finds is copied. -/
def copyStatus (s : ReadState) : Option Nat → Except Fault (CBuffer 4)
  | some i => s.statusCode.strncpy s.pageBuffer (i + 1) 3
  | none => .ok s.statusCode

/-- The end of the status line, once the status code has been copied. -/
def endStatusLine (s : ReadState) : Except Fault Round := do
  let page ← s.pageBuffer.strAt 0
  match strstr page ['\r'] with
  | none => .ok (.exit s)
  | some lineEnd => do
    let s ← s.dropLine lineEnd
    .ok (.next s)

theorem statusLine_eq : s.statusLine = (do
    let blank ← findBlank s.pageBuffer.bytes
    let statusCode ← s.copyStatus blank
    endStatusLine { s with statusCode := statusCode }) := by
  unfold statusLine
  cases findBlank s.pageBuffer.bytes with
  | error e => rfl
  | ok blank => cases blank <;> rfl

/-- A line is dropped when the one behind it starts inside the page. -/
theorem dropLine_inside (hpage : s.pageBuffer.Ends) {lineEnd : Nat} (hfit : lineEnd + 2 < pageSize) :
    ∃ moved : CBuffer pageSize, s.dropLine lineEnd = .ok { s with pageBuffer := moved } ∧
      moved.Ends := by
  obtain ⟨moved, hmoved, hends⟩ := hpage.memmove (i := lineEnd + 2) (by omega) hfit
  refine ⟨moved, ?_, hends⟩
  rw [dropLine, CBuffer.strAt, if_pos (hpage.mem_drop hfit), Runs.ok_bind, hmoved]
  rfl

theorem dropLine_outside {lineEnd : Nat} (hend : lineEnd + 2 = pageSize) :
    s.dropLine lineEnd = .error .outOfBounds := by
  rw [dropLine, CBuffer.strAt, hend, List.drop_of_length_le s.pageBuffer.size.le]
  rfl

/-- The bytes on the page have an end for the scan and a line end that is not too far back. -/
structure StatusFits (s : ReadState) : Prop where
  scan : ' ' ∈ s.pageBuffer.bytes ∨ '\n' ∈ s.pageBuffer.bytes
  lineEnd : strstr (cstr s.pageBuffer.bytes) ['\r'] ≠ some (pageSize - 2)

theorem copyStatus_inside (hpage : s.pageBuffer.Ends) (hstatus : s.statusCode.Ends)
    {blank : Option Nat} (hblank : findBlank s.pageBuffer.bytes = .ok blank) :
    ∃ status, s.copyStatus blank = .ok status ∧ status.Ends := by
  cases blank with
  | none => exact ⟨s.statusCode, rfl, hstatus⟩
  | some i =>
    have hat := findBlank_some hblank
    obtain ⟨hi, _⟩ := List.getElem?_eq_some_iff.mp hat
    rw [s.pageBuffer.size] at hi
    have hlast : i ≠ pageSize - 1 := by
      intro e
      rw [CBuffer.Ends, List.getLast?_eq_getElem?, s.pageBuffer.size, ← e, hat] at hpage
      exact absurd hpage (by decide)
    exact hstatus.strncpy hpage (i := i + 1) (by omega) (by decide)

theorem endStatusLine_inside (hpage : s.pageBuffer.Ends)
    (hend : strstr (cstr s.pageBuffer.bytes) ['\r'] ≠ some (pageSize - 2)) :
    s.endStatusLine = .ok (.exit s) ∨ ∃ moved : CBuffer pageSize,
      s.endStatusLine = .ok (.next { s with pageBuffer := moved }) ∧ moved.Ends := by
  have hholds := CBuffer.holds_of_mem hpage.mem
  rw [endStatusLine, hholds.strAt_zero, Runs.ok_bind]
  cases hreturn : strstr (cstr s.pageBuffer.bytes) ['\r'] with
  | none => exact Or.inl rfl
  | some lineEnd =>
    have hlt := hholds.length_lt
    have hfind := Delimited.find_length (by simp) hreturn
    have hne : lineEnd ≠ pageSize - 2 := fun e => hend (e ▸ hreturn)
    rw [List.length_singleton] at hfind
    obtain ⟨moved, hdrop, hmoved⟩ := dropLine_inside hpage (show lineEnd + 2 < pageSize by omega)
    exact Or.inr ⟨moved, Runs.bind_eq_ok.mpr ⟨_, hdrop, rfl⟩, hmoved⟩

/-- Reading the status line leaves the buffers as they have to be. -/
theorem statusStep_inside (hpage : s.pageBuffer.Ends) (hstatus : s.statusCode.Ends)
    (hfits : s.StatusFits) (incoming : List Incoming) :
    ∃ phase s', s.statusStep incoming = .ok (phase, s') ∧ s'.pageBuffer.Ends ∧ s'.statusCode.Ends ∧
      s'.locationBuffer = s.locationBuffer := by
  obtain ⟨blank, hblank⟩ := findBlank_ok.mpr hfits.scan
  obtain ⟨status, hcopy, hends⟩ := copyStatus_inside hpage hstatus hblank
  have hline : s.statusLine = endStatusLine { s with statusCode := status } := by
    rw [statusLine_eq, hblank, Runs.ok_bind, hcopy, Runs.ok_bind]
  rw [statusStep, hline]
  rcases endStatusLine_inside (s := { s with statusCode := status }) hpage hfits.lineEnd with
    hexit | ⟨moved, hnext, hmoved⟩
  · rw [hexit]
    exact ⟨.closed, _, rfl, hpage, hends, rfl⟩
  · rw [hnext]
    exact ⟨.headers incoming, _, rfl, hmoved, hends, rfl⟩

theorem statusFits_of_ok (hpage : s.pageBuffer.Ends) {incoming : List Incoming}
    {r : Phase × ReadState} (h : s.statusStep incoming = .ok r) : s.StatusFits := by
  have hholds := CBuffer.holds_of_mem hpage.mem
  obtain ⟨round, hline, _⟩ := Runs.bind_eq_ok.mp h
  rw [statusLine_eq] at hline
  obtain ⟨blank, hblank, hline⟩ := Runs.bind_eq_ok.mp hline
  obtain ⟨status, _, hend⟩ := Runs.bind_eq_ok.mp hline
  refine ⟨findBlank_ok.mp ⟨blank, hblank⟩, ?_⟩
  intro hreturn
  rw [endStatusLine, hholds.strAt_zero, Runs.ok_bind, hreturn] at hend
  obtain ⟨s', hdrop, _⟩ := Runs.bind_eq_ok.mp hend
  rw [dropLine_outside (by decide)] at hdrop
  exact absurd hdrop (by simp)

/-! ## The headers -/

/-- The values of the `Location` lines leave room for a terminator. -/
def LocationFits (s : ReadState) : Prop := ∀ v, s.locationRead = some v → v.length < locationSize

/-- What a header line leaves in `locationBuffer` is a string when it fits. -/
theorem lineLocation_inside {line : CString} {location : CBuffer locationSize} (hline : nul ∉ line)
    (hlocation : nul ∈ location.bytes)
    (hfits : ∀ v, locationValue line = some v → v.length < locationSize) :
    ∃ location', lineLocation line location = .ok location' ∧ nul ∈ location'.bytes := by
  rw [lineLocation_value]
  cases hvalue : locationValue line with
  | none => exact ⟨location, rfl, hlocation⟩
  | some v =>
    have hfree : nul ∉ v := fun h => hline (mem_of_locationValue hvalue _ h)
    obtain ⟨location', hset, hholds⟩ := setLocation_holds (hfits v hvalue) hfree
    exact ⟨location', hset, hholds.mem⟩

/-- A round of the header loop leaves the buffers as they have to be. -/
theorem headerStep_inside (hpage : nul ∈ s.pageBuffer.bytes)
    (hlocation : nul ∈ s.locationBuffer.bytes) (hfits : s.LocationFits) (incoming : List Incoming) :
    ∃ phase s', s.headerStep incoming = .ok (phase, s') ∧
      (phase = .reading incoming ∨ phase = .headers incoming) ∧ nul ∈ s'.pageBuffer.bytes ∧
      s'.statusCode = s.statusCode ∧ nul ∈ s'.locationBuffer.bytes := by
  cases hdone : s.doneHeaders with
  | true =>
    rw [headerStep, if_pos hdone, CBuffer.bzero_all, Runs.ok_bind]
    exact ⟨.reading incoming, _, rfl, Or.inl rfl, (CBuffer.clean_zeros (by decide)).ends.mem, rfl,
      hlocation⟩
  | false =>
    have hholds := CBuffer.holds_of_mem hpage
    rw [headerStep, if_neg (by simp [hdone])]
    by_cases hstuck : strstr (cstr s.pageBuffer.bytes) [':'] = none ∨
        strstr (cstr s.pageBuffer.bytes) crlf = none
    · rw [headerRound_none hholds hstuck]
      exact ⟨.reading incoming, s, rfl, Or.inl rfl, hpage, rfl, hlocation⟩
    · rw [not_or] at hstuck
      obtain ⟨colon, hcolon⟩ := Option.ne_none_iff_exists'.mp hstuck.1
      obtain ⟨lineEnd, hend⟩ := Option.ne_none_iff_exists'.mp hstuck.2
      have hread := locationRead_line hholds hdone hcolon hend
      obtain ⟨location, hline, hterminated⟩ := lineLocation_inside
        (fun h => nul_notMem_cstr _ (List.mem_of_mem_take h)) hlocation
        (fun v hv => hfits v (hread.trans hv))
      obtain ⟨moved, hmoved, hround⟩ := headerRound_some hholds hcolon hend
      rw [hround, readLocation_eq hholds hcolon hend, hline]
      exact ⟨.headers incoming, _, rfl, Or.inr rfl, hmoved.mem, rfl, hterminated⟩

/-- The characters that a `Location` line has copied are its value. -/
theorem copied_eq {colon lineEnd : Nat}
    (hdone : s.doneHeaders = false) (hpage : nul ∈ s.pageBuffer.bytes)
    (hcolon : strstr (cstr s.pageBuffer.bytes) [':'] = some colon)
    (hend : strstr (cstr s.pageBuffer.bytes) crlf = some lineEnd)
    (hloc : headerLocation <+: cstr s.pageBuffer.bytes) :
    ∃ v, s.locationRead = some v ∧ skipColon (cstr s.pageBuffer.bytes) colon lineEnd ≤ lineEnd ∧
      lineEnd - skipColon (cstr s.pageBuffer.bytes) colon lineEnd = v.length := by
  have hholds := CBuffer.holds_of_mem hpage
  have hfit := crlf_fits hend
  obtain ⟨hline, hskip, hvalue⟩ := skipColon_location hloc hcolon hend
  refine ⟨(((cstr s.pageBuffer.bytes).take lineEnd).drop headerLocation.length).dropWhile isLead,
    ?_, hskip, ?_⟩
  · rw [locationRead_line hholds hdone hcolon hend, locationValue, if_pos hline]
  · rw [← hvalue, List.length_drop, List.length_take]
    omega

/-- A value is read from a line with a colon and an end that starts with the name. -/
theorem of_locationRead {v : CString} (h : s.locationRead = some v) :
    s.doneHeaders = false ∧ ∃ colon lineEnd,
      strstr (cstr s.pageBuffer.bytes) [':'] = some colon ∧
      strstr (cstr s.pageBuffer.bytes) crlf = some lineEnd ∧
      headerLocation <+: cstr s.pageBuffer.bytes := by
  unfold locationRead at h
  split_ifs at h with hdone
  obtain ⟨line, hline, hvalue⟩ := Option.bind_eq_some_iff.mp h
  refine ⟨by simpa using hdone, ?_⟩
  unfold headerLine at hline
  cases hcolon : strstr (cstr s.pageBuffer.bytes) [':'] with
  | none => simp [hcolon] at hline
  | some colon =>
    cases hend : strstr (cstr s.pageBuffer.bytes) crlf with
    | none => simp [hcolon, hend] at hline
    | some lineEnd =>
      simp only [hcolon, hend, Option.some.injEq] at hline
      unfold locationValue at hvalue
      split_ifs at hvalue with hloc
      exact ⟨colon, lineEnd, rfl, rfl, hloc.trans (hline ▸ List.take_prefix _ _)⟩

/-! ## The read -/

/-- A read leaves the buffers as they have to be, and asks for at least nothing. -/
theorem readStep_inside (hpage : nul ∈ s.pageBuffer.bytes) (hstatus : s.statusCode.Ends)
    (incoming : List Incoming) :
    ∃ phase s', s.readStep incoming = .ok (phase, s') ∧ s'.pageBuffer.Ends ∧
      s'.statusCode = s.statusCode ∧ s'.locationBuffer = s.locationBuffer := by
  have hholds := CBuffer.holds_of_mem hpage
  have hlt := hholds.length_lt
  obtain ⟨wiped, _, hclean, hstep⟩ := readStep_eq hholds incoming
  rw [hstep]
  cases hread : connRead (pageSize - 1 - (cstr s.pageBuffer.bytes).length) incoming with
  | mk result rest =>
    cases result with
    | want => exact ⟨_, _, rfl, hclean.ends, rfl, rfl⟩
    | error => exact ⟨_, _, rfl, hclean.ends, rfl, rfl⟩
    | bytes p =>
      by_cases hp : p = []
      · simp only [if_pos hp]
        exact ⟨_, _, rfl, hclean.ends, rfl, rfl⟩
      · have hlen := connRead_length hread
        obtain ⟨stored, hstored, hends⟩ := hclean.ends.store (p := p)
          (i := (cstr s.pageBuffer.bytes).length) (by omega)
        have hcode := (CBuffer.holds_of_mem hstatus.mem).strAt_zero
        simp only [if_neg hp, hstored, hcode, Runs.ok_bind]
        exact ⟨_, _, rfl, hends, rfl, rfl⟩

theorem follow_inside (hlocation : nul ∈ s.locationBuffer.bytes) :
    ∃ phase, s.follow = .ok phase ∧ (phase = .idle ∨ ∃ url, phase = .calling url []) := by
  unfold follow
  split_ifs
  · rw [(CBuffer.holds_of_mem hlocation).strAt_zero, Runs.ok_bind]
    split_ifs
    · exact ⟨_, rfl, Or.inr ⟨_, rfl⟩⟩
    · exact ⟨_, rfl, Or.inl rfl⟩
  · exact ⟨_, rfl, Or.inl rfl⟩

end ReadState

/-! ## Runs -/

namespace Sheet

/-- The program is inside its buffers: what it does next accesses none of them outside, the strings
in `statusCode` and `locationBuffer` end there, the next read asks for a number of bytes that is not
negative, and the next copy into `locationBuffer` writes at most 511 bytes. -/
structure InBounds (c : Sheet) : Prop where
  access : ∃ r, c.next = .ok r
  statusCode : nul ∈ c.state.statusCode.bytes
  locationBuffer : nul ∈ c.state.locationBuffer.bytes
  readLength : ∀ incoming, c.phase = .reading incoming →
    ∃ page, c.state.pageBuffer.Holds page ∧ 0 ≤ (pageSize : Int) - 1 - page.length
  copyLength : ∀ incoming, c.phase = .headers incoming → c.state.doneHeaders = false →
    ∀ page colon lineEnd, c.state.pageBuffer.Holds page → strstr page [':'] = some colon →
      strstr page crlf = some lineEnd → headerLocation <+: page →
      skipColon page colon lineEnd ≤ lineEnd ∧
        lineEnd - skipColon page colon lineEnd ≤ locationSize - 1

/-- The bytes on the page are such as the step ahead can deal with. -/
def Fits (c : Sheet) : Prop :=
  match c.phase with
  | .statusLine _ => c.state.StatusFits
  | .headers _ => c.state.LocationFits
  | _ => True

/-- What the steps keep. -/
structure Inv (c : Sheet) : Prop where
  statusCode : c.state.statusCode.Ends
  locationBuffer : nul ∈ c.state.locationBuffer.bytes
  pageBuffer : match c.phase with
    | .reading _ | .headers _ => nul ∈ c.state.pageBuffer.bytes
    | .statusLine _ => c.state.pageBuffer.Ends
    | _ => True

variable {c c' : Sheet}

/-- A page that ends in a terminator is as every phase needs it. -/
theorem Inv.of_ends (hstatus : c.state.statusCode.Ends)
    (hlocation : nul ∈ c.state.locationBuffer.bytes) (hpage : c.state.pageBuffer.Ends) : c.Inv := by
  refine ⟨hstatus, hlocation, ?_⟩
  obtain ⟨phase, s, parsed, earlier⟩ := c
  cases phase with
  | idle => trivial
  | calling url data => trivial
  | reading incoming => exact hpage.mem
  | statusLine incoming => exact hpage
  | headers incoming => exact hpage.mem
  | closed => trivial

theorem Inv.between {phase : Phase} (h : c.Inv)
    (hphase : phase = .idle ∨ ∃ url data, phase = .calling url data) :
    Inv { c with phase := phase } := by
  refine ⟨h.statusCode, h.locationBuffer, ?_⟩
  rcases hphase with rfl | ⟨url, data, rfl⟩
  · trivial
  · trivial

theorem Inv.boot : boot.Inv :=
  .of_ends (CBuffer.clean_zeros (by decide)).ends (CBuffer.clean_zeros (by decide)).ends.mem
    (CBuffer.clean_zeros (by decide)).ends

/-- **What the program does by itself, when it can deal with the bytes on the page.** -/
theorem Inv.next (h : c.Inv) (hfits : c.Fits) :
    ∃ r, c.next = .ok r ∧ ∀ c', r = some c' → c'.Inv := by
  obtain ⟨phase, s, parsed, earlier⟩ := c
  cases phase with
  | idle => exact ⟨none, rfl, by simp⟩
  | calling url data => exact ⟨none, rfl, by simp⟩
  | reading incoming =>
    obtain ⟨phase, s', hstep, hpage, hstatus, hlocation⟩ :=
      readStep_inside h.pageBuffer h.statusCode incoming
    refine ⟨_, next_reading hstep, ?_⟩
    rintro c' ⟨⟩
    exact .of_ends (hstatus ▸ h.statusCode) (hlocation ▸ h.locationBuffer) hpage
  | statusLine incoming =>
    obtain ⟨phase, s', hstep, hpage, hstatus, hlocation⟩ :=
      statusStep_inside h.pageBuffer h.statusCode hfits incoming
    refine ⟨_, next_statusLine hstep, ?_⟩
    rintro c' ⟨⟩
    exact .of_ends hstatus (hlocation ▸ h.locationBuffer) hpage
  | headers incoming =>
    obtain ⟨phase, s', hstep, hphase, hpage, hstatus, hlocation⟩ :=
      headerStep_inside h.pageBuffer h.locationBuffer hfits incoming
    refine ⟨_, next_headers hstep, ?_⟩
    rintro c' ⟨⟩
    refine ⟨hstatus ▸ h.statusCode, hlocation, ?_⟩
    rcases hphase with rfl | rfl
    · exact hpage
    · exact hpage
  | closed =>
    obtain ⟨phase, hfollow, hphase⟩ := follow_inside h.locationBuffer
    refine ⟨some ⟨phase, s, parsed, earlier⟩, ?_, ?_⟩
    · show (s.follow >>= _) = _
      rw [hfollow]
      rfl
    · rintro c' ⟨⟩
      exact h.between (hphase.imp id fun ⟨url, hurl⟩ => ⟨url, [], hurl⟩)

theorem Inv.step (h : c.Inv) (hfits : c.Fits) (hstep : Step c c') : c'.Inv := by
  cases hstep with
  | call url data _ => exact h.between (Or.inr ⟨url, data, rfl⟩)
  | refused _ => exact h.between (Or.inl rfl)
  | unsent _ _ => exact h.between (Or.inl rfl)
  | connected incoming _ _ =>
    exact .of_ends (CBuffer.clean_zeros (by decide)).ends h.locationBuffer
      (CBuffer.clean_zeros (by decide)).ends
  | next hnext =>
    obtain ⟨r, hr, hinv⟩ := h.next hfits
    rw [hnext, Except.ok.injEq] at hr
    exact hinv c' hr.symm

theorem Inv.inBounds_iff (h : c.Inv) : c.InBounds ↔ c.Fits := by
  constructor
  · intro hin
    obtain ⟨phase, s, parsed, earlier⟩ := c
    cases phase with
    | statusLine incoming =>
      obtain ⟨r, hnext⟩ := hin.access
      obtain ⟨r', hstep, _⟩ := Runs.bind_eq_ok.mp hnext
      exact statusFits_of_ok h.pageBuffer hstep
    | headers incoming =>
      intro v hv
      obtain ⟨hdone, colon, lineEnd, hcolon, hend, hloc⟩ := of_locationRead hv
      obtain ⟨v', hread, _, hlen⟩ := copied_eq hdone h.pageBuffer hcolon hend hloc
      rw [hv, Option.some.injEq] at hread
      have hcopy := hin.copyLength incoming rfl hdone _ colon lineEnd
        (CBuffer.holds_of_mem h.pageBuffer) hcolon hend hloc
      rw [hlen, ← hread] at hcopy
      exact Nat.lt_of_le_of_lt hcopy.2 (by decide)
    | _ => trivial
  · intro hfits
    obtain ⟨r, hr, _⟩ := h.next hfits
    refine ⟨⟨r, hr⟩, h.statusCode.mem, h.locationBuffer, ?_, ?_⟩
    · intro incoming hphase
      have hpage := h.pageBuffer
      rw [hphase] at hpage
      have hholds := CBuffer.holds_of_mem hpage
      have hlt := hholds.length_lt
      exact ⟨_, hholds, by omega⟩
    · intro incoming hphase hdone page colon lineEnd hholds hcolon hend hloc
      obtain rfl := hholds.cstr_bytes
      obtain ⟨v, hread, hskip, hlen⟩ := copied_eq hdone hholds.mem hcolon hend hloc
      rw [Fits, hphase] at hfits
      have hv : v.length < locationSize := hfits v hread
      exact ⟨hskip, by omega⟩

/-- **A response is read inside the buffers, if and only if** whenever the program looks for the
status code the bytes it has contain a blank or a line feed and do not have their first `'\r'` on the
1023rd place, and no `Location` value that it reads is longer than 511 characters. -/
theorem buffers_in_bounds_iff {l : List Sheet} (h : Trace Step boot l c) :
    (∀ x ∈ l ++ [c], x.InBounds) ↔ ∀ x ∈ l ++ [c], x.Fits :=
  Trace.forall_iff Inv.boot (fun _ _ hI hfits hstep => hI.step hfits hstep)
    (fun _ hI => hI.inBounds_iff) h

/-- A whole status line, read at once. -/
theorem buffers_in_bounds_line :
    ∃ l c, Trace Step boot l c ∧ c.phase = .statusLine [] ∧ ∀ x ∈ l ++ [c], x.InBounds := by
  have hread : ∃ c ∈ (boot.connected [.data "HTTP/1.0 200 OK\r\n".toList (by decide)]).next
      |>.toOption.join, c.phase = .statusLine [] ∧ ' ' ∈ c.state.pageBuffer.bytes ∧
      strstr (cstr c.state.pageBuffer.bytes) ['\r'] ≠ some (pageSize - 2) := by
    decide +kernel
  obtain ⟨c, hnext, hphase, hblank, hreturn⟩ := hread
  have hrun := (boot_connected "u".toList [] _).tail (step_of_mem hnext)
  refine ⟨_, c, hrun, hphase, ?_⟩
  rw [buffers_in_bounds_iff hrun]
  have hfits : c.Fits := by
    rw [Fits, hphase]
    exact ⟨Or.inl hblank, hreturn⟩
  intro x hx
  simp only [List.cons_append, List.nil_append, List.mem_cons, List.not_mem_nil, or_false] at hx
  rcases hx with rfl | rfl | rfl | rfl
  · trivial
  · trivial
  · trivial
  · exact hfits

/-- The server's first bytes are `HTTP`: the scan for the status code runs off the page. -/
theorem buffers_not_in_bounds : ∃ l c, Trace Step boot l c ∧ ¬ c.InBounds := by
  have hread : ∃ c ∈ (boot.connected [.data "HTTP".toList (by decide)]).next |>.toOption.join,
      c.next = .error .outOfBounds := by
    decide +kernel
  obtain ⟨c, hnext, hfault⟩ := hread
  refine ⟨_, c, (boot_connected "u".toList [] _).tail (step_of_mem hnext), ?_⟩
  intro h
  obtain ⟨r, hr⟩ := h.access
  rw [hfault] at hr
  cases hr

end Sheet

end HomeAutomation
