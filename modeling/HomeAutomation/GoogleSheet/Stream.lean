import HomeAutomation.GoogleSheet.Basic

/-!
# The answer as one text

`scan` reads the headers off a text that is all there, one line at a time, looking no farther ahead
than the page reaches. The read loop, which gets the text in pieces, ends with the Location that
`scan` finds in their concatenation (`readLoop_scan`).
-/

namespace HomeAutomation

/-- What the page has room for, without a terminator. -/
def window (text : CString) : CString := text.take (pageSize - 1)

/-- `locationBuffer` after a value has been copied into it. -/
def setLocation (value : CString) : Except Fault (CBuffer locationSize) :=
  if h : value.length ≤ locationSize then
    .ok ⟨value ++ List.replicate (locationSize - value.length) nul, by
      rw [List.length_append, List.length_replicate]
      omega⟩
  else .error .outOfBounds

/-- What a value loses at its front. -/
def isLead (c : Char) : Bool := c == ' ' || c == ':'

/-- `locationBuffer` after a header line. -/
def lineLocation (line : CString) (location : CBuffer locationSize) :
    Except Fault (CBuffer locationSize) :=
  if headerLocation <+: line then setLocation ((line.drop headerLocation.length).dropWhile isLead)
  else .ok location

theorem lineLocation_nil (location : CBuffer locationSize) :
    lineLocation [] location = .ok location := by
  have hnot : ¬ headerLocation <+: [] := by decide
  rw [lineLocation, if_neg hnot]

/-- `locationBuffer` after the headers of a text. A line is read when the page that starts with it
can hold a colon and the line's end; the empty line is the last. -/
def scan (text : CString) (location : CBuffer locationSize) :
    Except Fault (CBuffer locationSize) :=
  match _h : strstr (window text) crlf with
  | some lineEnd =>
    if ':' ∉ window text ∨ lineEnd = 0 then .ok location
    else do
      let location ← lineLocation (text.take lineEnd) location
      scan (text.drop (lineEnd + 2)) location
  | none => .ok location
termination_by text.length
decreasing_by
  have hfit := Delimited.find_length (by decide) _h
  have htext : (window text).length ≤ text.length := List.length_take_le' _ _
  simp only [crlf, List.length_cons, List.length_nil] at hfit
  rw [List.length_drop]
  omega

variable {text page : CString} {location : CBuffer locationSize} {lineEnd : Nat}

/-- A text is left alone whose first page lacks a colon or a line end. -/
theorem scan_stuck (h : ':' ∉ window text ∨ strstr (window text) crlf = none) :
    scan text location = .ok location := by
  rw [scan]
  split
  · next lineEnd hend =>
    rw [if_pos]
    left
    exact h.resolve_right (by rw [hend]; simp)
  · rfl

theorem scan_blank (hend : strstr (window text) crlf = some 0) :
    scan text location = .ok location := by
  rw [scan]
  split
  · next lineEnd h =>
    rw [hend, Option.some.injEq] at h
    rw [if_pos (Or.inr h.symm)]
  · rfl

theorem scan_line (hcolon : ':' ∈ window text) (hend : strstr (window text) crlf = some lineEnd)
    (hpos : lineEnd ≠ 0) :
    scan text location = (do
      let location ← lineLocation (text.take lineEnd) location
      scan (text.drop (lineEnd + 2)) location) := by
  rw [scan]
  split
  · next e h =>
    rw [hend, Option.some.injEq] at h
    subst h
    rw [if_neg (by simp [hcolon, hpos])]
  · next h => rw [hend] at h; simp at h

/-! ## The page is the front of the text -/

theorem window_append (hpage : page.length < pageSize) (rest : CString) :
    ∃ more, window (page ++ rest) = page ++ more := by
  refine ⟨rest.take (pageSize - 1 - page.length), ?_⟩
  rw [window, List.take_append, List.take_of_length_le (by omega)]

/-- A colon on the page, and a line end at its place, are there in the window of the text. -/
theorem window_of_page (hpage : page.length < pageSize) (rest : CString) (hcolon : ':' ∈ page)
    (hend : strstr page crlf = some lineEnd) :
    ':' ∈ window (page ++ rest) ∧ strstr (window (page ++ rest)) crlf = some lineEnd := by
  obtain ⟨more, hmore⟩ := window_append hpage rest
  rw [hmore]
  exact ⟨List.mem_append_left _ hcolon, Delimited.find_append (by decide) hend more⟩

theorem strstr_colon : strstr page [':'] = none ↔ ':' ∉ page := by
  constructor
  · intro h hmem
    obtain ⟨a, b, rfl, ha⟩ := List.eq_append_cons_of_mem hmem
    have hfind := Delimited.find_piece (p := []) ha b
    simp only [List.cons_append, List.nil_append] at hfind
    rw [strstr, hfind] at h
    simp at h
  · exact Delimited.find_of_notMem

/-- The first line of a page is the first line of every text that starts with the page. -/
theorem scan_page (location : CBuffer locationSize) (hpage : page.length < pageSize)
    (hcolon : ':' ∈ page) (hend : strstr page crlf = some lineEnd) (rest : CString) :
    scan (page ++ rest) location =
      if lineEnd = 0 then .ok location
      else (do
        let location ← lineLocation (page.take lineEnd) location
        scan (page.drop (lineEnd + 2) ++ rest) location) := by
  have hfit := ReadState.crlf_fits hend
  obtain ⟨hcolon', hend'⟩ := window_of_page hpage rest hcolon hend
  split_ifs with hzero
  · rw [hzero] at hend'
    exact scan_blank hend'
  · rw [scan_line hcolon' hend' hzero, List.take_append_of_le_length (by omega),
      List.drop_append_of_le_length hfit]

/-! ## One header -/

namespace ReadState
variable {s : ReadState} {colon : Nat}

theorem copyLocation_eq (hpage : s.pageBuffer.Holds page) {lineColon : Nat}
    (hcolon : lineColon ≤ lineEnd) (hend : lineEnd ≤ page.length) :
    s.copyLocation lineColon lineEnd = setLocation ((page.take lineEnd).drop lineColon) := by
  have hvalue : (page.take lineEnd).drop lineColon =
      (page.drop lineColon).take (lineEnd - lineColon) := List.drop_take
  have hlen : ((page.take lineEnd).drop lineColon).length = lineEnd - lineColon := by
    rw [List.length_drop, List.length_take]
    omega
  rw [copyLocation, CBuffer.bzero_all, Runs.ok_bind, if_neg (by omega)]
  unfold setLocation
  split_ifs with hfit
  · obtain ⟨b, hb, hbytes⟩ := CBuffer.strncpy_ok hpage (i := lineColon) (by omega) (hlen ▸ hfit)
    rw [hb, Except.ok.injEq, CBuffer.mk.injEq, hbytes, hvalue]
  · exact CBuffer.strncpy_error hpage (by omega) (by omega)

/-- In a `Location` line the colon skipped is that of the name; what is copied is the value. -/
theorem skipColon_location (hloc : headerLocation <+: page) (hcolon : strstr page [':'] = some colon)
    (hend : strstr page crlf = some lineEnd) :
    headerLocation <+: page.take lineEnd ∧ skipColon page colon lineEnd ≤ lineEnd ∧
      (page.take lineEnd).drop (skipColon page colon lineEnd) =
        ((page.take lineEnd).drop headerLocation.length).dropWhile isLead := by
  obtain ⟨v, rfl⟩ := hloc
  -- the first colon is that of the name, and the line ends behind the name
  have hat : colon = 8 := by
    have hfree : ':' ∉ "Location".toList := by decide
    have hfind := Delimited.find_piece (p := []) hfree (' ' :: v)
    have heq : headerLocation ++ v = "Location".toList ++ ([':'] ++ ' ' :: v) := rfl
    rw [heq, strstr, hfind, Option.some.injEq] at hcolon
    exact hcolon.symm
  obtain ⟨k, hk, rfl⟩ : ∃ k, strstr v crlf = some k ∧ k + 10 = lineEnd := by
    have hfind := Delimited.find_append_of_notMem (c := '\r') (p := ['\n']) (a := headerLocation)
      (by decide) v
    rw [strstr, crlf, hfind, Option.map_eq_some_iff] at hend
    exact hend
  have hline : (headerLocation ++ v).take (k + 10) = headerLocation ++ v.take k := by
    rw [Nat.add_comm]
    show (headerLocation ++ v).take (headerLocation.length + k) = _
    rw [List.take_length_add_append]
  have hskip : skipColon (headerLocation ++ v) colon (k + 10) =
      10 + ((v.take k).takeWhile isLead).length := by
    rw [skipColon, hline, hat]
    show 8 + ((':' :: ' ' :: v.take k).takeWhile isLead).length = _
    simp [isLead]
    omega
  have hshort : ((v.take k).takeWhile isLead).length ≤ k :=
    (List.takeWhile_prefix _).length_le.trans (List.length_take_le _ _)
  have hdrop : ((v.take k).takeWhile isLead ++ (v.take k).dropWhile isLead).drop
      ((v.take k).takeWhile isLead).length = (v.take k).dropWhile isLead := List.drop_left
  rw [List.takeWhile_append_dropWhile] at hdrop
  refine ⟨by rw [hline]; exact List.prefix_append _ _, by omega, ?_⟩
  rw [hskip, hline, List.drop_left]
  show (headerLocation ++ v.take k).drop (headerLocation.length + _) = _
  rw [List.drop_length_add_append, hdrop]

theorem readLocation_eq (hpage : s.pageBuffer.Holds page) (hcolon : strstr page [':'] = some colon)
    (hend : strstr page crlf = some lineEnd) :
    s.readLocation page colon lineEnd = lineLocation (page.take lineEnd) s.locationBuffer := by
  unfold readLocation lineLocation
  by_cases hloc : headerLocation <+: page
  · obtain ⟨hline, hskip, hvalue⟩ := skipColon_location hloc hcolon hend
    have hfit := crlf_fits hend
    rw [if_pos hloc, if_pos hline, copyLocation_eq hpage hskip (by omega), hvalue]
  · have hline : ¬ headerLocation <+: page.take lineEnd :=
      fun h => hloc (h.trans (List.take_prefix _ _))
    rw [if_neg hloc, if_neg hline]

/-! ## The header loop -/

/-- The Location that a reader in this state ends with, on the text it has not used up. -/
def locationOn (s : ReadState) (text : CString) : Except Fault (CBuffer locationSize) :=
  if s.doneHeaders then .ok s.locationBuffer else scan text s.locationBuffer

theorem locationOn_done (h : s.doneHeaders = true) (text : CString) :
    s.locationOn text = .ok s.locationBuffer := by
  rw [locationOn, if_pos h]

theorem locationOn_scan (h : s.doneHeaders = false) (text : CString) :
    s.locationOn text = scan text s.locationBuffer := by
  rw [locationOn, if_neg (by simp [h])]

/-- A state in which the header loop has nothing to do. -/
structure Waiting (s : ReadState) (page : CString) : Prop where
  holds : s.pageBuffer.Holds page
  stuck : s.doneHeaders = true ∨ ':' ∉ page ∨ strstr page crlf = none

/-- A reader that waits with a full page, or for a text that has ended, has its Location. -/
theorem Waiting.locationOn (h : s.Waiting page) (rest : CString)
    (hrest : rest = [] ∨ pageSize - 1 ≤ page.length) :
    s.locationOn (page ++ rest) = .ok s.locationBuffer := by
  have hlt := h.holds.length_lt
  have hwindow : window (page ++ rest) = page := by
    rcases hrest with rfl | hfull
    · rw [List.append_nil, window, List.take_of_length_le (by omega)]
    · rw [window, List.take_append_of_le_length hfull, List.take_of_length_le (by omega)]
  cases hdone : s.doneHeaders with
  | true => exact locationOn_done hdone _
  | false =>
    rw [locationOn_scan hdone]
    apply scan_stuck
    rw [hwindow]
    exact h.stuck.resolve_left (by simp [hdone])

theorem locationOn_next {t : ReadState} (hpage : page.length < pageSize)
    (hdone : s.doneHeaders = false) (hcolon : ':' ∈ page)
    (hend : strstr page crlf = some lineEnd)
    (hline : lineLocation (page.take lineEnd) s.locationBuffer = .ok t.locationBuffer)
    (hnext : t.doneHeaders = decide (crlf <+: page)) (rest : CString) :
    s.locationOn (page ++ rest) = t.locationOn (page.drop (lineEnd + 2) ++ rest) := by
  rw [locationOn_scan hdone, scan_page _ hpage hcolon hend rest]
  split_ifs with hzero
  · have hfront : crlf <+: page := by
      have hat := Delimited.prefix_of_find hend
      rwa [hzero, List.drop_zero] at hat
    rw [locationOn_done (by rw [hnext]; simpa using hfront)]
    rw [hzero, List.take_zero, lineLocation_nil] at hline
    exact hline
  · have hfront : ¬ crlf <+: page := by
      intro hfront
      rw [strstr, Delimited.find_front hfront, Option.some.injEq] at hend
      exact hzero hend.symm
    rw [hline, Runs.ok_bind, locationOn_scan (by rw [hnext]; simpa using hfront)]

theorem headerLoop_stuck (hpage : s.pageBuffer.Holds page)
    (hstuck : ':' ∉ page ∨ strstr page crlf = none) : s.headerLoop = .ok s := by
  cases hdone : s.doneHeaders with
  | true => exact headerLoop_done hdone
  | false =>
    have hround := headerRound_none hpage (hstuck.imp strstr_colon.2 id)
    rw [headerLoop_eq hdone, hround, Runs.ok_bind]

theorem headerLoop_line (hpage : s.pageBuffer.Holds page) (hdone : s.doneHeaders = false)
    (hcolon : ':' ∈ page) (hend : strstr page crlf = some lineEnd) :
    ∃ moved : CBuffer pageSize, moved.Holds (page.drop (lineEnd + 2)) ∧
      s.headerLoop = (do
        let location ← lineLocation (page.take lineEnd) s.locationBuffer
        (ReadState.mk moved location s.statusCode (decide (crlf <+: page))).headerLoop) := by
  obtain ⟨colon, hfind⟩ := Option.ne_none_iff_exists'.1 (fun h => strstr_colon.1 h hcolon)
  obtain ⟨moved, hmoved, hround⟩ := headerRound_some hpage hfind hend
  refine ⟨moved, hmoved, ?_⟩
  rw [headerLoop_eq hdone, hround, readLocation_eq hpage hfind hend, hdone]
  cases lineLocation (page.take lineEnd) s.locationBuffer with
  | error e => rfl
  | ok location => rw [Runs.ok_bind, Runs.ok_bind, Runs.ok_bind, Bool.false_or]

/-- **The header loop does not change the Location to come, whatever text follows the page.** -/
theorem headerLoop_spec (hpage : s.pageBuffer.Holds page) :
    (∃ e, s.headerLoop = .error e ∧ ∀ rest, s.locationOn (page ++ rest) = .error e) ∨
      ∃ s' page', s.headerLoop = .ok s' ∧ s'.Waiting page' ∧ s'.statusCode = s.statusCode ∧
        ∀ rest, s.locationOn (page ++ rest) = s'.locationOn (page' ++ rest) := by
  induction hn : page.length using Nat.strong_induction_on generalizing s page with
  | _ n ih =>
    cases hdone : s.doneHeaders with
    | true =>
      exact Or.inr ⟨s, page, headerLoop_done hdone, ⟨hpage, Or.inl hdone⟩, rfl, fun _ => rfl⟩
    | false =>
      by_cases hstuck : ':' ∉ page ∨ strstr page crlf = none
      · exact Or.inr ⟨s, page, headerLoop_stuck hpage hstuck, ⟨hpage, Or.inr hstuck⟩, rfl,
          fun _ => rfl⟩
      rw [not_or, not_not] at hstuck
      obtain ⟨hcolon, hsome⟩ := hstuck
      obtain ⟨lineEnd, hend⟩ := Option.ne_none_iff_exists'.1 hsome
      have hfit := crlf_fits hend
      have hlt := hpage.length_lt
      obtain ⟨moved, hmoved, hloop⟩ := headerLoop_line hpage hdone hcolon hend
      rw [hloop]
      cases hline : lineLocation (page.take lineEnd) s.locationBuffer with
      | error e =>
        left
        refine ⟨e, rfl, fun rest => ?_⟩
        have hpos : lineEnd ≠ 0 := by
          rintro rfl
          rw [List.take_zero, lineLocation_nil] at hline
          exact absurd hline (by simp)
        rw [locationOn_scan hdone, scan_page _ hlt hcolon hend rest, if_neg hpos, hline,
          Runs.error_bind]
      | ok location =>
        rw [Runs.ok_bind]
        have hshort : (page.drop (lineEnd + 2)).length < n := by
          rw [← hn, List.length_drop]
          omega
        have hstep := locationOn_next (t := ⟨moved, location, s.statusCode, decide (crlf <+: page)⟩)
          hlt hdone hcolon hend hline rfl
        rcases ih _ hshort (s := ⟨moved, location, s.statusCode, decide (crlf <+: page)⟩) hmoved rfl
          with ⟨e, hloop', hloc⟩ | ⟨s', page', hloop', hwait, hcode, hloc⟩
        · exact Or.inl ⟨e, hloop', fun rest => (hstep rest).trans (hloc rest)⟩
        · exact Or.inr ⟨s', page', hloop', hwait, hcode, fun rest => (hstep rest).trans (hloc rest)⟩

theorem headers_spec (hpage : s.pageBuffer.Holds page) :
    (∃ e, s.headers = .error e ∧ ∀ rest, s.locationOn (page ++ rest) = .error e) ∨
      ∃ s' page', s.headers = .ok (.next s') ∧ s'.Waiting page' ∧ s'.statusCode = s.statusCode ∧
        ∀ rest, s.locationOn (page ++ rest) = s'.locationOn (page' ++ rest) := by
  unfold headers
  rcases headerLoop_spec hpage with ⟨e, hloop, hloc⟩ | ⟨s', page', hloop, hwait, hcode, hloc⟩
  · left
    exact ⟨e, by rw [hloop, Runs.error_bind], hloc⟩
  · right
    rw [hloop, Runs.ok_bind]
    by_cases hdone : s'.doneHeaders = true
    · rw [if_pos hdone, CBuffer.bzero_all, Runs.ok_bind]
      refine ⟨_, [], rfl, ⟨(CBuffer.clean_zeros (by decide)).holds, Or.inl hdone⟩, hcode, ?_⟩
      intro rest
      rw [hloc rest, locationOn_done hdone]
      exact (locationOn_done (s := { s' with pageBuffer := .zeros pageSize }) hdone _).symm
    · rw [if_neg hdone]
      exact ⟨s', page', rfl, hwait, hcode, hloc⟩

/-! ## The read loop -/

/-- How the loop goes on after a round. -/
def goOn (rest : List Incoming) : Round → Except Fault ReadState
  | .exit s => .ok s
  | .next s => s.readLoop rest

theorem readLoop_eq (hpage : s.pageBuffer.Holds page) (incoming : List Incoming) :
    ∃ wiped : CBuffer pageSize, wiped.Clean page ∧ s.readLoop incoming =
      match connRead (pageSize - 1 - page.length) incoming with
      | (.want, rest) => readLoop rest { s with pageBuffer := wiped }
      | (.error, _) => .ok { s with pageBuffer := wiped }
      | (.bytes p, rest) =>
        if p = [] then .ok { s with pageBuffer := wiped }
        else (do
          let pageBuffer ← wiped.store page.length p
          let round ← received { s with pageBuffer := pageBuffer }
          goOn rest round) := by
  have hlt := hpage.length_lt
  obtain ⟨wiped, hwiped, hclean⟩ := hpage.bzero
  refine ⟨wiped, hclean, ?_⟩
  have hlen : pageSize - 1 - page.length + 1 = pageSize - page.length := by omega
  rw [readLoop, hpage.strAt_zero, Runs.ok_bind]
  simp only [hlen, hwiped, Runs.ok_bind]
  split
  · next rest hread => rw [hread]
  · next rest hread => rw [hread]
  · next p rest hread => rw [hread]; rfl

/-- What the rest of `googleSheet_connect` uses of the loop's last state. -/
def result (s : ReadState) : CBuffer 4 × CBuffer locationSize := (s.statusCode, s.locationBuffer)

/-- What the loop comes to when it does not change the status code any more, and `text` is left. -/
def resultOn (s : ReadState) (text : CString) : Except Fault (CBuffer 4 × CBuffer locationSize) :=
  (s.locationOn text).map (fun location => (s.statusCode, location))

theorem received_headers {code : CString} (hcode : s.statusCode.strAt 0 = .ok code)
    (hne : code ≠ []) : s.received = s.headers := by
  have hlen : ¬ code.length = 0 := by simpa using hne
  rw [received, hcode, Runs.ok_bind, if_neg hlen]

/-- A round that reads headers, followed by a loop that comes to its result, comes to its own. -/
theorem headers_goOn {rest : List Incoming} (hpage : s.pageBuffer.Holds page)
    (hrest : ∀ (s' : ReadState) (page' : CString), s'.Waiting page' → s'.statusCode = s.statusCode →
      (s'.readLoop rest).map result = s'.resultOn (page' ++ delivered rest)) :
    (s.headers >>= goOn rest).map result = s.resultOn (page ++ delivered rest) := by
  unfold resultOn
  rcases headers_spec hpage with ⟨e, hheaders, hloc⟩ | ⟨s', page', hheaders, hwait, hcode, hloc⟩
  · rw [hheaders, hloc]
    rfl
  · have hgo := hrest s' page' hwait hcode
    rw [resultOn, hcode] at hgo
    rw [hheaders, hloc, Runs.ok_bind]
    exact hgo

/-- **Once the status line has been read, the loop ends with the Location of the text that is left,
in whatever pieces it comes.** -/
theorem readLoop_scan {incoming : List Incoming} {code : CString} (hwait : s.Waiting page)
    (hcode : s.statusCode.strAt 0 = .ok code) (hne : code ≠ []) (herr : Incoming.error ∉ incoming)
    (hnul : nul ∉ delivered incoming) :
    (s.readLoop incoming).map result = s.resultOn (page ++ delivered incoming) := by
  induction hn : readsLeft incoming using Nat.strong_induction_on generalizing s page incoming with
  | _ n ih =>
    obtain ⟨wiped, hclean, hloop⟩ := readLoop_eq hwait.holds incoming
    have hless := readsLeft_connRead (pageSize - 1 - page.length) incoming
    have hwait' : Waiting { s with pageBuffer := wiped } page := ⟨hclean.holds, hwait.stuck⟩
    rw [hloop]
    rcases connRead_cases (pageSize - 1 - page.length) herr with
      ⟨rest, hconn, hrest, herr'⟩ | ⟨rest, hconn, hend⟩ | ⟨p, rest, hp, hconn, hlen, hrest, herr'⟩
    -- nothing to read yet: the same state, and less to come
    · rw [hconn] at hless ⊢
      rw [hrest] at hnul ⊢
      exact ih _ (hn ▸ hless (by simp)) hwait' hcode herr' hnul rfl
    -- the end: the text is used up, or the page is full and no line on it can be read
    · have hloc := hwait.locationOn (delivered incoming)
        (hend.imp id (fun h => Nat.sub_eq_zero_iff_le.1 h))
      rw [hconn, resultOn, hloc]
      rfl
    -- a piece, which goes from the text to come to the page
    · rw [hconn] at hless ⊢
      rw [hrest] at hnul ⊢
      have hfree : nul ∉ p := fun h => hnul (List.mem_append_left _ h)
      have hlt := hwait.holds.length_lt
      have hpos := List.length_pos_iff.2 hp
      obtain ⟨stored, hstored, hstored'⟩ := hclean.store hfree (by omega)
      have hround : ({ s with pageBuffer := stored } : ReadState).received = headers _ :=
        received_headers hcode hne
      simp only [if_neg hp, hstored, Runs.ok_bind, hround]
      rw [← List.append_assoc]
      refine headers_goOn (s := { s with pageBuffer := stored }) hstored'.holds ?_
      intro s' page' hwait'' hcode'
      exact ih _ (hn ▸ hless (by simpa using hp)) hwait'' (hcode'.symm ▸ hcode) herr'
        (fun h => hnul (List.mem_append_right _ h)) rfl

/-- **The headers that follow the status line are read off the text that is left.** -/
theorem headers_scan {rest : List Incoming} {code : CString} (hpage : s.pageBuffer.Holds page)
    (hcode : s.statusCode.Holds code) (hne : code ≠ []) (herr : Incoming.error ∉ rest)
    (hnul : nul ∉ delivered rest) :
    (s.headers >>= goOn rest).map result = s.resultOn (page ++ delivered rest) := by
  apply headers_goOn hpage
  intro s' page' hwait hsame
  exact readLoop_scan hwait (hsame.symm ▸ hcode.strAt_zero) hne herr hnul

end ReadState

end HomeAutomation
