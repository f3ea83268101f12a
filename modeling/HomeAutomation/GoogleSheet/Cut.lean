import HomeAutomation.GoogleSheet.FirstPiece

/-!
# Where a response is cut

The status line is read from the first piece alone, so that where this piece is cut decides what the
loop makes of a response (`readResponse_as_written_iff`). With the whole status line in the first
piece the rest may come in any pieces. A first piece that ends before the `'\r'` of the status line
is also the last; one that ends with it takes the first header with it.
-/

namespace HomeAutomation

open ReadState

/-! ## Four places to cut -/

theorem append_past {a b p t : CString} (h : a ++ b = p ++ t) (hlen : a.length < p.length) :
    ∃ c q, p = a ++ c :: q ∧ b = c :: (q ++ t) := by
  rcases List.append_eq_append_iff.1 h with ⟨as, hp, hb⟩ | ⟨bs, ha, ht⟩
  · cases as with
    | nil => simp [hp] at hlen
    | cons c q => exact ⟨c, q, hp, hb⟩
  · rw [ha, List.length_append] at hlen
    omega

theorem append_within {a b p t : CString} (h : a ++ b = p ++ t) (hlen : p.length ≤ a.length) :
    p <+: a :=
  List.prefix_of_prefix_length_le ⟨t, h.symm⟩ (List.prefix_append a b) hlen

section
variable {r : Response} {incoming : List Incoming} (location : CBuffer locationSize)
  (herr : Incoming.error ∉ incoming) (htext : delivered incoming = r.text)
include herr htext

theorem readResponse_text : ∃ rest stored, stored.Clean (firstPiece incoming) ∧
    r.text = firstPiece incoming ++ delivered rest ∧ Incoming.error ∉ rest ∧
    readResponse incoming location =
      (ReadState.mk stored location (.zeros 4) false).received >>= goOn rest := by
  have hne : delivered incoming ≠ [] := by
    rw [htext, Response.text, Response.statusLine]
    simp
  have hfree : nul ∉ delivered incoming := htext ▸ r.text_free
  rw [← htext]
  exact readResponse_first location herr hfree hne

/-- Before the blank: no status code, and no end of the scan for one. -/
theorem readResponse_beforeBlank (hlen : (firstPiece incoming).length ≤ r.protocol.length) :
    readResponse incoming location = .error .outOfBounds := by
  obtain ⟨rest, stored, hclean, hsplit, -, hread⟩ := readResponse_text location herr htext
  rw [r.text_eq] at hsplit
  have hfront : firstPiece incoming <+: r.protocol := append_within hsplit hlen
  obtain ⟨⟨-, hlf, -⟩, hblank⟩ := r.protocol_text
  rw [hread, received_noBlank hclean (fun h => hblank (hfront.subset h))
    (fun h => hlf (hfront.subset h))]
  rfl

/-- In the status line, behind its first blank: as much of the code as is there, and no header. -/
theorem readResponse_inStatusLine (hblank : r.protocol.length < (firstPiece incoming).length)
    (hlen : (firstPiece incoming).length ≤ r.statusLine.length) :
    ∃ s, readResponse incoming location = .ok s ∧ s.locationBuffer = location ∧
      s.statusCode.Holds (r.code.take ((firstPiece incoming).length - r.protocol.length - 1)) := by
  obtain ⟨rest, stored, hclean, hsplit, -, hread⟩ := readResponse_text location herr htext
  have hline : '\r' ∉ firstPiece incoming := by
    have hfront : firstPiece incoming <+: r.statusLine := append_within hsplit hlen
    exact fun h => r.statusLine_text.1 (hfront.subset h)
  rw [r.text_eq] at hsplit
  obtain ⟨c, q, hp, hc⟩ := append_past hsplit hblank
  rw [List.cons.injEq] at hc
  obtain ⟨rfl, hq⟩ := hc
  have hcode : q.take 3 = r.code.take q.length := by
    have hlength := r.code_digits.1
    calc q.take 3 = ((q ++ delivered rest).take q.length).take 3 := by rw [List.take_left]
      _ = ((q ++ delivered rest).take 3).take q.length := by
        rw [List.take_take, List.take_take, min_comm]
      _ = r.code.take q.length := by rw [← hq, ← hlength, List.take_left]
  obtain ⟨⟨-, hlf, -⟩, hfree⟩ := r.protocol_text
  rw [hp] at hclean hline ⊢
  obtain ⟨status, hstatus, hround⟩ := received_blank location hclean hfree hlf
  have hnone : strstr (r.protocol ++ ' ' :: q) ['\r'] = none := Delimited.find_of_notMem hline
  rw [hnone] at hround
  refine ⟨⟨stored, location, status, false⟩, by rw [hread, hround]; rfl, rfl, ?_⟩
  rw [List.length_append, Nat.add_sub_cancel_left, List.length_cons, Nat.add_sub_cancel, ← hcode]
  exact hstatus

/-- Behind the status line's text: the status code, and a line to drop. -/
theorem readResponse_statusLine (hlen : r.statusLine.length < (firstPiece incoming).length) :
    ∃ rest stored status q, stored.Clean (firstPiece incoming) ∧
      firstPiece incoming = r.statusLine ++ '\r' :: q ∧ '\n' :: r.rest = q ++ delivered rest ∧
      Incoming.error ∉ rest ∧ status.Holds r.code ∧ readResponse incoming location =
        (ReadState.mk stored location status false).dropLine r.statusLine.length >>= headers >>=
          goOn rest := by
  obtain ⟨rest, stored, hclean, hsplit, herr', hread⟩ :=
    readResponse_text location herr htext
  obtain ⟨c, q, hp, hc⟩ := append_past hsplit hlen
  rw [crlf, List.cons_append, List.cons.injEq] at hc
  obtain ⟨rfl, hq⟩ := hc
  have hreturn : strstr (firstPiece incoming) ['\r'] = some r.statusLine.length := by
    rw [hp]
    exact Delimited.find_piece r.statusLine_text.1 q
  have hblank : firstPiece incoming =
      r.protocol ++ ' ' :: (r.code ++ ' ' :: r.reason ++ '\r' :: q) := by
    rw [hp, Response.statusLine, List.append_assoc, List.cons_append]
  have hcode : (r.code ++ ' ' :: r.reason ++ '\r' :: q).take 3 = r.code := by
    rw [List.append_assoc, ← r.code_digits.1, List.take_left]
  obtain ⟨⟨-, hlf, -⟩, hfree⟩ := r.protocol_text
  obtain ⟨status, hstatus, hround⟩ :=
    received_blank location (hblank ▸ hclean) hfree hlf
  rw [← hblank, hreturn] at hround
  rw [hcode] at hstatus
  exact ⟨rest, stored, status, q, hclean, hp, hq, herr', hstatus, by rw [hread, hround]⟩

/-- With the whole status line in the first piece, the loop reads the headers as written. -/
theorem readResponse_pastLineFeed
    (hlen : (r.statusLine ++ crlf).length ≤ (firstPiece incoming).length) :
    ∃ status : CBuffer 4, status.Holds r.code ∧ (readResponse incoming location).map result =
      (scan r.rest location).map (fun after => (status, after)) := by
  have hfit : r.statusLine.length + 2 ≤ (firstPiece incoming).length := by
    rwa [List.length_append] at hlen
  obtain ⟨rest, stored, status, q, hclean, hp, hq, herr', hstatus, hread⟩ :=
    readResponse_statusLine location herr htext (by omega)
  refine ⟨status, hstatus, ?_⟩
  cases q with
  | nil =>
    rw [hp] at hfit
    simp at hfit
  | cons c q =>
    rw [List.cons_append, List.cons.injEq] at hq
    have hdrop : (firstPiece incoming).drop (r.statusLine.length + 2) = q := by
      rw [hp, List.drop_length_add_append]
      rfl
    obtain ⟨moved, hmoved, hholds⟩ := hclean.holds.memmove hfit
    rw [hdrop] at hholds
    have hdropLine := dropLine_ok (s := ⟨stored, location, status, false⟩) hclean.holds hfit hmoved
    rw [hread, hdropLine, Runs.ok_bind, headers_scan hholds hstatus r.code_ne_nil herr'
      (fun h => r.rest_free (hq.2 ▸ List.mem_append_right _ h)), ← hq.2]
    rfl

/-- Cut between the two characters at its end, the status line takes the first header with it. -/
theorem readResponse_atReturn (hlen : (firstPiece incoming).length = r.statusLine.length + 1)
    (hfit : r.statusLine.length + 2 < pageSize) :
    ∃ status : CBuffer 4, status.Holds r.code ∧ (readResponse incoming location).map result =
      (scan ('\n' :: r.rest) location).map (fun after => (status, after)) := by
  obtain ⟨rest, stored, status, q, hclean, hp, hq, herr', hstatus, hread⟩ :=
    readResponse_statusLine location herr htext (by omega)
  refine ⟨status, hstatus, ?_⟩
  have hnil : q = [] := by
    rw [hp, List.length_append, List.length_cons] at hlen
    exact List.length_eq_zero_iff.1 (by omega)
  rw [hnil, List.nil_append] at hq
  -- `lineEnd + 2` is one place behind the terminator, in what `bzero` has wiped
  have hpast : r.statusLine.length + 2 = (firstPiece incoming).length + 1 := by omega
  obtain ⟨moved, hmoved, hholds⟩ := hclean.memmove_past (by omega)
  have hdropLine : (ReadState.mk stored location status false).dropLine r.statusLine.length =
      .ok ⟨moved, location, status, false⟩ := by
    rw [dropLine, hpast, hclean.strAt_past (by omega), Runs.ok_bind]
    show (stored.memmove _ 1 >>= _) = _
    rw [hmoved]
    rfl
  have hfree : nul ∉ '\n' :: r.rest := by
    rw [List.mem_cons, not_or]
    exact ⟨by decide, r.rest_free⟩
  rw [hread, hdropLine, Runs.ok_bind,
    headers_scan hholds hstatus r.code_ne_nil herr' (hq ▸ hfree), hq]
  rfl

/-- At the end of the page there is nothing behind the terminator. -/
theorem readResponse_atEnd (hlen : (firstPiece incoming).length = r.statusLine.length + 1)
    (hfit : r.statusLine.length + 2 = pageSize) :
    readResponse incoming location = .error .outOfBounds := by
  obtain ⟨rest, stored, status, q, hclean, hp, hq, herr', hstatus, hread⟩ :=
    readResponse_statusLine location herr htext (by omega)
  have hpast : r.statusLine.length + 2 = (firstPiece incoming).length + 1 := by omega
  rw [hread, dropLine, hpast, hclean.strAt_end (by omega)]
  rfl

end

/-! ## What becomes of the response -/

/-- The status code and the Location are those of the response. -/
def Response.ReadAsWritten (r : Response) (location : CBuffer locationSize)
    (x : Except Fault ReadState) : Prop :=
  ∃ s, x = .ok s ∧ s.statusCode.Holds r.code ∧ LocationWritten r.headers location s.locationBuffer

/-- The Location that counts does not begin with what the loop takes off its front. -/
def PlainLocation (headers : List Header) : Prop :=
  ∀ value, locationField headers = some value → value.dropWhile isLead = value

/-- What is left of the Location when a line feed stands before the first header, which is then not
recognised, or does not fit in the page; without headers the body is taken for them. -/
def Response.LocationSurvives (r : Response) (location : CBuffer locationSize) : Prop :=
  match r.headers with
  | [] => scan ('\n' :: (crlf ++ r.body)) location = .ok location
  | h :: headers =>
    if h.line.length + 3 < pageSize ∧ locationField headers ≠ none then PlainLocation headers
    else LocationWritten (h :: headers) location location

/-- Where the first piece may be cut. -/
def Response.CutWell (r : Response) (location : CBuffer locationSize) (p : CString) : Prop :=
  (r.statusLine ++ crlf).length ≤ p.length ∧ PlainLocation r.headers ∨
    p.length = r.statusLine.length + 1 ∧ r.statusLine.length + 2 < pageSize ∧
      r.LocationSurvives location ∨
    (r.protocol ++ ' ' :: r.code).length ≤ p.length ∧ p.length ≤ r.statusLine.length ∧
      LocationWritten r.headers location location

theorem LocationRead.written_iff {headers : List Header} {before after : CBuffer locationSize}
    (h : LocationRead headers before after) :
    LocationWritten headers before after ↔ PlainLocation headers := by
  unfold LocationRead at h
  unfold LocationWritten PlainLocation
  cases hfield : locationField headers with
  | none =>
    rw [hfield] at h
    exact ⟨fun _ value hvalue => by simp at hvalue, fun _ => h⟩
  | some value =>
    rw [hfield] at h
    constructor
    · intro hwritten value' hvalue
      rw [Option.some.injEq] at hvalue
      rw [← hvalue]
      exact h.unique hwritten
    · intro hplain
      have hholds : after.Holds (value.dropWhile isLead) := h
      rwa [hplain value rfl] at hholds

theorem readAsWritten_of_result {r : Response} {location after : CBuffer locationSize}
    {status : CBuffer 4} {x : Except Fault ReadState} (hx : x.map result = .ok (status, after))
    (hstatus : status.Holds r.code) :
    r.ReadAsWritten location x ↔ LocationWritten r.headers location after := by
  cases x with
  | error e => simp [Except.map] at hx
  | ok s =>
    have hs : result s = (status, after) := by simpa [Except.map] using hx
    rw [result, Prod.mk.injEq] at hs
    obtain ⟨rfl, rfl⟩ := hs
    constructor
    · rintro ⟨s', hs', -, hwritten⟩
      rw [Except.ok.injEq] at hs'
      exact hs' ▸ hwritten
    · exact fun hwritten => ⟨s, rfl, hstatus, hwritten⟩

theorem not_readAsWritten_error {r : Response} {location : CBuffer locationSize} {e : Fault} :
    ¬ r.ReadAsWritten location (.error e) := by
  rintro ⟨s, hs, -⟩
  simp at hs

theorem scan_lineFeed (h : Header) (headers : List Header) (body : CString)
    (location : CBuffer locationSize) :
    scan ('\n' :: (headerText (h :: headers) ++ (crlf ++ body))) location =
      if h.line.length + 3 < pageSize then scan (headerText headers ++ (crlf ++ body)) location
      else .ok location := by
  have htext : '\n' :: (headerText (h :: headers) ++ (crlf ++ body)) =
      ('\n' :: h.line) ++ (crlf ++ (headerText headers ++ (crlf ++ body))) := by
    simp only [headerText, List.flatMap_cons, List.append_assoc, List.cons_append]
  have hreturn : '\r' ∉ '\n' :: h.line := by
    rw [List.mem_cons, not_or]
    exact ⟨by decide, h.line_text.1⟩
  rw [htext]
  split_ifs with hfit
  · -- the line is read, but it does not begin with the name of the header
    have hname : ¬ headerLocation <+: '\n' :: h.line := by
      rintro ⟨t, ht⟩
      have hhead : some 'L' = some '\n' := congrArg List.head? ht
      exact absurd hhead (by decide)
    rw [scan_cons_line hreturn (List.mem_cons_of_mem _ h.colon_mem_line) hfit, lineLocation,
      if_neg hname, Runs.ok_bind]
  · -- the page ends before the line does
    have hsize : pageSize = 1024 := rfl
    have hlen := h.line_length
    have hfits := h.fits
    apply scan_stuck
    right
    have hwindow : window ('\n' :: h.line ++ (crlf ++ (headerText headers ++ (crlf ++ body)))) =
        '\n' :: h.line ++ ['\r'] := by
      have hpage : pageSize - 1 = ('\n' :: h.line).length + 1 := by
        rw [List.length_cons]
        omega
      rw [window, hpage, List.take_length_add_append]
      rfl
    rw [hwindow, strstr, crlf, Delimited.find_append_of_notMem hreturn]
    rfl

section
variable {r : Response} {incoming : List Incoming} (location : CBuffer locationSize)
  (herr : Incoming.error ∉ incoming) (htext : delivered incoming = r.text)
include herr htext

theorem readAsWritten_pastLineFeed
    (hlen : (r.statusLine ++ crlf).length ≤ (firstPiece incoming).length) :
    r.ReadAsWritten location (readResponse incoming location) ↔ PlainLocation r.headers := by
  obtain ⟨status, hstatus, hread⟩ := readResponse_pastLineFeed location herr htext hlen
  obtain ⟨after, hscan, hafter⟩ := scan_headers r.headers r.body location
  rw [Response.rest, hscan] at hread
  rw [readAsWritten_of_result hread hstatus]
  exact hafter.written_iff

theorem readAsWritten_atReturn (hlen : (firstPiece incoming).length = r.statusLine.length + 1)
    (hfit : r.statusLine.length + 2 < pageSize) :
    r.ReadAsWritten location (readResponse incoming location) ↔ r.LocationSurvives location := by
  obtain ⟨status, hstatus, hread⟩ := readResponse_atReturn location herr htext hlen hfit
  unfold Response.LocationSurvives
  rw [Response.rest] at hread
  cases hheaders : r.headers with
  | nil =>
    rw [hheaders] at hread
    show _ ↔ scan ('\n' :: (headerText [] ++ (crlf ++ r.body))) location = .ok location
    cases hscan : scan ('\n' :: (headerText [] ++ (crlf ++ r.body))) location with
    | error e =>
      rw [hscan] at hread
      cases hresponse : readResponse incoming location with
      | error e' => simp [not_readAsWritten_error]
      | ok s => rw [hresponse] at hread; simp [Except.map] at hread
    | ok after =>
      rw [hscan] at hread
      rw [readAsWritten_of_result hread hstatus, hheaders, Except.ok.injEq]
      exact Iff.rfl
  | cons h headers =>
    rw [hheaders, scan_lineFeed] at hread
    show _ ↔ if h.line.length + 3 < pageSize ∧ locationField headers ≠ none then _ else _
    by_cases hline : h.line.length + 3 < pageSize
    swap
    · rw [if_neg hline] at hread
      rw [if_neg (fun hboth => hline hboth.1), readAsWritten_of_result hread hstatus, hheaders]
    obtain ⟨after, hscan, hafter⟩ := scan_headers headers r.body location
    rw [if_pos hline, hscan] at hread
    rw [readAsWritten_of_result hread hstatus, hheaders]
    cases hfield : locationField headers with
    | none =>
      rw [if_neg (by simp)]
      have hsame : after = location := by
        unfold LocationRead at hafter
        rwa [hfield] at hafter
      rw [hsame]
    | some value =>
      rw [if_pos ⟨hline, by simp⟩, ← hafter.written_iff]
      unfold LocationWritten
      rw [locationField_cons, hfield]
      exact Iff.rfl

theorem readAsWritten_inStatusLine
    (hblank : r.protocol.length < (firstPiece incoming).length)
    (hlen : (firstPiece incoming).length ≤ r.statusLine.length) :
    r.ReadAsWritten location (readResponse incoming location) ↔
      (r.protocol ++ ' ' :: r.code).length ≤ (firstPiece incoming).length ∧
        LocationWritten r.headers location location := by
  obtain ⟨s, hread, hlocation, hstatus⟩ :=
    readResponse_inStatusLine location herr htext hblank hlen
  have hcode : r.code.length = 3 := r.code_digits.1
  rw [List.length_append, List.length_cons, hcode]
  constructor
  · rintro ⟨s', hs', hholds, hwritten⟩
    rw [hread, Except.ok.injEq] at hs'
    subst hs'
    have hlength := congrArg List.length (hstatus.unique hholds)
    rw [List.length_take, hcode] at hlength
    rw [hlocation] at hwritten
    exact ⟨by omega, hwritten⟩
  · rintro ⟨hlong, hwritten⟩
    rw [List.take_of_length_le (by omega)] at hstatus
    exact ⟨s, hread, hstatus, hlocation.symm ▸ hwritten⟩

end

/-- **Whether a response is read as it is written depends on where its first piece is cut, and on
nothing else of the way in which it comes.** -/
theorem readResponse_as_written_iff (r : Response) (incoming : List Incoming)
    (location : CBuffer locationSize) (herr : Incoming.error ∉ incoming)
    (htext : delivered incoming = r.text) :
    r.ReadAsWritten location (readResponse incoming location) ↔
      r.CutWell location (firstPiece incoming) := by
  have hsize := firstPiece_length incoming
  have hcrlf : (r.statusLine ++ crlf).length = r.statusLine.length + 2 := by
    rw [List.length_append]
    rfl
  have hline : (r.protocol ++ ' ' :: r.code).length ≤ r.statusLine.length := by
    simp only [Response.statusLine, List.length_append, List.length_cons]
    omega
  have hcode : r.protocol.length < (r.protocol ++ ' ' :: r.code).length := by
    rw [List.length_append, List.length_cons]
    omega
  unfold Response.CutWell
  rcases Nat.lt_or_ge r.statusLine.length (firstPiece incoming).length with hpast | hwithin
  · by_cases hreturn : (firstPiece incoming).length = r.statusLine.length + 1
    · by_cases hfit : r.statusLine.length + 2 < pageSize
      · rw [readAsWritten_atReturn location herr htext hreturn hfit]
        constructor
        · exact fun h => Or.inr (Or.inl ⟨hreturn, hfit, h⟩)
        · rintro (⟨h, -⟩ | ⟨-, -, h⟩ | ⟨-, h, -⟩)
          · omega
          · exact h
          · omega
      · rw [readResponse_atEnd location herr htext hreturn (by omega)]
        refine iff_of_false not_readAsWritten_error ?_
        rintro (⟨h, -⟩ | ⟨-, h, -⟩ | ⟨-, h, -⟩) <;> omega
    · rw [readAsWritten_pastLineFeed location herr htext (by omega)]
      constructor
      · exact fun h => Or.inl ⟨by omega, h⟩
      · rintro (⟨-, h⟩ | ⟨h, -⟩ | ⟨-, h, -⟩)
        · exact h
        · omega
        · omega
  · rcases Nat.lt_or_ge r.protocol.length (firstPiece incoming).length with hblank | hbefore
    · rw [readAsWritten_inStatusLine location herr htext hblank hwithin]
      constructor
      · exact fun h => Or.inr (Or.inr ⟨h.1, hwithin, h.2⟩)
      · rintro (⟨h, -⟩ | ⟨h, -⟩ | ⟨h, -, h'⟩)
        · omega
        · omega
        · exact ⟨h, h'⟩
    · rw [readResponse_beforeBlank location herr htext hbefore]
      refine iff_of_false not_readAsWritten_error ?_
      rintro (⟨h, -⟩ | ⟨h, -⟩ | ⟨h, -, -⟩) <;> omega

/-- A redirect to `/a`. -/
def redirect : Response where
  version := "1.0".toList
  code := "302".toList
  reason := "Found".toList
  headers := [⟨locationName, "/a".toList, by decide, by decide, by decide, by decide⟩]
  body := []
  version_text := by decide
  code_digits := by decide
  reason_text := by decide
  body_text := by decide

/-- Cut anywhere behind its status line the redirect is read as it is written. -/
theorem redirect_read_as_written :
    redirect.ReadAsWritten (.zeros locationSize) (readResponse
      [.data "HTTP/1.0 302 Found\r\nLoca".toList (by decide), .want,
        .data "tion: /a\r\n\r".toList (by decide), .data "\n".toList (by decide)]
      (.zeros locationSize)) := by
  refine (readResponse_as_written_iff redirect _ _ (by decide) (by decide)).2 ?_
  refine Or.inl ⟨by decide, ?_⟩
  intro value hvalue
  have hfield : locationField redirect.headers = some "/a".toList := by decide
  rw [hfield, Option.some.injEq] at hvalue
  rw [← hvalue]
  decide

/-- Cut in front of the `'\r'` of its status line the redirect loses its Location. -/
theorem redirect_not_read_as_written :
    ¬ ∀ (r : Response) (incoming : List Incoming) (location : CBuffer locationSize),
      Incoming.error ∉ incoming → delivered incoming = r.text →
        r.ReadAsWritten location (readResponse incoming location) := by
  intro h
  obtain ⟨s, hs, -, hwritten⟩ := h redirect
    [.data "HTTP/1.0 302 Found".toList (by decide),
      .data "\r\nLocation: /a\r\n\r\n".toList (by decide)]
    (.zeros locationSize) (by decide) (by decide)
  have hfield : locationField redirect.headers = some "/a".toList := by decide
  have hread : (readResponse [.data "HTTP/1.0 302 Found".toList (by decide),
      .data "\r\nLocation: /a\r\n\r\n".toList (by decide)] (.zeros locationSize)).map
        ReadState.locationBuffer = .ok (.zeros locationSize) := by decide +kernel
  unfold LocationWritten at hwritten
  rw [hfield] at hwritten
  rw [hs] at hread
  have hzeros : s.locationBuffer = .zeros locationSize := by simpa [Except.map] using hread
  have hempty := (CBuffer.clean_zeros (n := locationSize) (by decide)).holds
  rw [hzeros] at hwritten
  exact absurd (hempty.unique hwritten) (by decide)

end HomeAutomation
