import HomeAutomation.GoogleSheet.Stream

/-!
# Well-formed responses

What the read loop makes of an HTTP response, depending on how the first piece of it is cut. With
the whole status line in the first piece the rest may come in any pieces. A first piece that ends
before the `'\r'` of the status line is also the last; one that ends with it loses the first header.
-/

namespace HomeAutomation

/-! ## Responses -/

/-- A text that may stand in a line. -/
def LineText (s : CString) : Prop := '\r' ∉ s ∧ '\n' ∉ s ∧ nul ∉ s

instance (s : CString) : Decidable (LineText s) :=
  inferInstanceAs (Decidable ('\r' ∉ s ∧ '\n' ∉ s ∧ nul ∉ s))

/-- The name of the header that `HEADER_LOCATION` looks for. -/
def locationName : CString := "Location".toList

/-- A header that fits in `pageBuffer`, its value in `locationBuffer` if it is a Location. -/
structure Header where
  name : CString
  value : CString
  name_text : LineText name ∧ ':' ∉ name
  value_text : LineText value
  fits : name.length + value.length + 4 < pageSize
  location_fits : name = locationName → value.length < locationSize

/-- The line of a header, without its end. -/
def Header.line (h : Header) : CString := h.name ++ ':' :: ' ' :: h.value

structure Response where
  version : CString
  code : CString
  reason : CString
  headers : List Header
  body : CString
  version_text : LineText version ∧ ' ' ∉ version
  code_digits : code.length = 3 ∧ code.all Char.isDigit = true
  reason_text : LineText reason
  body_text : nul ∉ body

def headerText (headers : List Header) : CString := headers.flatMap (fun h => h.line ++ crlf)

namespace Response

/-- The part of the status line before the first blank. -/
def protocol (r : Response) : CString := "HTTP/".toList ++ r.version

/-- The status line, without its end. -/
def statusLine (r : Response) : CString := r.protocol ++ ' ' :: (r.code ++ ' ' :: r.reason)

/-- What follows the status line. -/
def rest (r : Response) : CString := headerText r.headers ++ (crlf ++ r.body)

def text (r : Response) : CString := r.statusLine ++ (crlf ++ r.rest)

end Response

/-- The value of the last Location header. -/
def locationField (headers : List Header) : Option CString :=
  ((headers.filter (fun h => h.name == locationName)).getLast?).map Header.value

/-- What `locationBuffer` has to be after some headers: it holds the Location that they write, and
is untouched when they write none. -/
def LocationWritten (headers : List Header) (before after : CBuffer locationSize) : Prop :=
  match locationField headers with
  | some value => after.Holds value
  | none => after = before

theorem locationField_cons (h : Header) (headers : List Header) :
    locationField (h :: headers) =
      (locationField headers).or (if h.name = locationName then some h.value else none) := by
  unfold locationField
  rw [List.filter_cons]
  by_cases hname : h.name = locationName
  · simp only [hname, beq_self_eq_true, if_true, List.getLast?_cons, Option.map_some]
    cases (headers.filter (fun h => h.name == locationName)).getLast? <;> rfl
  · simp [hname]

/-! ## Reading headers -/

theorem Header.line_text (h : Header) : LineText h.line := by
  obtain ⟨⟨hr, hn, hz⟩, -⟩ := h.name_text
  obtain ⟨hr', hn', hz'⟩ := h.value_text
  refine ⟨?_, ?_, ?_⟩ <;> simp [Header.line, *]
  all_goals decide

theorem headerLocation_line (h : Header) : headerLocation <+: h.line ↔ h.name = locationName := by
  constructor
  · rintro ⟨t, ht⟩
    have heq : locationName ++ ':' :: ' ' :: t = h.name ++ ':' :: ' ' :: h.value := ht
    have htoken := congrArg (fun s => (strsep [':'] (some s)).1) heq
    simp only [strsep_append _ (show ':' ∉ locationName by decide),
      strsep_append _ h.name_text.2, Option.some.injEq] at htoken
    exact htoken.symm
  · intro hname
    rw [Header.line, hname]
    exact ⟨h.value, rfl⟩

theorem lineLocation_header (h : Header) (location : CBuffer locationSize) :
    lineLocation h.line location =
      if h.name = locationName then setLocation (h.value.dropWhile isLead) else .ok location := by
  unfold lineLocation
  by_cases hname : h.name = locationName
  · have hdrop : h.line.drop headerLocation.length = h.value := by
      rw [Header.line, hname]
      rfl
    rw [if_pos hname, if_pos ((headerLocation_line h).2 hname), hdrop]
  · rw [if_neg hname, if_neg (fun hloc => hname ((headerLocation_line h).1 hloc))]

theorem setLocation_holds {value : CString} (hfit : value.length < locationSize)
    (hnul : nul ∉ value) : ∃ location, setLocation value = .ok location ∧ location.Holds value := by
  refine ⟨_, dif_pos hfit.le, hnul, List.replicate (locationSize - value.length - 1) nul, ?_⟩
  have hsucc : locationSize - value.length = locationSize - value.length - 1 + 1 := by omega
  show value ++ List.replicate (locationSize - value.length) nul = _
  rw [hsucc]
  rfl

/-- A line that fits in the page is read, and what follows it is left. -/
theorem scan_cons_line {line : CString} (hcr : '\r' ∉ line) (hcolon : ':' ∈ line)
    (hfit : line.length + 2 < pageSize) (rest : CString) (location : CBuffer locationSize) :
    scan (line ++ (crlf ++ rest)) location = (do
      let location ← lineLocation line location
      scan rest location) := by
  have hend : strstr (line ++ crlf) crlf = some line.length := by
    have hfind := Delimited.find_piece (p := ['\n']) hcr []
    rwa [List.append_nil] at hfind
  have hpos : line.length ≠ 0 := by
    have := List.length_pos_of_mem hcolon
    omega
  have hlt : (line ++ crlf).length < pageSize := by rw [List.length_append]; exact hfit
  have hpage := scan_page location hlt (List.mem_append_left _ hcolon) hend rest
  have hdrop : (line ++ crlf).drop (line.length + 2) = [] := by
    rw [List.drop_eq_nil_iff, List.length_append]
    rfl
  rw [List.append_assoc, if_neg hpos, List.take_left, hdrop, List.nil_append] at hpage
  exact hpage

theorem scan_empty_line (body : CString) (location : CBuffer locationSize) :
    scan (crlf ++ body) location = .ok location := by
  apply scan_blank
  have hlt : crlf.length < pageSize := by decide
  obtain ⟨more, hmore⟩ := window_append hlt body
  rw [hmore]
  exact Delimited.find_front (List.prefix_append _ _)

theorem Header.line_length (h : Header) : h.line.length = h.name.length + h.value.length + 2 := by
  simp only [Header.line, List.length_append, List.length_cons]
  omega

theorem Header.colon_mem_line (h : Header) : ':' ∈ h.line := by simp [Header.line]

theorem scan_cons_header (h : Header) (rest : CString) (location : CBuffer locationSize) :
    scan (h.line ++ (crlf ++ rest)) location = (do
      let location ← lineLocation h.line location
      scan rest location) := by
  have hlen := h.line_length
  have hfits := h.fits
  exact scan_cons_line h.line_text.1 h.colon_mem_line (by omega) rest location

/-- What the headers of a response leave in `locationBuffer`: the last Location, less the blanks and
colons at its front. -/
def LocationRead (headers : List Header) (before after : CBuffer locationSize) : Prop :=
  match locationField headers with
  | some value => after.Holds (value.dropWhile isLead)
  | none => after = before

theorem scan_headers (headers : List Header) (body : CString) (location : CBuffer locationSize) :
    ∃ after, scan (headerText headers ++ (crlf ++ body)) location = .ok after ∧
      LocationRead headers location after := by
  induction headers generalizing location with
  | nil => exact ⟨location, scan_empty_line body location, rfl⟩
  | cons h headers ih =>
    have htext : headerText (h :: headers) ++ (crlf ++ body) =
        h.line ++ (crlf ++ (headerText headers ++ (crlf ++ body))) := by
      simp only [headerText, List.flatMap_cons, List.append_assoc]
    rw [htext, scan_cons_header, lineLocation_header]
    unfold LocationRead
    rw [locationField_cons]
    by_cases hname : h.name = locationName
    · have hfit : (h.value.dropWhile isLead).length < locationSize :=
        (List.length_dropWhile_le _ _).trans_lt (h.location_fits hname)
      have hnul : nul ∉ h.value.dropWhile isLead :=
        fun hmem => h.value_text.2.2 ((List.dropWhile_sublist _).subset hmem)
      obtain ⟨middle, hset, hholds⟩ := setLocation_holds hfit hnul
      rw [if_pos hname, if_pos hname, hset, Runs.ok_bind]
      obtain ⟨after, hscan, hafter⟩ := ih middle
      refine ⟨after, hscan, ?_⟩
      unfold LocationRead at hafter
      cases hfield : locationField headers with
      | some value => simpa [hfield] using hafter
      | none =>
        rw [hfield] at hafter
        rw [hafter]
        exact hholds
    · rw [if_neg hname, if_neg hname, Runs.ok_bind, Option.or_none]
      exact ih location

/-! ## The text of a response -/

namespace Response
variable (r : Response)

theorem protocol_text : LineText r.protocol ∧ ' ' ∉ r.protocol := by
  obtain ⟨⟨hr, hn, hz⟩, hb⟩ := r.version_text
  refine ⟨⟨?_, ?_, ?_⟩, ?_⟩ <;> rw [protocol, List.mem_append, not_or]
  · exact ⟨by decide, hr⟩
  · exact ⟨by decide, hn⟩
  · exact ⟨by decide, hz⟩
  · exact ⟨by decide, hb⟩

theorem code_text : LineText r.code := by
  have hdigit : ∀ c : Char, c.isDigit = false → c ∉ r.code := by
    intro c hc hmem
    rw [List.all_eq_true.1 r.code_digits.2 c hmem] at hc
    simp at hc
  exact ⟨hdigit _ (by decide), hdigit _ (by decide), hdigit _ (by decide)⟩

theorem statusLine_text : LineText r.statusLine := by
  obtain ⟨⟨hr, hn, hz⟩, -⟩ := r.protocol_text
  obtain ⟨hr', hn', hz'⟩ := r.code_text
  obtain ⟨hr'', hn'', hz''⟩ := r.reason_text
  refine ⟨?_, ?_, ?_⟩ <;> simp [statusLine, *]
  all_goals decide

theorem text_eq : r.text =
    r.protocol ++ ' ' :: (r.code ++ ' ' :: (r.reason ++ (crlf ++ r.rest))) := by
  simp only [text, statusLine, List.append_assoc, List.cons_append]

theorem code_ne_nil : r.code ≠ [] := by
  have hlen := r.code_digits.1
  rintro hnil
  simp [hnil] at hlen

theorem rest_free : nul ∉ r.rest := by
  have hheaders : nul ∉ headerText r.headers := by
    rw [headerText, List.mem_flatMap]
    rintro ⟨h, -, hmem⟩
    rw [List.mem_append] at hmem
    exact hmem.elim h.line_text.2.2 (by decide)
  have hcrlf : nul ∉ crlf := by decide
  simp only [rest, List.mem_append, not_or]
  exact ⟨hheaders, hcrlf, r.body_text⟩

theorem text_free : nul ∉ r.text := by
  have hcrlf : nul ∉ crlf := by decide
  simp only [text, List.mem_append, not_or]
  exact ⟨r.statusLine_text.2.2, hcrlf, r.rest_free⟩

end Response

end HomeAutomation
