import HomeAutomation.CBuffer
import HomeAutomation.Lib.Runs

/-!
# Reading the answer of the sheet (`googleSheet.cpp`)

The read loop of `googleSheet_connect`. The answer comes through `esp_tls_conn_read` in pieces;
what has been received and not yet used up is the string in `pageBuffer`, and a line is used up by
moving what follows it to the front.
-/

namespace HomeAutomation

/-- `sizeof(pageBuffer)`. -/
def pageSize : Nat := 1024

/-- `sizeof(locationBuffer)`. -/
def locationSize : Nat := 512

/-- `HEADER_LOCATION`. -/
def headerLocation : CString := "Location: ".toList

def crlf : CString := ['\r', '\n']

/-! ## The connection -/

/-- What a connection has in store for the reader: `want` stands for `MBEDTLS_ERR_SSL_WANT_READ` and
`MBEDTLS_ERR_SSL_WANT_WRITE`, `error` for any other negative result, `data` for bytes that are
available together. Behind the last of them the peer has closed. -/
inductive Incoming where
  | want
  | error
  | data (p : List Char) (nonempty : p ≠ [])
  deriving DecidableEq

/-- What `esp_tls_conn_read` returns. -/
inductive ReadResult where
  | want
  | error
  | bytes (p : List Char)
  deriving DecidableEq

/-- `esp_tls_conn_read(tls, _, len)`: at most `len` of the bytes available, the others staying
there for the next call; no bytes when the peer has closed, or when none are asked for. -/
def connRead (len : Nat) : List Incoming → ReadResult × List Incoming
  | [] => (.bytes [], [])
  | .want :: rest => (.want, rest)
  | .error :: rest => (.error, rest)
  | .data p nonempty :: rest =>
    if len = 0 then (.bytes [], .data p nonempty :: rest)
    else if h : p.drop len = [] then (.bytes p, rest)
    else (.bytes (p.take len), .data (p.drop len) h :: rest)

/-- The text that a connection delivers. -/
def delivered : List Incoming → CString
  | [] => []
  | .data p _ :: rest => p ++ delivered rest
  | _ :: rest => delivered rest

/-- A bound on the reads still to come. -/
def readsLeft (incoming : List Incoming) : Nat := (delivered incoming).length + incoming.length

section
variable {len : Nat} {incoming : List Incoming} {q : List Char}

theorem connRead_whole (h : q ≠ []) (rest : List Incoming) (hlen : len ≠ 0)
    (hall : q.drop len = []) : connRead len (.data q h :: rest) = (.bytes q, rest) := by
  rw [connRead, if_neg hlen, dif_pos hall]

theorem connRead_part (h : q ≠ []) (rest : List Incoming) (hlen : len ≠ 0)
    (hpart : q.drop len ≠ []) : connRead len (.data q h :: rest) =
      (.bytes (q.take len), .data (q.drop len) hpart :: rest) := by
  rw [connRead, if_neg hlen, dif_neg hpart]

theorem connRead_length {rest : List Incoming} {p : List Char}
    (h : connRead len incoming = (.bytes p, rest)) : p.length ≤ len := by
  cases incoming with
  | nil =>
    rw [connRead, Prod.mk.injEq, ReadResult.bytes.injEq] at h
    simp [← h.1]
  | cons i incoming =>
    cases i with
    | want => exact absurd h (by simp [connRead])
    | error => exact absurd h (by simp [connRead])
    | data q nonempty =>
      rw [connRead] at h
      split_ifs at h with hlen hall
      · rw [Prod.mk.injEq, ReadResult.bytes.injEq] at h
        simp [← h.1]
      · rw [Prod.mk.injEq, ReadResult.bytes.injEq] at h
        exact h.1 ▸ List.drop_eq_nil_iff.mp hall
      · rw [Prod.mk.injEq, ReadResult.bytes.injEq] at h
        exact h.1 ▸ List.length_take_le _ _

theorem readsLeft_connRead (len : Nat) (incoming : List Incoming)
    (h : (connRead len incoming).1 ≠ .bytes []) :
    readsLeft (connRead len incoming).2 < readsLeft incoming := by
  cases incoming with
  | nil => exact absurd rfl h
  | cons i incoming =>
    cases i with
    | want => simp [connRead, readsLeft, delivered]
    | error => simp [connRead, readsLeft, delivered]
    | data q nonempty =>
      have hpos := List.length_pos_iff.2 nonempty
      by_cases hlen : len = 0
      · exact absurd (by simp [connRead, hlen]) h
      by_cases hall : q.drop len = []
      · simp only [connRead_whole _ _ hlen hall, readsLeft, delivered, List.length_append,
          List.length_cons]
        omega
      · simp only [connRead_part _ _ hlen hall, readsLeft, delivered, List.length_append,
          List.length_cons, List.length_drop]
        omega

/-- Of the bytes available a read takes as many as it has room for. -/
theorem connRead_data (h : q ≠ []) (rest : List Incoming) (hlen : len ≠ 0) :
    ∃ rest', connRead len (.data q h :: rest) = (.bytes (q.take len), rest') ∧
      q ++ delivered rest = q.take len ++ delivered rest' ∧
      (Incoming.error ∉ rest → Incoming.error ∉ rest') := by
  by_cases hall : q.drop len = []
  · have htake : q.take len = q := List.take_of_length_le (List.drop_eq_nil_iff.1 hall)
    rw [htake]
    exact ⟨rest, connRead_whole _ _ hlen hall, rfl, id⟩
  · refine ⟨_, connRead_part _ _ hlen hall, ?_, fun herr => by simpa using herr⟩
    show q ++ _ = q.take len ++ (q.drop len ++ _)
    rw [← List.append_assoc, List.take_append_drop]

/-- What a read does on a connection that does not fail: it has to be repeated, or returns nothing
because the peer has closed or nothing was asked for, or takes bytes off the front of what is
delivered, at most as many as asked for. -/
theorem connRead_cases (len : Nat) (herr : Incoming.error ∉ incoming) :
    (∃ rest, connRead len incoming = (.want, rest) ∧ delivered incoming = delivered rest ∧
        Incoming.error ∉ rest) ∨
      (∃ rest, connRead len incoming = (.bytes [], rest) ∧ (delivered incoming = [] ∨ len = 0)) ∨
      ∃ p rest, p ≠ [] ∧ connRead len incoming = (.bytes p, rest) ∧ p.length ≤ len ∧
        delivered incoming = p ++ delivered rest ∧ Incoming.error ∉ rest := by
  cases incoming with
  | nil => exact Or.inr (Or.inl ⟨[], rfl, Or.inl rfl⟩)
  | cons i incoming =>
    have herr' : Incoming.error ∉ incoming := fun h => herr (by simp [h])
    cases i with
    | want => exact Or.inl ⟨incoming, rfl, rfl, herr'⟩
    | error => exact absurd (by simp) herr
    | data q nonempty =>
      right
      by_cases hlen : len = 0
      · exact Or.inl ⟨_, by rw [connRead, if_pos hlen], Or.inr hlen⟩
      right
      obtain ⟨rest, hread, hrest, herr''⟩ := connRead_data nonempty incoming hlen
      refine ⟨q.take len, rest, ?_, hread, List.length_take_le _ _, hrest, herr'' herr'⟩
      rw [Ne, List.take_eq_nil_iff]
      exact fun h => h.elim hlen nonempty

end

/-! ## The loop -/

/-- The variables of the loop. -/
structure ReadState where
  pageBuffer : CBuffer pageSize
  locationBuffer : CBuffer locationSize
  statusCode : CBuffer 4
  doneHeaders : Bool
  deriving DecidableEq

/-- How a round of the loop ends: with `break`, or with the next one. -/
inductive Round where
  | exit (s : ReadState)
  | next (s : ReadState)
  deriving DecidableEq

namespace ReadState

/-- Before the first read; `locationBuffer` is static and as an earlier call left it. -/
def start (locationBuffer : CBuffer locationSize) : ReadState :=
  ⟨.zeros pageSize, locationBuffer, .zeros 4, false⟩

/-- `memmove(pageBuffer, lineEnd + 2, strlen(lineEnd + 2) + 1)`. -/
def dropLine (s : ReadState) (lineEnd : Nat) : Except Fault ReadState := do
  let rest ← s.pageBuffer.strAt (lineEnd + 2)
  let pageBuffer ← s.pageBuffer.memmove (lineEnd + 2) (rest.length + 1)
  .ok { s with pageBuffer := pageBuffer }

/-- The `for` loop of the status line: the index of the first blank before the first `'\n'`. It
has no other end. -/
def findBlank : List Char → Except Fault (Option Nat)
  | [] => .error .outOfBounds
  | c :: cs =>
    if c = '\n' then .ok none
    else if c = ' ' then .ok (some 0)
    else do
      let i ← findBlank cs
      .ok (i.map (· + 1))

/-- The part of the first round that reads the status line. -/
def statusLine (s : ReadState) : Except Fault Round := do
  let blank ← findBlank s.pageBuffer.bytes
  let statusCode ← match blank with
    | some i => s.statusCode.strncpy s.pageBuffer (i + 1) 3
    | none => .ok s.statusCode
  let s := { s with statusCode := statusCode }
  let page ← s.pageBuffer.strAt 0
  match strstr page ['\r'] with
  | none => .ok (.exit s)
  | some lineEnd => do
    let s ← s.dropLine lineEnd
    .ok (.next s)

/-- The `while` loop that moves `lineColon` over blanks and colons, up to `lineEnd`. -/
def skipColon (page : CString) (colon lineEnd : Nat) : Nat :=
  colon + (((page.take lineEnd).drop colon).takeWhile (fun c => c == ' ' || c == ':')).length

/-- `strncpy(locationBuffer, lineColon, lineEnd - lineColon)` into the cleared buffer; the length is
a `size_t`, and a negative one is far too large for the buffer. -/
def copyLocation (s : ReadState) (lineColon lineEnd : Nat) :
    Except Fault (CBuffer locationSize) := do
  let cleared ← s.locationBuffer.bzero 0 locationSize
  if lineEnd < lineColon then .error .outOfBounds
  else cleared.strncpy s.pageBuffer lineColon (lineEnd - lineColon)

/-- `locationBuffer` after a header line. -/
def readLocation (s : ReadState) (page : CString) (colon lineEnd : Nat) :
    Except Fault (CBuffer locationSize) :=
  if headerLocation <+: page then s.copyLocation (skipColon page colon lineEnd) lineEnd
  else .ok s.locationBuffer

/-- One round of the header loop; `none` when the page holds no colon or no line end. -/
def headerRound (s : ReadState) : Except Fault (Option ReadState) := do
  let page ← s.pageBuffer.strAt 0
  match strstr page [':'], strstr page crlf with
  | some colon, some lineEnd => do
    let locationBuffer ← s.readLocation page colon lineEnd
    let blankLine : Bool := decide (crlf <+: page)
    let s ← dropLine
      { s with locationBuffer := locationBuffer, doneHeaders := s.doneHeaders || blankLine } lineEnd
    .ok (some s)
  | _, _ => .ok none

variable {s s' : ReadState} {page : CString}

theorem dropLine_ok (hpage : s.pageBuffer.Holds page) {lineEnd : Nat}
    (hfit : lineEnd + 2 ≤ page.length) {moved : CBuffer pageSize} (hmoved :
      s.pageBuffer.memmove (lineEnd + 2) ((page.drop (lineEnd + 2)).length + 1) = .ok moved) :
    s.dropLine lineEnd = .ok { s with pageBuffer := moved } := by
  rw [dropLine, hpage.strAt hfit, Runs.ok_bind, hmoved]
  rfl

theorem crlf_fits {lineEnd : Nat} (h : strstr page crlf = some lineEnd) :
    lineEnd + 2 ≤ page.length :=
  Delimited.find_length (by decide) h

/-- Without a colon or a line end in the page the header loop stops. -/
theorem headerRound_none (hpage : s.pageBuffer.Holds page)
    (h : strstr page [':'] = none ∨ strstr page crlf = none) : s.headerRound = .ok none := by
  unfold headerRound
  rw [hpage.strAt_zero]
  show (match strstr page [':'], strstr page crlf with | some _, some _ => _ | _, _ => _) = _
  rcases h with h | h
  · rw [h]
  · rw [h]
    cases strstr page [':'] <;> rfl

theorem headerRound_some (hpage : s.pageBuffer.Holds page) {colon lineEnd : Nat}
    (hcolon : strstr page [':'] = some colon) (hend : strstr page crlf = some lineEnd) :
    ∃ moved : CBuffer pageSize, moved.Holds (page.drop (lineEnd + 2)) ∧
      s.headerRound = (do
        let locationBuffer ← s.readLocation page colon lineEnd
        .ok (some ⟨moved, locationBuffer, s.statusCode,
          s.doneHeaders || decide (crlf <+: page)⟩)) := by
  obtain ⟨moved, hmoved, hholds⟩ := hpage.memmove (crlf_fits hend)
  refine ⟨moved, hholds, ?_⟩
  unfold headerRound
  rw [hpage.strAt_zero]
  show (match strstr page [':'], strstr page crlf with | some _, some _ => _ | _, _ => _) = _
  rw [hcolon, hend]
  show (s.readLocation page colon lineEnd >>= _) = _
  cases s.readLocation page colon lineEnd with
  | error e => rfl
  | ok locationBuffer =>
    show (dropLine _ _ >>= _) = _
    have hdrop := dropLine_ok (s := { s with
      locationBuffer := locationBuffer, doneHeaders := s.doneHeaders || decide (crlf <+: page) })
      hpage (crlf_fits hend) hmoved
    rw [hdrop]
    rfl

theorem headerRound_shorter (h : s.headerRound = .ok (some s')) :
    (cstr s'.pageBuffer.bytes).length < (cstr s.pageBuffer.bytes).length := by
  cases hstr : s.pageBuffer.strAt 0 with
  | error e =>
    rw [headerRound, hstr] at h
    exact absurd h (by simp [bind, Except.bind])
  | ok page =>
    have hpage := CBuffer.holds_of_strAt hstr
    cases hcolon : strstr page [':'] with
    | none => rw [headerRound_none hpage (Or.inl hcolon)] at h; simp at h
    | some colon =>
      cases hend : strstr page crlf with
      | none => rw [headerRound_none hpage (Or.inr hend)] at h; simp at h
      | some lineEnd =>
        obtain ⟨moved, hholds, hround⟩ := headerRound_some hpage hcolon hend
        rw [hround] at h
        cases hread : s.readLocation page colon lineEnd with
        | error e => rw [hread] at h; simp [bind, Except.bind] at h
        | ok locationBuffer =>
          rw [hread] at h
          simp only [bind, Except.bind, Except.ok.injEq, Option.some.injEq] at h
          subst h
          have hfit := crlf_fits hend
          rw [hpage.cstr_bytes, hholds.cstr_bytes, List.length_drop]
          omega

/-- The header loop. -/
def headerLoop (s : ReadState) : Except Fault ReadState :=
  if s.doneHeaders then .ok s
  else
    match _h : s.headerRound with
    | .error e => .error e
    | .ok none => .ok s
    | .ok (some s') => headerLoop s'
termination_by (cstr s.pageBuffer.bytes).length
decreasing_by exact headerRound_shorter _h

theorem headerLoop_done (h : s.doneHeaders = true) : s.headerLoop = .ok s := by
  rw [headerLoop, if_pos h]

/-- The header loop is its first round and the header loop on what that leaves. -/
theorem headerLoop_eq (h : s.doneHeaders = false) :
    s.headerLoop = (do
      let round ← s.headerRound
      match round with
      | none => .ok s
      | some s => s.headerLoop) := by
  rw [headerLoop, if_neg (by simp [h])]
  split
  · next e hround => rw [hround]; rfl
  · next hround => rw [hround]; rfl
  · next s' hround => rw [hround]; rfl

/-- The part of a round that reads headers, and empties the page once they are done. -/
def headers (s : ReadState) : Except Fault Round := do
  let s ← s.headerLoop
  if s.doneHeaders then do
    let pageBuffer ← s.pageBuffer.bzero 0 pageSize
    .ok (.next { s with pageBuffer := pageBuffer })
  else .ok (.next s)

/-- What follows a read that returned some bytes. -/
def received (s : ReadState) : Except Fault Round := do
  let status ← s.statusCode.strAt 0
  if status.length = 0 then do
    let round ← s.statusLine
    match round with
    | .exit s => .ok (.exit s)
    | .next s => s.headers
  else s.headers

/-- The read loop, with its last state. -/
def readLoop (incoming : List Incoming) (s : ReadState) : Except Fault ReadState := do
  let page ← s.pageBuffer.strAt 0
  let len := pageSize - 1 - page.length
  let pageBuffer ← s.pageBuffer.bzero page.length (len + 1)
  let s := { s with pageBuffer := pageBuffer }
  match _h : connRead len incoming with
  | (.want, rest) => readLoop rest s
  | (.error, _) => .ok s
  | (.bytes p, rest) =>
    if p = [] then .ok s
    else do
      let pageBuffer ← s.pageBuffer.store page.length p
      let round ← received { s with pageBuffer := pageBuffer }
      match round with
      | .exit s => .ok s
      | .next s => readLoop rest s
termination_by readsLeft incoming
decreasing_by
  · have hless := readsLeft_connRead len incoming (by rw [_h]; simp)
    rwa [_h] at hless
  · have hless := readsLeft_connRead len incoming (by rw [_h]; simpa using ‹p ≠ []›)
    rwa [_h] at hless

end ReadState

/-- `googleSheet_connect` from `bzero(pageBuffer, ...)` to the end of the read loop. -/
def readResponse (incoming : List Incoming) (locationBuffer : CBuffer locationSize) :
    Except Fault ReadState :=
  (ReadState.start locationBuffer).readLoop incoming

end HomeAutomation
