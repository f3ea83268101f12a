import HomeAutomation.GoogleSheet.Request
import HomeAutomation.GoogleSheet.Stream
import HomeAutomation.Lib.Trace

/-!
# Calls of `googleSheet_connect`

The whole of `googleSheet_connect`, statement group by statement group: the connection, the request,
the rounds of the read loop, and the redirect that calls the function again. `pageBuffer` and
`locationBuffer` are static, so calls and redirects hand them on to each other. Within a response the
steps are those of `readLoop` (`readLoop_trace`).

Beside the variables of the program a state lists the `Location` values that have been copied, those
of the present response apart from those of the responses before it; no step looks at these lists.
-/

namespace HomeAutomation

/-- Where the program is. -/
inductive Phase where
  /-- No call is under way. -/
  | idle
  /-- At the start of `googleSheet_connect(url, data)`. -/
  | calling (url data : CString)
  /-- At the top of the read loop. -/
  | reading (incoming : List Incoming)
  /-- Bytes have been read, and there is no status code yet. -/
  | statusLine (incoming : List Incoming)
  /-- At the top of the header loop. -/
  | headers (incoming : List Incoming)
  /-- Behind the read loop. -/
  | closed
  deriving DecidableEq

/-! ## The rounds of the read loop -/

namespace ReadState

/-- From the top of the read loop to the bytes it has read. -/
def readStep (incoming : List Incoming) (s : ReadState) : Except Fault (Phase × ReadState) := do
  let page ← s.pageBuffer.strAt 0
  let len := pageSize - 1 - page.length
  let pageBuffer ← s.pageBuffer.bzero page.length (len + 1)
  let s := { s with pageBuffer := pageBuffer }
  match connRead len incoming with
  | (.want, rest) => .ok (.reading rest, s)
  | (.error, _) => .ok (.closed, s)
  | (.bytes p, rest) =>
    if p = [] then .ok (.closed, s)
    else do
      let pageBuffer ← s.pageBuffer.store page.length p
      let status ← s.statusCode.strAt 0
      .ok (if status.length = 0 then .statusLine rest else .headers rest,
        { s with pageBuffer := pageBuffer })

def statusStep (incoming : List Incoming) (s : ReadState) : Except Fault (Phase × ReadState) := do
  let round ← s.statusLine
  match round with
  | .exit s => .ok (.closed, s)
  | .next s => .ok (.headers incoming, s)

/-- A round of the header loop, or what follows the loop. -/
def headerStep (incoming : List Incoming) (s : ReadState) : Except Fault (Phase × ReadState) :=
  if s.doneHeaders then do
    let pageBuffer ← s.pageBuffer.bzero 0 pageSize
    .ok (.reading incoming, { s with pageBuffer := pageBuffer })
  else do
    let round ← s.headerRound
    match round with
    | none => .ok (.reading incoming, s)
    | some s => .ok (.headers incoming, s)

theorem readStep_eq {s : ReadState} {page : CString} (hpage : s.pageBuffer.Holds page)
    (incoming : List Incoming) :
    ∃ wiped : CBuffer pageSize, s.pageBuffer.bzero page.length (pageSize - page.length) = .ok wiped ∧
      wiped.Clean page ∧ s.readStep incoming =
        match connRead (pageSize - 1 - page.length) incoming with
        | (.want, rest) => .ok (.reading rest, { s with pageBuffer := wiped })
        | (.error, _) => .ok (.closed, { s with pageBuffer := wiped })
        | (.bytes p, rest) =>
          if p = [] then .ok (.closed, { s with pageBuffer := wiped })
          else (do
            let pageBuffer ← wiped.store page.length p
            let status ← s.statusCode.strAt 0
            .ok (if status.length = 0 then .statusLine rest else .headers rest,
              { s with pageBuffer := pageBuffer })) := by
  have hlt := hpage.length_lt
  obtain ⟨wiped, hwiped, hclean⟩ := hpage.bzero
  refine ⟨wiped, hwiped, hclean, ?_⟩
  have hlen : pageSize - 1 - page.length + 1 = pageSize - page.length := by omega
  rw [readStep, hpage.strAt_zero, Runs.ok_bind]
  simp only [hlen, hwiped, Runs.ok_bind]

/-- The line that the header loop takes off the page. -/
def headerLine (s : ReadState) : Option CString :=
  let page := cstr s.pageBuffer.bytes
  match strstr page [':'], strstr page crlf with
  | some _, some lineEnd => some (page.take lineEnd)
  | _, _ => none

variable {s : ReadState}

theorem headerLine_eq {page : CString} (hpage : s.pageBuffer.Holds page) {colon lineEnd : Nat}
    (hcolon : strstr page [':'] = some colon) (hend : strstr page crlf = some lineEnd) :
    s.headerLine = some (page.take lineEnd) := by
  unfold headerLine
  rw [hpage.cstr_bytes]
  simp only [hcolon, hend]

theorem headerLine_none {page : CString} (hpage : s.pageBuffer.Holds page)
    (h : strstr page [':'] = none ∨ strstr page crlf = none) : s.headerLine = none := by
  unfold headerLine
  rw [hpage.cstr_bytes]
  rcases h with h | h
  · simp only [h]
  · simp only [h]
    cases strstr page [':'] <;> rfl

end ReadState

/-- The value of a `Location` header. -/
def locationValue (line : CString) : Option CString :=
  if headerLocation <+: line then some ((line.drop headerLocation.length).dropWhile isLead)
  else none

theorem lineLocation_value (line : CString) (location : CBuffer locationSize) :
    lineLocation line location = match locationValue line with
      | some v => setLocation v
      | none => .ok location := by
  unfold lineLocation locationValue
  split_ifs <;> rfl

theorem mem_of_locationValue {line v : CString} (h : locationValue line = some v) :
    ∀ c ∈ v, c ∈ line := by
  unfold locationValue at h
  split_ifs at h
  rw [Option.some.injEq] at h
  subst h
  exact fun c hc => List.mem_of_mem_drop ((List.dropWhile_suffix _).subset hc)

namespace ReadState

/-- The `Location` value that a round of the header loop reads. -/
def locationRead (s : ReadState) : Option CString :=
  if s.doneHeaders then none else s.headerLine.bind locationValue

theorem locationRead_line {s : ReadState} {page : CString} (hpage : s.pageBuffer.Holds page)
    (hdone : s.doneHeaders = false) {colon lineEnd : Nat} (hcolon : strstr page [':'] = some colon)
    (hend : strstr page crlf = some lineEnd) :
    s.locationRead = locationValue (page.take lineEnd) := by
  rw [locationRead, if_neg (by simp [hdone]), headerLine_eq hpage hcolon hend, Option.bind_some]

theorem locationRead_none {s : ReadState} {page : CString} (hpage : s.pageBuffer.Holds page)
    (h : strstr page [':'] = none ∨ strstr page crlf = none) : s.locationRead = none := by
  rw [locationRead, headerLine_none hpage h, Option.bind_none, ite_self]

/-- `strncmp(statusCode, "302", 3) == 0`. -/
def redirects (s : ReadState) : Bool := (cstr s.statusCode.bytes).take 3 = "302".toList

/-- Behind the read loop: the call that a redirect makes, or the end. -/
def follow (s : ReadState) : Except Fault Phase :=
  if s.redirects then do
    let location ← s.locationBuffer.strAt 0
    if 0 < location.length then .ok (.calling location []) else .ok .idle
  else .ok .idle

end ReadState

/-! ## The steps -/

/-- The state of `googleSheet.cpp`, with the `Location` values of the present response and of those
before it. -/
structure Sheet where
  phase : Phase
  state : ReadState
  parsed : List CString
  earlier : List CString
  deriving DecidableEq

namespace Sheet

/-- Before the first call. -/
def boot : Sheet := ⟨.idle, .start (.zeros locationSize), [], []⟩

/-- What the program does next; `none` when it is called, or connects, next. -/
def next (c : Sheet) : Except Fault (Option Sheet) :=
  match c.phase with
  | .idle => .ok none
  | .calling _ _ => .ok none
  | .reading incoming => do
    let (phase, s) ← c.state.readStep incoming
    .ok (some { c with phase := phase, state := s })
  | .statusLine incoming => do
    let (phase, s) ← c.state.statusStep incoming
    .ok (some { c with phase := phase, state := s })
  | .headers incoming => do
    let (phase, s) ← c.state.headerStep incoming
    .ok (some { c with
      phase := phase
      state := s
      parsed := c.parsed ++ c.state.locationRead.toList })
  | .closed => do
    let phase ← c.state.follow
    .ok (some { c with phase := phase })

/-- A connection on which the request has been sent, and what the server has in store on it. -/
def connected (c : Sheet) (incoming : List Incoming) : Sheet :=
  ⟨.reading incoming, .start c.state.locationBuffer, [], c.earlier ++ c.parsed⟩

/-- What can happen: a call, the end of one that gets no connection or cannot send its request, a
connection, and what the program does by itself. -/
inductive Step : Sheet → Sheet → Prop where
  | call {c : Sheet} (url data : CString) : c.phase = .idle → Step c { c with phase := .calling url data }
  | refused {c : Sheet} {url data : CString} : c.phase = .calling url data →
      Step c { c with phase := .idle }
  | unsent {c : Sheet} {url data : CString} {results rest : List Writing} {pieces : List CString} :
      c.phase = .calling url data → writeLoop url data 0 [] results = .failed pieces rest →
      Step c { c with phase := .idle }
  | connected {c : Sheet} {url data : CString} {results rest : List Writing}
      {pieces : List CString} (incoming : List Incoming) :
      c.phase = .calling url data → writeLoop url data 0 [] results = .done pieces rest →
      Step c (c.connected incoming)
  | next {c c' : Sheet} : c.next = .ok (some c') → Step c c'

/-- What the program does by itself in `n` steps. -/
def run : Nat → Sheet → Except Fault Sheet
  | 0, c => .ok c
  | n + 1, c => do
    match ← c.next with
    | none => .ok c
    | some c' => run n c'

theorem run_trace {n : Nat} {c c' : Sheet} (h : c.run n = .ok c') :
    ∃ l, Trace Step c l c' ∧ ∀ x ∈ l, ∃ k < n, c.run k = .ok x := by
  induction n generalizing c with
  | zero =>
    rw [run, Except.ok.injEq] at h
    exact ⟨[], h ▸ .refl, by simp⟩
  | succ n ih =>
    obtain ⟨r, hnext, h⟩ := Runs.bind_eq_ok.mp h
    cases r with
    | none =>
      rw [Except.ok.injEq] at h
      exact ⟨[], h ▸ .refl, by simp⟩
    | some c₁ =>
      obtain ⟨l, hl, hpassed⟩ := ih h
      refine ⟨c :: l, hl.head (.next hnext), ?_⟩
      intro x hx
      rcases List.mem_cons.mp hx with rfl | hx
      · exact ⟨0, by omega, rfl⟩
      · obtain ⟨k, hk, hrun⟩ := hpassed x hx
        exact ⟨k + 1, by omega, Runs.bind_eq_ok.mpr ⟨_, hnext, hrun⟩⟩

theorem step_of_mem {c c' : Sheet} (h : c' ∈ c.next.toOption.join) : Step c c' :=
  .next (Runs.toOption_eq_some.mp (Option.join_eq_some_iff.mp h))

theorem writeLoop_whole (url data : CString) :
    writeLoop url data 0 [] [.accept (request url data).length] =
      .done [request url data] [] := by
  simp [writeLoop]

theorem calling_connected {c : Sheet} {url data : CString} (h : c.phase = .calling url data)
    (incoming : List Incoming) : Step c (c.connected incoming) :=
  .connected incoming h (writeLoop_whole url data)

theorem boot_connected (url data : CString) (incoming : List Incoming) :
    Trace Step boot [boot, { boot with phase := .calling url data }] (boot.connected incoming) :=
  (Trace.refl.tail (.call url data rfl) : Trace Step boot ([] ++ [boot]) _).tail
    (calling_connected rfl incoming)

/-! ## The rounds make up the read loop -/

/-- The steps from here lead through the read loop, with the given result. -/
def EndsWith (c : Sheet) : Except Fault ReadState → Prop
  | .ok s => ∃ l parsed, Trace Step c l ⟨.closed, s, parsed, c.earlier⟩
  | .error e => ∃ l c', Trace Step c l c' ∧ c'.next = .error e

theorem endsWith_fault {c : Sheet} {e : Fault} (h : c.next = .error e) : c.EndsWith (.error e) :=
  ⟨[], c, .refl, h⟩

theorem endsWith_next {c c' : Sheet} {r : Except Fault ReadState} (h : c.next = .ok (some c'))
    (hearlier : c'.earlier = c.earlier) (h' : c'.EndsWith r) : c.EndsWith r := by
  cases r with
  | error e =>
    obtain ⟨l, c'', hrun, hfault⟩ := h'
    exact ⟨c :: l, c'', hrun.head (.next h), hfault⟩
  | ok s =>
    obtain ⟨l, parsed, hrun⟩ := h'
    rw [hearlier] at hrun
    exact ⟨c :: l, parsed, hrun.head (.next h)⟩

variable {incoming : List Incoming} {s : ReadState} {parsed earlier : List CString}

theorem next_reading {r : Phase × ReadState} (h : s.readStep incoming = .ok r) :
    (Sheet.mk (.reading incoming) s parsed earlier).next =
      .ok (some ⟨r.1, r.2, parsed, earlier⟩) := by
  show (s.readStep incoming >>= _) = _
  rw [h]
  rfl

theorem next_statusLine {r : Phase × ReadState} (h : s.statusStep incoming = .ok r) :
    (Sheet.mk (.statusLine incoming) s parsed earlier).next =
      .ok (some ⟨r.1, r.2, parsed, earlier⟩) := by
  show (s.statusStep incoming >>= _) = _
  rw [h]
  rfl

theorem next_headers {r : Phase × ReadState} (h : s.headerStep incoming = .ok r) :
    (Sheet.mk (.headers incoming) s parsed earlier).next =
      .ok (some ⟨r.1, r.2, parsed ++ s.locationRead.toList, earlier⟩) := by
  show (s.headerStep incoming >>= _) = _
  rw [h]
  rfl

theorem headers_trace
    (hread : ∀ s parsed, (Sheet.mk (.reading incoming) s parsed earlier).EndsWith (s.readLoop incoming)) :
    (Sheet.mk (.headers incoming) s parsed earlier).EndsWith
      (s.headers >>= ReadState.goOn incoming) := by
  induction hn : (cstr s.pageBuffer.bytes).length using Nat.strong_induction_on
    generalizing s parsed with
  | _ n ih =>
    cases hdone : s.doneHeaders with
    | true =>
      have hstep : s.headerStep incoming =
          .ok (.reading incoming, { s with pageBuffer := .zeros pageSize }) := by
        rw [ReadState.headerStep, if_pos hdone, CBuffer.bzero_all, Runs.ok_bind]
      have hheaders : s.headers = .ok (.next { s with pageBuffer := .zeros pageSize }) := by
        rw [ReadState.headers, ReadState.headerLoop_done hdone, Runs.ok_bind, if_pos hdone,
          CBuffer.bzero_all, Runs.ok_bind]
      rw [hheaders]
      exact endsWith_next (next_headers hstep) rfl (hread _ _)
    | false =>
      have hloop := ReadState.headerLoop_eq hdone
      have hstep : s.headerStep incoming = s.headerRound >>= fun round =>
          match round with
          | none => .ok (.reading incoming, s)
          | some s => .ok (.headers incoming, s) := by
        rw [ReadState.headerStep, if_neg (by simp [hdone])]
      cases hround : s.headerRound with
      | error e =>
        have hheaders : s.headers = .error e := by
          rw [ReadState.headers, hloop, hround]
          rfl
        rw [hheaders]
        apply endsWith_fault
        show (s.headerStep incoming >>= _) = _
        rw [hstep, hround]
        rfl
      | ok round =>
        rw [hround] at hstep hloop
        cases round with
        | none =>
          have hheaders : s.headers = .ok (.next s) := by
            rw [ReadState.headers, hloop]
            show (if s.doneHeaders = true then _ else _) = _
            rw [if_neg (by simp [hdone])]
          rw [hheaders]
          exact endsWith_next (next_headers hstep) rfl (hread _ _)
        | some s' =>
          have hheaders : s.headers = s'.headers := by
            rw [ReadState.headers, hloop]
            rfl
          rw [hheaders]
          exact endsWith_next (next_headers hstep) rfl
            (ih _ (hn ▸ ReadState.headerRound_shorter hround) rfl)

theorem received_trace {status : CString} (hstatus : s.statusCode.strAt 0 = .ok status)
    (hread : ∀ s parsed, (Sheet.mk (.reading incoming) s parsed earlier).EndsWith (s.readLoop incoming)) :
    (Sheet.mk (if status.length = 0 then .statusLine incoming else .headers incoming) s parsed
      earlier).EndsWith (s.received >>= ReadState.goOn incoming) := by
  rw [ReadState.received, hstatus, Runs.ok_bind]
  split_ifs
  · cases hline : s.statusLine with
    | error e =>
      apply endsWith_fault
      show (s.statusStep incoming >>= _) = _
      rw [ReadState.statusStep, hline]
      rfl
    | ok round =>
      have hstep : s.statusStep incoming = Except.ok round >>= fun round =>
          match round with
          | .exit s => .ok (.closed, s)
          | .next s => .ok (.headers incoming, s) := by
        rw [ReadState.statusStep, hline]
      cases round with
      | exit s' => exact endsWith_next (next_statusLine hstep) rfl ⟨[], parsed, .refl⟩
      | next s' => exact endsWith_next (next_statusLine hstep) rfl (headers_trace hread)
  · exact headers_trace hread

/-- **The steps of a response are the read loop.** -/
theorem readLoop_trace :
    (Sheet.mk (.reading incoming) s parsed earlier).EndsWith (s.readLoop incoming) := by
  induction hn : readsLeft incoming using Nat.strong_induction_on generalizing s incoming parsed with
  | _ n ih =>
    have hless := readsLeft_connRead (pageSize - 1 - (cstr s.pageBuffer.bytes).length) incoming
    cases hpage : s.pageBuffer.strAt 0 with
    | error e =>
      have hloop : s.readLoop incoming = .error e := by
        rw [ReadState.readLoop, hpage]
        rfl
      rw [hloop]
      apply endsWith_fault
      show (s.readStep incoming >>= _) = _
      rw [ReadState.readStep, hpage]
      rfl
    | ok page =>
      have hholds := CBuffer.holds_of_strAt hpage
      rw [hholds.cstr_bytes] at hless
      obtain ⟨wiped, hclean, hloop⟩ := ReadState.readLoop_eq hholds incoming
      obtain ⟨wiped', _, hclean', hstep⟩ := ReadState.readStep_eq hholds incoming
      obtain rfl : wiped' = wiped := hclean'.unique hclean
      rw [hloop]
      cases hread : connRead (pageSize - 1 - page.length) incoming with
      | mk result rest =>
        rw [hread] at hstep hless
        cases result with
        | want => exact endsWith_next (next_reading hstep) rfl (ih _ (hn ▸ hless (by simp)) rfl)
        | error => exact endsWith_next (next_reading hstep) rfl ⟨[], parsed, .refl⟩
        | bytes p =>
          by_cases hp : p = []
          · simp only [if_pos hp] at hstep ⊢
            exact endsWith_next (next_reading hstep) rfl ⟨[], parsed, .refl⟩
          · have hmore : ∀ s parsed,
                (Sheet.mk (.reading rest) s parsed earlier).EndsWith (s.readLoop rest) :=
              fun s parsed => ih _ (hn ▸ hless (by simpa using hp)) rfl
            simp only [if_neg hp] at hstep ⊢
            cases hstore : wiped'.store page.length p with
            | error e =>
              apply endsWith_fault
              show (s.readStep incoming >>= _) = _
              rw [hstep, hstore]
              rfl
            | ok stored =>
              rw [hstore, Runs.ok_bind] at hstep
              cases hstatus : s.statusCode.strAt 0 with
              | error e =>
                have hreceived : ({ s with pageBuffer := stored } : ReadState).received = .error e := by
                  rw [ReadState.received, hstatus]
                  rfl
                rw [Runs.ok_bind, hreceived]
                apply endsWith_fault
                show (s.readStep incoming >>= _) = _
                rw [hstep, hstatus]
                rfl
              | ok status =>
                rw [hstatus, Runs.ok_bind] at hstep
                exact endsWith_next (next_reading hstep) rfl
                  (received_trace (s := { s with pageBuffer := stored }) hstatus hmore)

end Sheet

end HomeAutomation
