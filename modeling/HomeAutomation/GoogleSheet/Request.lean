import HomeAutomation.CString
import Mathlib.Algebra.GroupWithZero.Nat

/-!
# Sending the request (`googleSheet.cpp`)

The write loop of `googleSheet_connect`. The request is printed anew in every round into a buffer as
long as the two arguments and the format together; `esp_tls_conn_write` accepts some of what is left
of it, asks to be called again, or fails.
-/

namespace HomeAutomation

/-- `WEB_SERVER`. -/
def webServer : CString := "script.google.com".toList

/-- `REQUEST`. -/
def requestFormat : CString :=
  "GET %s%s HTTP/1.0\r\nHost: ".toList ++ webServer ++
    "\r\nUser-Agent: esp-idf/1.0 esp32\r\n\r\n".toList

/-- What `request` holds after the `snprintf`. -/
def request (url data : CString) : CString :=
  snprintf (url.length + data.length + requestFormat.length) (format requestFormat [url, data])

/-- What `esp_tls_conn_write` does with a call: take at most so many bytes as it is offered, return
`MBEDTLS_ERR_SSL_WANT_READ` or `MBEDTLS_ERR_SSL_WANT_WRITE`, or another negative result. -/
inductive Writing where
  | accept (n : Nat)
  | want
  | error
  deriving DecidableEq, Repr

/-- Where the loop is after some results: still going, left as it should be, or left with
`return 0`. The pieces are those accepted, in order; `rest` are results it did not ask for. -/
inductive WriteOutcome where
  | waiting (pieces : List CString)
  | done (pieces : List CString) (rest : List Writing)
  | failed (pieces : List CString) (rest : List Writing)
  deriving DecidableEq, Repr

/-- The `do` loop, `written` being `written_bytes`. -/
def writeLoop (url data : CString) (written : Nat) (pieces : List CString) :
    List Writing → WriteOutcome
  | [] => .waiting pieces
  | .accept n :: results =>
    let n := min n ((request url data).length - written)
    let pieces := pieces ++ [((request url data).drop written).take n]
    if written + n < (request url data).length then
      writeLoop url data (written + n) pieces results
    else .done pieces results
  | .want :: results =>
    if written < (request url data).length then writeLoop url data written pieces results
    else .done pieces results
  | .error :: results => .failed pieces results

/-! ## The text -/

/-- The end of the request line, the two headers and the blank line. -/
def requestTail : CString :=
  " HTTP/1.0\r\n".toList ++ "Host: script.google.com\r\n".toList ++
    "User-Agent: esp-idf/1.0 esp32\r\n".toList ++ "\r\n".toList

/-- The request, as the server is to receive it. -/
def requestText (url data : CString) : CString := "GET ".toList ++ url ++ data ++ requestTail

theorem requestFormat_eq :
    requestFormat = "GET ".toList ++ '%' :: 's' :: '%' :: 's' :: requestTail := by
  decide +kernel

theorem format_request (url data : CString) :
    format requestFormat [url, data] = requestText url data := by
  have hget : '%' ∉ "GET ".toList := by decide +kernel
  have htail : format requestTail [] = requestTail := by
    have h := format_append (s := requestTail) (by decide +kernel) [] []
    rw [List.append_nil] at h
    exact h.trans (List.append_nil _)
  rw [requestFormat_eq, format_append hget, format_arg, format_arg, htail]
  show _ = "GET ".toList ++ url ++ data ++ requestTail
  rw [List.append_assoc, List.append_assoc]

/-- The buffer is long enough: the two conversions are longer than the terminator. -/
theorem request_eq (url data : CString) : request url data = requestText url data := by
  rw [request, format_request]
  refine List.take_of_length_le ?_
  show ("GET ".toList ++ url ++ data ++ requestTail).length ≤ _
  rw [requestFormat_eq]
  simp only [List.length_append, List.length_cons]
  omega

/-! ## The loop -/

/-- The bytes that calls take of so many which are left. -/
def bytesTaken (left : Nat) : List Nat → List Nat
  | [] => []
  | n :: counts => min n left :: bytesTaken (left - min n left) counts

theorem bytesTaken_concat (left n : Nat) (counts : List Nat) :
    bytesTaken left (counts ++ [n]) =
      bytesTaken left counts ++ [min n (left - (bytesTaken left counts).sum)] := by
  induction counts generalizing left with
  | nil => simp only [List.nil_append, bytesTaken, List.sum_nil, Nat.sub_zero]
  | cons m counts ih =>
    rw [List.cons_append, bytesTaken, ih, bytesTaken, List.cons_append, List.sum_cons,
      Nat.sub_sub]

def Writing.count? : Writing → Option Nat
  | .accept n => some n
  | _ => none

/-- The results used up are no errors, and each that accepts some bytes has taken its piece: as many
bytes as it says, unless fewer were left. -/
structure Took (text : CString) (used : List Writing) (pieces : List CString) : Prop where
  noError : .error ∉ used
  lengths : pieces.map List.length = bytesTaken text.length (used.filterMap Writing.count?)

/-- So far the pieces are the start of the request, `written` bytes of it. -/
structure Sent (text : CString) (used : List Writing) (written : Nat) (pieces : List CString) :
    Prop where
  took : Took text used pieces
  pieces : pieces.flatten = text.take written
  le : written ≤ text.length

section
variable {text : CString} {used results : List Writing} {written : Nat} {pieces : List CString}

theorem Sent.start (text : CString) : Sent text [] 0 [] :=
  ⟨⟨List.not_mem_nil, rfl⟩, rfl, Nat.zero_le _⟩

theorem Sent.length (h : Sent text used written pieces) : pieces.flatten.length = written := by
  rw [h.pieces, List.length_take, Nat.min_eq_left h.le]

theorem Sent.isPrefix (h : Sent text used written pieces) : pieces.flatten <+: text := by
  rw [h.pieces]
  exact List.take_prefix _ _

theorem Sent.accept (h : Sent text used written pieces) (n : Nat) :
    Sent text (used ++ [.accept n]) (written + min n (text.length - written))
      (pieces ++ [(text.drop written).take (min n (text.length - written))]) := by
  have hle := h.le
  have hsum : (bytesTaken text.length (used.filterMap Writing.count?)).sum = written := by
    rw [← h.took.lengths, ← List.length_flatten, h.length]
  refine ⟨⟨?_, ?_⟩, ?_, ?_⟩
  · simpa using h.took.noError
  · have hcounts : (used ++ [Writing.accept n]).filterMap Writing.count? =
        used.filterMap Writing.count? ++ [n] := by
      rw [List.filterMap_append]
      rfl
    rw [hcounts, bytesTaken_concat, hsum, List.map_append, h.took.lengths]
    simp
  · rw [List.flatten_append, h.pieces, List.flatten_singleton, List.take_add]
  · omega

theorem Sent.want (h : Sent text used written pieces) :
    Sent text (used ++ [.want]) written pieces := by
  refine ⟨⟨by simpa using h.took.noError, ?_⟩, h.pieces, h.le⟩
  rw [List.filterMap_append]
  exact h.took.lengths.trans (congrArg _ (List.append_nil _).symm)

/-- What can be said of the pieces when the loop is left, or waits. -/
def WriteOutcome.Faithful (text : CString) (results : List Writing) : WriteOutcome → Prop
  | .waiting pieces =>
    pieces.flatten <+: text ∧ pieces.flatten.length < text.length ∧ Took text results pieces
  | .done pieces rest =>
    pieces.flatten = text ∧ ∃ used, results = used ++ rest ∧ Took text used pieces
  | .failed pieces rest =>
    pieces.flatten <+: text ∧ pieces.flatten.length < text.length ∧
      ∃ used, results = used ++ .error :: rest ∧ Took text used pieces

theorem Sent.done (h : Sent text used written pieces) (hall : ¬ written < text.length)
    (results : List Writing) :
    (WriteOutcome.done pieces results).Faithful text (used ++ results) := by
  refine ⟨?_, used, rfl, h.took⟩
  rw [h.pieces]
  exact List.take_of_length_le (Nat.le_of_not_lt hall)

end

theorem writeLoop_faithful {url data : CString} {used : List Writing} {written : Nat}
    {pieces : List CString} (h : Sent (request url data) used written pieces)
    (hmore : written < (request url data).length) (results : List Writing) :
    (writeLoop url data written pieces results).Faithful (request url data) (used ++ results) := by
  induction results generalizing used written pieces with
  | nil =>
    rw [List.append_nil]
    exact ⟨h.isPrefix, h.length.trans_lt hmore, h.took⟩
  | cons w results ih =>
    cases w with
    | accept n =>
      rw [List.append_cons, writeLoop]
      split_ifs with hleft
      · exact ih (h.accept n) hleft
      · exact (h.accept n).done hleft results
    | want =>
      rw [List.append_cons, writeLoop, if_pos hmore]
      exact ih h.want hmore
    | error => exact ⟨h.isPrefix, h.length.trans_lt hmore, used, rfl, h.took⟩

theorem writeLoop_start (url data : CString) (results : List Writing) :
    (writeLoop url data 0 [] results).Faithful (requestText url data) results := by
  have hmore : 0 < (request url data).length := by
    rw [request_eq]
    simp [requestText]
  have h := writeLoop_faithful (Sent.start (request url data)) hmore results
  rwa [request_eq] at h

/-- **The request is sent whole and once.** Whatever the writes return, each result up to the end of
the loop has taken the next bytes of the request, as many as it says. When the loop is left normally
these are the whole request; before that, and when it is left at an error, which is the first one,
they are a start of it that leaves something out. -/
theorem request_sent_whole (url data : CString) (results : List Writing) :
    match writeLoop url data 0 [] results with
    | .done pieces rest => pieces.flatten = requestText url data ∧
        ∃ used, results = used ++ rest ∧ Took (requestText url data) used pieces
    | .failed pieces rest => pieces.flatten <+: requestText url data ∧
        pieces.flatten.length < (requestText url data).length ∧
          ∃ used, results = used ++ .error :: rest ∧ Took (requestText url data) used pieces
    | .waiting pieces => pieces.flatten <+: requestText url data ∧
        pieces.flatten.length < (requestText url data).length ∧
          Took (requestText url data) results pieces := by
  have h := writeLoop_start url data results
  cases hloop : writeLoop url data 0 [] results with
  | waiting pieces => rw [hloop] at h; exact h
  | done pieces rest => rw [hloop] at h; exact h
  | failed pieces rest => rw [hloop] at h; exact h

/-- A short write, a call that is to be repeated, and the rest. -/
theorem request_sent_whole_short :
    ∃ first last, writeLoop "https://h/p".toList "?a=1".toList 0 []
        [.accept 10, .want, .accept 1000] = .done [first, last] [] ∧
      first.length = 10 ∧ first ++ last = requestText "https://h/p".toList "?a=1".toList := by
  let text := requestText "https://h/p".toList "?a=1".toList
  have hloop : writeLoop "https://h/p".toList "?a=1".toList 0 [] [.accept 10, .want, .accept 1000] =
      .done [text.take 10, text.drop 10] [] := by
    decide +kernel
  have h := request_sent_whole "https://h/p".toList "?a=1".toList [.accept 10, .want, .accept 1000]
  rw [hloop] at h
  obtain ⟨hwhole, used, hused, htook⟩ := h
  refine ⟨_, _, hloop, ?_, ?_⟩
  · rw [List.append_nil] at hused
    have hlengths := htook.lengths
    rw [← hused] at hlengths
    exact (List.cons.inj hlengths).1.trans (by decide +kernel)
  · rw [← hwhole, List.flatten_cons, List.flatten_singleton]

end HomeAutomation
