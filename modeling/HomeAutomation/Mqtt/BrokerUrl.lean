import HomeAutomation.CBuffer
import HomeAutomation.Lib.Runs

/-!
# The broker's address from the console (`mqtt_app_start`)

With `CONFIG_BROKER_URL_FROM_STDIN` the address is typed in. The loop stores what is typed up to the
line feed, and stops without a terminator when `line` is full; the loop itself stays inside `line`,
but the `printf` behind it then reads on behind the end of `line`, before the client library would.
Which of the two happens, and what address is read, is `brokerUrl_eq`.
-/

namespace HomeAutomation

/-- `sizeof(line)`. -/
def lineSize : Nat := 128

/-- The line feed, as `fgetc` returns it. -/
def lineFeed : Int := 10

/-- `c > 0 && c < 127`. -/
def keeps (c : Int) : Bool := 0 < c && c < 127

/-- A result of `fgetc` in a `char`. -/
def toChar (c : Int) : Char := Char.ofNat c.toNat

/-- The loop of `mqtt_app_start`, given the results of `fgetc` so far; `none` when it is not over. -/
def readLine (line : CBuffer lineSize) (count : Nat) :
    List Int → Except Fault (Option (CBuffer lineSize))
  | [] => .ok (if count < lineSize then none else some line)
  | c :: input =>
    if count < lineSize then
      if c = lineFeed then do
        let line ← line.store count [nul]
        .ok (some line)
      else if keeps c then do
        let line ← line.store count [toChar c]
        readLine line (count + 1) input
      else readLine line count input
    else .ok (some line)

/-- `printf("Broker url: %s\n", line)`. -/
def printBroker (line : CBuffer lineSize) : Except Fault CString := do
  let url ← line.strAt 0
  .ok ("Broker url: ".toList ++ url ++ ['\n'])

/-- When the loop is over, the text that is printed and the address that `esp_mqtt_client_init` reads
from `line`. -/
def brokerUrl (line : CBuffer lineSize) (input : List Int) :
    Except Fault (Option (CString × CString)) := do
  match ← readLine line 0 input with
  | none => .ok none
  | some line =>
    let printed ← printBroker line
    let uri ← line.strAt 0
    .ok (some (printed, uri))

/-- What is kept of the first line of the input. -/
def typed (input : List Int) : CString :=
  ((input.takeWhile (· ≠ lineFeed)).filter keeps).map toChar

/-! ## The loop -/

/-- `line` starts with what has been kept so far. -/
structure Keeps (line : CBuffer lineSize) (text : CString) : Prop where
  start : line.bytes.take text.length = text
  fits : text.length ≤ lineSize
  free : nul ∉ text

theorem toChar_ne_nul {c : Int} (h : keeps c = true) : toChar c ≠ nul := by
  simp only [keeps, Bool.and_eq_true, decide_eq_true_eq] at h
  have hall : ∀ n < 127, 0 < n → Char.ofNat n ≠ nul := by decide
  exact hall c.toNat (by omega) (by omega)

theorem Keeps.store {line : CBuffer lineSize} {text : CString} (h : Keeps line text)
    (hroom : text.length < lineSize) (ch : Char) :
    ∃ line', line.store text.length [ch] = .ok line' ∧
      line'.bytes = text ++ [ch] ++ line.bytes.drop (text.length + 1) := by
  obtain ⟨line', hstore, hbytes⟩ := CBuffer.store_ok (b := line) (i := text.length) (p := [ch])
    (by rw [List.length_singleton]; omega)
  rw [h.start] at hbytes
  exact ⟨line', hstore, hbytes⟩

theorem Keeps.concat {line line' : CBuffer lineSize} {text : CString} (h : Keeps line text)
    (hroom : text.length < lineSize) {ch : Char} (hch : ch ≠ nul) {tail : List Char}
    (hbytes : line'.bytes = text ++ [ch] ++ tail) : Keeps line' (text ++ [ch]) := by
  refine ⟨?_, ?_, ?_⟩
  · rw [hbytes, List.take_left]
  · rw [List.length_append, List.length_singleton]
    omega
  · rw [List.mem_append, List.mem_singleton, not_or]
    exact ⟨h.free, hch.symm⟩

theorem typed_cons_keeps {c : Int} {input : List Int} (hfeed : c ≠ lineFeed)
    (hkeeps : keeps c = true) : typed (c :: input) = toChar c :: typed input := by
  simp [typed, hfeed, hkeeps]

theorem typed_cons_skips {c : Int} {input : List Int} (hfeed : c ≠ lineFeed)
    (hskips : ¬ keeps c = true) : typed (c :: input) = typed input := by
  simp [typed, hfeed, hskips]

theorem Keeps.full {line : CBuffer lineSize} {text : CString} (h : Keeps line text)
    (hfull : ¬ text.length < lineSize) : nul ∉ line.bytes := by
  have hbytes : line.bytes = text := by
    have hstart := h.start
    rw [List.take_of_length_le (by rw [line.size]; omega)] at hstart
    exact hstart
  rw [hbytes]
  exact h.free

/-- What the loop leaves: nothing as long as it is not over, and otherwise a line without an end, where
the text fills it, or one that holds the text. -/
def Leaves (text : CString) (input : List Int) (r : Option (CBuffer lineSize)) : Prop :=
  if lineSize ≤ text.length then ∃ line, r = some line ∧ nul ∉ line.bytes
  else if lineFeed ∈ input then ∃ line, r = some line ∧ line.Holds text
  else r = none

/-- **The loop stays inside `line`**, from wherever it is. -/
theorem readLine_ok {line : CBuffer lineSize} {text : CString} (h : Keeps line text)
    (input : List Int) :
    ∃ r, readLine line text.length input = .ok r ∧ Leaves (text ++ typed input) input r := by
  induction input generalizing line text with
  | nil =>
    have htyped : text ++ typed [] = text := List.append_nil text
    rw [readLine, htyped]
    refine ⟨_, rfl, ?_⟩
    unfold Leaves
    by_cases hroom : text.length < lineSize
    · rw [if_pos hroom, if_neg (by omega), if_neg List.not_mem_nil]
    · rw [if_neg hroom, if_pos (by omega)]
      exact ⟨line, rfl, h.full hroom⟩
  | cons c input ih =>
    rw [readLine]
    by_cases hroom : text.length < lineSize
    · rw [if_pos hroom]
      by_cases hfeed : c = lineFeed
      · -- the terminator is stored and the loop left
        obtain ⟨line', hstore, hbytes⟩ := h.store hroom nul
        have hholds : line'.Holds text :=
          ⟨h.free, line.bytes.drop (text.length + 1), by rw [hbytes]; simp⟩
        have htyped : text ++ typed (c :: input) = text := by simp [typed, hfeed]
        rw [if_pos hfeed, hstore, Runs.ok_bind, htyped]
        refine ⟨_, rfl, ?_⟩
        rw [Leaves, if_neg (by omega), if_pos (by simp [hfeed])]
        exact ⟨line', rfl, hholds⟩
      · have hmem : lineFeed ∈ c :: input ↔ lineFeed ∈ input := by
          rw [List.mem_cons, or_iff_right (Ne.symm hfeed)]
        rw [if_neg hfeed]
        simp only [Leaves, hmem]
        by_cases hkeeps : keeps c = true
        · obtain ⟨line', hstore, hbytes⟩ := h.store hroom (toChar c)
          have hnext := ih (h.concat hroom (toChar_ne_nul hkeeps) hbytes)
          rw [List.length_append, List.length_singleton, List.append_assoc,
            List.singleton_append] at hnext
          rw [if_pos hkeeps, hstore, Runs.ok_bind, typed_cons_keeps hfeed hkeeps]
          exact hnext
        · rw [if_neg hkeeps, typed_cons_skips hfeed hkeeps]
          exact ih h
    · rw [if_neg hroom]
      have hfull : lineSize ≤ (text ++ typed (c :: input)).length := by
        rw [List.length_append]
        omega
      refine ⟨_, rfl, ?_⟩
      rw [Leaves, if_pos hfull]
      exact ⟨line, rfl, h.full hroom⟩

/-- **The address that is read**, for every input: the loop stays inside `line`; what comes behind it
reads behind the end of `line` when 128 characters are kept before a line feed comes, and otherwise
reads what was kept of the line. -/
theorem brokerUrl_eq (line : CBuffer lineSize) (input : List Int) :
    (∃ r, readLine line 0 input = .ok r ∧
      (lineSize ≤ (typed input).length → ∃ full, r = some full ∧
        printBroker full = .error .outOfBounds)) ∧
    brokerUrl line input =
      if lineSize ≤ (typed input).length then .error .outOfBounds
      else if lineFeed ∈ input then
        .ok (some ("Broker url: ".toList ++ typed input ++ ['\n'], typed input))
      else .ok none := by
  have hstart : Keeps line [] := ⟨rfl, Nat.zero_le _, List.not_mem_nil⟩
  obtain ⟨r, hread, hleaves⟩ := readLine_ok hstart input
  rw [List.length_nil] at hread
  rw [List.nil_append] at hleaves
  rw [brokerUrl, hread, Runs.ok_bind]
  unfold Leaves at hleaves
  split_ifs at hleaves ⊢ with hfull hfeed
  · obtain ⟨full, rfl, hnul⟩ := hleaves
    have hprint : printBroker full = .error .outOfBounds := by
      rw [printBroker, CBuffer.strAt, List.drop_zero, if_neg hnul]
      rfl
    exact ⟨⟨_, rfl, fun _ => ⟨full, rfl, hprint⟩⟩, by simp only [hprint, Runs.error_bind]⟩
  · obtain ⟨ended, rfl, hholds⟩ := hleaves
    refine ⟨⟨_, rfl, fun h => absurd h hfull⟩, ?_⟩
    simp only [printBroker, hholds.strAt_zero, Runs.ok_bind]
  · subst hleaves
    exact ⟨⟨_, rfl, fun h => absurd h hfull⟩, rfl⟩

end HomeAutomation
