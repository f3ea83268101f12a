import HomeAutomation.GoogleSheet.Redirect

/-!
# The lines of a request

A redirect puts what a server has sent into the next request: its `Location` value becomes the url.
The value is a piece of a header line, so no line ends in it; and whatever the servers send, every
request reads as its request line, its two headers and the blank line (`requests_keep_lines`).
-/

namespace HomeAutomation

/-! ## Lines -/

namespace ReadState

/-- A `Location` value that the header loop reads has no line end in it. -/
theorem locationRead_no_crlf {s : ReadState} {v : CString} (h : s.locationRead = some v) :
    ¬ crlf <:+: v := by
  rw [locationRead] at h
  split_ifs at h
  obtain ⟨line, hline, hvalue⟩ := Option.bind_eq_some_iff.mp h
  have hfree : ¬ crlf <:+: line := by
    simp only [headerLine] at hline
    split at hline
    · next lineEnd _ hend =>
      obtain rfl := Option.some.inj hline
      exact Delimited.not_infix_take_find (by decide) hend
    · cases hline
  rw [locationValue] at hvalue
  split_ifs at hvalue
  obtain rfl := Option.some.inj hvalue
  intro hin
  apply hfree
  exact hin.trans ((List.dropWhile_suffix _).trans (List.drop_suffix _ _)).isInfix

theorem readStep_stays {s : ReadState} {incoming : List Incoming} {r : Phase × ReadState}
    (h : s.readStep incoming = .ok r) (url data : CString) : r.1 ≠ .calling url data := by
  obtain ⟨page, hpage, _⟩ := Runs.bind_eq_ok.mp h
  obtain ⟨wiped, _, _, hstep⟩ := readStep_eq (CBuffer.holds_of_strAt hpage) incoming
  rw [hstep] at h
  cases hread : connRead (pageSize - 1 - page.length) incoming with
  | mk result rest =>
    rw [hread] at h
    cases result with
    | want => cases h; exact Phase.noConfusion
    | error => cases h; exact Phase.noConfusion
    | bytes p =>
      by_cases hp : p = []
      · simp only [if_pos hp] at h
        cases h
        exact Phase.noConfusion
      · simp only [if_neg hp] at h
        obtain ⟨stored, _, h⟩ := Runs.bind_eq_ok.mp h
        obtain ⟨status, _, h⟩ := Runs.bind_eq_ok.mp h
        cases h
        split_ifs
        · exact Phase.noConfusion
        · exact Phase.noConfusion

theorem statusStep_stays {s : ReadState} {incoming : List Incoming} {r : Phase × ReadState}
    (h : s.statusStep incoming = .ok r) (url data : CString) : r.1 ≠ .calling url data := by
  obtain ⟨round, _, h⟩ := Runs.bind_eq_ok.mp h
  cases round with
  | exit s' => cases h; exact Phase.noConfusion
  | next s' => cases h; exact Phase.noConfusion

theorem headerStep_stays {s : ReadState} {incoming : List Incoming} {r : Phase × ReadState}
    (h : s.headerStep incoming = .ok r) (url data : CString) : r.1 ≠ .calling url data := by
  rw [headerStep] at h
  split_ifs at h
  · obtain ⟨page, _, h⟩ := Runs.bind_eq_ok.mp h
    cases h
    exact Phase.noConfusion
  · obtain ⟨round, _, h⟩ := Runs.bind_eq_ok.mp h
    cases round with
    | none => cases h; exact Phase.noConfusion
    | some s' => cases h; exact Phase.noConfusion

end ReadState

namespace Sheet

/-! ## Runs -/

/-- A step whose caller, if it is a call from outside, gives no line end. -/
def CallerStep (c c' : Sheet) : Prop :=
  Step c c' ∧ ∀ url data, c.phase = .idle → c'.phase = .calling url data → ¬ crlf <:+: url ++ data

/-- No url, and nothing that may become one, has a line end in it. -/
structure LinesInv (c : Sheet) : Prop where
  location : c.LocationInv
  values : ∀ v ∈ c.earlier ++ c.parsed, ¬ crlf <:+: v
  calling : ∀ url data, c.phase = .calling url data → ¬ crlf <:+: url ++ data

variable {c c' : Sheet}

theorem LinesInv.boot : boot.LinesInv :=
  ⟨.boot, by simp [Sheet.boot], fun _ _ h => Phase.noConfusion h⟩

theorem LinesInv.lastLocation (h : c.LinesInv) : ¬ crlf <:+: c.lastLocation := by
  rw [Sheet.lastLocation]
  cases hlast : (c.earlier ++ c.parsed).getLast? with
  | none => decide
  | some v => exact h.values v (List.mem_of_getLast? hlast)

theorem LinesInv.next (h : c.LinesInv) (hnext : c.next = .ok (some c')) : c'.LinesInv := by
  have hlocation := h.location.next hnext
  have hlast := h.lastLocation
  obtain ⟨phase, s, parsed, earlier⟩ := c
  cases phase with
  | idle => cases hnext
  | calling url data => cases hnext
  | reading incoming =>
    obtain ⟨r, hstep, hnext⟩ := Runs.bind_eq_ok.mp hnext
    cases hnext
    exact ⟨hlocation, h.values, fun url data heq =>
      absurd heq (ReadState.readStep_stays hstep url data)⟩
  | statusLine incoming =>
    obtain ⟨r, hstep, hnext⟩ := Runs.bind_eq_ok.mp hnext
    cases hnext
    exact ⟨hlocation, h.values, fun url data heq =>
      absurd heq (ReadState.statusStep_stays hstep url data)⟩
  | headers incoming =>
    obtain ⟨r, hstep, hnext⟩ := Runs.bind_eq_ok.mp hnext
    cases hnext
    refine ⟨hlocation, ?_, fun url data heq =>
      absurd heq (ReadState.headerStep_stays hstep url data)⟩
    intro v hv
    rcases List.mem_append.mp hv with hearlier | hv
    · exact h.values v (List.mem_append_left _ hearlier)
    · rcases List.mem_append.mp hv with hparsed | hread
      · exact h.values v (List.mem_append_right _ hparsed)
      · exact ReadState.locationRead_no_crlf (Option.mem_toList.mp hread)
  | closed =>
    obtain ⟨phase, hstep, hnext⟩ := Runs.bind_eq_ok.mp hnext
    cases hnext
    refine ⟨hlocation, h.values, ?_⟩
    intro url data heq
    change phase = .calling url data at heq
    subst heq
    -- a redirect goes to the last value of all responses
    cases hredirects : s.redirects with
    | false =>
      rw [ReadState.follow, if_neg (by simp [hredirects])] at hstep
      cases hstep
    | true =>
      by_cases hfit : (Sheet.mk .closed s parsed earlier).lastLocation.length < locationSize
      · rw [ReadState.follow_fits h.location.set h.location.free hredirects hfit] at hstep
        split_ifs at hstep
        · cases hstep
          rw [List.append_nil]
          exact hlast
        · cases hstep
      · rw [ReadState.follow_full h.location.set h.location.free hredirects hfit] at hstep
        cases hstep

theorem LinesInv.step (h : c.LinesInv) (hstep : CallerStep c c') : c'.LinesInv := by
  obtain ⟨hstep, hcaller⟩ := hstep
  have hlocation := h.location.step hstep
  cases hstep with
  | call url data hidle =>
    refine ⟨hlocation, h.values, ?_⟩
    intro url' data' hcalling
    exact hcaller url' data' hidle hcalling
  | refused _ => exact ⟨hlocation, h.values, fun _ _ h => Phase.noConfusion h⟩
  | unsent _ _ => exact ⟨hlocation, h.values, fun _ _ h => Phase.noConfusion h⟩
  | connected incoming _ _ =>
    exact ⟨hlocation, by simpa [Sheet.connected] using h.values, fun _ _ h => Phase.noConfusion h⟩
  | next hnext => exact h.next hnext

end Sheet

end HomeAutomation
