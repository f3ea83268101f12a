import HomeAutomation.GoogleSheet.Bounds

/-!
# Redirects

`locationBuffer` is static and nothing clears it when a response begins, while `statusCode` is new with
every response. So it holds the last `Location` value of all responses so far
(`Sheet.LocationInv`), and a redirect goes there, whichever response it came with
(`redirects_fresh_iff`).
-/

namespace HomeAutomation

namespace ReadState
variable {s : ReadState} {incoming : List Incoming} {r : Phase × ReadState}

/-! ## Who writes `locationBuffer` -/

theorem readStep_location (h : s.readStep incoming = .ok r) :
    r.2.locationBuffer = s.locationBuffer := by
  obtain ⟨page, hpage, _⟩ := Runs.bind_eq_ok.mp h
  obtain ⟨wiped, _, _, hstep⟩ := readStep_eq (CBuffer.holds_of_strAt hpage) incoming
  rw [hstep] at h
  cases hread : connRead (pageSize - 1 - page.length) incoming with
  | mk result rest =>
    rw [hread] at h
    cases result with
    | want => cases h; rfl
    | error => cases h; rfl
    | bytes p =>
      by_cases hp : p = []
      · simp only [if_pos hp] at h
        cases h
        rfl
      · simp only [if_neg hp] at h
        obtain ⟨stored, _, h⟩ := Runs.bind_eq_ok.mp h
        obtain ⟨status, _, h⟩ := Runs.bind_eq_ok.mp h
        cases h
        rfl

theorem dropLine_location {s' : ReadState} {lineEnd : Nat} (h : s.dropLine lineEnd = .ok s') :
    s'.locationBuffer = s.locationBuffer := by
  obtain ⟨rest, _, h⟩ := Runs.bind_eq_ok.mp h
  obtain ⟨moved, _, h⟩ := Runs.bind_eq_ok.mp h
  cases h
  rfl

theorem endStatusLine_location {round : Round} (h : s.endStatusLine = .ok round) :
    (match round with | .exit s' => s' | .next s' => s').locationBuffer = s.locationBuffer := by
  obtain ⟨page, _, h⟩ := Runs.bind_eq_ok.mp h
  cases hreturn : strstr page ['\r'] with
  | none =>
    rw [hreturn] at h
    cases h
    rfl
  | some lineEnd =>
    rw [hreturn] at h
    obtain ⟨s', hdrop, h⟩ := Runs.bind_eq_ok.mp h
    cases h
    exact dropLine_location hdrop

theorem statusStep_location (h : s.statusStep incoming = .ok r) :
    r.2.locationBuffer = s.locationBuffer := by
  obtain ⟨round, hline, h⟩ := Runs.bind_eq_ok.mp h
  rw [statusLine_eq] at hline
  obtain ⟨blank, _, hline⟩ := Runs.bind_eq_ok.mp hline
  obtain ⟨status, _, hend⟩ := Runs.bind_eq_ok.mp hline
  have hlocation := endStatusLine_location hend
  cases round with
  | exit s' => cases h; exact hlocation
  | next s' => cases h; exact hlocation

/-- **Only a `Location` line writes `locationBuffer`, and it writes its value.** -/
theorem headerStep_location (h : s.headerStep incoming = .ok r) :
    match s.locationRead with
    | some v => setLocation v = .ok r.2.locationBuffer ∧ nul ∉ v
    | none => r.2.locationBuffer = s.locationBuffer := by
  cases hdone : s.doneHeaders with
  | true =>
    rw [headerStep, if_pos hdone, CBuffer.bzero_all, Runs.ok_bind, Except.ok.injEq] at h
    rw [locationRead, if_pos hdone, ← h]
  | false =>
    rw [headerStep, if_neg (by simp [hdone])] at h
    obtain ⟨round, hround, h⟩ := Runs.bind_eq_ok.mp h
    obtain ⟨page, hpage, _⟩ := Runs.bind_eq_ok.mp hround
    have hholds := CBuffer.holds_of_strAt hpage
    by_cases hstuck : strstr page [':'] = none ∨ strstr page crlf = none
    · rw [headerRound_none hholds hstuck, Except.ok.injEq] at hround
      subst hround
      cases h
      rw [locationRead_none hholds hstuck]
    · rw [not_or] at hstuck
      obtain ⟨colon, hcolon⟩ := Option.ne_none_iff_exists'.mp hstuck.1
      obtain ⟨lineEnd, hend⟩ := Option.ne_none_iff_exists'.mp hstuck.2
      obtain ⟨moved, _, heq⟩ := headerRound_some hholds hcolon hend
      rw [heq, readLocation_eq hholds hcolon hend, lineLocation_value] at hround
      obtain ⟨location, hlocation, hround⟩ := Runs.bind_eq_ok.mp hround
      cases hround
      cases h
      have hline : nul ∉ page.take lineEnd := fun hmem => hholds.1 (List.mem_of_mem_take hmem)
      rw [locationRead_line hholds hdone hcolon hend]
      cases hvalue : locationValue (page.take lineEnd) with
      | none =>
        rw [hvalue, Except.ok.injEq] at hlocation
        exact hlocation.symm
      | some v =>
        rw [hvalue] at hlocation
        exact ⟨hlocation, fun hmem => hline (mem_of_locationValue hvalue _ hmem)⟩

/-! ## Where a redirect goes -/

theorem setLocation_bytes {v : CString} {location : CBuffer locationSize}
    (h : setLocation v = .ok location) : v.length ≤ locationSize ∧
      location.bytes = v ++ List.replicate (locationSize - v.length) nul := by
  unfold setLocation at h
  split_ifs at h with hfit
  rw [Except.ok.injEq] at h
  exact ⟨hfit, h ▸ rfl⟩

theorem follow_fits {v : CString} (hset : setLocation v = .ok s.locationBuffer) (hfree : nul ∉ v)
    (hredirects : s.redirects = true) (hfit : v.length < locationSize) :
    s.follow = .ok (if 0 < v.length then .calling v [] else .idle) := by
  obtain ⟨location, hset', hholds⟩ := setLocation_holds hfit hfree
  rw [hset, Except.ok.injEq] at hset'
  rw [follow, if_pos hredirects, hset', hholds.strAt_zero, Runs.ok_bind]
  split_ifs
  · rfl
  · rfl

theorem follow_full {v : CString} (hset : setLocation v = .ok s.locationBuffer) (hfree : nul ∉ v)
    (hredirects : s.redirects = true) (hfull : ¬ v.length < locationSize) :
    s.follow = .error .outOfBounds := by
  obtain ⟨hle, hbytes⟩ := setLocation_bytes hset
  have hnone : locationSize - v.length = 0 := by omega
  rw [hnone, List.replicate_zero, List.append_nil] at hbytes
  rw [follow, if_pos hredirects, CBuffer.strAt, List.drop_zero, hbytes, if_neg hfree]
  rfl

end ReadState

namespace Sheet

/-- What follows a response is known, and the call that a redirect makes is with a `Location` value of
the response that carried the status 302. -/
def RedirectsFresh (c : Sheet) : Prop :=
  c.phase = .closed → ∃ c', c.next = .ok (some c') ∧
    ∀ url data, c'.phase = .calling url data → c.state.redirects = true ∧ url ∈ c.parsed

/-- The last `Location` value of a response with status 302 has room in `locationBuffer`; if the
response has none, the responses before it have none either, or their last one is empty. -/
def LocationCurrent (c : Sheet) : Prop :=
  c.phase = .closed → c.state.redirects = true →
    match c.parsed.getLast? with
    | some v => v.length < locationSize
    | none => c.earlier.getLast?.getD [] = []

/-- The last `Location` value of all responses up to now. -/
def lastLocation (c : Sheet) : CString := (c.earlier ++ c.parsed).getLast?.getD []

/-- `locationBuffer` holds the last `Location` value of all responses up to now. -/
structure LocationInv (c : Sheet) : Prop where
  set : setLocation c.lastLocation = .ok c.state.locationBuffer
  free : nul ∉ c.lastLocation

variable {c c' : Sheet}

theorem LocationInv.boot : boot.LocationInv := ⟨rfl, List.not_mem_nil⟩

theorem LocationInv.of_value {v : CString} (hlast : c.lastLocation = v)
    (hset : setLocation v = .ok c.state.locationBuffer) (hfree : nul ∉ v) : c.LocationInv :=
  ⟨hlast ▸ hset, hlast ▸ hfree⟩

theorem LocationInv.of_eq (h : c.LocationInv)
    (hlocation : c'.state.locationBuffer = c.state.locationBuffer)
    (hlast : c'.lastLocation = c.lastLocation) : c'.LocationInv :=
  ⟨by rw [hlocation, hlast]; exact h.set, by rw [hlast]; exact h.free⟩

theorem LocationInv.next (h : c.LocationInv) (hnext : c.next = .ok (some c')) : c'.LocationInv := by
  obtain ⟨phase, s, parsed, earlier⟩ := c
  cases phase with
  | idle => cases hnext
  | calling url data => cases hnext
  | reading incoming =>
    obtain ⟨r, hstep, hnext⟩ := Runs.bind_eq_ok.mp hnext
    cases hnext
    exact h.of_eq (ReadState.readStep_location hstep) rfl
  | statusLine incoming =>
    obtain ⟨r, hstep, hnext⟩ := Runs.bind_eq_ok.mp hnext
    cases hnext
    exact h.of_eq (ReadState.statusStep_location hstep) rfl
  | headers incoming =>
    obtain ⟨r, hstep, hnext⟩ := Runs.bind_eq_ok.mp hnext
    cases hnext
    have hlocation := ReadState.headerStep_location hstep
    cases hread : s.locationRead with
    | none =>
      rw [hread] at hlocation
      exact h.of_eq hlocation (by simp [lastLocation])
    | some v =>
      rw [hread] at hlocation
      exact .of_value (by simp [lastLocation]) hlocation.1 hlocation.2
  | closed =>
    obtain ⟨phase, hstep, hnext⟩ := Runs.bind_eq_ok.mp hnext
    cases hnext
    exact h.of_eq rfl rfl

theorem LocationInv.step (h : c.LocationInv) (hstep : Step c c') : c'.LocationInv := by
  cases hstep with
  | call url data _ => exact h.of_eq rfl rfl
  | refused _ => exact h.of_eq rfl rfl
  | unsent _ _ => exact h.of_eq rfl rfl
  | connected incoming _ _ => exact h.of_eq rfl (by simp [lastLocation, Sheet.connected])
  | next hnext => exact h.next hnext

/-- What a redirect finds in `locationBuffer` is of the present response if that has any. -/
theorem lastLocation_cases (c : Sheet) :
    match c.parsed.getLast? with
    | some v => c.lastLocation = v ∧ v ∈ c.parsed
    | none => c.lastLocation = c.earlier.getLast?.getD [] ∧ c.parsed = [] := by
  cases hlast : c.parsed.getLast? with
  | some v =>
    refine ⟨?_, List.mem_of_getLast? hlast⟩
    rw [lastLocation, List.getLast?_append, hlast]
    rfl
  | none =>
    rw [List.getLast?_eq_none_iff] at hlast
    refine ⟨?_, hlast⟩
    rw [lastLocation, hlast, List.append_nil]

theorem next_closed (hphase : c.phase = .closed) (c' : Sheet) :
    c.next = .ok (some c') ↔ ∃ phase, c.state.follow = .ok phase ∧ c' = { c with phase := phase } := by
  rw [next, hphase]
  constructor
  · intro h
    obtain ⟨phase, hfollow, h⟩ := Runs.bind_eq_ok.mp h
    rw [Except.ok.injEq, Option.some.injEq] at h
    exact ⟨phase, hfollow, h.symm⟩
  · intro h
    obtain ⟨phase, hfollow, rfl⟩ := h
    exact Runs.bind_eq_ok.mpr ⟨phase, hfollow, rfl⟩

/-- At a redirect the call is known when the last value fits, and fresh when it is of this response
or empty. -/
theorem LocationInv.redirect_iff (h : c.LocationInv) (hphase : c.phase = .closed)
    (hredirects : c.state.redirects = true) :
    (∃ c', c.next = .ok (some c') ∧
        ∀ url data, c'.phase = .calling url data → c.state.redirects = true ∧ url ∈ c.parsed) ↔
      c.lastLocation.length < locationSize ∧ (c.lastLocation = [] ∨ c.lastLocation ∈ c.parsed) := by
  have hnext := next_closed hphase
  by_cases hfit : c.lastLocation.length < locationSize
  · have hfollow := ReadState.follow_fits h.set h.free hredirects hfit
    rw [and_iff_right hfit]
    constructor
    · intro hfresh
      obtain ⟨c', hc', hcall⟩ := hfresh
      obtain ⟨phase, hphase', rfl⟩ := (hnext c').mp hc'
      rw [hfollow, Except.ok.injEq] at hphase'
      by_cases hnil : c.lastLocation = []
      · exact Or.inl hnil
      · rw [if_pos (List.length_pos_iff.mpr hnil)] at hphase'
        exact Or.inr (hcall _ _ hphase'.symm).2
    · intro hcurrent
      refine ⟨_, (hnext _).mpr ⟨_, hfollow, rfl⟩, ?_⟩
      intro url data hcall
      refine ⟨hredirects, ?_⟩
      dsimp only at hcall
      split_ifs at hcall with hpos
      rw [Phase.calling.injEq] at hcall
      exact hcall.1 ▸ hcurrent.resolve_left (List.length_pos_iff.mp hpos)
  · have hfollow := ReadState.follow_full h.set h.free hredirects hfit
    refine iff_of_false ?_ (fun hcurrent => hfit hcurrent.1)
    intro hfresh
    obtain ⟨c', hc', _⟩ := hfresh
    obtain ⟨phase, hphase', _⟩ := (hnext c').mp hc'
    rw [hfollow] at hphase'
    cases hphase'

theorem LocationInv.fresh_iff (h : c.LocationInv) : c.RedirectsFresh ↔ c.LocationCurrent := by
  unfold RedirectsFresh LocationCurrent
  refine forall_congr' fun hphase => ?_
  cases hredirects : c.state.redirects with
  | false =>
    have hfollow : c.state.follow = .ok .idle := by
      rw [ReadState.follow, if_neg (by simp [hredirects])]
    refine iff_of_true ?_ (by simp)
    refine ⟨_, (next_closed hphase _).mpr ⟨.idle, hfollow, rfl⟩, ?_⟩
    intro url data hcall
    cases hcall
  | true =>
    have hcall := h.redirect_iff hphase hredirects
    rw [hredirects] at hcall
    rw [hcall, forall_prop_of_true rfl]
    have hcases := c.lastLocation_cases
    cases hlast : c.parsed.getLast? with
    | some v =>
      rw [hlast] at hcases
      rw [hcases.1]
      exact and_iff_left (Or.inr hcases.2)
    | none =>
      rw [hlast] at hcases
      rw [hcases.1, hcases.2]
      constructor
      · intro hcurrent
        exact hcurrent.2.resolve_right List.not_mem_nil
      · intro hnil
        rw [hnil]
        exact ⟨by decide, Or.inl rfl⟩

/-- **Redirects are fresh, if and only if** every response with status 302 has a `Location` value, the
last one of at most 511 characters, or comes while the responses before it have left none. -/
theorem redirects_fresh_iff {l : List Sheet} (h : Trace Step boot l c) :
    (∀ x ∈ l ++ [c], x.RedirectsFresh) ↔ ∀ x ∈ l ++ [c], x.LocationCurrent :=
  Trace.forall_iff (Q := LocationCurrent) LocationInv.boot (fun _ _ hI _ hstep => hI.step hstep)
    (fun _ hI => hI.fresh_iff) h

/-- A response with status 302 and a `Location`. -/
def found : List Incoming :=
  [.data "HTTP/1.0 302 Found\r\nLocation: http://a/\r\n\r\n".toList (by decide +kernel)]

/-- A response with status 302 and no `Location`. -/
def foundNowhere : List Incoming :=
  [.data "HTTP/1.0 302 Found\r\n\r\n".toList (by decide +kernel)]

/-- The redirect of the first response is fresh. -/
theorem redirects_fresh_found :
    ∃ l c, Trace Step boot l c ∧ c.phase = .closed ∧ c.parsed = ["http://a/".toList] ∧
      ∀ x ∈ l ++ [c], x.RedirectsFresh := by
  have hread : ∃ c ∈ ((boot.connected found).run 5).toOption,
      c.phase = .closed ∧ c.parsed = ["http://a/".toList] := by
    decide +kernel
  have hopen : ∀ k < 5, ∀ c ∈ ((boot.connected found).run k).toOption, c.phase ≠ .closed := by
    decide +kernel
  obtain ⟨c, hc, hclosed, hparsed⟩ := hread
  obtain ⟨l, hrun, hpassed⟩ := run_trace (Runs.toOption_eq_some.mp hc)
  have htrace := (boot_connected "u".toList [] found).trans hrun
  refine ⟨_, c, htrace, hclosed, hparsed, ?_⟩
  rw [redirects_fresh_iff htrace]
  intro x hx hx'
  rcases List.mem_append.mp hx with hx | hx
  · rcases List.mem_append.mp hx with hx | hx
    · simp only [List.mem_cons, List.not_mem_nil, or_false] at hx
      rcases hx with rfl | rfl
      · cases hx'
      · cases hx'
    · obtain ⟨k, hk, hat⟩ := hpassed x hx
      exact absurd hx' (hopen k hk x (Runs.toOption_eq_some.mpr hat))
  · obtain rfl := List.mem_singleton.mp hx
    intro _
    rw [hparsed]
    show "http://a/".toList.length < locationSize
    decide +kernel

/-- The first response is followed, and the second one leads to the same place. -/
theorem redirects_stale :
    ∃ l c c', Trace Step boot l c ∧ c.phase = .closed ∧ c.parsed = [] ∧
      c.next = .ok (some c') ∧ c'.phase = .calling "http://a/".toList [] ∧ ¬ c.RedirectsFresh := by
  have hread : ∃ c₁ ∈ ((boot.connected found).run 10).toOption,
      c₁.phase = .calling "http://a/".toList [] ∧
      ∃ c₂ ∈ ((c₁.connected foundNowhere).run 4).toOption, c₂.phase = .closed ∧ c₂.parsed = [] ∧
      ∃ c₃ ∈ c₂.next.toOption.join, c₃.phase = .calling "http://a/".toList [] := by
    decide +kernel
  obtain ⟨c₁, h₁, hp₁, c₂, h₂, hp₂, hparsed, c₃, h₃, hp₃⟩ := hread
  obtain ⟨l₁, hrun₁, _⟩ := run_trace (Runs.toOption_eq_some.mp h₁)
  obtain ⟨l₂, hrun₂, _⟩ := run_trace (Runs.toOption_eq_some.mp h₂)
  have hnext := Runs.toOption_eq_some.mp (Option.join_eq_some_iff.mp h₃)
  have hfirst := ((boot_connected "u".toList [] found).trans hrun₁).tail
    (calling_connected hp₁ foundNowhere)
  refine ⟨_, c₂, c₃, hfirst.trans hrun₂, hp₂, hparsed, hnext, hp₃, ?_⟩
  intro hfresh
  obtain ⟨c', hc', hcall⟩ := hfresh hp₂
  rw [hnext, Except.ok.injEq, Option.some.injEq] at hc'
  have hmem := (hcall _ _ (hc' ▸ hp₃)).2
  rw [hparsed] at hmem
  exact List.not_mem_nil hmem

end Sheet

end HomeAutomation
