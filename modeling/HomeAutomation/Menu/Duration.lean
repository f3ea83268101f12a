import HomeAutomation.Menu.Edit

/-!
# What a duration says

`duration` is meant to write a time exactly: whole units, every field in full, so that what is shown
can be read back. It does up to an hour and from a day on. In between the limit given to `snprintf`
is shorter than every text of the range, and the least `int32_t` cannot be negated.
-/

namespace HomeAutomation

/-- A number of seconds in the unit of its range, in full. -/
def durationExact (s : Nat) : CString :=
  if s < 60 then decimal s ++ "sec".toList
  else if s < 3600 then decimal (s / 60) ++ ':' :: (twoDigits (s % 60) ++ "min".toList)
  else if s < 86400 then
    decimal (s / 3600) ++ ':' :: (twoDigits (s % 3600 / 60) ++ ':' ::
      (twoDigits (s % 60) ++ "hour".toList))
  else if s < 604800 then decimal (s / 86400) ++ "day".toList
  else decimal (s / 604800) ++ "week".toList

/-- A number of seconds down to the unit it is shown in. -/
def shownSeconds (s : Nat) : Nat :=
  if s < 86400 then s else if s < 604800 then s / 86400 * 86400 else s / 604800 * 604800

/-! ## Reading a shown time back -/

/-- What one count of a unit stands for, in seconds. -/
def unitSeconds (unit : CString) : Option Nat :=
  if unit = "sec".toList ∨ unit = "min".toList ∨ unit = "hour".toList then some 1
  else if unit = "day".toList then some 86400
  else if unit = "week".toList then some 604800
  else none

/-- The fields of a clock from the left, each worth sixty of the next. -/
def clockValue (fields : List Nat) : Nat :=
  fields.foldl (fun total field => 60 * total + field) 0

def inClock (c : Char) : Bool := c.isDigit || c == ':'

/-- The seconds a shown time stands for. -/
def readBack (text : CString) : Option Nat := do
  let unit ← unitSeconds (text.dropWhile inClock)
  let fields := (text.takeWhile inClock).splitOnP (· == ':')
  return clockValue (fields.map decimalValue) * unit

/-- A printed field of a clock. -/
structure Field (s : CString) (n : Nat) : Prop where
  digits : ∀ c ∈ s, c.isDigit = true
  value : decimalValue s = n

theorem Field.decimal (n : Nat) : Field (decimal n) n :=
  ⟨fun _ h => isDigit_of_mem_decimal h, decimalValue_decimal n⟩

theorem Field.twoDigits (n : Nat) : Field (twoDigits n) n := by
  unfold HomeAutomation.twoDigits
  split_ifs
  · refine ⟨?_, decimalValue_decimal n⟩
    intro c hc
    rcases List.mem_cons.mp hc with rfl | hc
    · rfl
    · exact isDigit_of_mem_decimal hc
  · exact Field.decimal n

theorem Field.notColon {s : CString} {n : Nat} (h : Field s n) : ∀ c ∈ s, (c == ':') = false := by
  intro c hc
  have hdigit := h.digits c hc
  by_contra hne
  rw [Bool.not_eq_false, beq_iff_eq] at hne
  rw [hne] at hdigit
  exact absurd hdigit (by decide)

/-- The text of a clock and the numbers in its fields. -/
structure Clock (text : CString) (fields : List Nat) : Prop where
  inClock : ∀ c ∈ text, inClock c = true
  fields : (text.splitOnP (· == ':')).map decimalValue = fields

theorem Clock.last {s : CString} {n : Nat} (h : Field s n) : Clock s [n] := by
  constructor
  · intro c hc
    simp [HomeAutomation.inClock, h.digits c hc]
  · rw [List.splitOnP_eq_singleton h.notColon]
    simp [h.value]

theorem Clock.cons {s text : CString} {n : Nat} {fields : List Nat} (h : Field s n)
    (hclock : Clock text fields) : Clock (s ++ ':' :: text) (n :: fields) := by
  constructor
  · intro c hc
    rcases List.mem_append.mp hc with hc | hc
    · simp [HomeAutomation.inClock, h.digits c hc]
    rcases List.mem_cons.mp hc with rfl | hc
    · rfl
    · exact hclock.inClock c hc
  · rw [List.splitOnP_append_cons_of_forall_mem h.notColon ':' (by simp)]
    simp [h.value, hclock.fields]

theorem Clock.readBack {clock unit : CString} {fields : List Nat} {n : Nat}
    (h : Clock clock fields) (hunit : unitSeconds unit = some n)
    (hhead : unit.head?.any HomeAutomation.inClock = false) :
    readBack (clock ++ unit) = some (clockValue fields * n) := by
  have hfree : unit.takeWhile HomeAutomation.inClock = [] ∧
      unit.dropWhile HomeAutomation.inClock = unit := by
    cases unit with
    | nil => exact ⟨rfl, rfl⟩
    | cons c unit =>
      have hc : HomeAutomation.inClock c = false := hhead
      exact ⟨by rw [List.takeWhile_cons, hc]; rfl, by rw [List.dropWhile_cons, hc]; rfl⟩
  have htake : (clock ++ unit).takeWhile HomeAutomation.inClock = clock := by
    rw [List.takeWhile_append_of_pos h.inClock, hfree.1, List.append_nil]
  have hdrop : (clock ++ unit).dropWhile HomeAutomation.inClock = unit := by
    rw [List.dropWhile_append_of_pos h.inClock, hfree.2]
  simp [HomeAutomation.readBack, hdrop, htake, hunit, h.fields]

/-- **A time in full can be read back**, down to the unit it is shown in. -/
theorem readBack_durationExact (s : Nat) : readBack (durationExact s) = some (shownSeconds s) := by
  unfold durationExact shownSeconds
  split_ifs with hmin hhour hday hweek
  any_goals omega
  · rw [(Clock.last (Field.decimal s)).readBack rfl (by decide)]
    simp [clockValue]
  · have hclock := Clock.cons (Field.decimal (s / 60)) (Clock.last (Field.twoDigits (s % 60)))
    rw [show decimal (s / 60) ++ ':' :: (twoDigits (s % 60) ++ "min".toList) =
        (decimal (s / 60) ++ ':' :: twoDigits (s % 60)) ++ "min".toList by simp,
      hclock.readBack rfl (by decide)]
    simp only [clockValue, List.foldl_cons, List.foldl_nil, Option.some.injEq]
    omega
  · have hclock := Clock.cons (Field.decimal (s / 3600))
      (Clock.cons (Field.twoDigits (s % 3600 / 60)) (Clock.last (Field.twoDigits (s % 60))))
    rw [show decimal (s / 3600) ++ ':' :: (twoDigits (s % 3600 / 60) ++ ':' ::
          (twoDigits (s % 60) ++ "hour".toList)) =
        (decimal (s / 3600) ++ ':' :: (twoDigits (s % 3600 / 60) ++ ':' :: twoDigits (s % 60))) ++
          "hour".toList by simp,
      hclock.readBack rfl (by decide)]
    simp only [clockValue, List.foldl_cons, List.foldl_nil, Option.some.injEq]
    omega
  · rw [(Clock.last (Field.decimal (s / 86400))).readBack rfl (by decide)]
    simp [clockValue]
  · rw [(Clock.last (Field.decimal (s / 604800))).readBack rfl (by decide)]
    simp [clockValue]

/-! ## Where `duration` writes the text in full -/

theorem decimal_length_pos (n : Nat) : 0 < (decimal n).length :=
  List.length_pos_iff.mpr (decimal_ne_nil n)

theorem decimal_length_le {n k : Nat} (hk : 0 < k) (h : n < 10 ^ k) : (decimal n).length ≤ k :=
  (Nat.length_toDigits_le_iff (by decide) hk).mpr h

theorem twoDigits_length {n : Nat} (h : n < 100) : (twoDigits n).length = 2 := by
  have hpos := decimal_length_pos n
  have hle : (decimal n).length ≤ 2 := decimal_length_le (by decide) h
  have hone : (decimal n).length ≤ 1 ↔ n < 10 := Nat.length_toDigits_le_iff (by decide) (by decide)
  unfold twoDigits
  split_ifs with hlt
  · rw [List.length_cons]
    omega
  · omega

/-- What is printed as a clock goes through `snprintf`, the rest does not. -/
theorem durationText_eq (s : Nat) :
    durationText s =
      if s < 60 then durationExact s
      else if s < 86400 then snprintf 10 (durationExact s)
      else if s < 2419200 then durationExact s
      else decimal (s / 2419200) ++ "month".toList := by
  unfold durationText durationExact
  simp only [show 60 * 60 = 3600 from rfl, show 24 * 3600 = 86400 from rfl,
    show 7 * 24 * 60 * 60 = 604800 from rfl,
    show 4 * 7 * 24 * 60 * 60 = 2419200 from rfl, List.append_assoc]
  split_ifs <;> first | rfl | omega

theorem minText_length {s : Nat} (hmin : 60 ≤ s) (hhour : s < 3600) :
    (durationExact s).length < 10 := by
  rw [durationExact, if_neg (by omega), if_pos hhour]
  have hlen : (decimal (s / 60)).length ≤ 2 := decimal_length_le (by decide) (by omega)
  have hsec := twoDigits_length (show s % 60 < 100 by omega)
  have hunit : "min".toList.length = 3 := rfl
  simp only [List.length_append, List.length_cons, hsec, hunit]
  omega

/-- Every hour text is longer than what `snprintf` leaves of it. -/
theorem hourText_length {s : Nat} (hhour : 3600 ≤ s) (hday : s < 86400) :
    10 ≤ (durationExact s).length := by
  rw [durationExact, if_neg (by omega), if_neg (by omega), if_pos hday]
  have hpos := decimal_length_pos (s / 3600)
  have hmin := twoDigits_length (show s % 3600 / 60 < 100 by omega)
  have hsec := twoDigits_length (show s % 60 < 100 by omega)
  have hunit : "hour".toList.length = 4 := rfl
  simp only [List.length_append, List.length_cons, hmin, hsec, hunit]
  omega

theorem snprintf_eq_iff {n : Nat} (hn : 0 < n) (s : CString) :
    snprintf n s = s ↔ s.length < n := by
  constructor
  · intro h
    have hlen := congrArg List.length h
    rw [snprintf, List.length_take] at hlen
    omega
  · intro h
    exact List.take_of_length_le (by omega)

/-- Below four weeks the text is in full outside the hours, and never inside them. -/
theorem durationText_exact_iff {s : Nat} (h : s < 2419200) :
    durationText s = durationExact s ↔ s < 3600 ∨ 86400 ≤ s := by
  rw [durationText_eq]
  split_ifs with hmin hday
  · exact iff_of_true rfl (by omega)
  · rw [snprintf_eq_iff (by decide)]
    constructor
    · intro hlen
      by_contra hhour
      have := hourText_length (s := s) (by omega) hday
      omega
    · intro hhour
      exact minText_length (by omega) (by omega)
  · exact iff_of_true rfl (by omega)

/-- `duration` writes the time of `v` in full, without a fault, so that it can be read back. -/
def RendersExactly (v : Int) : Prop :=
  ∃ text, duration v = .ok text ∧ text = durationExact (v.natAbs / 1000) ∧
    readBack text = some (shownSeconds (v.natAbs / 1000))

/-- **When a duration is exact.** Of the values of an `int32_t` all but the least are shown in full
and can be read back, save the ones from an hour up to a day. -/
theorem duration_exact_iff {v : Int} (hlo : -2 ^ 31 ≤ v) (hhi : v < 2 ^ 31) :
    RendersExactly v ↔ v ≠ -2 ^ 31 ∧ (v.natAbs / 1000 < 3600 ∨ 86400 ≤ v.natAbs / 1000) := by
  by_cases hleast : v = -2 ^ 31
  · subst hleast
    refine iff_of_false ?_ (by simp)
    rintro ⟨text, htext, _⟩
    exact absurd htext (by simp [duration, int32, Bind.bind, Except.bind])
  · have hs : v.natAbs / 1000 < 2419200 := by omega
    rw [RendersExactly, duration_ok (by omega) hhi]
    constructor
    · rintro ⟨text, htext, hexact, _⟩
      rw [Except.ok.injEq] at htext
      exact ⟨hleast, (durationText_exact_iff hs).mp (htext.trans hexact)⟩
    · rintro ⟨_, hrange⟩
      have hexact := (durationText_exact_iff hs).mpr hrange
      exact ⟨_, rfl, hexact, by rw [hexact, readBack_durationExact]⟩

theorem duration_exact_day : RendersExactly (-172800000) :=
  (duration_exact_iff (by decide) (by decide)).mpr (by decide)

/-- One hour is shown as `1:00:00ho`. -/
theorem duration_hour_cut :
    duration 3600000 = .ok "1:00:00ho".toList ∧ ¬ RendersExactly 3600000 := by
  have htext : duration 3600000 = .ok "1:00:00ho".toList := by decide
  refine ⟨htext, ?_⟩
  rintro ⟨text, hok, hexact, _⟩
  rw [htext, Except.ok.injEq] at hok
  rw [← hok] at hexact
  exact absurd hexact (by decide)

end HomeAutomation
