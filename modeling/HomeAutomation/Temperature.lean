import HomeAutomation.Buffer.Read

/-!
# The average temperature (`temperature.cpp`)

`Temperature::average` adds up the `temperature` fields of a snapshot of all sensor topics. The
readings are what `strtod` makes of the fields, in exact arithmetic.
-/

namespace HomeAutomation

/-- The filter of `Temperature::average`. -/
def temperatureFilter : CString := "7abr/sensor/temperature/#".toList

def temperatureKey : CString := "temperature".toList

/-- `Temperature::average`: the store afterwards, and the mean, which is no number when there are no
readings. -/
def temperatureAverage (strtod : CString → Rat) (b : Buffer) :
    Except Fault (Buffer × Option Rat) := do
  let (b, mapCopy) ← mqttBufferGetMatching b temperatureFilter
  let temperatureCount := flatmapGetEntryCount mapCopy
  let totalTemperature ← forEntries mapCopy
    (fun totalTemperature entry =>
      match entry.content with
      | none => .error .nullDeref
      | some fields => do
        let result ← resultContent fields temperatureKey
        .ok (totalTemperature + strtod result))
    0
  .ok (b, if temperatureCount = 0 then none else some (totalTemperature / temperatureCount))

/-- One round of the loop, on the fields of a topic. -/
def addReading (strtod : CString → Rat) (total : Rat) (entry : CString × Fields) : Except Fault Rat :=
  match entry.2.lookup temperatureKey with
  | none => .error .nullDeref
  | some v => .ok (total + strtod v)

theorem trim_temperatureKey : trim temperatureKey = temperatureKey := by decide

theorem temperatureAverage_holds (strtod : CString → Rat) {b : Buffer} {s : Store}
    (h : BufferHolds b s) (hfits : s.Fits) :
    ∃ b', BufferHolds b' s ∧ temperatureAverage strtod b =
      (s.matching temperatureFilter).entries.foldlM (addReading strtod) 0 >>= fun total =>
        .ok (b', if (s.matching temperatureFilter).size = 0 then none
          else some (total / (s.matching temperatureFilter).size)) := by
  obtain ⟨b', copy, hget, _, hb', h', hcopy⟩ := mqttBufferGetMatching_holds h hfits temperatureFilter
  refine ⟨b', BufferHolds.of_holds hb' h', ?_⟩
  simp only [temperatureAverage, hget, Runs.ok_bind, hcopy.count]
  congr 1
  refine forEntries_eq_foldlM hcopy (addReading strtod) ?_ 0
  intro total t m f hm
  show (do let result ← resultContent m temperatureKey; Except.ok (total + strtod result)) = _
  rw [resultContent_holds hm, trim_temperatureKey, addReading]
  cases f.lookup temperatureKey <;> rfl

/-- The loop reads through a null pointer at the first topic without the field. -/
theorem foldlM_addReading_null (strtod : CString → Rat) (l : List (CString × Fields)) (total : Rat) :
    l.foldlM (addReading strtod) total = .error .nullDeref ↔
      ∃ e ∈ l, e.2.lookup temperatureKey = none := by
  induction l generalizing total with
  | nil => simp [pure, Except.pure]
  | cons e l ih =>
    rw [List.foldlM_cons, addReading]
    cases hv : e.2.lookup temperatureKey with
    | none => simp [hv]
    | some v =>
      simp only [Runs.ok_bind]
      rw [ih]
      simp [hv]

theorem temperatureAverage_null_iff (strtod : CString → Rat) {b : Buffer} {s : Store}
    (h : BufferHolds b s) (hfits : s.Fits) :
    temperatureAverage strtod b = .error .nullDeref ↔
      ∃ e ∈ (s.matching temperatureFilter).entries, e.2.lookup temperatureKey = none := by
  obtain ⟨b', _, heq⟩ := temperatureAverage_holds strtod h hfits
  rw [heq, ← foldlM_addReading_null strtod _ 0]
  cases (s.matching temperatureFilter).entries.foldlM (addReading strtod) 0 with
  | error e => simp
  | ok total => simp

end HomeAutomation
