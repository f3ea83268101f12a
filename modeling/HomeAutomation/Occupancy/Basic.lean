import HomeAutomation.CString

/-!
# Occupancy by button presses (`occupancy.cpp`)

A press sets the device occupied and restarts the period; the first update that finds the period
over clears it. An `int32_t` of this file is its 32 bits: the deadline is their sum, and the
comparison with `millis()` is one of unsigned numbers.
-/

namespace HomeAutomation

/-- `VALID_TIME_BUTTON_PRESS`. -/
def validTimeButtonPress : Nat := 10000

/-- `OCCUPANCY_VIA_BUTTON`. -/
def occupancyViaButton : CString := "7abr/occupancy/switchChange/heatingControler".toList

/-- The static variables of `occupancy.cpp` that change. -/
structure Occupancy where
  timeoutLastSet : BitVec 32
  currentOccupancy : Nat
  deriving DecidableEq

/-- The variable `timeout`, which nothing sets. -/
def timeout : BitVec 32 := BitVec.ofNat 32 validTimeButtonPress

/-- A topic and a payload given to `mqtt_publish`. -/
abbrev Publication := CString × CString

/-- What `occupancy_set` publishes. -/
def stateTrue : Publication :=
  (occupancyViaButton,
    snprintf 50 ("state:true,trueFor:".toList ++ decimalInt validTimeButtonPress))

/-- What `occupancy_update` publishes at the end of a period. -/
def stateFalse : Publication := (occupancyViaButton, "state:false,trueFor:undefined".toList)

namespace Occupancy

/-- The variables as they are initialised. -/
def boot : Occupancy := ⟨-BitVec.ofNat 32 validTimeButtonPress, 1⟩

/-- `occupancy_set` when `millis()` is `now`: the variables afterwards, and what was published. -/
def set (now : BitVec 32) : Occupancy × List Publication := (⟨now, 1⟩, [stateTrue])

/-- The second `if` of `occupancy_update`. -/
def expire (o : Occupancy) (now : BitVec 32) : Occupancy × List Publication :=
  if o.timeoutLastSet + timeout < now ∧ o.currentOccupancy ≠ 0 then
    ({ o with currentOccupancy := 0 }, [stateFalse])
  else (o, [])

/-- `occupancy_update`: `press` is `millis()` as `occupancy_set` reads it when a button was pressed,
`now` is `millis()` in the comparison. -/
def update (o : Occupancy) (press : Option (BitVec 32)) (now : BitVec 32) :
    Occupancy × List Publication :=
  match press with
  | some t =>
    let (o, published) := set t
    let (o, published') := o.expire now
    (o, published ++ published')
  | none => o.expire now

end Occupancy

/-- A call of `occupancy_update`, with the true times at which it reads the clock. -/
structure Update where
  press : Option Nat
  now : Nat

/-- When an update reads the clock first. -/
def Update.start (u : Update) : Nat := u.press.getD u.now

namespace Occupancy

/-- An update in true time. -/
def step (o : Occupancy) (u : Update) : Occupancy × List Publication :=
  o.update (u.press.map (BitVec.ofNat 32)) (BitVec.ofNat 32 u.now)

/-- The variables after a run from start-up. -/
def run (updates : List Update) : Occupancy := updates.foldl (fun o u => (o.step u).1) boot

/-- What the next update publishes. -/
def published (updates : List Update) (u : Update) : List Publication := ((run updates).step u).2

theorem run_concat (updates : List Update) (u : Update) :
    run (updates ++ [u]) = ((run updates).step u).1 := by
  rw [run, List.foldl_append]
  rfl

end Occupancy

/-- The times at which the updates of a run read the clock do not decrease. -/
def Chronological (updates : List Update) : Prop :=
  (∀ u ∈ updates, u.start ≤ u.now) ∧ updates.Pairwise (fun u v => u.now ≤ v.start)

end HomeAutomation
