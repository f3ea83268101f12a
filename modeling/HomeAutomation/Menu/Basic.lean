import HomeAutomation.Buffer.Read
import HomeAutomation.Mqtt.Client

/-!
# The override button (`menu.cpp`)

The title of button 1 shows how long the heating is forced on or off. Up and Down edit a value in
milliseconds, positive for on; Apply publishes it, Cancel takes it back. `updateButton1` refreshes
the title from the stored override message and the clock. An `int32_t` is an integer, and a sum or
product that is none is a fault.
-/

namespace HomeAutomation

/-- `HEATING_CONTROL`. -/
def heatingControl : CString := "7abr/heating/switch/override".toList

def forMsKey : CString := "forMs".toList

/-- An `int32_t` expression with the value `i`. -/
def int32 (i : Int) : Except Fault Int :=
  if -2 ^ 31 ≤ i ∧ i < 2 ^ 31 then .ok i else .error .overflow

/-- `%02d` of a number that is not negative. -/
def twoDigits (n : Nat) : CString := if n < 10 then '0' :: decimal n else decimal n

/-- The text of `duration` for a number of seconds. -/
def durationText (value : Nat) : CString :=
  if value < 60 then decimal value ++ "sec".toList
  else if value < 60 * 60 then
    snprintf 10 (decimal (value / 60) ++ ":".toList ++ twoDigits (value % 60) ++ "min".toList)
  else if value < 24 * 60 * 60 then
    snprintf 10 (decimal (value / (60 * 60)) ++ ":".toList ++
      twoDigits (value % (60 * 60) / 60) ++ ":".toList ++ twoDigits (value % 60) ++ "hour".toList)
  else if value < 7 * 24 * 60 * 60 then decimal (value / (24 * 60 * 60)) ++ "day".toList
  else if value < 4 * 7 * 24 * 60 * 60 then decimal (value / (7 * 24 * 60 * 60)) ++ "week".toList
  else decimal (value / (4 * 7 * 24 * 60 * 60)) ++ "month".toList

/-- `duration`: the value is negated before the division when it is not positive. -/
def duration (value : Int) : Except Fault CString :=
  if 0 < value then .ok (durationText (value.toNat / 1000))
  else do
    let negated ← int32 (-value)
    .ok (durationText (negated.toNat / 1000))

/-- The variables of the edit, and the title of the button. -/
structure Menu where
  editButton1Value : Int
  editOldButton1Value : Int
  editingButton1Value : Bool
  title : CString

/-- After `setupMenu`. -/
def Menu.boot : Menu := ⟨0, 0, false, "auto".toList⟩

/-- The text `updateButton1(value)` sets as the title. -/
def button1Title (value : Int) : Except Fault CString :=
  if value < 0 then do
    let text ← duration value
    .ok ("Force off for ".toList ++ text)
  else if 0 < value then do
    let text ← duration value
    .ok ("Force on for ".toList ++ text)
  else .ok "auto".toList

/-- `updateButton1(value)`. -/
def updateButton1Value (menu : Menu) (value : Int) : Except Fault Menu := do
  let title ← button1Title value
  .ok { menu with title := title }

/-- The part of `updateButton1()` that reads the store: the store afterwards, and the value given to
`updateButton1(value)` unless there is nothing in the cache. -/
def timeRemaining (other : CString → BitVec 32) (b : Buffer) (now : BitVec 32) :
    Except Fault (Buffer × Option Int) := do
  let (b, mapCopy) ← mqttBufferGetMatching b heatingControl
  let buttonCount := flatmapGetEntryCount mapCopy
  if buttonCount = 0 then .ok (b, none)
  else do
    let entry ← entryFields mapCopy 0
    let result ← resultContent entry forMsKey
    let result2 ← resultContent entry timestampKey
    let forMs := strtodUint32 other result
    let timestamp := strtodUint32 other result2
    .ok (b, some (forMs - (now - timestamp)).toInt)

/-- `updateButton1()`. -/
def updateButton1 (other : CString → BitVec 32) (menu : Menu) (b : Buffer) (now : BitVec 32) :
    Except Fault (Menu × Buffer) :=
  if menu.editingButton1Value then .ok (menu, b)
  else do
    let (b, remaining) ← timeRemaining other b now
    match remaining with
    | none => .ok (menu, b)
    | some value =>
      let menu ← updateButton1Value menu value
      .ok (menu, b)

/-- The payload of `publishButton1`. -/
def overridePayload (value : Int) : Except Fault CString :=
  if 0 < value then .ok ("state:on,forMs:".toList ++ decimalInt value)
  else do
    let negated ← int32 (-value)
    .ok ("state:off,forMs:".toList ++ decimalInt negated)

/-- `publishButton1`. -/
def publishButton1 (dev : Device) (value : Int) (now : BitVec 32) :
    Except Fault (Device × List ClientCall) := do
  let payload ← overridePayload value
  let (dev, calls, _) ← mqttPublish dev heatingControl payload now
  .ok (dev, calls)

/-! ## Callbacks -/

/-- The value after Up. -/
def valueUp (value : Int) : Except Fault Int :=
  if value < 0 then .ok 0
  else if value < 120 * 60 * 1000 then int32 (value + 30 * 60 * 1000)
  else .ok value

/-- The value after Down. -/
def valueDown (value : Int) : Except Fault Int :=
  if 0 < value then .ok 0
  else if value = 0 then int32 (value - 30 * 60 * 1000)
  else if -2 ^ 31 / 2 ≤ value then int32 (value * 2)
  else .ok value

/-- A device with its menu. -/
structure Controller where
  device : Device
  menu : Menu

/-- What happens to button 1: its callbacks, a refresh, a message from the broker. -/
inductive MenuEvent where
  | up
  | down
  | apply (now : BitVec 32)
  | cancel (now : BitVec 32)
  | refresh (now : BitVec 32)
  | receive (topic data : List Char) (now : BitVec 32)

namespace Controller

/-- The callback given to `SetUpCallback`. -/
def upCallback (c : Controller) : Except Fault Controller := do
  let value ← valueUp c.menu.editButton1Value
  let menu ← updateButton1Value
    { c.menu with editingButton1Value := true, editButton1Value := value } value
  .ok { c with menu := menu }

/-- The callback given to `SetDownCallback`. -/
def downCallback (c : Controller) : Except Fault Controller := do
  let value ← valueDown c.menu.editButton1Value
  let menu ← updateButton1Value
    { c.menu with editingButton1Value := true, editButton1Value := value } value
  .ok { c with menu := menu }

/-- The callback given to `SetApplyCallback`. -/
def applyCallback (c : Controller) (now : BitVec 32) : Except Fault Controller := do
  let menu :=
    { c.menu with editingButton1Value := false, editOldButton1Value := c.menu.editButton1Value }
  let (device, _) ← publishButton1 c.device menu.editOldButton1Value now
  .ok { device := device, menu := menu }

def refreshButton1 (other : CString → BitVec 32) (c : Controller) (now : BitVec 32) :
    Except Fault Controller := do
  let (menu, buffer) ← updateButton1 other c.menu c.device.buffer now
  .ok { device := { c.device with buffer := buffer }, menu := menu }

/-- The callback given to `SetCancelCallback`. -/
def cancelCallback (other : CString → BitVec 32) (c : Controller) (now : BitVec 32) :
    Except Fault Controller :=
  refreshButton1 other
    { c with
      menu :=
        { c.menu with
          editingButton1Value := false
          editButton1Value := c.menu.editOldButton1Value } }
    now

/-- A message from the broker. -/
def receiveMessage (c : Controller) (topic data : List Char) (now : BitVec 32) :
    Except Fault Controller := do
  let (device, _) ← mqttEventHandler c.device (.data topic data) now
  .ok { c with device := device }

def step (other : CString → BitVec 32) (c : Controller) : MenuEvent → Except Fault Controller
  | .up => c.upCallback
  | .down => c.downCallback
  | .apply now => c.applyCallback now
  | .cancel now => c.cancelCallback other now
  | .refresh now => c.refreshButton1 other now
  | .receive topic data now => c.receiveMessage topic data now

def run (other : CString → BitVec 32) (c : Controller) (events : List MenuEvent) :
    Except Fault Controller :=
  events.foldlM (step other) c

/-- A device with an empty store and its menu set up, after `mqtt_app_start`. -/
def boot (subscriptions : List CString) (connected : Bool) : Controller :=
  ⟨⟨⟨subscriptions, true, connected⟩, Buffer.boot⟩, Menu.boot⟩

end Controller

end HomeAutomation
