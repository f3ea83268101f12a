import HomeAutomation.Buffer.Payload
import HomeAutomation.Buffer.Read
import HomeAutomation.Mqtt.Client

/-!
# The boiler outlet (`outlet.cpp`)

`OutletKankun::getState` polls the relay unless its gate is shut, publishes what it polled unless
nothing changed, and returns what it reads back from the store. Clocks are 32-bit, an
`unsigned long` on this machine. A call reads the clock up to four times (`Clocks`); where it is taken
as one instant, one reading serves for all. The result of the poll is an argument.
-/

namespace HomeAutomation

/-- `BOILER_TOPIC`. -/
def boilerTopic : CString := "7abr/heating/state".toList

/-- `PUBLISH_INTERVAL`. -/
def publishInterval : BitVec 32 := 10 * 60 * 1000

/-- The fields of an outlet that `publish` and `getState` use. -/
structure Outlet where
  topicBase : CString
  lastPublishTime : BitVec 32
  lastPublishState : Bool

/-- After the constructor, which leaves `lastPublishState` as it finds it. -/
def Outlet.boot (topicBase : CString) (lastPublishState : Bool) : Outlet :=
  ⟨topicBase, 0, lastPublishState⟩

/-- The payload of `Outlet::publish`. -/
def statePayload (state : Bool) : CString :=
  snprintf 30 ("state:".toList ++ decimal state.toNat)

/-- The condition of `Outlet::publish`. -/
def Outlet.publishes (o : Outlet) (state : Bool) (now : BitVec 32) : Bool :=
  o.lastPublishState != state || o.lastPublishTime == 0 ||
    decide (o.lastPublishTime + publishInterval < now)

/-- The readings of `millis()` in a call of `getState`: at its gate, in the condition of `publish`,
for `lastPublishTime` and for the timestamp of the message. -/
structure Clocks where
  gate : BitVec 32
  due : BitVec 32
  sent : BitVec 32
  put : BitVec 32

/-- A call in one instant. -/
def Clocks.instant (now : BitVec 32) : Clocks := ⟨now, now, now, now⟩

/-- A device with its outlet. -/
structure Boiler where
  device : Device
  outlet : Outlet

namespace Boiler

/-- `Outlet::publish`. -/
def publishAt (s : Boiler) (state : Bool) (clocks : Clocks) : Except Fault Boiler :=
  if s.outlet.publishes state clocks.due then do
    let outlet := { s.outlet with lastPublishState := state, lastPublishTime := clocks.sent }
    let (device, _) ← mqttPublish s.device outlet.topicBase (statePayload state) clocks.put
    .ok ⟨device, outlet⟩
  else .ok s

def publish (s : Boiler) (state : Bool) (now : BitVec 32) : Except Fault Boiler :=
  s.publishAt state (.instant now)

/-- `OutletKankun::update`, the relay answering `relay`. -/
def updateAt (s : Boiler) (relay : Bool) (clocks : Clocks) : Except Fault Boiler :=
  s.publishAt relay clocks

def update (s : Boiler) (relay : Bool) (now : BitVec 32) : Except Fault Boiler :=
  s.updateAt relay (.instant now)

/-- The gate of `OutletKankun::getState`: whether it polls. -/
def gateOpen (s : Boiler) (now : BitVec 32) : Bool :=
  s.outlet.lastPublishTime == 0 || decide (s.outlet.lastPublishTime + 5000 < now)

/-- The part of `OutletKankun::getState` behind the mutex: the store afterwards, and the result. -/
def readState (other : CString → BitVec 32) (s : Boiler) : Except Fault (Boiler × Bool) := do
  let (b, mapCopy) ← mqttBufferGetMatching s.device.buffer s.outlet.topicBase
  let s := { s with device := { s.device with buffer := b } }
  let switchCount := flatmapGetEntryCount mapCopy
  if switchCount = 0 then .ok (s, false)
  else do
    let entry ← entryFields mapCopy 0
    let result ← resultContent entry stateKey
    let state := strtodUint32 other result
    .ok (s, state != 0)

/-- `OutletKankun::getState`. -/
def getStateAt (other : CString → BitVec 32) (s : Boiler) (relay : Bool) (clocks : Clocks) :
    Except Fault (Boiler × Bool) := do
  let s ← if s.gateOpen clocks.gate then s.updateAt relay clocks else .ok s
  s.readState other

def getState (other : CString → BitVec 32) (s : Boiler) (relay : Bool) (now : BitVec 32) :
    Except Fault (Boiler × Bool) := s.getStateAt other relay (.instant now)

end Boiler

/-! ## Runs -/

/-- A call of `getState` at a true time, the relay being in a state then; or a message of another
task or of the broker. -/
inductive BoilerEvent where
  | getState (time : Nat) (relay : Bool)
  | put (time : Nat) (topic data : List Char)

def BoilerEvent.time : BoilerEvent → Nat
  | .getState time _ => time
  | .put time _ _ => time

/-- A boiler with the polls made so far: when, and with which result. -/
structure Polled where
  boiler : Boiler
  polls : List (Nat × Bool)

/-- `millis()` at a true time. -/
def millis (time : Nat) : BitVec 32 := BitVec.ofNat 32 time

/-- A call of `getState` at a true time. -/
def Polled.getState (other : CString → BitVec 32) (p : Polled) (time : Nat) (relay : Bool) :
    Except Fault (Polled × Bool) := do
  let (boiler, state) ← p.boiler.getState other relay (millis time)
  .ok (⟨boiler, if p.boiler.gateOpen (millis time) then p.polls ++ [(time, relay)] else p.polls⟩, state)

def Polled.step (other : CString → BitVec 32) (p : Polled) : BoilerEvent → Except Fault Polled
  | .getState time relay => do
    let (p, _) ← p.getState other time relay
    .ok p
  | .put time topic data => do
    let b ← mqttBufferPut p.boiler.device.buffer topic data (millis time)
    .ok { p with boiler := { p.boiler with device := { p.boiler.device with buffer := b } } }

def Polled.run (other : CString → BitVec 32) (p : Polled) (events : List BoilerEvent) :
    Except Fault Polled :=
  events.foldlM (Polled.step other) p

/-- After `mqtt_app_start` and the constructor of the outlet. -/
def Polled.boot (subscriptions : List CString) (connected : Bool) (topicBase : CString)
    (lastPublishState : Bool) : Polled :=
  ⟨⟨⟨⟨subscriptions, true, connected⟩, Buffer.boot⟩, Outlet.boot topicBase lastPublishState⟩, []⟩

end HomeAutomation
