import HomeAutomation.Mqtt.Client
import HomeAutomation.Buffer.Store
import Mathlib.Logic.Function.Basic

/-!
# Several controllers on one topic

Any number of devices that run this code, a broker that puts the messages published on one topic in
a total order, and the clients in between. A publish and its local store are two steps of a device;
the client takes whatever was handed to it to the broker in any order, and each device is handed
the broker's order from the front, its own messages included. Every step that touches a store is a
call of the code that returns, at a clock value of the device's own.
-/

namespace HomeAutomation

/-- A publish on the topic; `id` tells apart the publishes of one text. -/
structure Message where
  id : Nat
  text : CString
  deriving DecidableEq

/-- The devices, with the messages that each has handed to its client and not yet stored; all
publishes so far; those that have not reached the broker; the broker's order; and how much of it has
been handed to each device. -/
structure Network (ι : Type) where
  device : ι → Device
  halfDone : ι → List Message
  published : List Message
  sent : List Message
  log : List Message
  handled : ι → Nat

inductive NetworkAction (ι : Type) where
  | publish (d : ι) (text : CString)
  | store (d : ι) (m : Message) (now : BitVec 32)
  | order (m : Message)
  | deliver (d : ι) (now : BitVec 32)
  | putOther (d : ι) (topic data : List Char) (now : BitVec 32)

namespace Network
variable {ι : Type} [DecidableEq ι]

def setDevice (n : Network ι) (d : ι) (dev : Device) : Network ι :=
  { n with device := Function.update n.device d dev }

/-- What a client takes to the broker when it is handed `calls`. -/
def taken (topic : CString) (id : Nat) (calls : List ClientCall) : List Message :=
  calls.filterMap fun c =>
    match c with
    | .publish t text => if t = topic then some ⟨id, text⟩ else none
    | .subscribe _ => none

inductive Step (topic : CString) : Network ι → NetworkAction ι → Network ι → Prop where
  /-- The first effect of `mqtt_publish`. -/
  | publish (n : Network ι) (d : ι) (text : CString) (hsetup : (n.device d).mqtt.setupComplete) :
      Step topic n (.publish d text) { n with
        published := n.published ++ [⟨n.published.length, text⟩]
        sent := n.sent ++
          taken topic n.published.length (mqttPublishSend (n.device d).mqtt topic text)
        halfDone := Function.update n.halfDone d
          (n.halfDone d ++ [⟨n.published.length, text⟩]) }
  /-- The second effect of `mqtt_publish`. -/
  | store (n : Network ι) (d : ι) (m : Message) (now : BitVec 32) (hm : m ∈ n.halfDone d)
      (b : Buffer) (hput : mqttPublishStore (n.device d).buffer topic m.text now = .ok b) :
      Step topic n (.store d m now) { n.setDevice d { n.device d with buffer := b } with
        halfDone := Function.update n.halfDone d ((n.halfDone d).erase m) }
  /-- The broker puts a message behind those it has. -/
  | order (n : Network ι) (m : Message) (hm : m ∈ n.sent) :
      Step topic n (.order m) { n with sent := n.sent.erase m, log := n.log ++ [m] }
  /-- A device handles the next message of the broker's order. -/
  | deliver (n : Network ι) (d : ι) (m : Message) (now : BitVec 32)
      (hm : n.log[n.handled d]? = some m) (dev : Device) (calls : List ClientCall)
      (hhandle : mqttEventHandler (n.device d) (.data topic m.text) now = .ok (dev, calls)) :
      Step topic n (.deliver d now) { n.setDevice d dev with
        handled := Function.update n.handled d (n.handled d + 1) }
  /-- A device stores something on another topic. -/
  | putOther (n : Network ι) (d : ι) (t data : List Char) (now : BitVec 32)
      (ht : trim (cstr t) ≠ trim (cstr topic)) (b : Buffer)
      (hput : mqttBufferPut (n.device d).buffer t data now = .ok b) :
      Step topic n (.putOther d t data now) (n.setDevice d { n.device d with buffer := b })

/-- All devices are set up and connected, with stores that puts have made; nothing is under way. -/
structure Start (n : Network ι) : Prop where
  setup : ∀ d, (n.device d).mqtt.setupComplete = true
  connected : ∀ d, (n.device d).mqtt.connected = true
  buffer : ∀ d, ∃ puts, mqttBufferPutAll Buffer.boot puts = .ok (n.device d).buffer
  halfDone : ∀ d, n.halfDone d = []
  published : n.published = []
  sent : n.sent = []
  log : n.log = []
  handled : ∀ d, n.handled d = 0

/-- Reached by steps that satisfy `P`. -/
inductive Reachable (topic : CString) (P : Network ι → NetworkAction ι → Prop) :
    Network ι → Prop where
  | start {n : Network ι} : n.Start → Reachable topic P n
  | step {n n' : Network ι} {a : NetworkAction ι} :
      Reachable topic P n → P n a → Step topic n a n' → Reachable topic P n'

/-- No message is in flight and no `mqtt_publish` is half done. -/
structure Quiescent (n : Network ι) : Prop where
  sent : n.sent = []
  handled : ∀ d, n.handled d = n.log.length
  halfDone : ∀ d, n.halfDone d = []

end Network

/-! ## What the stores should hold -/

/-- The value of a field after the messages, in order: the last one assigned to it. -/
def lastAssigned (k : CString) (l : List Message) : Option CString :=
  (OrderedMap.valuesOf k (l.flatMap fun m => payloadAssignments (cstr m.text))).getLast?

/-- Every device holds, for each field that a published message assigns, the value of the last
message of the broker's order that assigns it. The timestamp is each device's own. -/
def Network.Converged {ι : Type} (topic : CString) (n : Network ι) : Prop :=
  ∀ d k, trim k ≠ timestampKey →
    (∃ m ∈ n.published, trim k ∈ (payloadAssignments (cstr m.text)).map Prod.fst) →
    ∃ fields v, storeEntry (n.device d).buffer (cstr topic) = .ok (some fields) ∧
      contentAt fields k = .ok (some v) ∧ lastAssigned (trim k) n.log = some v

/-- The local store rolls nothing back: if the device has handled the message before, then each field
the message assigns still has the message's value after the messages handled so far. -/
def Network.StoredInTime {ι : Type} (n : Network ι) (d : ι) (m : Message) : Prop :=
  m ∈ n.log.take (n.handled d) → ∀ k ≠ timestampKey,
    k ∈ (payloadAssignments (cstr m.text)).map Prod.fst →
    lastAssigned k (n.log.take (n.handled d)) = lastAssigned k [m]

/-- Local stores are in time. -/
def Network.InTime {ι : Type} (n : Network ι) : NetworkAction ι → Prop
  | .store d m _ => n.StoredInTime d m
  | _ => True

end HomeAutomation
