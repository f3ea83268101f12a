import HomeAutomation.Mqtt.Client

/-!
# Sessions with the broker

The client queues an event whenever its session with the broker opens or closes, and later hands the
events to `mqtt_event_handler` one by one. Tasks call `mqtt_subscribe` and `mqtt_publish` at any time
in between. `log` records what was delivered, asked for and handed over, in order.
-/

namespace HomeAutomation

/-- A change of the session, as the client reports it. -/
inductive SessionEvent where
  | connected
  | disconnected
  deriving DecidableEq

def SessionEvent.mqttEvent : SessionEvent → MqttEvent
  | .connected => .connected
  | .disconnected => .disconnected

/-- The message that the handler of an event gives to `mqtt_publish`. -/
def SessionEvent.announcement : SessionEvent → CString
  | .connected => "state:true".toList
  | .disconnected => "state:false".toList

/-- What can be seen at the interface of `mqtt.cpp`: `mqtt_app_start` came to its end; the handler of
an event was called; `mqtt_subscribe` returned; `mqtt_publish` was given a message and handed it to
`esp_mqtt_client_publish` or not; a topic was handed to `esp_mqtt_client_subscribe`. -/
inductive Happened where
  | setup
  | event (e : SessionEvent)
  | subscribe (topic : CString) (result : Nat)
  | given (topic message : CString) (sent : Bool)
  | handed (topic : CString)

/-- The topics among the calls of the client library. -/
def subscribeTopics (calls : List ClientCall) : List CString :=
  calls.filterMap fun c =>
    match c with
    | .publish _ _ => none
    | .subscribe topic => some topic

/-- What a call of `mqtt_publish` that made the calls `calls` adds to the log. -/
def givenMessage (topic message : CString) (calls : List ClientCall) : Happened :=
  .given topic message (decide (.publish topic message ∈ calls))

structure Session where
  device : Device
  started : Bool
  queue : List SessionEvent
  log : List Happened

inductive SessionAction where
  | start
  | setup
  | change (e : SessionEvent)
  | deliver (now : BitVec 32)
  | subscribe (topic : CString)
  | publish (topic message : CString) (now : BitVec 32)
  | receive (topic data : List Char) (now : BitVec 32)

namespace Session

inductive Step : Session → SessionAction → Session → Prop where
  /-- `esp_mqtt_client_start` in `mqtt_app_start`. -/
  | start (s : Session) : Step s .start { s with started := true }
  /-- The last statement of `mqtt_app_start`. -/
  | setup (s : Session) (hstarted : s.started) :
      Step s .setup { s with
        device := { s.device with mqtt := { s.device.mqtt with setupComplete := true } }
        log := s.log ++ [.setup] }
  /-- The client finds its session open or closed. -/
  | change (s : Session) (e : SessionEvent) (hstarted : s.started) :
      Step s (.change e) { s with queue := s.queue ++ [e] }
  /-- The handler of the first event in the queue. -/
  | deliver (s : Session) (now : BitVec 32) (e : SessionEvent) (queue : List SessionEvent)
      (hqueue : s.queue = e :: queue) (dev : Device) (calls : List ClientCall)
      (hhandle : mqttEventHandler s.device e.mqttEvent now = .ok (dev, calls)) :
      Step s (.deliver now) { s with
        device := dev
        queue := queue
        log := s.log ++ .event e :: givenMessage brokerConnectTopic e.announcement calls ::
          (subscribeTopics calls).map .handed }
  /-- A task calls `mqtt_subscribe`. -/
  | subscribe (s : Session) (topic : CString) (mqtt : MqttState) (calls : List ClientCall)
      (result : Nat) (hcall : mqttSubscribe s.device.mqtt topic = (mqtt, calls, result)) :
      Step s (.subscribe topic) { s with
        device := { s.device with mqtt := mqtt }
        log := s.log ++ .subscribe topic result :: (subscribeTopics calls).map .handed }
  /-- A task calls `mqtt_publish`. -/
  | publish (s : Session) (topic message : CString) (now : BitVec 32) (dev : Device)
      (calls : List ClientCall) (result : Nat)
      (hcall : mqttPublish s.device topic message now = .ok (dev, calls, result)) :
      Step s (.publish topic message now) { s with
        device := dev
        log := s.log ++ [givenMessage topic message calls] }
  /-- The handler of a message from the broker. -/
  | receive (s : Session) (topic data : List Char) (now : BitVec 32) (dev : Device)
      (calls : List ClientCall)
      (hhandle : mqttEventHandler s.device (.data topic data) now = .ok (dev, calls)) :
      Step s (.receive topic data now) { s with device := dev }

/-- Before `mqtt_app_start`. -/
def boot : Session := ⟨⟨⟨[], false, false⟩, Buffer.boot⟩, false, [], []⟩

inductive Reachable : Session → Prop where
  | boot : Reachable boot
  | step {s s' : Session} {a : SessionAction} : Reachable s → Step s a s' → Reachable s'

end Session

/-! ## Reading the log -/

/-- The session event delivered last. -/
def latestEvent (log : List Happened) : Option SessionEvent :=
  log.foldl (fun latest h =>
    match h with
    | .event e => some e
    | _ => latest) none

/-- The topics handed to `esp_mqtt_client_subscribe` since the session event delivered last. -/
def handedSince (log : List Happened) : List CString :=
  log.foldl (fun topics h =>
    match h with
    | .event _ => []
    | .handed topic => topics ++ [topic]
    | _ => topics) []

/-- The topics of the calls of `mqtt_subscribe` that returned 1. -/
def accepted (log : List Happened) : List CString :=
  log.filterMap fun h =>
    match h with
    | .subscribe topic 1 => some topic
    | _ => none

end HomeAutomation
