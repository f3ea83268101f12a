import HomeAutomation.Buffer.Basic
import HomeAutomation.Lib.Runs

/-!
# Publishing and receiving (`mqtt.cpp`)

`mqttPublish` hands a message to the client library while a session is up, and then stores it;
`mqttEventHandler` stores what the broker delivers. The two effects of `mqttPublish` have names of
their own, since other tasks can run between them.
-/

namespace HomeAutomation

/-- `BROKER_CONNECT_TOPIC`. -/
def brokerConnectTopic : CString := "7abr/broker/connect/heatingControler".toList

/-- The static variables of `mqtt.cpp`, without the handle of the client. -/
structure MqttState where
  subscriptions : List CString
  setupComplete : Bool
  connected : Bool

/-- The state of a device that messages change. -/
structure Device where
  mqtt : MqttState
  buffer : Buffer

/-- What is handed to the client library. -/
inductive ClientCall where
  | publish (topic message : CString)
  | subscribe (topic : CString)
  deriving DecidableEq

/-- The first effect of `mqtt_publish`. -/
def mqttPublishSend (q : MqttState) (topic message : CString) : List ClientCall :=
  if q.connected then [.publish topic message] else []

/-- The second effect of `mqtt_publish`. -/
def mqttPublishStore (b : Buffer) (topic message : CString) (now : BitVec 32) :
    Except Fault Buffer :=
  mqttBufferPut b topic message now

/-- `mqtt_publish` when `millis()` is `now`: the device afterwards, what was handed to the client
library, and the result. -/
def mqttPublish (dev : Device) (topic message : CString) (now : BitVec 32) :
    Except Fault (Device × List ClientCall × Nat) :=
  if dev.mqtt.setupComplete then do
    let buffer ← mqttPublishStore dev.buffer topic message now
    .ok ({ dev with buffer := buffer }, mqttPublishSend dev.mqtt topic message, 1)
  else .ok (dev, [], 0)

/-- `mqtt_subscribe`: the variables afterwards, what was handed to the client library, and the
result. -/
def mqttSubscribe (q : MqttState) (topic : CString) : MqttState × List ClientCall × Nat :=
  if q.setupComplete then
    ({ q with subscriptions := q.subscriptions ++ [topic] },
      if q.connected then [.subscribe topic] else [], 1)
  else (q, [], 0)

/-- The events that the handler tells apart. -/
inductive MqttEvent where
  | connected
  | disconnected
  | data (topic data : List Char)
  | other

/-- `mqtt_event_handler`: the device afterwards, and what was handed to the client library. -/
def mqttEventHandler (dev : Device) (event : MqttEvent) (now : BitVec 32) :
    Except Fault (Device × List ClientCall) :=
  match event with
  | .connected => do
    let (dev, calls, _) ← mqttPublish dev brokerConnectTopic "state:true".toList now
    .ok ({ dev with mqtt := { dev.mqtt with connected := true } },
      calls ++ dev.mqtt.subscriptions.map .subscribe)
  | .disconnected => do
    let (dev, calls, _) ← mqttPublish dev brokerConnectTopic "state:false".toList now
    .ok ({ dev with mqtt := { dev.mqtt with connected := false } }, calls)
  | .data topic data => do
    let buffer ← mqttBufferPut dev.buffer topic data now
    .ok ({ dev with buffer := buffer }, [])
  | .other => .ok (dev, [])

/-- A run of `MQTT_EVENT_DATA` events. -/
def mqttReceiveAll (dev : Device) (messages : List Put) : Except Fault Device :=
  messages.foldlM
    (fun dev p => do
      let (dev, _) ← mqttEventHandler dev (.data p.topic p.data) p.now
      .ok dev)
    dev

theorem mqttReceiveAll_eq (dev : Device) (messages : List Put) :
    mqttReceiveAll dev messages =
      mqttBufferPutAll dev.buffer messages >>= fun b => .ok { dev with buffer := b } := by
  induction messages generalizing dev with
  | nil => rfl
  | cons p messages ih =>
    rw [mqttReceiveAll, mqttBufferPutAll, List.foldlM_cons, List.foldlM_cons]
    cases hput : mqttBufferPut dev.buffer p.topic p.data p.now with
    | error e => simp only [mqttEventHandler, hput, Runs.error_bind]
    | ok b =>
      simp only [mqttEventHandler, hput, Runs.ok_bind]
      exact ih { dev with buffer := b }

end HomeAutomation
