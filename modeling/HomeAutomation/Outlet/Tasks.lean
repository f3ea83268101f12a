import HomeAutomation.Buffer.Display
import HomeAutomation.Buffer.Tasks
import HomeAutomation.Lib.Locks
import HomeAutomation.Outlet.LastPoll

/-!
# The tasks and their mutexes

The functions that the tasks of the program call, access by access: the mutex of the outlet is held
while the relay is polled and the result published, the mutex of the store while a message is stored
or copied, and `mqtt_publish` and the handler of the client's events read and write the variables of
`mqtt.cpp` with no mutex at all. Whatever the interleaving, no call is held up for good
(`no_call_held_up`); alone, a call does what its function does (`getStateTask_run` and the like).

What stands between taking and giving the mutex of the store is one access here (`Buffer/Tasks.lean`
has its parts). The mutexes are there from the start: the results about many tasks start with the
store initialized, and what can happen before is the subject of `Buffer/Initialize.lean`.
-/

namespace HomeAutomation

open Locks

/-- The mutexes. -/
inductive Mutex where
  | outlet
  | buffer
  deriving DecidableEq

/-- What the tasks share, with the history of the program: what was handed to the client library,
what the relay answered, and for which answers the task that polled has given its mutex back. -/
structure Shared where
  boiler : Boiler
  sent : List ClientCall
  polls : List Bool
  published : List Bool

namespace Shared

/-- After `mqtt_app_start`, the constructor of the outlet and a call that initialized the store. -/
def boot (subscriptions : List CString) (connected : Bool) (topicBase : CString)
    (lastPublishState : Bool) : Shared :=
  ⟨⟨⟨⟨subscriptions, true, connected⟩, ⟨true, emptyTopics⟩⟩,
    Outlet.boot topicBase lastPublishState⟩, [], [], []⟩

def buffer (s : Shared) : Buffer := s.boiler.device.buffer

def mqtt (s : Shared) : MqttState := s.boiler.device.mqtt

def outlet (s : Shared) : Outlet := s.boiler.outlet

def setBuffer (s : Shared) (b : Buffer) : Shared := { s with boiler.device.buffer := b }

def setMqtt (s : Shared) (q : MqttState) (calls : List ClientCall) : Shared :=
  { s with boiler.device.mqtt := q, sent := s.sent ++ calls }

def setOutlet (s : Shared) (o : Outlet) : Shared := { s with boiler.outlet := o }

section
variable (s : Shared) (b : Buffer) (q : MqttState) (calls : List ClientCall) (o : Outlet)

@[simp] theorem setBuffer_buffer : (s.setBuffer b).buffer = b := rfl
@[simp] theorem setBuffer_mqtt : (s.setBuffer b).mqtt = s.mqtt := rfl
@[simp] theorem setBuffer_outlet : (s.setBuffer b).outlet = s.outlet := rfl
@[simp] theorem setBuffer_self : s.setBuffer s.buffer = s := rfl
@[simp] theorem setMqtt_buffer : (s.setMqtt q calls).buffer = s.buffer := rfl
@[simp] theorem setMqtt_mqtt : (s.setMqtt q calls).mqtt = q := rfl
@[simp] theorem setMqtt_outlet : (s.setMqtt q calls).outlet = s.outlet := rfl
@[simp] theorem setMqtt_self : s.setMqtt s.mqtt [] = s := by simp [setMqtt, mqtt]
@[simp] theorem setMqtt_setMqtt (q' : MqttState) (calls' : List ClientCall) :
    (s.setMqtt q calls).setMqtt q' calls' = s.setMqtt q' (calls ++ calls') := by simp [setMqtt]
@[simp] theorem setBuffer_setBuffer (b' : Buffer) :
    (s.setBuffer b).setBuffer b' = s.setBuffer b' := rfl
@[simp] theorem setMqtt_setBuffer :
    (s.setMqtt q calls).setBuffer b = (s.setBuffer b).setMqtt q calls := rfl
@[simp] theorem setOutlet_buffer : (s.setOutlet o).buffer = s.buffer := rfl
@[simp] theorem setOutlet_mqtt : (s.setOutlet o).mqtt = s.mqtt := rfl
@[simp] theorem setOutlet_outlet : (s.setOutlet o).outlet = o := rfl
@[simp] theorem setOutlet_self : s.setOutlet s.outlet = s := rfl

end

end Shared

abbrev Task := Code Mutex Fault Shared

/-! ## `buffer.cpp` -/

/-- An access to the store. -/
def onBuffer {α : Type} (p : Buffer → Except Fault (Buffer × α)) : Task α :=
  .attempt fun s => do
    let r ← p s.buffer
    .ok (s.setBuffer r.1, r.2)

/-- `initialize()`, without the creation of the mutex behind its last statement. -/
def initializeTask : Task Unit := do
  let initialized ← onBuffer fun b => .ok (b, b.initialized)
  if initialized then pure ()
  else
    onBuffer fun b => .ok ({ b with initialized := true }, ())
    onBuffer fun b => .ok ({ b with mapInfo := MapInfo.fresh 16 }, ())
    onBuffer fun b => do
      let mapInfo ← flatmapInit b.mapInfo
      .ok ({ b with mapInfo := mapInfo }, ())

/-- `mqttBuffer_dispalyAll()`. -/
def mqttBufferDispalyAllTask : Task CString := do
  initializeTask
  .locked .buffer (onBuffer fun b => do
    let text ← displayMap b.mapInfo
    .ok (b, text))

/-- `mqttBuffer_getMatching`; behind `initialize()` the function is its critical section. -/
def mqttBufferGetMatchingTask (filter : CString) : Task TopicMap := do
  initializeTask
  .locked .buffer (onBuffer fun b => mqttBufferGetMatching b filter)

/-- `mqttBuffer_put`, which displays the store at its end. -/
def mqttBufferPutTask (topic data : List Char) (now : BitVec 32) : Task Unit := do
  initializeTask
  .locked .buffer (onBuffer fun b => do
    let mapInfo ← flatmapPut (assignContent now) b.mapInfo (cstr topic) (cstr data)
    .ok ({ b with mapInfo := mapInfo }, ()))
  let _ ← mqttBufferDispalyAllTask

/-! ## `mqtt.cpp` -/

/-- An access to the variables of `mqtt.cpp`, which may hand something to the client library. -/
def onMqtt {α : Type} (f : MqttState → MqttState × List ClientCall × α) : Task α :=
  .step fun s =>
    let r := f s.mqtt
    (s.setMqtt r.1 r.2.1, r.2.2)

/-- `mqtt_publish`. -/
def mqttPublishTask (topic message : CString) (now : BitVec 32) : Task Nat := do
  let setupComplete ← onMqtt fun q => (q, [], q.setupComplete)
  if setupComplete then
    onMqtt fun q => (q, mqttPublishSend q topic message, ())
    mqttBufferPutTask topic message now
    pure 1
  else pure 0

/-- `mqtt_subscribe`. -/
def mqttSubscribeTask (topic : CString) : Task Nat := do
  let setupComplete ← onMqtt fun q => (q, [], q.setupComplete)
  if setupComplete then
    onMqtt fun q => ({ q with subscriptions := q.subscriptions ++ [topic] }, [], ())
    onMqtt fun q => (q, if q.connected then [.subscribe topic] else [], ())
    pure 1
  else pure 0

/-- `mqtt_event_handler`. -/
def mqttEventHandlerTask (event : MqttEvent) (now : BitVec 32) : Task Unit :=
  match event with
  | .connected => do
    let _ ← mqttPublishTask brokerConnectTopic "state:true".toList now
    onMqtt fun q => (q, q.subscriptions.map .subscribe, ())
    onMqtt fun q => ({ q with connected := true }, [], ())
  | .disconnected => do
    let _ ← mqttPublishTask brokerConnectTopic "state:false".toList now
    onMqtt fun q => ({ q with connected := false }, [], ())
  | .data topic data => mqttBufferPutTask topic data now
  | .other => pure ()

/-! ## `outlet.cpp` -/

/-- An access to the fields of the outlet. -/
def onOutlet {α : Type} (f : Outlet → Outlet × α) : Task α :=
  .step fun s =>
    let r := f s.outlet
    (s.setOutlet r.1, r.2)

/-- `Outlet::publish`. -/
def outletPublishTask (state : Bool) (clocks : Clocks) : Task Unit := do
  let due ← onOutlet fun o => (o, o.publishes state clocks.due)
  if due then
    let topicBase ← onOutlet fun o =>
      ({ o with lastPublishState := state, lastPublishTime := clocks.sent }, o.topicBase)
    let _ ← mqttPublishTask topicBase (statePayload state) clocks.put
  else pure ()

/-- `OutletKankun::update`, the relay answering `relay`. -/
def updateTask (relay : Bool) (clocks : Clocks) : Task Unit := do
  .step fun s => ({ s with polls := s.polls ++ [relay] }, ())
  outletPublishTask relay clocks

/-- What `OutletKankun::getState` reads from its snapshot. -/
def snapshotState (other : CString → BitVec 32) (mapCopy : TopicMap) : Except Fault Bool :=
  if flatmapGetEntryCount mapCopy = 0 then .ok false
  else do
    let entry ← entryFields mapCopy 0
    let result ← resultContent entry stateKey
    .ok (strtodUint32 other result != 0)

/-- What `OutletKankun::getState` does with the mutex; the number of polls at its end. -/
def pollTask (relay : Bool) (clocks : Clocks) : Task Nat := do
  let gateOpen ← .step fun s => (s, s.boiler.gateOpen clocks.gate)
  if gateOpen then updateTask relay clocks else pure ()
  .step fun s => ({ s with published := s.polls }, s.polls.length)

/-- What `OutletKankun::getState` does after that. -/
def readStateTask (other : CString → BitVec 32) : Task Bool := do
  let topicBase ← onOutlet fun o => (o, o.topicBase)
  let mapCopy ← mqttBufferGetMatchingTask topicBase
  .attempt fun s => do
    let state ← snapshotState other mapCopy
    .ok (s, state)

/-- `OutletKankun::getState`: the result, and the number of polls when it gave its mutex back. -/
def getStateTask (other : CString → BitVec 32) (relay : Bool) (clocks : Clocks) :
    Task (Bool × Nat) := do
  let seen ← .locked .outlet (pollTask relay clocks)
  let state ← readStateTask other
  pure (state, seen)

/-- What the tasks call. -/
inductive TaskCall where
  | getState (relay : Bool) (clocks : Clocks)
  | publish (topic message : CString) (now : BitVec 32)
  | subscribe (topic : CString)
  | handle (event : MqttEvent) (now : BitVec 32)
  | getMatching (filter : CString)
  | dispalyAll

/-- The code of a call; what `getState` returns is kept. -/
def TaskCall.task (other : CString → BitVec 32) : TaskCall → Task (Option (Bool × Nat))
  | .getState relay clocks => do
    let result ← getStateTask other relay clocks
    pure (some result)
  | .publish topic message now => do
    let _ ← mqttPublishTask topic message now
    pure none
  | .subscribe topic => do
    let _ ← mqttSubscribeTask topic
    pure none
  | .handle event now => do
    mqttEventHandlerTask event now
    pure none
  | .getMatching filter => do
    let _ ← mqttBufferGetMatchingTask filter
    pure none
  | .dispalyAll => do
    let _ ← mqttBufferDispalyAllTask
    pure none

/-! ## A call alone -/

section
variable {s : Shared} {st : Store}

theorem onBuffer_run {α : Type} (p : Buffer → Except Fault (Buffer × α)) (s : Shared) :
    (onBuffer p).run s = p s.buffer >>= fun r => .ok (s.setBuffer r.1, r.2) := by
  rw [onBuffer, Code.run_attempt]

theorem onMqtt_run {α : Type} (f : MqttState → MqttState × List ClientCall × α) (s : Shared) :
    (onMqtt f).run s = .ok (s.setMqtt (f s.mqtt).1 (f s.mqtt).2.1, (f s.mqtt).2.2) :=
  Code.run_step _ _

theorem onOutlet_run {α : Type} (f : Outlet → Outlet × α) (s : Shared) :
    (onOutlet f).run s = .ok (s.setOutlet (f s.outlet).1, (f s.outlet).2) :=
  Code.run_step _ _

theorem initializeTask_run (s : Shared) :
    initializeTask.run s = initializeBuffer s.buffer >>= fun b => .ok (s.setBuffer b, ()) := by
  rw [initializeTask, Code.run_bind, onBuffer_run, Runs.ok_bind, Runs.ok_bind, initializeBuffer]
  dsimp only
  cases hinitialized : s.buffer.initialized with
  | true => rfl
  | false =>
    simp only [Bool.false_eq_true, if_false, Code.run_bind, onBuffer_run, Runs.ok_bind,
      Shared.setBuffer_buffer]
    rcases flatmapInit (MapInfo.fresh 16 : TopicMap) with e | mapInfo <;> rfl

/-- Alone, a task that displays the store does what `mqttBuffer_dispalyAll` does. -/
theorem mqttBufferDispalyAllTask_run (h : BufferHolds s.buffer st) :
    mqttBufferDispalyAllTask.run s =
      mqttBufferDispalyAll s.buffer >>= fun r => .ok (s.setBuffer r.1, r.2) := by
  obtain ⟨b, hinit, hb, hmap⟩ := initializeBuffer_holds h
  simp only [mqttBufferDispalyAllTask, initializeTask_run, Code.run_bind, Code.run_locked,
    onBuffer_run, mqttBufferDispalyAll, hinit, displayMap_holds hmap, Runs.ok_bind,
    Shared.setBuffer_buffer]
  rfl

/-- Alone, a task that takes a snapshot does what `mqttBuffer_getMatching` does. -/
theorem mqttBufferGetMatchingTask_run (h : BufferHolds s.buffer st) (filter : CString) :
    (mqttBufferGetMatchingTask filter).run s =
      mqttBufferGetMatching s.buffer filter >>= fun r => .ok (s.setBuffer r.1, r.2) := by
  obtain ⟨b, hinit, -⟩ := initializeBuffer_holds h
  have hget := mqttBufferGetMatching_afterInit hinit filter
  simp only [mqttBufferGetMatchingTask, initializeTask_run, Code.run_bind, Code.run_locked,
    onBuffer_run, hinit, Runs.ok_bind, Shared.setBuffer_buffer, hget]
  rfl

/-- Alone, a task that puts a message does what `mqttBuffer_put` does. -/
theorem mqttBufferPutTask_run (h : BufferHolds s.buffer st) (hfits : st.Fits)
    (topic data : List Char) (now : BitVec 32) :
    (mqttBufferPutTask topic data now).run s =
      mqttBufferPut s.buffer topic data now >>= fun b => .ok (s.setBuffer b, ()) := by
  obtain ⟨b, hinit, hb, -⟩ := initializeBuffer_holds h
  simp only [mqttBufferPutTask, initializeTask_run, Code.run_bind, Code.run_locked, onBuffer_run,
    hinit, Runs.ok_bind, Shared.setBuffer_buffer]
  rcases hsection : flatmapPut (assignContent now) b.mapInfo (cstr topic) (cstr data) with e | m
  · simp only [mqttBufferPut, hinit, hsection, Runs.ok_bind, Runs.error_bind]
  · have hput : mqttBufferPut s.buffer topic data now = .ok { b with mapInfo := m } := by
      simp only [mqttBufferPut, hinit, hsection, Runs.ok_bind]
    obtain ⟨h', -⟩ := mqttBufferPut_ok h hfits hput
    obtain ⟨b', hdisplay, hinit'⟩ := mqttBufferDispalyAll_holds h'
    have hinitialized : ({ b with mapInfo := m } : Buffer).initialized = true := hb
    rw [initializeBuffer_of_initialized hinitialized, Except.ok.injEq] at hinit'
    simp only [hput, Runs.ok_bind]
    rw [mqttBufferDispalyAllTask_run (s := (s.setBuffer b).setBuffer { b with mapInfo := m }) h']
    simp only [Shared.setBuffer_buffer, hdisplay, ← hinit', Runs.ok_bind]
    rfl

/-- Alone, a task that publishes a message does what `mqtt_publish` does. -/
theorem mqttPublishTask_run (h : BufferHolds s.buffer st) (hfits : st.Fits)
    (topic message : CString) (now : BitVec 32) :
    (mqttPublishTask topic message now).run s =
      mqttPublish s.boiler.device topic message now >>= fun r =>
        .ok ((s.setBuffer r.1.buffer).setMqtt r.1.mqtt r.2.1, r.2.2) := by
  rw [mqttPublishTask, Code.run_bind, onMqtt_run, Runs.ok_bind, mqttPublish]
  change (if s.mqtt.setupComplete then _ else _ : Task Nat).run (s.setMqtt s.mqtt []) =
    (if s.mqtt.setupComplete then _ else _) >>= _
  cases hsetup : s.mqtt.setupComplete with
  | false => rfl
  | true =>
    simp only [if_true, Code.run_bind, onMqtt_run, Shared.setMqtt_self, Runs.ok_bind]
    rw [mqttBufferPutTask_run (s := s.setMqtt s.mqtt (mqttPublishSend s.mqtt topic message)) h hfits]
    rw [Shared.setMqtt_buffer, mqttPublishStore]
    change _ = (mqttBufferPut s.buffer topic message now >>= _) >>= _
    rcases mqttBufferPut s.buffer topic message now with e | b <;> rfl

/-- Alone, a task that subscribes does what `mqtt_subscribe` does. -/
theorem mqttSubscribeTask_run (s : Shared) (topic : CString) :
    (mqttSubscribeTask topic).run s =
      .ok (s.setMqtt (mqttSubscribe s.mqtt topic).1 (mqttSubscribe s.mqtt topic).2.1,
        (mqttSubscribe s.mqtt topic).2.2) := by
  rw [mqttSubscribeTask, Code.run_bind, onMqtt_run, Runs.ok_bind, mqttSubscribe]
  cases hsetup : s.mqtt.setupComplete with
  | false => simp
  | true =>
    simp only [if_true, Code.run_bind, onMqtt_run, Runs.ok_bind, Code.run_pure, Shared.setMqtt_mqtt,
      Shared.setMqtt_setMqtt, List.nil_append, hsetup]
    rfl

/-- Alone, a task that handles an event does what `mqtt_event_handler` does. -/
theorem mqttEventHandlerTask_run (h : BufferHolds s.buffer st) (hfits : st.Fits)
    (event : MqttEvent) (now : BitVec 32) :
    (mqttEventHandlerTask event now).run s =
      mqttEventHandler s.boiler.device event now >>= fun r =>
        .ok ((s.setBuffer r.1.buffer).setMqtt r.1.mqtt r.2, ()) := by
  cases event with
  | connected =>
    simp only [mqttEventHandlerTask, mqttEventHandler, Code.run_bind, mqttPublishTask_run h hfits]
    rcases mqttPublish s.boiler.device brokerConnectTopic _ now with e | ⟨dev, calls, result⟩
    · rfl
    · simp [onMqtt_run]
  | disconnected =>
    simp only [mqttEventHandlerTask, mqttEventHandler, Code.run_bind, mqttPublishTask_run h hfits]
    rcases mqttPublish s.boiler.device brokerConnectTopic _ now with e | ⟨dev, calls, result⟩
    · rfl
    · simp [onMqtt_run]
  | data topic data =>
    rw [mqttEventHandlerTask, mqttEventHandler, mqttBufferPutTask_run h hfits]
    change _ = (mqttBufferPut s.buffer topic data now >>= _) >>= _
    rcases mqttBufferPut s.buffer topic data now with e | b
    · rfl
    · exact congrArg (fun s' => Except.ok (s', ())) (Shared.setMqtt_self (s.setBuffer b)).symm
  | other =>
    change (Except.ok (s, ()) : Except Fault _) = .ok (s.setMqtt s.mqtt [], ())
    rw [Shared.setMqtt_self]

theorem Boiler.readState_eq (other : CString → BitVec 32) (b : Boiler) :
    b.readState other =
      mqttBufferGetMatching b.device.buffer b.outlet.topicBase >>= fun r =>
        snapshotState other r.2 >>= fun state =>
          .ok (⟨⟨b.device.mqtt, r.1⟩, b.outlet⟩, state) := by
  rw [Boiler.readState]
  rcases mqttBufferGetMatching b.device.buffer b.outlet.topicBase with e | ⟨buffer, mapCopy⟩
  · rfl
  · simp only [Runs.ok_bind, snapshotState]
    split_ifs
    · rfl
    · rcases entryFields mapCopy 0 with e | entry
      · rfl
      · simp only [Runs.ok_bind]
        rcases resultContent entry stateKey with e | result <;> rfl

/-- Alone, a task that publishes a state does what `Outlet::publish` does. -/
theorem outletPublishTask_run (h : BufferHolds s.buffer st) (hfits : st.Fits) (state : Bool)
    (clocks : Clocks) :
    ∃ sent, (outletPublishTask state clocks).run s =
      s.boiler.publishAt state clocks >>= fun b => .ok ({ s with boiler := b, sent := sent }, ()) := by
  rw [outletPublishTask, Code.run_bind, onOutlet_run, Runs.ok_bind, Boiler.publishAt]
  change ∃ sent, (if s.outlet.publishes state clocks.due then _ else _ : Task Unit).run s =
    (if s.outlet.publishes state clocks.due then _ else _) >>= _
  split_ifs
  · let o : Outlet := { s.outlet with lastPublishState := state, lastPublishTime := clocks.sent }
    rw [Code.run_bind, onOutlet_run, Runs.ok_bind, Code.run_bind]
    have hpublish := mqttPublishTask_run (s := s.setOutlet o) h hfits o.topicBase
      (statePayload state) clocks.put
    change ∃ sent, (mqttPublishTask o.topicBase (statePayload state) clocks.put).run (s.setOutlet o)
      >>= _ = _
    rw [hpublish]
    change ∃ sent,
      ((mqttPublish s.boiler.device o.topicBase (statePayload state) clocks.put >>= _) >>= _) =
      (mqttPublish s.boiler.device o.topicBase (statePayload state) clocks.put >>= _) >>= _
    rcases mqttPublish s.boiler.device o.topicBase (statePayload state) clocks.put
      with e | ⟨dev, calls, r⟩
    · exact ⟨[], rfl⟩
    · exact ⟨s.sent ++ calls, rfl⟩
  · exact ⟨s.sent, rfl⟩

theorem readStateTask_run (h : BufferHolds s.buffer st) (other : CString → BitVec 32) :
    (readStateTask other).run s =
      s.boiler.readState other >>= fun r => .ok ({ s with boiler := r.1 }, r.2) := by
  rw [readStateTask, Code.run_bind, onOutlet_run, Runs.ok_bind, Code.run_bind,
    Boiler.readState_eq]
  change (mqttBufferGetMatchingTask s.outlet.topicBase).run s >>= _ =
    (mqttBufferGetMatching s.buffer s.outlet.topicBase >>= _) >>= _
  rw [mqttBufferGetMatchingTask_run h]
  rcases mqttBufferGetMatching s.buffer s.outlet.topicBase with e | ⟨b, mapCopy⟩
  · rfl
  · simp only [Runs.ok_bind, Code.run_attempt]
    rcases snapshotState other mapCopy with e | state <;> rfl

theorem Boiler.publish_holds {b b' : Boiler} {state : Bool} {clocks : Clocks}
    (h : BufferHolds b.device.buffer st) (hfits : st.Fits)
    (hpublish : b.publishAt state clocks = .ok b') : ∃ st', BufferHolds b'.device.buffer st' := by
  rw [Boiler.publishAt] at hpublish
  split_ifs at hpublish
  · rw [Runs.bind_eq_ok] at hpublish
    obtain ⟨⟨dev, calls, result⟩, hcall, heq⟩ := hpublish
    rw [mqttPublish] at hcall
    split_ifs at hcall
    · rw [Runs.bind_eq_ok] at hcall
      obtain ⟨buffer, hput, hdev⟩ := hcall
      simp only [Except.ok.injEq, Prod.mk.injEq] at heq hdev
      rw [← heq, ← hdev.1]
      exact ⟨_, (mqttBufferPut_ok h hfits hput).1⟩
    · simp only [Except.ok.injEq, Prod.mk.injEq] at heq hcall
      rw [← heq, ← hcall.1]
      exact ⟨st, h⟩
  · rw [Except.ok.injEq] at hpublish
    exact hpublish ▸ ⟨st, h⟩

/-- Alone, a task that asks for the state does what `OutletKankun::getState` does. -/
theorem getStateTask_run (h : BufferHolds s.buffer st) (hfits : st.Fits)
    (other : CString → BitVec 32) (relay : Bool) (clocks : Clocks) :
    ((getStateTask other relay clocks).run s).map (fun r => (r.1.boiler, r.2.1)) =
      s.boiler.getStateAt other relay clocks := by
  have hbehind : ∀ (s' : Shared) (st' : Store) (seen : Nat), BufferHolds s'.buffer st' →
      ((do
        let state ← readStateTask other
        pure (state, seen) : Task (Bool × Nat)).run s').map (fun r => (r.1.boiler, r.2.1)) =
      s'.boiler.readState other := by
    intro s' st' seen h'
    rw [Code.run_bind, readStateTask_run h']
    rcases s'.boiler.readState other with e | r <;> rfl
  rw [Boiler.getStateAt_eq, getStateTask, Code.run_bind, Code.run_locked, pollTask, Code.run_bind,
    Code.run_step, Runs.ok_bind]
  dsimp only
  split_ifs with hgate
  · let s' : Shared := { s with polls := s.polls ++ [relay] }
    obtain ⟨sent, hpublish⟩ := outletPublishTask_run (s := s') h hfits relay clocks
    rw [Code.run_bind, updateTask, Code.run_bind, Code.run_step, Runs.ok_bind]
    change Except.map _ ((((outletPublishTask relay clocks).run s') >>= _) >>= _) = _
    rw [hpublish]
    change Except.map _ (((s.boiler.publishAt relay clocks >>= _) >>= _) >>= _) =
      s.boiler.publishAt relay clocks >>= _
    rcases hcall : s.boiler.publishAt relay clocks with e | b
    · rfl
    · obtain ⟨st', h'⟩ := Boiler.publish_holds h hfits hcall
      exact hbehind _ st' _ h'
  · exact hbehind _ st _ h

end

/-! ## The order of the mutexes -/

/-- The mutex of the store is taken last. -/
def Mutex.rank : Mutex → Nat
  | .outlet => 0
  | .buffer => 1

/-- The task gives back what it takes, in the order of the mutexes, while it holds `held`. -/
def Balanced {α : Type} (held : List Mutex) (c : Task α) : Prop :=
  c.Ordered Mutex.rank held held

section
variable {held : List Mutex}

theorem balanced_initializeTask : Balanced held initializeTask := by
  apply (Code.ordered_attempt held _).bind
  intro initialized
  cases initialized
  · exact fun _ _ _ => rfl
  · exact Code.ordered_pure held ()

theorem balanced_mqttBufferDispalyAllTask (hbuffer : ∀ m ∈ held, m.rank < 1) :
    Balanced held mqttBufferDispalyAllTask := by
  apply balanced_initializeTask.bind
  intro _
  exact (Code.ordered_attempt _ _).locked hbuffer

theorem balanced_mqttBufferGetMatchingTask (hbuffer : ∀ m ∈ held, m.rank < 1) (filter : CString) :
    Balanced held (mqttBufferGetMatchingTask filter) := by
  apply balanced_initializeTask.bind
  intro _
  exact (Code.ordered_attempt _ _).locked hbuffer

theorem balanced_mqttBufferPutTask (hbuffer : ∀ m ∈ held, m.rank < 1) (topic data : List Char)
    (now : BitVec 32) : Balanced held (mqttBufferPutTask topic data now) := by
  apply balanced_initializeTask.bind
  intro _
  apply ((Code.ordered_attempt _ _).locked hbuffer).bind
  intro _
  apply (balanced_mqttBufferDispalyAllTask hbuffer).bind
  exact fun _ => rfl

theorem balanced_mqttPublishTask (hbuffer : ∀ m ∈ held, m.rank < 1) (topic message : CString)
    (now : BitVec 32) : Balanced held (mqttPublishTask topic message now) := by
  apply (Code.ordered_attempt held _).bind
  intro setupComplete
  cases setupComplete
  · exact Code.ordered_pure held 0
  · apply (Code.ordered_attempt held _).bind
    intro _
    apply (balanced_mqttBufferPutTask hbuffer topic message now).bind
    exact fun _ => rfl

theorem balanced_mqttSubscribeTask (topic : CString) : Balanced held (mqttSubscribeTask topic) := by
  apply (Code.ordered_attempt held _).bind
  intro setupComplete
  cases setupComplete
  · exact Code.ordered_pure held 0
  · exact fun _ _ => rfl

theorem balanced_mqttEventHandlerTask (hbuffer : ∀ m ∈ held, m.rank < 1) (event : MqttEvent)
    (now : BitVec 32) : Balanced held (mqttEventHandlerTask event now) := by
  cases event with
  | connected =>
    apply (balanced_mqttPublishTask hbuffer _ _ now).bind
    exact fun _ _ _ => rfl
  | disconnected =>
    apply (balanced_mqttPublishTask hbuffer _ _ now).bind
    exact fun _ _ => rfl
  | data topic data => exact balanced_mqttBufferPutTask hbuffer topic data now
  | other => exact Code.ordered_pure held ()

theorem balanced_updateTask (hbuffer : ∀ m ∈ held, m.rank < 1) (relay : Bool) (clocks : Clocks) :
    Balanced held (updateTask relay clocks) := by
  apply (Code.ordered_attempt held _).bind
  intro _
  apply (Code.ordered_attempt held _).bind
  intro due
  cases due
  · exact Code.ordered_pure held ()
  · apply (Code.ordered_attempt held _).bind
    intro topicBase
    apply (balanced_mqttPublishTask hbuffer _ _ _).bind
    exact fun _ => rfl

theorem balanced_pollTask (hbuffer : ∀ m ∈ held, m.rank < 1) (relay : Bool) (clocks : Clocks) :
    Balanced held (pollTask relay clocks) := by
  apply (Code.ordered_attempt _ _).bind
  intro gateOpen
  cases gateOpen
  · exact fun _ => rfl
  · apply (balanced_updateTask hbuffer relay clocks).bind
    exact fun _ _ => rfl

theorem balanced_readStateTask (other : CString → BitVec 32) : Balanced [] (readStateTask other) := by
  apply (Code.ordered_attempt [] _).bind
  intro topicBase
  apply (balanced_mqttBufferGetMatchingTask (by simp) topicBase).bind
  exact fun _ _ => rfl

theorem balanced_getStateTask (other : CString → BitVec 32) (relay : Bool) (clocks : Clocks) :
    Balanced [] (getStateTask other relay clocks) := by
  apply ((balanced_pollTask (by decide) relay clocks).locked (by simp)).bind
  intro seen
  apply (balanced_readStateTask other).bind
  exact fun _ => rfl

theorem TaskCall.balanced (other : CString → BitVec 32) (call : TaskCall) :
    Balanced [] (call.task other) := by
  have hbuffer : ∀ m ∈ ([] : List Mutex), m.rank < 1 := by simp
  cases call with
  | getState relay clocks => exact (balanced_getStateTask other relay clocks).bind fun _ => rfl
  | publish topic message now =>
    exact (balanced_mqttPublishTask hbuffer topic message now).bind fun _ => rfl
  | subscribe topic => exact (balanced_mqttSubscribeTask topic).bind fun _ => rfl
  | handle event now => exact (balanced_mqttEventHandlerTask hbuffer event now).bind fun _ => rfl
  | getMatching filter =>
    exact (balanced_mqttBufferGetMatchingTask hbuffer filter).bind fun _ => rfl
  | dispalyAll => exact (balanced_mqttBufferDispalyAllTask hbuffer).bind fun _ => rfl

end

/-- The tasks and what they share. -/
abbrev TaskWorld (τ : Type) := World τ Mutex Fault Shared (Option (Bool × Nat))

/-- **No call is held up for good.** Whatever tasks have called since the store was initialized and
however far they have come, a call can be finished by steps of the calls under way, unless the device
faults. -/
theorem no_call_held_up {τ : Type} [DecidableEq τ] (other : CString → BitVec 32) {s₀ : Shared}
    {m₀ : TopicMap} {w : TaskWorld τ}
    (h : Reachable (fun c => ∃ call : TaskCall, c = call.task other)
      (s₀.setBuffer ⟨true, m₀⟩) none w) (t : τ) :
    ∃ w', Relation.ReflTransGen Move w w' ∧ (w'.Halted ∨ ∃ r, w'.code t = .done r) := by
  have hbound : ∀ m : Mutex, m.rank < 2 := by
    intro m
    cases m <;> decide
  apply h.can_finish hbound
  intro c hcall
  obtain ⟨call, rfl⟩ := hcall
  exact call.balanced other

/-- A task waits for the mutex of the outlet, which another one has taken. -/
theorem no_call_held_up_two :
    ∃ w : TaskWorld Bool, w.holder .outlet = some true ∧
      (∃ next, w.code false = .take .outlet next) ∧
      ∃ w', Relation.ReflTransGen Move w w' ∧ (w'.Halted ∨ ∃ r, w'.code false = .done r) := by
  let s₀ := (Shared.boot [] true boilerTopic false).setBuffer ⟨true, emptyTopics⟩
  let calls : Task (Option (Bool × Nat)) → Prop :=
    fun c => ∃ call : TaskCall, c = call.task fun _ => 0
  let w₀ : TaskWorld Bool := World.start Bool Mutex s₀ none
  let c := TaskCall.task (fun _ => 0) (.getState true ⟨0, 0, 0, 0⟩)
  obtain ⟨next, hnext⟩ : ∃ next, c = .take .outlet next := ⟨_, rfl⟩
  have h₁ : Reachable calls s₀ none (w₀.go true c) :=
    .step .start (.call _ true none rfl c ⟨_, rfl⟩)
  have h₂ : Reachable calls s₀ none (((w₀.go true c).hand .outlet (some true)).go true next) :=
    .step h₁ (.move (.take _ s₀ rfl true .outlet next (by rw [World.go_self, hnext]) rfl))
  have h₃ : Reachable calls s₀ none
      ((((w₀.go true c).hand .outlet (some true)).go true next).go false c) :=
    .step h₂ (.call _ false none rfl c ⟨_, rfl⟩)
  exact ⟨_, rfl, ⟨next, by rw [World.go_self, hnext]⟩, no_call_held_up _ h₃ false⟩

end HomeAutomation
