import HomeAutomation.Mqtt.Levels
import HomeAutomation.Mqtt.SessionLaws
import HomeAutomation.Outlet.Freshness

/-!
# The outlet reports what it last polled

Any number of tasks call `getState`. What stands between taking and giving the mutex is one step of
a task, the snapshot behind it another, and messages on other topics are stored in between.
-/

namespace HomeAutomation

/-- A boiler with the tasks that have given the mutex back and not yet taken their snapshot, and the
results of the polls so far. -/
structure OutletTasks (τ : Type) where
  boiler : Boiler
  waiting : τ → Bool
  polls : List Bool

/-- The steps: a task between taking and giving the mutex, with its readings of the clock and what the
relay answers; the snapshot of a task; a message that a task publishes; an
event of the client. -/
inductive OutletAction (τ : Type) where
  | locked (task : τ) (clocks : Clocks) (relay : Bool)
  | snapshot (task : τ)
  | publish (topic message : CString) (now : BitVec 32)
  | handle (event : MqttEvent) (now : BitVec 32)

/-- A topic that is newline-free and different after trimming. -/
def OtherTopic (topicBase : CString) (topic : List Char) : Prop :=
  '\n' ∉ trim (cstr topic) ∧ trim (cstr topic) ≠ topicBase

/-- What is stored in the step, apart from polls, goes to other topics. -/
def OutletAction.Elsewhere {τ : Type} (topicBase : CString) : OutletAction τ → Prop
  | .locked _ _ _ => True
  | .snapshot _ => True
  | .publish topic _ _ => OtherTopic topicBase topic
  | .handle .connected _ => OtherTopic topicBase brokerConnectTopic
  | .handle .disconnected _ => OtherTopic topicBase brokerConnectTopic
  | .handle (.data topic _) _ => OtherTopic topicBase topic
  | .handle .other _ => True

/-- A topic to poll for: trimmed, of one line, and without a wildcard level. -/
structure PlainTopic (topicBase : CString) : Prop where
  trimmed : trim (cstr topicBase) = topicBase
  line : '\n' ∉ topicBase
  plus : ['+'] ∉ levels topicBase
  hash : ['#'] ∉ levels topicBase

namespace OutletTasks
variable {τ : Type} [DecidableEq τ]

inductive Step (other : CString → BitVec 32) :
    OutletTasks τ → OutletAction τ → OutletTasks τ → Prop where
  | locked (p : OutletTasks τ) (task : τ) (clocks : Clocks) (relay : Bool)
      (htask : p.waiting task = false) (boiler : Boiler)
      (hupdate : (if p.boiler.gateOpen clocks.gate then p.boiler.updateAt relay clocks
        else .ok p.boiler) = .ok boiler) :
      Step other p (.locked task clocks relay)
        { boiler := boiler
          waiting := Function.update p.waiting task true
          polls := if p.boiler.gateOpen clocks.gate then p.polls ++ [relay] else p.polls }
  | snapshot (p : OutletTasks τ) (task : τ) (htask : p.waiting task = true) (boiler : Boiler)
      (state : Bool) (hread : p.boiler.readState other = .ok (boiler, state)) :
      Step other p (.snapshot task)
        { p with boiler := boiler, waiting := Function.update p.waiting task false }
  | publish (p : OutletTasks τ) (topic message : CString) (now : BitVec 32) (dev : Device)
      (calls : List ClientCall) (result : Nat)
      (hcall : mqttPublish p.boiler.device topic message now = .ok (dev, calls, result)) :
      Step other p (.publish topic message now) { p with boiler := { p.boiler with device := dev } }
  | handle (p : OutletTasks τ) (event : MqttEvent) (now : BitVec 32) (dev : Device)
      (calls : List ClientCall)
      (hhandle : mqttEventHandler p.boiler.device event now = .ok (dev, calls)) :
      Step other p (.handle event now) { p with boiler := { p.boiler with device := dev } }

/-- After `mqtt_app_start` and the constructor of the outlet; no task is in `getState`. -/
def boot (τ : Type) (subscriptions : List CString) (connected : Bool) (topicBase : CString)
    (lastPublishState : Bool) : OutletTasks τ :=
  ⟨⟨⟨⟨subscriptions, true, connected⟩, Buffer.boot⟩, Outlet.boot topicBase lastPublishState⟩,
    fun _ => false, []⟩

/-- Reached from start-up by steps that store elsewhere. -/
inductive Reachable (other : CString → BitVec 32) (topicBase : CString) : OutletTasks τ → Prop where
  | boot (subscriptions : List CString) (connected lastPublishState : Bool) :
      Reachable other topicBase (boot τ subscriptions connected topicBase lastPublishState)
  | step {p p' : OutletTasks τ} {a : OutletAction τ} :
      Reachable other topicBase p → a.Elsewhere topicBase → Step other p a p' →
      Reachable other topicBase p'

end OutletTasks

/-! ## Messages on other topics -/

section
variable {b : Boiler} {s : Store} {topicBase : CString}

theorem OtherTopic.not_selected (hbase : PlainTopic topicBase) {topic : List Char}
    (h : OtherTopic topicBase topic) : ¬ 0 < matchTopic topicBase (trim (cstr topic)) := by
  rw [matchTopic_literal hbase.plus hbase.hash hbase.line h.1]
  exact fun heq => h.2 heq.symm

/-- A put on another topic leaves the state of the outlet alone. -/
theorem Boiler.Stores.putOther (h : b.Stores s) (hbase : PlainTopic b.outlet.topicBase)
    {topic data : List Char} {now : BitVec 32} (htopic : OtherTopic b.outlet.topicBase topic)
    {buffer : Buffer} (hput : mqttBufferPut b.device.buffer topic data now = .ok buffer)
    {mqtt : MqttState} (hmqtt : mqtt.setupComplete = true) :
    ∃ s', Boiler.Stores ⟨⟨mqtt, buffer⟩, b.outlet⟩ s' ∧
      s'.value b.outlet.topicBase stateKey = s.value b.outlet.topicBase stateKey := by
  obtain ⟨hb, hfits⟩ := mqttBufferPut_ok h.store h.fits hput
  have hselected := htopic.not_selected hbase
  refine ⟨_, ⟨hmqtt, hb, hfits, h.only.put ?_ _ now⟩, ?_⟩
  · exact fun hmatch => absurd hmatch hselected
  · have hne : trim (cstr topic) ≠ trim (cstr b.outlet.topicBase) := by
      rw [hbase.trimmed]
      exact htopic.2
    have hvalue := s.value_put_other (cstr data) now hne stateKey
    rwa [hbase.trimmed] at hvalue

theorem mqttPublish_put {dev dev' : Device} {topic message : CString} {now : BitVec 32}
    {calls : List ClientCall} {result : Nat} (hsetup : dev.mqtt.setupComplete = true)
    (hcall : mqttPublish dev topic message now = .ok (dev', calls, result)) :
    ∃ buffer, mqttBufferPut dev.buffer topic message now = .ok buffer ∧
      dev' = { dev with buffer := buffer } := by
  rw [mqttPublish, if_pos hsetup, Runs.bind_eq_ok] at hcall
  obtain ⟨buffer, hput, heq⟩ := hcall
  rw [Except.ok.injEq, Prod.mk.injEq] at heq
  exact ⟨buffer, hput, heq.1.symm⟩

theorem mqttEventHandler_put {dev dev' : Device} {e : SessionEvent} {now : BitVec 32}
    {calls : List ClientCall} (hsetup : dev.mqtt.setupComplete = true)
    (hhandle : mqttEventHandler dev e.mqttEvent now = .ok (dev', calls)) :
    ∃ buffer mqtt, mqttBufferPut dev.buffer brokerConnectTopic e.announcement now = .ok buffer ∧
      dev' = ⟨mqtt, buffer⟩ ∧ mqtt.setupComplete = true := by
  rw [mqttEventHandler_sessionEvent, Runs.bind_eq_ok] at hhandle
  obtain ⟨⟨dev1, calls1, result⟩, hpublish, heq⟩ := hhandle
  obtain ⟨buffer, hput, rfl⟩ := mqttPublish_put hsetup hpublish
  rw [Except.ok.injEq, Prod.mk.injEq] at heq
  exact ⟨buffer, _, hput, heq.1.symm, hsetup⟩

end

/-! ## What every reachable state keeps -/

namespace OutletTasks
variable {τ : Type} {topicBase : CString}

/-- The last poll is in the store, and a task that waits for its snapshot comes after a poll. -/
structure Sound (p : OutletTasks τ) (topicBase : CString) (s : Store) : Prop where
  stores : p.boiler.Stores s
  topic : p.boiler.outlet.topicBase = topicBase
  unpolled : p.polls = [] → p.boiler.outlet.lastPublishTime = 0
  last : ∀ relay, p.polls.getLast? = some relay → p.boiler.outlet.lastPublishState = relay ∧
    s.value topicBase stateKey = some (decimal relay.toNat)
  waiting : ∀ task, p.waiting task = true → p.polls ≠ []

theorem boot_sound (subscriptions : List CString) (connected lastPublishState : Bool) :
    (boot τ subscriptions connected topicBase lastPublishState).Sound topicBase
      OrderedMap.empty := by
  refine ⟨⟨rfl, BufferHolds.boot, Store.fits_empty, Store.OnlyTopic.empty topicBase⟩, rfl,
    fun _ => rfl, ?_, ?_⟩
  · intro relay hlast
    exact absurd hlast (by simp [boot])
  · intro task htask
    exact absurd htask (by simp [boot])

section
variable {p : OutletTasks τ} {s : Store}

/-- The last published state is the one of the last poll, once there is one. -/
theorem Sound.published (h : p.Sound topicBase s) :
    p.boiler.outlet.lastPublishTime = 0 ∨ s.value p.boiler.outlet.topicBase stateKey =
      some (decimal p.boiler.outlet.lastPublishState.toNat) := by
  rcases List.eq_nil_or_concat' p.polls with hnil | ⟨polls, relay, hpolls⟩
  · exact Or.inl (h.unpolled hnil)
  · obtain ⟨hstate, hvalue⟩ := h.last relay (by rw [hpolls]; simp)
    right
    rw [h.topic, hstate]
    exact hvalue

/-- What is stored elsewhere changes nothing that the outlet knows. -/
theorem Sound.putOther (h : p.Sound topicBase s) (hbase : PlainTopic topicBase)
    {topic data : List Char} {now : BitVec 32} (htopic : OtherTopic topicBase topic)
    {buffer : Buffer} (hput : mqttBufferPut p.boiler.device.buffer topic data now = .ok buffer)
    {mqtt : MqttState} (hmqtt : mqtt.setupComplete = true) :
    ∃ s', ({ p with boiler := ⟨⟨mqtt, buffer⟩, p.boiler.outlet⟩ } : OutletTasks τ).Sound
      topicBase s' := by
  have htop := h.topic
  obtain ⟨s', hs', hvalue⟩ :=
    h.stores.putOther (htop ▸ hbase) (htop ▸ htopic) hput hmqtt
  rw [htop] at hvalue
  refine ⟨s', hs', htop, h.unpolled, ?_, h.waiting⟩
  intro relay hlast
  rw [hvalue]
  exact h.last relay hlast

end

section
variable [DecidableEq τ] {other : CString → BitVec 32} {p p' : OutletTasks τ} {s : Store}

theorem Sound.locked (h : p.Sound topicBase s) (hbase : PlainTopic topicBase) {task : τ}
    {clocks : Clocks} {relay : Bool} {boiler : Boiler}
    (hupdate : (if p.boiler.gateOpen clocks.gate then p.boiler.updateAt relay clocks
      else .ok p.boiler) = .ok boiler) :
    ∃ s', Sound
      { boiler := boiler
        waiting := Function.update p.waiting task true
        polls := if p.boiler.gateOpen clocks.gate then p.polls ++ [relay] else p.polls }
      topicBase s' := by
  by_cases hgate : p.boiler.gateOpen clocks.gate = true
  · rw [if_pos hgate] at hupdate
    obtain ⟨s', hs', htopic', hstate', hvalue', -⟩ :=
      h.stores.publish (by rw [h.topic]; exact hbase.trimmed) h.published hupdate
    rw [h.topic] at htopic' hvalue'
    refine ⟨s', hs', htopic', ?_, ?_, ?_⟩
    · intro hnil
      rw [if_pos hgate] at hnil
      exact absurd hnil (by simp)
    · intro relay' hlast
      rw [if_pos hgate, List.getLast?_append, List.getLast?_singleton, Option.some_or,
        Option.some.injEq] at hlast
      exact hlast ▸ ⟨hstate', hvalue'⟩
    · intro _ _
      rw [if_pos hgate]
      simp
  · -- the gate is shut: something has been published, so a poll was made
    rw [if_neg hgate, Except.ok.injEq] at hupdate
    subst hupdate
    have hpolled : p.polls ≠ [] := by
      intro hnil
      exact hgate (by simp [Boiler.gateOpen, h.unpolled hnil])
    refine ⟨s, h.stores, h.topic, ?_, ?_, ?_⟩
    · rw [if_neg hgate]
      exact h.unpolled
    · rw [if_neg hgate]
      exact h.last
    · intro _ _
      rw [if_neg hgate]
      exact hpolled

theorem Sound.snapshot (h : p.Sound topicBase s) {task : τ} (htask : p.waiting task = true)
    {boiler : Boiler} {state : Bool} (hread : p.boiler.readState other = .ok (boiler, state)) :
    Sound { p with boiler := boiler, waiting := Function.update p.waiting task false }
      topicBase s := by
  obtain ⟨polls, relay, hpolls⟩ :=
    List.eq_nil_or_concat' p.polls |>.resolve_left (h.waiting task htask)
  obtain ⟨-, hvalue⟩ := h.last relay (by rw [hpolls]; simp)
  obtain ⟨boiler', hread', hs', houtlet⟩ :=
    h.stores.readState other (by rw [h.topic]; exact hvalue)
  rw [hread, Except.ok.injEq, Prod.mk.injEq] at hread'
  obtain ⟨rfl, -⟩ := hread'
  refine ⟨hs', by rw [houtlet, h.topic], ?_, ?_, ?_⟩
  · rw [houtlet]
    exact h.unpolled
  · rw [houtlet]
    exact h.last
  · intro task' htask'
    change Function.update p.waiting task false task' = true at htask'
    by_cases hsame : task' = task
    · rw [hsame, Function.update_self] at htask'
      exact absurd htask' (by simp)
    · rw [Function.update_of_ne hsame] at htask'
      exact h.waiting task' htask'

theorem Step.sound {a : OutletAction τ} (hstep : Step other p a p') (hbase : PlainTopic topicBase)
    (ha : a.Elsewhere topicBase) (h : p.Sound topicBase s) : ∃ s', p'.Sound topicBase s' := by
  cases hstep with
  | locked task clocks relay htask boiler hupdate => exact h.locked hbase hupdate
  | snapshot task htask boiler state hread => exact ⟨s, h.snapshot htask hread⟩
  | publish topic message now dev calls result hcall =>
    obtain ⟨buffer, hput, rfl⟩ := mqttPublish_put h.stores.setup hcall
    exact h.putOther hbase ha hput h.stores.setup
  | handle event now dev calls hhandle =>
    cases event with
    | connected =>
      obtain ⟨buffer, mqtt, hput, rfl, hmqtt⟩ :=
        mqttEventHandler_put (e := .connected) h.stores.setup hhandle
      exact h.putOther hbase ha hput hmqtt
    | disconnected =>
      obtain ⟨buffer, mqtt, hput, rfl, hmqtt⟩ :=
        mqttEventHandler_put (e := .disconnected) h.stores.setup hhandle
      exact h.putOther hbase ha hput hmqtt
    | data topic data =>
      rw [mqttEventHandler, Runs.bind_eq_ok] at hhandle
      obtain ⟨buffer, hput, heq⟩ := hhandle
      rw [Except.ok.injEq, Prod.mk.injEq] at heq
      obtain ⟨rfl, -⟩ := heq
      exact h.putOther hbase ha hput h.stores.setup
    | other =>
      rw [mqttEventHandler, Except.ok.injEq, Prod.mk.injEq] at hhandle
      obtain ⟨rfl, -⟩ := hhandle
      exact ⟨s, h⟩

theorem Reachable.sound (hbase : PlainTopic topicBase) (h : Reachable other topicBase p) :
    ∃ s, p.Sound topicBase s := by
  induction h with
  | boot subscriptions connected lastPublishState =>
    exact ⟨_, boot_sound subscriptions connected lastPublishState⟩
  | step _ ha hstep ih =>
    obtain ⟨s, hs⟩ := ih
    exact hstep.sound hbase ha hs

/-- **The outlet reports what it last polled.** From the first poll on the store has the topic of the
outlet with the result of the last poll as its state, a snapshot finds it and reads it back; and no
task takes a snapshot before that. -/
theorem Reachable.reports_last_poll (hbase : PlainTopic topicBase)
    (h : Reachable other topicBase p) :
    (∀ relay, p.polls.getLast? = some relay →
      (∃ fields, storeEntry p.boiler.device.buffer topicBase = .ok (some fields) ∧
        contentAt fields stateKey = .ok (some (decimal relay.toNat))) ∧
      (∃ buffer mapCopy fields content,
        mqttBufferGetMatching p.boiler.device.buffer topicBase = .ok (buffer, mapCopy) ∧
        flatmapGetEntryCount mapCopy ≠ 0 ∧ entryFields mapCopy 0 = .ok fields ∧
        resultContent fields stateKey = .ok content ∧
        (strtodUint32 other content != 0) = relay) ∧
      ∃ boiler, p.boiler.readState other = .ok (boiler, relay)) ∧
    ∀ task, p.waiting task = true → p.polls ≠ [] := by
  obtain ⟨s, hs⟩ := h.sound hbase
  refine ⟨?_, hs.waiting⟩
  intro relay hlast
  have htopic := hs.topic
  obtain ⟨-, hvalue⟩ := hs.last relay hlast
  refine ⟨?_, ?_, ?_⟩
  · rw [Store.value, Option.bind_eq_some_iff] at hvalue
    obtain ⟨f, hf, hstate⟩ := hvalue
    have hbuffer := hs.stores.store
    have htrim : trim topicBase = topicBase := by
      rw [← hbase.trimmed]
      exact Delimited.trim_trim isspace _
    rcases storeEntry_holds hbuffer topicBase with ⟨_, hnone⟩ | ⟨fields, f', hentry, hsome, hf'⟩
    · rw [htrim, hf] at hnone
      exact absurd hnone (Option.some_ne_none _)
    · rw [htrim, hf, Option.some.injEq] at hsome
      subst hsome
      exact ⟨fields, hentry, by rw [hf'.contentAt_eq, trim_stateKey, hstate]⟩
  · obtain ⟨buffer, mapCopy, m, hget, hcount, hentry, hresult, -⟩ :=
      hs.stores.snapshot (by rw [htopic]; exact hvalue)
    rw [htopic] at hget
    exact ⟨buffer, mapCopy, m, _, hget, by omega, hentry, hresult, strtodUint32_state other relay⟩
  · obtain ⟨boiler, hread, -⟩ := hs.stores.readState other (by rw [htopic]; exact hvalue)
    exact ⟨boiler, hread⟩

end

/-- Two polls with a message on another topic in between; the second is not published, and is read
back. -/
theorem first_poll_read_back :
    ∃ p : OutletTasks Unit, Reachable (fun _ => 0) boilerTopic p ∧ p.polls = [true, true] ∧
      p.boiler.outlet.lastPublishTime = millis 15000 ∧
      ∃ boiler, p.boiler.readState (fun _ => 0) = .ok (boiler, true) := by
  have hbase : PlainTopic boilerTopic :=
    ⟨by decide +kernel, by decide +kernel, by decide +kernel, by decide +kernel⟩
  let p₀ := boot Unit [] true boilerTopic false
  let first := Clocks.instant (millis 15000)
  let second := Clocks.instant (millis 21000)
  have hother : OtherTopic boilerTopic "room".toList := ⟨by decide +kernel, by decide +kernel⟩
  have hrun : (do
      let b₁ ← p₀.boiler.updateAt true first
      let sent ← mqttPublish b₁.device "room".toList "state:0".toList (millis 15500)
      let read ← Boiler.readState (fun _ => 0) { b₁ with device := sent.1 }
      let b₃ ← read.1.updateAt true second
      .ok (read.1.gateOpen second.gate, b₃.outlet.lastPublishTime) : Except Fault _) =
        .ok (true, millis 15000) := by
    decide +kernel
  obtain ⟨b₁, hfirst, hrun⟩ := Runs.bind_eq_ok.mp hrun
  obtain ⟨⟨device, calls, result⟩, hpublish, hrun⟩ := Runs.bind_eq_ok.mp hrun
  obtain ⟨⟨b₂, state⟩, hread, hrun⟩ := Runs.bind_eq_ok.mp hrun
  obtain ⟨b₃, hsecond, hrun⟩ := Runs.bind_eq_ok.mp hrun
  rw [Except.ok.injEq, Prod.mk.injEq] at hrun
  obtain ⟨hgate, htime⟩ := hrun
  have hgate₀ : p₀.boiler.gateOpen first.gate = true := by decide
  have hreach₁ : Reachable (fun _ => 0) boilerTopic _ :=
    .step (a := .locked () first true) (.boot [] true false) trivial
      (.locked p₀ () first true rfl b₁ (by rw [if_pos hgate₀]; exact hfirst))
  have hreach₂ := hreach₁.step (a := .publish "room".toList "state:0".toList (millis 15500)) hother
    (.publish _ _ _ _ device calls result hpublish)
  have hreach₃ := hreach₂.step (a := .snapshot ()) trivial (.snapshot _ () rfl b₂ state hread)
  have hreach₄ := hreach₃.step (a := .locked () second true) trivial
    (.locked _ () second true rfl b₃ (by rw [if_pos hgate]; exact hsecond))
  refine ⟨_, hreach₄, ?_, htime, ?_⟩
  · simp only [if_pos hgate₀, if_pos hgate]
    rfl
  · refine ((hreach₄.reports_last_poll hbase).1 true ?_).2.2
    simp only [if_pos hgate₀, if_pos hgate]
    rfl

end OutletTasks

end HomeAutomation
