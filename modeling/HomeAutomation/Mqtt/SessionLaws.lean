import HomeAutomation.Lib.History
import HomeAutomation.Mqtt.Session
import HomeAutomation.Buffer.LastWriter

/-!
# Subscriptions and messages over sessions

A topic reaches the broker at once or when the next session opens, as `connected` says, and each
session gets every accepted topic once. A message is sent as `connected` says too; but the handlers
call `mqtt_publish` before they set `connected`, so what they announce goes by the session event
before theirs.
-/

namespace HomeAutomation

open History

/-! ## What the calls do -/

/-- `mqtt_publish` leaves the variables alone, and sends what it is given while set up and
connected. -/
theorem mqttPublish_spec {dev dev' : Device} {topic message : CString} {now : BitVec 32}
    {calls : List ClientCall} {result : Nat}
    (h : mqttPublish dev topic message now = .ok (dev', calls, result)) :
    dev'.mqtt = dev.mqtt ∧
      calls =
        if dev.mqtt.setupComplete ∧ dev.mqtt.connected then [.publish topic message] else [] := by
  unfold mqttPublish at h
  by_cases hsetup : dev.mqtt.setupComplete
  · rw [if_pos hsetup, Runs.bind_eq_ok] at h
    obtain ⟨b, _, h⟩ := h
    rw [Except.ok.injEq, Prod.mk.injEq, Prod.mk.injEq] at h
    obtain ⟨rfl, rfl, -⟩ := h
    exact ⟨rfl, by simp [mqttPublishSend, hsetup]⟩
  · rw [if_neg hsetup, Except.ok.injEq, Prod.mk.injEq, Prod.mk.injEq] at h
    obtain ⟨rfl, rfl, -⟩ := h
    exact ⟨rfl, by simp [hsetup]⟩

theorem mqttEventHandler_sessionEvent (dev : Device) (e : SessionEvent) (now : BitVec 32) :
    mqttEventHandler dev e.mqttEvent now = (do
      let (dev, calls, _) ← mqttPublish dev brokerConnectTopic e.announcement now
      .ok ({ dev with mqtt := { dev.mqtt with connected := decide (e = .connected) } },
        calls ++ if e = .connected then dev.mqtt.subscriptions.map .subscribe else [])) := by
  unfold SessionEvent.announcement
  cases e with
  | connected =>
    simp only [SessionEvent.mqttEvent, mqttEventHandler]
    generalize "state:true".toList = message
    cases mqttPublish dev brokerConnectTopic message now <;> simp
  | disconnected =>
    simp only [SessionEvent.mqttEvent, mqttEventHandler]
    generalize "state:false".toList = message
    cases mqttPublish dev brokerConnectTopic message now <;> simp

theorem publish_mem {topic message : CString} {up : Prop} [Decidable up] {p : Prop} [Decidable p]
    {topics : List CString} :
    ClientCall.publish topic message ∈ (if up then [ClientCall.publish topic message] else []) ++
      (if p then topics.map ClientCall.subscribe else []) ↔ up := by
  split_ifs <;> simp_all

theorem subscribeTopics_calls {topic message : CString} {up : Prop} [Decidable up] {p : Prop}
    [Decidable p] {topics : List CString} :
    subscribeTopics ((if up then [ClientCall.publish topic message] else []) ++
      (if p then topics.map ClientCall.subscribe else [])) = if p then topics else [] := by
  split_ifs <;> simp [subscribeTopics, List.filterMap_map]

/-- The handler of a session event: its announcement goes by the variables as they were, and the
topics are replayed when the session opens. -/
theorem mqttEventHandler_session {dev dev' : Device} {e : SessionEvent} {now : BitVec 32}
    {calls : List ClientCall} (h : mqttEventHandler dev e.mqttEvent now = .ok (dev', calls)) :
    dev'.mqtt = { dev.mqtt with connected := decide (e = .connected) } ∧
      subscribeTopics calls = (if e = .connected then dev.mqtt.subscriptions else []) ∧
      (.publish brokerConnectTopic e.announcement ∈ calls ↔
        dev.mqtt.setupComplete ∧ dev.mqtt.connected) := by
  rw [mqttEventHandler_sessionEvent, Runs.bind_eq_ok] at h
  obtain ⟨⟨dev1, calls1, result⟩, hpublish, h⟩ := h
  rw [Except.ok.injEq, Prod.mk.injEq] at h
  obtain ⟨hmqtt, hcalls⟩ := mqttPublish_spec hpublish
  obtain ⟨rfl, rfl⟩ := h
  rw [hcalls, hmqtt]
  exact ⟨rfl, subscribeTopics_calls, publish_mem⟩

/-! ## The log -/

theorem latestEvent_append (log new : List Happened) :
    latestEvent (log ++ new) = (latestEvent new).or (latestEvent log) := by
  induction new using List.reverseRecOn with
  | nil => simp [latestEvent]
  | append_singleton new h ih =>
    rw [← List.append_assoc]
    cases h <;> simp_all [latestEvent, List.foldl_append]

@[simp] theorem accepted_append (log new : List Happened) :
    accepted (log ++ new) = accepted log ++ accepted new :=
  List.filterMap_append

/-- Topics handed over do not change which event was the latest. -/
theorem latestEvent_handed (log : List Happened) (topics : List CString) :
    latestEvent (log ++ topics.map .handed) = latestEvent log := by
  induction topics using List.reverseRecOn with
  | nil => simp
  | append_singleton topics t ih =>
    rw [List.map_append, ← List.append_assoc, ← ih]
    simp [latestEvent, List.foldl_append]

theorem handedSince_handed (log : List Happened) (topics : List CString) :
    handedSince (log ++ topics.map .handed) = handedSince log ++ topics := by
  induction topics using List.reverseRecOn with
  | nil => simp
  | append_singleton topics t ih =>
    rw [List.map_append, ← List.append_assoc]
    simp only [handedSince, List.foldl_append] at ih ⊢
    simp [ih]

theorem accepted_handed (topics : List CString) : accepted (topics.map .handed) = [] := by
  simp [accepted, List.filterMap_map]

/-! ## What every reachable session keeps -/

namespace Session

/-- The variables say what the log says, and the open session has got every accepted topic. -/
structure Sound (s : Session) : Prop where
  connected : s.device.mqtt.connected = true ↔ latestEvent s.log = some .connected
  setup : s.device.mqtt.setupComplete = true ↔ .setup ∈ s.log
  subscriptions : s.device.mqtt.subscriptions = accepted s.log
  handed : handedSince s.log =
    if s.device.mqtt.connected then s.device.mqtt.subscriptions else []

theorem boot_sound : boot.Sound where
  connected := by simp [boot, latestEvent]
  setup := by simp [boot]
  subscriptions := rfl
  handed := rfl

/-- What `mqtt_subscribe` does: nothing before the set-up, else one more topic, handed over at once
while connected. -/
theorem mqttSubscribe_cases {q q' : MqttState} {topic : CString} {calls : List ClientCall}
    {result : Nat} (h : mqttSubscribe q topic = (q', calls, result)) :
    q.setupComplete = false ∧ q' = q ∧ calls = [] ∧ result = 0 ∨
      q.setupComplete = true ∧ q' = { q with subscriptions := q.subscriptions ++ [topic] } ∧
        subscribeTopics calls = (if q.connected then [topic] else []) ∧ result = 1 := by
  unfold mqttSubscribe at h
  cases hsetup : q.setupComplete with
  | false =>
    simp only [hsetup, Bool.false_eq_true, if_false, Prod.mk.injEq] at h
    obtain ⟨rfl, rfl, rfl⟩ := h
    exact Or.inl ⟨rfl, rfl, rfl, rfl⟩
  | true =>
    simp only [hsetup, if_true, Prod.mk.injEq] at h
    obtain ⟨rfl, rfl, rfl⟩ := h
    refine Or.inr ⟨rfl, rfl, ?_, rfl⟩
    split_ifs <;> rfl

/-- The handler of a session event sets `connected`, and replays the topics when the session opens. -/
theorem Sound.deliver {s : Session} (h : s.Sound) {dev : Device} {e : SessionEvent}
    {now : BitVec 32} {calls : List ClientCall}
    (hhandle : mqttEventHandler s.device e.mqttEvent now = .ok (dev, calls))
    (queue : List SessionEvent) :
    Sound { s with
      device := dev
      queue := queue
      log := s.log ++ .event e :: givenMessage brokerConnectTopic e.announcement calls ::
        (subscribeTopics calls).map .handed } := by
  obtain ⟨hmqtt, htopics, -⟩ := mqttEventHandler_session hhandle
  have hlog : s.log ++ .event e :: givenMessage brokerConnectTopic e.announcement calls ::
      (subscribeTopics calls).map Happened.handed =
      (s.log ++ [.event e, givenMessage brokerConnectTopic e.announcement calls]) ++
        (subscribeTopics calls).map Happened.handed := by simp
  refine ⟨?_, ?_, ?_, ?_⟩
  · show dev.mqtt.connected = true ↔ latestEvent (s.log ++ _) = _
    rw [hlog, latestEvent_handed, latestEvent_append, hmqtt]
    simp [latestEvent, givenMessage]
  · show dev.mqtt.setupComplete = true ↔ _ ∈ s.log ++ _
    rw [hmqtt]
    simp [h.setup, givenMessage]
  · show dev.mqtt.subscriptions = accepted (s.log ++ _)
    rw [hlog, accepted_append, accepted_append, accepted_handed, hmqtt]
    simpa [accepted, givenMessage] using h.subscriptions
  · show handedSince (s.log ++ _) = _
    rw [hlog, handedSince_handed, htopics, hmqtt]
    simp [handedSince, List.foldl_append, givenMessage]

/-- A topic that is accepted while connected is handed over with the others. -/
theorem Sound.subscribe {s : Session} (h : s.Sound) {topic : CString} {mqtt : MqttState}
    {calls : List ClientCall} {result : Nat}
    (hcall : mqttSubscribe s.device.mqtt topic = (mqtt, calls, result)) :
    Sound { s with
      device := { s.device with mqtt := mqtt }
      log := s.log ++ .subscribe topic result :: (subscribeTopics calls).map .handed } := by
  have hlog : s.log ++ .subscribe topic result :: (subscribeTopics calls).map Happened.handed =
      (s.log ++ [.subscribe topic result]) ++ (subscribeTopics calls).map Happened.handed := by
    simp
  have hcases := mqttSubscribe_cases hcall
  refine ⟨?_, ?_, ?_, ?_⟩
  · show mqtt.connected = true ↔ latestEvent (s.log ++ _) = _
    rw [hlog, latestEvent_handed, latestEvent_append]
    rcases hcases with ⟨-, rfl, -, -⟩ | ⟨-, rfl, -, -⟩ <;>
      simpa [latestEvent] using h.connected
  · show mqtt.setupComplete = true ↔ _ ∈ s.log ++ _
    rcases hcases with ⟨-, rfl, -, -⟩ | ⟨-, rfl, -, -⟩ <;> simp [h.setup]
  · show mqtt.subscriptions = accepted (s.log ++ _)
    rw [hlog, accepted_append, accepted_append, accepted_handed]
    rcases hcases with ⟨-, rfl, -, rfl⟩ | ⟨-, rfl, -, rfl⟩ <;>
      simpa [accepted] using h.subscriptions
  · show handedSince (s.log ++ _) = if mqtt.connected = true then mqtt.subscriptions else []
    have hsince : handedSince (s.log ++ [.subscribe topic result]) = handedSince s.log := by
      simp [handedSince, List.foldl_append]
    rw [hlog, handedSince_handed, hsince, h.handed]
    rcases hcases with ⟨-, rfl, rfl, -⟩ | ⟨-, rfl, htopics, -⟩
    · simp [subscribeTopics]
    · rw [htopics]
      split_ifs <;> simp

theorem Step.sound {s s' : Session} {a : SessionAction} (hstep : Step s a s') (h : s.Sound) :
    s'.Sound := by
  obtain ⟨hconnected, hsetup, hsubscriptions, hhanded⟩ := h
  cases hstep with
  | start => exact ⟨hconnected, hsetup, hsubscriptions, hhanded⟩
  | change => exact ⟨hconnected, hsetup, hsubscriptions, hhanded⟩
  | setup hstarted =>
    refine ⟨?_, ?_, ?_, ?_⟩
    · simpa [latestEvent_append, latestEvent] using hconnected
    · simp
    · simpa [accepted] using hsubscriptions
    · simpa [handedSince, List.foldl_append] using hhanded
  | deliver now e queue hqueue dev calls hhandle =>
    exact Sound.deliver ⟨hconnected, hsetup, hsubscriptions, hhanded⟩ hhandle queue
  | subscribe topic mqtt calls result hcall =>
    exact Sound.subscribe ⟨hconnected, hsetup, hsubscriptions, hhanded⟩ hcall
  | publish topic message now dev calls result hcall =>
    obtain ⟨hmqtt, -⟩ := mqttPublish_spec hcall
    refine ⟨?_, ?_, ?_, ?_⟩
    · simpa [latestEvent_append, latestEvent, givenMessage, hmqtt] using hconnected
    · simpa [givenMessage, hmqtt] using hsetup
    · simpa [accepted, givenMessage, hmqtt] using hsubscriptions
    · simpa [handedSince, List.foldl_append, givenMessage, hmqtt] using hhanded
  | receive topic data now dev calls hhandle =>
    rw [mqttEventHandler, Runs.bind_eq_ok] at hhandle
    obtain ⟨b, _, hdev⟩ := hhandle
    rw [Except.ok.injEq, Prod.mk.injEq] at hdev
    obtain ⟨rfl, -⟩ := hdev
    exact ⟨hconnected, hsetup, hsubscriptions, hhanded⟩

theorem Reachable.sound {s : Session} (h : Reachable s) : s.Sound := by
  induction h with
  | boot => exact boot_sound
  | step _ hstep ih => exact hstep.sound ih

/-! ## Subscriptions -/

/-- A topic is handed over while the session event delivered last opened a session. -/
def HandedWhileUp (past : List Happened) : Happened → Prop
  | .handed _ => latestEvent past = some .connected
  | _ => True

theorem handedWhileUp_handed (log : List Happened) (topics : List CString)
    (h : topics ≠ [] → latestEvent log = some .connected) :
    AtEvery (fun past => HandedWhileUp (log ++ past)) (topics.map .handed) := by
  intro past x later hsplit
  obtain ⟨before, rest, rfl, rfl, hrest⟩ := List.map_eq_append_iff.mp hsplit
  obtain ⟨t, after, rfl, rfl, -⟩ := List.map_eq_cons_iff.mp hrest
  show latestEvent (log ++ before.map .handed) = some .connected
  rw [latestEvent_handed]
  exact h (by simp)

theorem Step.handedWhileUp {s s' : Session} {a : SessionAction} (hstep : Step s a s')
    (hsound : s.Sound) (h : AtEvery HandedWhileUp s.log) : AtEvery HandedWhileUp s'.log := by
  cases hstep with
  | start => exact h
  | change => exact h
  | receive => exact h
  | setup => exact atEvery_singleton.mpr ⟨h, trivial⟩
  | publish => exact atEvery_singleton.mpr ⟨h, trivial⟩
  | deliver now e queue hqueue dev calls hhandle =>
    obtain ⟨-, htopics, -⟩ := mqttEventHandler_session hhandle
    refine atEvery_append.mpr ⟨h, atEvery_cons.mpr ⟨trivial, atEvery_cons.mpr ⟨trivial, ?_⟩⟩⟩
    have hnew := handedWhileUp_handed
      (s.log ++ [.event e, givenMessage brokerConnectTopic e.announcement calls])
      (subscribeTopics calls) (by
        intro hne
        rw [htopics] at hne
        have he : e = .connected := by
          by_contra hne'
          exact hne (if_neg hne')
        rw [latestEvent_append]
        simp [latestEvent, givenMessage, he])
    simpa using hnew
  | subscribe topic mqtt calls result hcall =>
    refine atEvery_append.mpr ⟨h, atEvery_cons.mpr ⟨trivial, ?_⟩⟩
    have hnew := handedWhileUp_handed (s.log ++ [.subscribe topic result])
      (subscribeTopics calls) (by
        intro hne
        have hlatest : latestEvent (s.log ++ [.subscribe topic result]) = latestEvent s.log := by
          simp [latestEvent, List.foldl_append]
        rw [hlatest, ← hsound.connected]
        rcases mqttSubscribe_cases hcall with ⟨-, -, rfl, -⟩ | ⟨-, -, htopics, -⟩
        · exact absurd rfl hne
        · by_contra hdown
          exact hne (by rw [htopics, if_neg hdown]))
    simpa using hnew

theorem Reachable.handedWhileUp {s : Session} (h : Reachable s) : AtEvery HandedWhileUp s.log := by
  induction h with
  | boot => exact atEvery_nil
  | step hs hstep ih => exact hstep.handedWhileUp hs.sound ih

/-- Before anything is stored the handlers of the session events come back. -/
theorem handler_boot (subscriptions : List CString) (e : SessionEvent) :
    ∃ dev calls, mqttEventHandler ⟨⟨subscriptions, true, false⟩, Buffer.boot⟩ e.mqttEvent 0 =
      .ok (dev, calls) := by
  have hfits : FitsRun [⟨brokerConnectTopic, e.announcement, 0⟩] :=
    FitsRun.of_length (by simp) (by cases e <;> decide +kernel)
  obtain ⟨b, hput, -⟩ := mqttBufferPut_holds BufferHolds.boot brokerConnectTopic e.announcement 0
    hfits.fits
  have hpublish : mqttPublish ⟨⟨subscriptions, true, false⟩, Buffer.boot⟩ brokerConnectTopic
      e.announcement 0 = .ok (⟨⟨subscriptions, true, false⟩, b⟩, [], 1) := by
    rw [mqttPublish, if_pos rfl, mqttPublishStore, hput]
    rfl
  exact ⟨_, _, by rw [mqttEventHandler_sessionEvent, hpublish, Runs.ok_bind]⟩

/-- A topic is subscribed to, then the first session event is delivered. -/
theorem reachable_first_event (topic : CString) (e : SessionEvent) :
    ∃ dev calls, mqttEventHandler ⟨⟨[topic], true, false⟩, Buffer.boot⟩ e.mqttEvent 0 =
        .ok (dev, calls) ∧
      Reachable ⟨dev, true, [], [.setup, .subscribe topic 1, .event e,
        givenMessage brokerConnectTopic e.announcement calls] ++
          (subscribeTopics calls).map .handed⟩ := by
  obtain ⟨dev, calls, hhandle⟩ := handler_boot [topic] e
  refine ⟨dev, calls, hhandle, ?_⟩
  have h1 : Reachable ⟨boot.device, true, [], []⟩ := .step .boot (.start _)
  have h2 : Reachable ⟨⟨⟨[], true, false⟩, Buffer.boot⟩, true, [], [.setup]⟩ :=
    h1.step (.setup _ rfl)
  have h3 : Reachable ⟨⟨⟨[topic], true, false⟩, Buffer.boot⟩, true, [],
      [.setup, .subscribe topic 1]⟩ := h2.step (.subscribe _ topic _ _ _ rfl)
  have h4 : Reachable ⟨⟨⟨[topic], true, false⟩, Buffer.boot⟩, true, [e],
      [.setup, .subscribe topic 1]⟩ := h3.step (.change _ e rfl)
  exact h4.step (.deliver _ 0 e [] rfl dev calls hhandle)

/-- **Every session gets every subscription once.** While the session event delivered last opened a
session, the topics handed over since are those of the calls of `mqtt_subscribe` that returned 1, in
their order; at other times none is handed over, and a call that returns 0 changes nothing. -/
theorem Reachable.subscriptions_once {s : Session} (h : Reachable s) :
    (latestEvent s.log = some .connected → handedSince s.log = accepted s.log) ∧
      (latestEvent s.log ≠ some .connected → handedSince s.log = []) ∧
      AtEvery HandedWhileUp s.log ∧
      ∀ topic mqtt calls, mqttSubscribe s.device.mqtt topic = (mqtt, calls, 0) →
        mqtt = s.device.mqtt ∧ calls = [] := by
  have hsound := h.sound
  refine ⟨?_, ?_, h.handedWhileUp, ?_⟩
  · intro hup
    rw [hsound.handed, if_pos (hsound.connected.mpr hup), hsound.subscriptions]
  · intro hdown
    rw [hsound.handed, if_neg (fun hup => hdown (hsound.connected.mp hup))]
  · intro topic mqtt calls hcall
    rcases mqttSubscribe_cases hcall with ⟨-, hmqtt, hcalls, -⟩ | ⟨-, -, -, hresult⟩
    · exact ⟨hmqtt, hcalls⟩
    · exact absurd hresult (by omega)

/-- The first session replays the topic subscribed to before it. -/
theorem first_session_replays :
    ∃ s, Reachable s ∧ accepted s.log = ["room/temp".toList] ∧
      handedSince s.log = accepted s.log := by
  obtain ⟨dev, calls, hhandle, hreach⟩ := reachable_first_event "room/temp".toList .connected
  refine ⟨_, hreach, ?_, hreach.subscriptions_once.1 ?_⟩
  · rw [accepted_append, accepted_handed]
    rfl
  · rw [latestEvent_handed]
    rfl

/-! ## Messages -/

/-- After the set-up a message is sent if and only if the session event delivered last opened a
session. -/
def SentWhileUp (past : List Happened) : Happened → Prop
  | .given _ _ sent =>
    .setup ∈ past → (sent = true ↔ latestEvent past = some .connected)
  | _ => True

/-- After the set-up a session event reports what the one before it reported; the first one reports
that the session is closed. -/
def ReportsNoChange (past : List Happened) : Happened → Prop
  | .event e => .setup ∈ past → (latestEvent past = some .connected ↔ e = .connected)
  | _ => True

/-- A call of `mqtt_publish` by a task is sent while a session is up. -/
theorem sentWhileUp_given {s : Session} {dev : Device} {topic message : CString} {now : BitVec 32}
    {calls : List ClientCall} {result : Nat} (hsound : s.Sound)
    (hcall : mqttPublish s.device topic message now = .ok (dev, calls, result)) :
    SentWhileUp s.log (givenMessage topic message calls) := by
  intro hsetup
  obtain ⟨-, rfl⟩ := mqttPublish_spec hcall
  rw [decide_eq_true_iff, ← hsound.connected]
  have hup := hsound.setup.mpr hsetup
  split_ifs with h <;> simp_all

/-- The announcement of an event is sent as it should be if and only if the event reports no
change. -/
theorem sentWhileUp_announcement {s : Session} {dev : Device} {e : SessionEvent} {now : BitVec 32}
    {calls : List ClientCall} (hsound : s.Sound)
    (hhandle : mqttEventHandler s.device e.mqttEvent now = .ok (dev, calls)) :
    SentWhileUp (s.log ++ [.event e]) (givenMessage brokerConnectTopic e.announcement calls) ↔
      ReportsNoChange s.log (.event e) := by
  obtain ⟨-, -, hsent⟩ := mqttEventHandler_session hhandle
  have hlatest : latestEvent (s.log ++ [.event e]) = some e := by
    simp [latestEvent, List.foldl_append]
  have hsetup : Happened.setup ∈ s.log ++ [.event e] ↔ Happened.setup ∈ s.log := by simp
  show (_ → (decide _ = true ↔ latestEvent (s.log ++ [.event e]) = some .connected)) ↔ (_ → _)
  rw [hsetup, hlatest, decide_eq_true_iff, hsent, hsound.setup, hsound.connected,
    Option.some.injEq]
  tauto

theorem atEvery_handed {R : List Happened → Happened → Prop} (topics : List CString)
    (h : ∀ past topic, R past (.handed topic)) : AtEvery R (topics.map .handed) := by
  refine atEvery_of_forall ?_
  intro past x hx
  obtain ⟨topic, -, rfl⟩ := List.mem_map.mp hx
  exact h past topic

theorem Step.sentWhileUp {s s' : Session} {a : SessionAction} (hstep : Step s a s')
    (hsound : s.Sound) (h : AtEvery SentWhileUp s.log ↔ AtEvery ReportsNoChange s.log) :
    AtEvery SentWhileUp s'.log ↔ AtEvery ReportsNoChange s'.log := by
  cases hstep with
  | start => exact h
  | change => exact h
  | receive => exact h
  | setup => simpa [atEvery_singleton, SentWhileUp, ReportsNoChange] using h
  | publish topic message now dev calls result hcall =>
    rw [atEvery_singleton, atEvery_singleton, h]
    exact and_congr_right fun _ => iff_of_true (sentWhileUp_given hsound hcall) trivial
  | subscribe topic mqtt calls result hcall =>
    rw [atEvery_append, atEvery_append, h, atEvery_cons, atEvery_cons]
    refine and_congr_right fun _ => iff_of_true ⟨trivial, ?_⟩ ⟨trivial, ?_⟩
    · exact atEvery_handed _ fun _ _ => trivial
    · exact atEvery_handed _ fun _ _ => trivial
  | deliver now e queue hqueue dev calls hhandle =>
    have hannounced := sentWhileUp_announcement hsound hhandle
    rw [atEvery_append, atEvery_append, h, atEvery_cons, atEvery_cons, atEvery_cons, atEvery_cons]
    refine and_congr_right fun _ => ?_
    rw [List.append_nil]
    constructor
    · rintro ⟨-, hsent, -⟩
      exact ⟨hannounced.mp hsent, trivial, atEvery_handed _ fun _ _ => trivial⟩
    · rintro ⟨hevent, -, -⟩
      exact ⟨trivial, hannounced.mpr hevent, atEvery_handed _ fun _ _ => trivial⟩

/-- **When messages follow the session.** In the runs in which every session event delivered after
the set-up reports what the event before it reported. -/
theorem Reachable.sentWhileUp_iff {s : Session} (h : Reachable s) :
    AtEvery SentWhileUp s.log ↔ AtEvery ReportsNoChange s.log := by
  induction h with
  | boot => exact iff_of_true atEvery_nil atEvery_nil
  | step hs hstep ih => exact hstep.sentWhileUp hs.sound ih

/-- A first connection that fails is announced to nobody. -/
theorem first_disconnect_silent :
    ∃ s, Reachable s ∧ latestEvent s.log = some .disconnected ∧ AtEvery SentWhileUp s.log := by
  obtain ⟨dev, calls, hhandle, hreach⟩ := reachable_first_event "room/temp".toList .disconnected
  refine ⟨_, hreach, by rw [latestEvent_handed]; rfl, hreach.sentWhileUp_iff.mpr ?_⟩
  refine atEvery_append.mpr ⟨?_, atEvery_handed _ fun _ _ => trivial⟩
  simp [atEvery_cons, ReportsNoChange, givenMessage, latestEvent]

/-- The announcement of the first session is not sent. -/
theorem first_connect_not_sent : ∃ s, Reachable s ∧ ¬ AtEvery SentWhileUp s.log := by
  obtain ⟨dev, calls, hhandle, hreach⟩ := reachable_first_event "room/temp".toList .connected
  refine ⟨_, hreach, ?_⟩
  intro h
  have hsent := h [.setup, .subscribe "room/temp".toList 1, .event .connected] _ _ rfl
    (by simp)
  obtain ⟨-, -, hmem⟩ := mqttEventHandler_session hhandle
  rw [decide_eq_true_iff, hmem] at hsent
  exact absurd (hsent.mpr rfl).2 (by simp)

end Session

end HomeAutomation
