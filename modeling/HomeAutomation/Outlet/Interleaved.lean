import HomeAutomation.Buffer.Growth
import HomeAutomation.Outlet.Tasks

/-!
# What `getState` returns in any interleaving

A call of `getState` polls, or finds that the last poll is recent, while it has the mutex of the
outlet; it takes its snapshot of the store behind that. In between and all the time the other tasks
go on, access by access. Once the store is initialized, what the call returns is still the result
of a poll, and of one that is not older than the last poll before the call gave the mutex back
(`getState_returns_recent_poll`).

While no task has the mutex of the outlet, its fields and the store agree with the last poll
(`Shared.Settled`); a task that has it sees nothing of this change (`Shared.Quiet`). The store
always has the result of a poll that was published last or later (`Shared.Inv`).
-/

namespace HomeAutomation

open Locks

namespace Shared
variable {topicBase : CString} {s s' s'' : Shared}

/-- The store has this state for the outlet. -/
def Reads (topicBase : CString) (s : Shared) (v : Option CString) : Prop :=
  ∃ st, s.boiler.Stores st ∧ st.value topicBase stateKey = v

/-- At any time. -/
structure Inv (topicBase : CString) (s : Shared) : Prop where
  initialized : s.buffer.initialized = true
  topic : s.outlet.topicBase = topicBase
  published : s.published <+: s.polls
  reads : ∃ v, s.Reads topicBase v ∧ (s.published ≠ [] → ∃ i relay,
    s.published.length ≤ i + 1 ∧ s.polls[i]? = some relay ∧ v = some (decimal relay.toNat))

/-- The outlet and the store agree with the last poll. -/
def Agrees (topicBase : CString) (s : Shared) : Prop :=
  ∃ relay, s.polls.getLast? = some relay ∧ s.outlet.lastPublishState = relay ∧
    s.Reads topicBase (some (decimal relay.toNat))

/-- While no task has the mutex of the outlet. -/
structure Settled (topicBase : CString) (s : Shared) : Prop where
  published : s.published = s.polls
  last : s.polls = [] ∧ s.outlet.lastPublishTime = 0 ∨ s.Agrees topicBase

/-- Nothing changes for the outlet. -/
structure Quiet (topicBase : CString) (s s' : Shared) : Prop where
  outlet : s'.outlet = s.outlet
  polls : s'.polls = s.polls
  published : s'.published = s.published
  initialized : s.buffer.initialized = true → s'.buffer.initialized = true
  reads : ∀ v, s.Reads topicBase v → s'.Reads topicBase v

/-- Polls are made and published. -/
structure Onward (s s' : Shared) : Prop where
  polls : s.polls <+: s'.polls
  published : s.published <+: s'.published

theorem Quiet.refl (s : Shared) : Quiet topicBase s s := ⟨rfl, rfl, rfl, id, fun _ => id⟩

theorem Quiet.trans (h : Quiet topicBase s s') (h' : Quiet topicBase s' s'') :
    Quiet topicBase s s'' :=
  ⟨h'.outlet.trans h.outlet, h'.polls.trans h.polls, h'.published.trans h.published,
    fun hs => h'.initialized (h.initialized hs), fun v hv => h'.reads v (h.reads v hv)⟩

theorem Onward.refl (s : Shared) : Onward s s := ⟨List.prefix_refl _, List.prefix_refl _⟩

theorem Onward.trans (h : Onward s s') (h' : Onward s' s'') : Onward s s'' :=
  ⟨h.polls.trans h'.polls, h.published.trans h'.published⟩

theorem Quiet.onward (h : Quiet topicBase s s') : Onward s s' :=
  ⟨h.polls ▸ List.prefix_refl _, h.published ▸ List.prefix_refl _⟩

theorem Quiet.inv (h : Quiet topicBase s s') (hs : s.Inv topicBase) : s'.Inv topicBase := by
  obtain ⟨v, hv, hrecent⟩ := hs.reads
  refine ⟨h.initialized hs.initialized, by rw [h.outlet, hs.topic],
    by rw [h.published, h.polls]; exact hs.published, v, h.reads v hv, ?_⟩
  rw [h.published, h.polls]
  exact hrecent

theorem Quiet.agrees (h : Quiet topicBase s s') (hs : s.Agrees topicBase) :
    s'.Agrees topicBase := by
  obtain ⟨relay, hlast, hstate, hreads⟩ := hs
  exact ⟨relay, by rw [h.polls, hlast], by rw [h.outlet, hstate], h.reads _ hreads⟩

theorem Quiet.settled (h : Quiet topicBase s s') (hs : s.Settled topicBase) :
    s'.Settled topicBase := by
  refine ⟨by rw [h.published, h.polls, hs.published], ?_⟩
  rcases hs.last with ⟨hpolls, htime⟩ | hagrees
  · exact Or.inl ⟨by rw [h.polls, hpolls], by rw [h.outlet, htime]⟩
  · exact Or.inr (h.agrees hagrees)

end Shared

/-- The tasks that do not have the mutex of the outlet leave its fields, and what the store has for
it, alone. -/
def outletProtocol (topicBase : CString) : Protocol Mutex Shared where
  inv s := s.Inv topicBase
  free
    | .outlet, s => s.Settled topicBase
    | .buffer, _ => True
  rely held s s' := s.Onward s' ∧ (Mutex.outlet ∈ held → Shared.Quiet topicBase s s')
  refl _ s := ⟨.refl s, fun _ => .refl s⟩
  trans _ _ _ _ h h' := ⟨h.1.trans h'.1, fun hheld => (h.2 hheld).trans (h'.2 hheld)⟩

section
variable {topicBase : CString} {s s' s₀ : Shared} {held : List Mutex} {α β : Type}

theorem Shared.Quiet.rely (h : Shared.Quiet topicBase s s') :
    (outletProtocol topicBase).rely held s s' := ⟨h.onward, fun _ => h⟩

theorem Shared.Quiet.keeps (h : Shared.Quiet topicBase s s') (hs : s.Inv topicBase) :
    (outletProtocol topicBase).Keeps held s s' := by
  refine ⟨h.inv hs, ?_, fun _ _ => h.rely⟩
  intro m _ hfree
  cases m with
  | outlet => exact h.settled hfree
  | buffer => trivial

theorem keeps_of_outlet (hheld : Mutex.outlet ∈ held) (hinv : s'.Inv topicBase)
    (honward : s.Onward s') : (outletProtocol topicBase).Keeps held s s' := by
  refine ⟨hinv, ?_, ?_⟩
  · intro m hm _
    cases m with
    | outlet => exact absurd hheld hm
    | buffer => trivial
  · intro others hothers
    exact ⟨honward, fun hmem => absurd hheld (hothers _ hmem)⟩

/-- Seen from `s₀` the code leaves alone what nobody else changes, and ends with `R`. -/
def Framed (topicBase : CString) (held : List Mutex) (s₀ : Shared) (c : Task α)
    (R : α → Shared → Prop) : Prop :=
  ∀ s, (outletProtocol topicBase).rely held s₀ s →
    c.Valid (outletProtocol topicBase) (fun a held' s' => held' = held ∧
      (outletProtocol topicBase).rely held s₀ s' ∧ R a s') held s

theorem Framed.bind {c : Task α} {R : α → Shared → Prop} {R' : β → Shared → Prop} {k : α → Task β}
    (h : Framed topicBase held s₀ c R)
    (hk : ∀ a s₁, (outletProtocol topicBase).rely held s₀ s₁ → R a s₁ →
      Framed topicBase held s₁ (k a) R') : Framed topicBase held s₀ (c >>= k) R' := by
  intro s hs
  apply (h s hs).seq
  intro a held' s₁ _ ⟨hheld, hrely, hR⟩
  subst hheld
  apply (hk a s₁ hrely hR s₁ ((outletProtocol topicBase).refl _ _)).mono
  intro b held' s₂ _ ⟨hheld, hrely', hR'⟩
  exact ⟨hheld, (outletProtocol topicBase).trans _ _ _ _ hrely hrely', hR'⟩

theorem Framed.pure {a : α} {R : α → Shared → Prop}
    (hR : ∀ s', (outletProtocol topicBase).rely held s₀ s' → R a s') :
    Framed topicBase held s₀ (pure a) R := by
  intro s hs s' hs' _
  have hrely := (outletProtocol topicBase).trans _ _ _ _ hs hs'
  exact ⟨rfl, hrely, hR s' hrely⟩

theorem Framed.attempt {p : Shared → Except Fault (Shared × α)} {R : α → Shared → Prop}
    (h : ∀ s, (outletProtocol topicBase).rely held s₀ s → s.Inv topicBase → ∀ s' a,
      p s = .ok (s', a) → Shared.Quiet topicBase s s' ∧
        ∀ s'', (outletProtocol topicBase).rely held s' s'' → s''.Inv topicBase → R a s'') :
    Framed topicBase held s₀ (Code.attempt p) R := by
  intro s hs
  apply Code.valid_attempt
  intro s₁ h₁ hinv s₂ a hp
  have hs₁ := (outletProtocol topicBase).trans _ _ _ _ hs h₁
  obtain ⟨hquiet, hR⟩ := h s₁ hs₁ hinv s₂ a hp
  refine ⟨hquiet.keeps hinv, ?_⟩
  intro s₃ h₃ hinv₃
  exact ⟨rfl, (outletProtocol topicBase).trans _ _ _ _ hs₁
    ((outletProtocol topicBase).trans _ _ _ _ hquiet.rely h₃), hR s₃ h₃ hinv₃⟩

/-- Having the mutex of the store changes nothing for a task that looks at the outlet. -/
theorem rely_buffer :
    (outletProtocol topicBase).rely (.buffer :: held) s s' ↔
      (outletProtocol topicBase).rely held s s' := by
  simp [outletProtocol]

theorem Framed.locked {c : Task α} {R : α → Shared → Prop}
    (h : Framed topicBase (.buffer :: held) s₀ c R) :
    Framed topicBase held s₀ (Code.locked .buffer c) R := by
  intro s hs
  apply Code.valid_locked
  intro s₁ h₁ _ _
  have hs₁ := (outletProtocol topicBase).trans _ _ _ _ hs h₁
  apply (h s₁ (rely_buffer.mpr hs₁)).stabilize.mono
  intro a held' s₂ hinv hend
  refine ⟨(hend s₂ ((outletProtocol topicBase).refl _ _) hinv).1, trivial, ?_⟩
  intro s₃ h₃ hinv₃
  obtain rfl := (hend s₂ ((outletProtocol topicBase).refl _ _) hinv).1
  obtain ⟨-, hrely, hR⟩ := hend s₃ (rely_buffer.mpr h₃) hinv₃
  exact ⟨rfl, rely_buffer.mp hrely, hR⟩

/-! ## Quiet accesses -/

theorem quiet_setMqtt {q : MqttState} (calls : List ClientCall) (hq : q.setupComplete = true) :
    Shared.Quiet topicBase s (s.setMqtt q calls) := by
  refine ⟨rfl, rfl, rfl, id, ?_⟩
  intro v ⟨st, hst, hv⟩
  exact ⟨st, ⟨hq, hst.store, hst.fits, hst.only⟩, hv⟩

theorem quiet_of_initializeBuffer {b : Buffer} (hinit : initializeBuffer s.buffer = .ok b) :
    Shared.Quiet topicBase s (s.setBuffer b) := by
  refine ⟨rfl, rfl, rfl, fun _ => initializeBuffer_initialized hinit, ?_⟩
  intro v ⟨st, hst, hv⟩
  exact ⟨st, ⟨hst.setup, hst.store.afterInit hinit, hst.fits, hst.only⟩, hv⟩

theorem mqttBufferPut_initialized {b b' : Buffer} {topic data : List Char} {now : BitVec 32}
    (h : mqttBufferPut b topic data now = .ok b') : b'.initialized = true := by
  rw [mqttBufferPut, Runs.bind_eq_ok] at h
  obtain ⟨b₁, hinit, hrest⟩ := h
  rw [Runs.bind_eq_ok] at hrest
  obtain ⟨m, -, heq⟩ := hrest
  rw [Except.ok.injEq] at heq
  rw [← heq]
  exact (initializeBuffer_initialized hinit : b₁.initialized = true)

theorem quiet_putOther (hbase : PlainTopic topicBase) (htop : s.outlet.topicBase = topicBase)
    {topic data : List Char} {now : BitVec 32} (htopic : OtherTopic topicBase topic) {b : Buffer}
    (hput : mqttBufferPut s.buffer topic data now = .ok b) :
    Shared.Quiet topicBase s (s.setBuffer b) := by
  refine ⟨rfl, rfl, rfl, fun _ => mqttBufferPut_initialized hput, ?_⟩
  intro v ⟨st, hst, hv⟩
  subst htop
  obtain ⟨st', hst', hvalue⟩ := hst.putOther hbase htopic hput hst.setup
  exact ⟨st', hst', hvalue.trans hv⟩

theorem Framed.onBuffer {p : Buffer → Except Fault (Buffer × α)} {R : α → Shared → Prop}
    (h : ∀ s, (outletProtocol topicBase).rely held s₀ s → s.Inv topicBase → ∀ b a,
      p s.buffer = .ok (b, a) → Shared.Quiet topicBase s (s.setBuffer b) ∧
        ∀ s', (outletProtocol topicBase).rely held (s.setBuffer b) s' → s'.Inv topicBase → R a s') :
    Framed topicBase held s₀ (onBuffer p) R := by
  apply Framed.attempt
  intro s hs hinv s' a hp
  rw [Runs.bind_eq_ok] at hp
  obtain ⟨⟨b, a'⟩, hp, heq⟩ := hp
  rw [Except.ok.injEq, Prod.mk.injEq] at heq
  obtain ⟨rfl, rfl⟩ := heq
  exact h s hs hinv b a' hp

theorem Framed.onMqtt {f : MqttState → MqttState × List ClientCall × α}
    (h : ∀ q, q.setupComplete = true → (f q).1.setupComplete = true) :
    Framed topicBase held s₀ (onMqtt f) fun _ _ => True := by
  apply Framed.attempt
  intro s hs hinv s' a hp
  rw [Except.ok.injEq, Prod.mk.injEq] at hp
  obtain ⟨rfl, rfl⟩ := hp
  obtain ⟨v, ⟨st, hst, -⟩, -⟩ := hinv.reads
  exact ⟨quiet_setMqtt _ (h s.mqtt hst.setup), fun _ _ _ => trivial⟩

theorem framed_initializeTask : Framed topicBase held s₀ initializeTask fun _ _ => True := by
  have htest : Framed topicBase held s₀ (HomeAutomation.onBuffer fun b => .ok (b, b.initialized))
      fun initialized _ => initialized = true := by
    apply Framed.onBuffer
    intro s _ hinv b initialized hp
    rw [Except.ok.injEq, Prod.mk.injEq] at hp
    obtain ⟨rfl, rfl⟩ := hp
    exact ⟨Shared.Quiet.refl s, fun _ _ _ => hinv.initialized⟩
  apply htest.bind
  intro initialized s₁ _ htrue
  subst htrue
  exact Framed.pure fun _ _ => trivial

theorem framed_mqttBufferDispalyAllTask :
    Framed topicBase held s₀ mqttBufferDispalyAllTask fun _ _ => True := by
  apply framed_initializeTask.bind
  intro _ s₁ _ _
  apply Framed.locked
  apply Framed.onBuffer
  intro s _ _ b a hp
  rw [Runs.bind_eq_ok] at hp
  obtain ⟨text, -, heq⟩ := hp
  rw [Except.ok.injEq, Prod.mk.injEq] at heq
  obtain ⟨rfl, -⟩ := heq
  exact ⟨Shared.Quiet.refl s, fun _ _ _ => trivial⟩

/-- The critical section of `mqttBuffer_put` is the function, once the store is initialized. -/
theorem mqttBufferPut_section {topic data : List Char} {now : BitVec 32} {b : Buffer} {b' : Buffer}
    (hinitialized : b.initialized = true)
    (h : (do
      let mapInfo ← flatmapPut (assignContent now) b.mapInfo (cstr topic) (cstr data)
      .ok ({ b with mapInfo := mapInfo }, ()) : Except Fault (Buffer × Unit)) = .ok (b', ())) :
    mqttBufferPut b topic data now = .ok b' := by
  rw [Runs.bind_eq_ok] at h
  obtain ⟨m, hput, heq⟩ := h
  rw [Except.ok.injEq, Prod.mk.injEq] at heq
  obtain ⟨rfl, -⟩ := heq
  rw [mqttBufferPut, initializeBuffer_of_initialized hinitialized, Runs.ok_bind, hput, Runs.ok_bind]

theorem framed_mqttBufferPutTask (hbase : PlainTopic topicBase) {topic : List Char}
    (htopic : OtherTopic topicBase topic) (data : List Char) (now : BitVec 32) :
    Framed topicBase held s₀ (mqttBufferPutTask topic data now) fun _ _ => True := by
  apply framed_initializeTask.bind
  intro _ s₁ _ _
  apply Framed.bind (R := fun _ _ => True)
  · apply Framed.locked
    apply Framed.onBuffer
    intro s hs hinv b a hp
    have hput := mqttBufferPut_section hinv.initialized hp
    exact ⟨quiet_putOther hbase hinv.topic htopic hput, fun _ _ _ => trivial⟩
  · intro _ s₂ _ _
    apply framed_mqttBufferDispalyAllTask.bind
    intro _ s₃ _ _
    exact Framed.pure fun _ _ => trivial

theorem framed_mqttPublishTask (hbase : PlainTopic topicBase) {topic : CString}
    (htopic : OtherTopic topicBase topic) (message : CString) (now : BitVec 32) :
    Framed topicBase held s₀ (mqttPublishTask topic message now) fun _ _ => True := by
  apply (Framed.onMqtt fun _ => id).bind
  intro setupComplete s₁ _ _
  cases setupComplete
  · exact Framed.pure fun _ _ => trivial
  · apply (Framed.onMqtt fun _ => id).bind
    intro _ s₂ _ _
    apply (framed_mqttBufferPutTask hbase htopic message now).bind
    intro _ s₃ _ _
    exact Framed.pure fun _ _ => trivial

theorem framed_mqttSubscribeTask (topic : CString) :
    Framed topicBase held s₀ (mqttSubscribeTask topic) fun _ _ => True := by
  apply (Framed.onMqtt fun _ => id).bind
  intro setupComplete s₁ _ _
  cases setupComplete
  · exact Framed.pure fun _ _ => trivial
  · apply (Framed.onMqtt fun _ hsetup => hsetup).bind
    intro _ s₂ _ _
    apply (Framed.onMqtt fun _ => id).bind
    intro _ s₃ _ _
    exact Framed.pure fun _ _ => trivial

/-- What a call stores goes to other topics than the outlet's, apart from polls. -/
def TaskCall.Elsewhere (topicBase : CString) : TaskCall → Prop
  | .publish topic _ _ => OtherTopic topicBase topic
  | .handle .connected _ => OtherTopic topicBase brokerConnectTopic
  | .handle .disconnected _ => OtherTopic topicBase brokerConnectTopic
  | .handle (.data topic _) _ => OtherTopic topicBase topic
  | _ => True

theorem framed_mqttEventHandlerTask (hbase : PlainTopic topicBase) {event : MqttEvent}
    {now : BitVec 32} (h : TaskCall.Elsewhere topicBase (.handle event now)) :
    Framed topicBase held s₀ (mqttEventHandlerTask event now) fun _ _ => True := by
  cases event with
  | connected =>
    apply (framed_mqttPublishTask hbase h _ now).bind
    intro _ s₁ _ _
    apply (Framed.onMqtt fun _ => id).bind
    intro _ s₂ _ _
    exact Framed.onMqtt fun _ hsetup => hsetup
  | disconnected =>
    apply (framed_mqttPublishTask hbase h _ now).bind
    intro _ s₁ _ _
    exact Framed.onMqtt fun _ hsetup => hsetup
  | data topic data => exact framed_mqttBufferPutTask hbase h data now
  | other => exact Framed.pure fun _ _ => trivial

theorem framed_mqttBufferGetMatchingTask (filter : CString) {R : TopicMap → Shared → Prop}
    (h : ∀ s, (outletProtocol topicBase).rely held s₀ s → s.Inv topicBase → ∀ b mapCopy,
      mqttBufferGetMatching s.buffer filter = .ok (b, mapCopy) →
      ∀ s', (outletProtocol topicBase).rely held s s' → R mapCopy s') :
    Framed topicBase held s₀ (mqttBufferGetMatchingTask filter) R := by
  apply framed_initializeTask.bind
  intro _ s₁ hs₁ _
  apply Framed.locked
  apply Framed.onBuffer
  intro s hs hinv b mapCopy hget
  have hquiet : Shared.Quiet topicBase s (s.setBuffer b) :=
    quiet_of_initializeBuffer (mqttBufferGetMatching_initializes hget)
  refine ⟨hquiet, ?_⟩
  intro s' hs' _
  apply h s ((outletProtocol topicBase).trans _ _ _ _ hs₁ (rely_buffer.mp hs)) hinv b mapCopy hget
  exact rely_buffer.mp ((outletProtocol topicBase).trans _ _ _ _ hquiet.rely hs')

/-! ## The snapshot -/

/-- A state that was polled when at most `seen` polls had been published, or later. -/
def Shared.Polled (seen : Nat) (state : Bool) (s : Shared) : Prop :=
  ∃ i, seen ≤ i + 1 ∧ s.polls[i]? = some state

theorem Shared.Polled.onward {seen : Nat} {state : Bool} (h : s.Polled seen state)
    (hs : s.Onward s') : s'.Polled seen state := by
  obtain ⟨i, hseen, hi⟩ := h
  obtain ⟨later, hlater⟩ := hs.polls
  refine ⟨i, hseen, ?_⟩
  rw [← hlater, List.getElem?_append_left (List.getElem?_eq_some_iff.mp hi).1]
  exact hi

theorem snapshotState_polled (other : CString → BitVec 32) (hinv : s.Inv topicBase) {seen : Nat}
    (hpos : 0 < seen) (hseen : seen ≤ s.published.length) {b : Buffer} {mapCopy : TopicMap}
    (hget : mqttBufferGetMatching s.buffer topicBase = .ok (b, mapCopy)) {state : Bool}
    (hstate : snapshotState other mapCopy = .ok state) : s.Polled seen state := by
  obtain ⟨v, ⟨st, hst, hv⟩, hrecent⟩ := hinv.reads
  have hpublished : s.published ≠ [] := List.ne_nil_of_length_pos (by omega)
  obtain ⟨i, relay, hi, hpoll, rfl⟩ := hrecent hpublished
  have htop := hinv.topic
  have hvalue : st.value s.boiler.outlet.topicBase stateKey = some (decimal relay.toNat) := by
    rw [show s.boiler.outlet.topicBase = topicBase from htop]
    exact hv
  obtain ⟨buffer, copy, m, hget', hcount, hentry, hresult, -⟩ := hst.snapshot hvalue
  rw [show s.boiler.outlet.topicBase = topicBase from htop,
    show s.boiler.device.buffer = s.buffer from rfl, hget, Except.ok.injEq, Prod.mk.injEq] at hget'
  obtain ⟨-, rfl⟩ := hget'
  rw [snapshotState, if_neg (by omega), hentry, Runs.ok_bind, hresult, Runs.ok_bind,
    strtodUint32_state, Except.ok.injEq] at hstate
  exact ⟨i, by omega, hstate ▸ hpoll⟩

theorem framed_readStateTask (other : CString → BitVec 32) {seen : Nat} (hpos : 0 < seen)
    (hseen : seen ≤ s₀.published.length) :
    Framed topicBase held s₀ (readStateTask other) fun state s => s.Polled seen state := by
  apply Framed.bind (R := fun t _ => t = topicBase)
  · apply Framed.attempt
    intro s _ hinv s' t hp
    rw [Except.ok.injEq, Prod.mk.injEq] at hp
    obtain ⟨rfl, rfl⟩ := hp
    exact ⟨Shared.Quiet.refl s, fun _ _ _ => hinv.topic⟩
  · intro t s₁ hs₁ ht
    subst ht
    have hseen₁ : seen ≤ s₁.published.length := hseen.trans hs₁.1.published.length_le
    apply Framed.bind (R := fun mapCopy s =>
      ∀ state, snapshotState other mapCopy = .ok state → s.Polled seen state)
    · apply framed_mqttBufferGetMatchingTask
      intro s hs hinv b mapCopy hget s' hs' state hstate
      have hpolled := snapshotState_polled other hinv hpos
        (hseen₁.trans hs.1.published.length_le) hget hstate
      exact hpolled.onward hs'.1
    · intro mapCopy s₂ _ hmap
      apply Framed.attempt
      intro s hs _ s' state hp
      rw [Runs.bind_eq_ok] at hp
      obtain ⟨state', hstate, heq⟩ := hp
      rw [Except.ok.injEq, Prod.mk.injEq] at heq
      obtain ⟨rfl, rfl⟩ := heq
      refine ⟨Shared.Quiet.refl s, ?_⟩
      intro s'' hs'' _
      exact ((hmap state' hstate).onward hs.1).onward hs''.1

/-! ## The poll -/

/-- The mutex in the hands of the task that polls. -/
abbrev polling : List Mutex := [.outlet]

theorem quiet_of_rely (h : (outletProtocol topicBase).rely polling s s') :
    Shared.Quiet topicBase s s' := h.2 (List.mem_singleton_self _)

/-- The task that polls, in state `s`, goes on until the outlet agrees with the last poll. -/
def Completes (topicBase : CString) (c : Task α) (s : Shared) : Prop :=
  c.Valid (outletProtocol topicBase) (fun _ held' s' => held' = polling ∧ s'.Agrees topicBase)
    polling s

theorem Framed.completes {c : Task α} {R : α → Shared → Prop}
    (h : Framed topicBase polling s c R) (hs : s.Agrees topicBase) : Completes topicBase c s := by
  apply (h s ((outletProtocol topicBase).refl _ _)).mono
  intro a held' s' _ ⟨hheld, hrely, _⟩
  exact ⟨hheld, (quiet_of_rely hrely).agrees hs⟩

theorem Framed.completes_bind {c : Task α} {R : α → Shared → Prop} {k : α → Task β}
    (h : Framed topicBase polling s c R)
    (hk : ∀ a s', s'.Inv topicBase → Shared.Quiet topicBase s s' → R a s' →
      Completes topicBase (k a) s') : Completes topicBase (c >>= k) s := by
  apply (h s ((outletProtocol topicBase).refl _ _)).seq
  intro a held' s' hinv ⟨hheld, hrely, hR⟩
  subst hheld
  exact hk a s' hinv (quiet_of_rely hrely) hR

theorem Completes.bind {c : Task α} {k : α → Task β} (h : Completes topicBase c s)
    (hk : ∀ a s', s'.Inv topicBase → s'.Agrees topicBase → Completes topicBase (k a) s') :
    Completes topicBase (c >>= k) s := by
  apply Code.Valid.seq h
  intro a held' s' hinv ⟨hheld, hagrees⟩
  subst hheld
  exact hk a s' hinv hagrees

theorem Boiler.Stores.putOwn {b : Boiler} {st : Store} (h : b.Stores st)
    (htopic : trim (cstr b.outlet.topicBase) = b.outlet.topicBase) {relay : Bool}
    {now : BitVec 32} {buffer : Buffer}
    (hput : mqttBufferPut b.device.buffer b.outlet.topicBase (statePayload relay) now = .ok buffer) :
    ∃ st', Boiler.Stores ⟨⟨b.device.mqtt, buffer⟩, b.outlet⟩ st' ∧
      st'.value b.outlet.topicBase stateKey = some (decimal relay.toNat) := by
  obtain ⟨hb, hfits⟩ := mqttBufferPut_ok h.store h.fits hput
  refine ⟨_, ⟨h.setup, hb, hfits, h.only.put (fun _ => htopic) _ now⟩, ?_⟩
  have hvalue := st.value_put (cstr b.outlet.topicBase) (cstr (statePayload relay)) now
    (k := stateKey) (by decide)
  rw [htopic, payloadAssignments_state] at hvalue
  rw [hvalue]
  rfl

theorem Shared.inv_of_agrees (hinitialized : s.buffer.initialized = true)
    (htopic : s.outlet.topicBase = topicBase) (hpublished : s.published <+: s.polls)
    (h : s.Agrees topicBase) : s.Inv topicBase := by
  obtain ⟨relay, hlast, -, hreads⟩ := h
  refine ⟨hinitialized, htopic, hpublished, _, hreads,
    fun _ => ⟨s.polls.length - 1, relay, ?_, ?_, rfl⟩⟩
  · have hle := hpublished.length_le
    omega
  · rw [← List.getLast?_eq_getElem?]
    exact hlast

/-- The critical section in which the result of the poll is stored. -/
theorem completes_putOwn (hbase : PlainTopic topicBase) {relay : Bool} (now : BitVec 32)
    (hlast : s.polls.getLast? = some relay) (hstate : s.outlet.lastPublishState = relay) :
    Completes topicBase (Code.locked .buffer (onBuffer fun b => do
      let mapInfo ← flatmapPut (assignContent now) b.mapInfo (cstr topicBase)
        (cstr (statePayload relay))
      .ok ({ b with mapInfo := mapInfo }, ()))) s := by
  apply Code.valid_locked
  intro s₁ hs₁ _ _
  apply Code.valid_attempt
  intro s₂ hs₂ hinv s₃ a hp
  have hquiet := (quiet_of_rely hs₁).trans (quiet_of_rely (rely_buffer.mp hs₂))
  rw [Runs.bind_eq_ok] at hp
  obtain ⟨⟨b, a'⟩, hsection, heq⟩ := hp
  rw [Except.ok.injEq, Prod.mk.injEq] at heq
  obtain ⟨rfl, -⟩ := heq
  have hput := mqttBufferPut_section hinv.initialized hsection
  obtain ⟨v, ⟨st, hst, -⟩, -⟩ := hinv.reads
  have htop := hinv.topic
  subst htop
  obtain ⟨st', hst', hvalue⟩ := hst.putOwn hbase.trimmed hput
  have hagrees : (s₂.setBuffer b).Agrees s₂.outlet.topicBase :=
    ⟨relay, hquiet.polls ▸ hlast, hquiet.outlet ▸ hstate, st', hst', hvalue⟩
  refine ⟨keeps_of_outlet (by simp) ?_ ⟨List.prefix_refl _, List.prefix_refl _⟩, ?_⟩
  · exact Shared.inv_of_agrees (mqttBufferPut_initialized hput) rfl hinv.published hagrees
  · intro s₄ hs₄ _
    refine ⟨rfl, trivial, ?_⟩
    intro s₅ hs₅ _
    exact ⟨rfl, (quiet_of_rely hs₅).agrees ((quiet_of_rely (rely_buffer.mp hs₄)).agrees hagrees)⟩

theorem completes_mqttPublishTask (hbase : PlainTopic topicBase) {relay : Bool} (now : BitVec 32)
    (hlast : s.polls.getLast? = some relay) (hstate : s.outlet.lastPublishState = relay) :
    Completes topicBase (mqttPublishTask topicBase (statePayload relay) now) s := by
  have hsetup : Framed topicBase polling s (onMqtt fun q => (q, [], q.setupComplete))
      fun setupComplete _ => setupComplete = true := by
    apply Framed.attempt
    intro s₁ _ hinv s₂ setupComplete hp
    rw [Except.ok.injEq, Prod.mk.injEq] at hp
    obtain ⟨rfl, rfl⟩ := hp
    obtain ⟨v, ⟨st, hst, -⟩, -⟩ := hinv.reads
    exact ⟨quiet_setMqtt _ hst.setup, fun _ _ _ => hst.setup⟩
  apply hsetup.completes_bind
  intro setupComplete s₁ _ h₁ htrue
  subst htrue
  apply (Framed.onMqtt fun _ => id).completes_bind
  intro _ s₂ _ h₂ _
  have hput : Completes topicBase (mqttBufferPutTask topicBase (statePayload relay) now) s₂ := by
    apply framed_initializeTask.completes_bind
    intro _ s₃ _ h₃ _
    have hquiet := (h₁.trans h₂).trans h₃
    apply (completes_putOwn hbase now (hquiet.polls ▸ hlast) (hquiet.outlet ▸ hstate)).bind
    intro _ s₄ _ hagrees
    apply (framed_mqttBufferDispalyAllTask.completes hagrees).bind
    intro _ s₅ _ hagrees'
    exact (Framed.pure (R := fun _ _ => True) fun _ _ => trivial).completes hagrees'
  apply hput.bind
  intro _ s₃ _ hagrees
  exact (Framed.pure (R := fun _ _ => True) fun _ _ => trivial).completes hagrees

/-- `Outlet::publish` of the result of the poll, when the store has the last published state. -/
theorem completes_outletPublishTask (hbase : PlainTopic topicBase) {relay : Bool} (clocks : Clocks)
    (hlast : s.polls.getLast? = some relay)
    (hbefore : s.outlet.lastPublishTime = 0 ∨
      s.Reads topicBase (some (decimal s.outlet.lastPublishState.toNat))) :
    Completes topicBase (outletPublishTask relay clocks) s := by
  have hdue : Framed topicBase polling s (onOutlet fun o => (o, o.publishes relay clocks.due))
      fun due _ => due = s.outlet.publishes relay clocks.due := by
    apply Framed.attempt
    intro s₁ hs₁ _ s₂ due hp
    rw [Except.ok.injEq, Prod.mk.injEq] at hp
    obtain ⟨rfl, rfl⟩ := hp
    refine ⟨Shared.Quiet.refl s₁, ?_⟩
    intro _ _ _
    rw [(quiet_of_rely hs₁).outlet]
  apply hdue.completes_bind
  intro due s₁ hinv h₁ heq
  cases due with
  | false =>
    -- nothing is published: the state is the published one, and something was published before
    have hpublishes := heq.symm
    simp only [Outlet.publishes, Bool.or_eq_false_iff, bne_eq_false_iff_eq,
      beq_eq_false_iff_ne] at hpublishes
    obtain ⟨⟨hsame, hpublished⟩, -⟩ := hpublishes
    have hreads := hbefore.resolve_left hpublished
    rw [hsame] at hreads
    have hagrees : s₁.Agrees topicBase :=
      h₁.agrees ⟨relay, hlast, hsame, hreads⟩
    exact (Framed.pure (R := fun _ _ => True) fun _ _ => trivial).completes hagrees
  | true =>
    change Code.Valid _ _ (Code.access _ _) _ _
    intro s₂ hs₂ hinv₂ s₃ t hp
    rw [Except.ok.injEq, Prod.mk.injEq] at hp
    obtain ⟨rfl, rfl⟩ := hp
    have hquiet := h₁.trans (quiet_of_rely hs₂)
    have htop := hinv₂.topic
    subst htop
    refine ⟨keeps_of_outlet (List.mem_singleton_self _) ?_ ⟨List.prefix_refl _,
      List.prefix_refl _⟩, ?_⟩
    · obtain ⟨v, ⟨st, hst, hv⟩, hrecent⟩ := hinv₂.reads
      exact ⟨hinv₂.initialized, rfl, hinv₂.published, v,
        ⟨st, ⟨hst.setup, hst.store, hst.fits, hst.only⟩, hv⟩, hrecent⟩
    · let s₃ := s₂.setOutlet
        { s₂.outlet with lastPublishState := relay, lastPublishTime := clocks.sent }
      have hlast₃ : s₃.polls.getLast? = some relay := hquiet.polls ▸ hlast
      change Completes s₂.outlet.topicBase
        (mqttPublishTask s₂.outlet.topicBase (statePayload relay) clocks.put >>= fun _ => pure ()) s₃
      apply (completes_mqttPublishTask hbase clocks.put hlast₃ rfl).bind
      intro _ s₄ _ hagrees
      exact (Framed.pure (R := fun _ _ => True) fun _ _ => trivial).completes hagrees

theorem completes_updateTask (hbase : PlainTopic topicBase) (relay : Bool) (clocks : Clocks)
    (hs : s.Settled topicBase) : Completes topicBase (updateTask relay clocks) s := by
  intro s₁ hs₁ hinv s₂ a hp
  rw [Except.ok.injEq, Prod.mk.injEq] at hp
  obtain ⟨rfl, -⟩ := hp
  have hsettled := (quiet_of_rely hs₁).settled hs
  refine ⟨keeps_of_outlet (List.mem_singleton_self _) ?_ ⟨List.prefix_append _ _,
    List.prefix_refl _⟩, ?_⟩
  · obtain ⟨v, hreads, hrecent⟩ := hinv.reads
    refine ⟨hinv.initialized, hinv.topic, hinv.published.trans (List.prefix_append _ _), v,
      hreads, ?_⟩
    intro hne
    obtain ⟨i, relay', hi, hpoll, hv⟩ := hrecent hne
    refine ⟨i, relay', hi, ?_, hv⟩
    rw [List.getElem?_append_left (List.getElem?_eq_some_iff.mp hpoll).1]
    exact hpoll
  · apply completes_outletPublishTask hbase clocks (by simp)
    rcases hsettled.last with ⟨-, htime⟩ | ⟨relay', -, hstate, hreads⟩
    · exact Or.inl htime
    · right
      change s₁.Reads topicBase (some (decimal s₁.outlet.lastPublishState.toNat))
      rw [hstate]
      exact hreads

/-- The end of the critical section. -/
def SettledAt (topicBase : CString) (seen : Nat) (held : List Mutex) (s : Shared) : Prop :=
  held = polling ∧ s.Settled topicBase ∧ 0 < seen ∧ seen ≤ s.published.length

theorem valid_settle (hs : s.Agrees topicBase) :
    (Code.step fun s : Shared => ({ s with published := s.polls }, s.polls.length) : Task Nat).Valid
      (outletProtocol topicBase) (SettledAt topicBase) polling s := by
  intro s₁ hs₁ hinv s₂ seen hp
  rw [Except.ok.injEq, Prod.mk.injEq] at hp
  obtain ⟨rfl, rfl⟩ := hp
  have hagrees := (quiet_of_rely hs₁).agrees hs
  obtain ⟨relay, hlast, -⟩ := id hagrees
  refine ⟨keeps_of_outlet (List.mem_singleton_self _) ?_ ⟨List.prefix_refl _, hinv.published⟩, ?_⟩
  · exact Shared.inv_of_agrees hinv.initialized hinv.topic (List.prefix_refl _) hagrees
  · intro s₂ hs₂ _
    have hquiet := quiet_of_rely hs₂
    have hsettled : s₂.Settled topicBase := hquiet.settled ⟨rfl, Or.inr hagrees⟩
    refine ⟨rfl, hsettled, ?_, ?_⟩
    · exact List.length_pos_of_ne_nil (List.getLast?_isSome.mp (by rw [hlast]; rfl))
    · rw [hsettled.published, hquiet.polls]

theorem valid_pollTask (hbase : PlainTopic topicBase) (relay : Bool) (clocks : Clocks)
    (hs : s.Settled topicBase) :
    (pollTask relay clocks).Valid (outletProtocol topicBase) (SettledAt topicBase) polling s := by
  intro s₁ hs₁ _ s₂ gateOpen hp
  rw [Except.ok.injEq, Prod.mk.injEq] at hp
  obtain ⟨rfl, rfl⟩ := hp
  have hsettled := (quiet_of_rely hs₁).settled hs
  refine ⟨(Shared.Quiet.refl s₁).keeps ‹_›, ?_⟩
  cases hgate : s₁.boiler.gateOpen clocks.gate with
  | false =>
    -- the gate is shut: something has been published, so a poll was made
    rcases hsettled.last with ⟨-, htime⟩ | hagrees
    · have hopen : s₁.boiler.gateOpen clocks.gate = true := by
        rw [Boiler.gateOpen, show s₁.boiler.outlet.lastPublishTime = 0 from htime]
        rfl
      exact absurd (hgate.symm.trans hopen) (by simp)
    · exact valid_settle hagrees
  | true =>
    apply Code.Valid.seq (completes_updateTask hbase relay clocks hsettled)
    intro _ held' s₃ _ hend
    obtain ⟨hheld, hagrees⟩ := hend
    subst hheld
    exact valid_settle hagrees

/-- A result of `getState`. -/
def Recent (result : Bool × Nat) (s : Shared) : Prop :=
  0 < result.2 ∧ s.Polled result.2 result.1

theorem valid_getStateTask (hbase : PlainTopic topicBase) (other : CString → BitVec 32)
    (relay : Bool) (clocks : Clocks) :
    (getStateTask other relay clocks).Valid (outletProtocol topicBase)
      (fun result held' s' => held' = [] ∧ Recent result s') [] s := by
  have hlocked : (Code.locked .outlet (pollTask relay clocks)).Valid (outletProtocol topicBase)
      (fun seen held' s' => held' = [] ∧ 0 < seen ∧ seen ≤ s'.published.length) [] s := by
    apply Code.valid_locked
    intro s₁ _ _ hsettled
    apply (valid_pollTask hbase relay clocks hsettled).mono
    intro seen held' s₂ _ ⟨hheld, hsettled₂, hpos, hseen⟩
    refine ⟨hheld, hsettled₂, ?_⟩
    intro s₃ hs₃ _
    exact ⟨rfl, hpos, hseen.trans hs₃.1.published.length_le⟩
  apply hlocked.seq
  intro seen held' s₁ _ ⟨hheld, hpos, hseen⟩
  subst hheld
  have hstate : Framed topicBase [] s₁ (readStateTask other) fun state s => s.Polled seen state :=
    framed_readStateTask other hpos hseen
  have hread : Framed topicBase [] s₁
      (readStateTask other >>= fun state => (pure (state, seen) : Task (Bool × Nat))) Recent := by
    apply hstate.bind
    intro state s₂ _ hpolled
    exact Framed.pure fun s₃ hs₃ => ⟨hpos, hpolled.onward hs₃.1⟩
  apply (hread s₁ ((outletProtocol topicBase).refl _ _)).mono
  intro result held' s₂ _ ⟨hheld, _, hrecent⟩
  exact ⟨hheld, hrecent⟩

theorem valid_none_of_framed {c : Task α} {R : α → Shared → Prop}
    (h : Framed topicBase [] s c R) :
    (c >>= fun _ => pure none : Task (Option (Bool × Nat))).Valid (outletProtocol topicBase)
      (fun result held' s' => held' = [] ∧ ∀ r, result = some r → Recent r s') [] s := by
  have hnone : Framed topicBase [] s (c >>= fun _ => (pure none : Task (Option (Bool × Nat))))
      fun result _ => result = none := by
    apply h.bind
    intro _ _ _ _
    exact Framed.pure fun _ _ => rfl
  apply (hnone s ((outletProtocol topicBase).refl _ _)).mono
  intro result held' s' _ ⟨hheld, _, hresult⟩
  refine ⟨hheld, ?_⟩
  intro r hr
  exact absurd (hresult.symm.trans hr) (by simp)

theorem TaskCall.valid (hbase : PlainTopic topicBase) (other : CString → BitVec 32)
    {call : TaskCall} (h : call.Elsewhere topicBase) :
    (call.task other).Valid (outletProtocol topicBase)
      (fun result held' s' => held' = [] ∧ ∀ r, result = some r → Recent r s') [] s := by
  cases call with
  | getState relay clocks =>
    apply (valid_getStateTask hbase other relay clocks).seq
    intro result held' s₁ _ ⟨hheld, hrecent⟩ s₂ hs₂ _
    refine ⟨hheld, ?_⟩
    intro r hr
    obtain rfl := Option.some.inj hr
    exact ⟨hrecent.1, hrecent.2.onward hs₂.1⟩
  | publish topic message now => exact valid_none_of_framed (framed_mqttPublishTask hbase h message now)
  | subscribe topic => exact valid_none_of_framed (framed_mqttSubscribeTask topic)
  | handle event now => exact valid_none_of_framed (framed_mqttEventHandlerTask hbase h)
  | getMatching filter =>
    exact valid_none_of_framed (framed_mqttBufferGetMatchingTask filter (R := fun _ _ => True)
      fun _ _ _ _ _ _ _ _ => trivial)
  | dispalyAll => exact valid_none_of_framed framed_mqttBufferDispalyAllTask

theorem Shared.boot_inv (subscriptions : List CString) (connected lastPublishState : Bool) :
    (Shared.boot subscriptions connected topicBase lastPublishState).Inv topicBase := by
  refine ⟨rfl, rfl, List.prefix_refl _, none, ⟨OrderedMap.empty, ?_, rfl⟩, ?_⟩
  · exact ⟨rfl, emptyTopics_holds, Store.fits_empty, Store.OnlyTopic.empty topicBase⟩
  · intro hne
    exact absurd rfl hne

end

/-- **`getState` returns a recent poll.** Once the store is initialized, in any interleaving of any
tasks that store elsewhere, the state that a call returned is the result of a poll, and of one not
older than the last poll before the call gave the mutex of the outlet back. -/
theorem getState_returns_recent_poll {τ : Type} [DecidableEq τ] (other : CString → BitVec 32)
    {topicBase : CString} (hbase : PlainTopic topicBase) (subscriptions : List CString)
    (connected lastPublishState : Bool) {w : TaskWorld τ}
    (h : Reachable (fun c => ∃ call : TaskCall, call.Elsewhere topicBase ∧ c = call.task other)
      (Shared.boot subscriptions connected topicBase lastPublishState) none w)
    {t : τ} {state : Bool} {seen : Nat} {s : Shared} (hs : w.shared = .ok s)
    (hdone : w.code t = .done (some (state, seen))) :
    0 < seen ∧ ∃ i, seen ≤ i + 1 ∧ s.polls[i]? = some state := by
  have hsound := h.sound (P := outletProtocol topicBase)
    (Q := fun result s' => ∀ r, result = some r → Recent r s')
    (Shared.boot_inv subscriptions connected lastPublishState) (by
      intro m
      cases m with
      | outlet => exact ⟨rfl, Or.inl ⟨rfl, rfl⟩⟩
      | buffer => trivial) (by simp) (by
      intro c ⟨call, helsewhere, hcall⟩ s' _
      subst hcall
      exact call.valid hbase other helsewhere)
  exact (hsound s hs).result hdone (state, seen) rfl

/-- The first call polls, and returns what it polled. -/
theorem getState_returns_recent_poll_first :
    ∃ (w : TaskWorld Unit) (s : Shared) (state : Bool) (seen : Nat), w.shared = .ok s ∧
      w.code () = .done (some (state, seen)) ∧ 0 < seen ∧
      ∃ i, seen ≤ i + 1 ∧ s.polls[i]? = some state := by
  let other : CString → BitVec 32 := fun _ => 0
  have hbase : PlainTopic boilerTopic :=
    ⟨by decide +kernel, by decide +kernel, by decide +kernel, by decide +kernel⟩
  let s₀ := Shared.boot [] true boilerTopic false
  let clocks := Clocks.instant (millis 15000)
  let call := TaskCall.getState true clocks
  have hstores : s₀.boiler.Stores OrderedMap.empty :=
    ⟨rfl, emptyTopics_holds, Store.fits_empty, Store.OnlyTopic.empty boilerTopic⟩
  have hsound : Polled.Sound ⟨s₀.boiler, []⟩ boilerTopic OrderedMap.empty 0 :=
    ⟨hstores, rfl, List.Pairwise.nil, by simp, fun _ => rfl, by simp⟩
  obtain ⟨p', state, hcall⟩ := hsound.getState_ok other 15000 true hbase.trimmed Store.Within.empty
  have hrun : ∃ s₁ seen, (call.task other).run s₀ = .ok (s₁, some (state, seen)) := by
    have hrun := getStateTask_run (s := s₀) emptyTopics_holds Store.fits_empty other true clocks
    rw [Polled.getState, Runs.bind_eq_ok] at hcall
    obtain ⟨⟨b, state'⟩, hget, heq⟩ := hcall
    rw [Except.ok.injEq, Prod.mk.injEq] at heq
    obtain ⟨-, rfl⟩ := heq
    rw [show s₀.boiler.getStateAt other true clocks = .ok (b, state') from hget] at hrun
    have htask : call.task other = getStateTask other true clocks >>= fun r => pure (some r) := rfl
    rw [htask, Code.run_bind]
    rcases hget : (getStateTask other true clocks).run s₀ with e | ⟨s₁, state, seen⟩
    · rw [hget] at hrun
      exact absurd hrun (by simp [Except.map])
    · rw [hget] at hrun
      obtain ⟨-, rfl⟩ : s₁.boiler = b ∧ state = state' := by
        simpa [Except.map] using hrun
      exact ⟨s₁, seen, rfl⟩
  obtain ⟨s₁, seen, hrun⟩ := hrun
  let calls : Task (Option (Bool × Nat)) → Prop :=
    fun c => ∃ call : TaskCall, call.Elsewhere boilerTopic ∧ c = call.task other
  let w₀ : TaskWorld Unit := (World.start Unit Mutex s₀ none).go () (call.task other)
  have h₀ : Reachable calls s₀ none w₀ := .step .start (.call _ () none rfl _ ⟨call, trivial, rfl⟩)
  obtain ⟨w, hmoves, hs, hdone⟩ := exists_run (w := w₀) (t := ()) (c := call.task other) rfl
    (call.balanced other) ⟨.nil, by simp [w₀, World.go, World.start]⟩
    (fun _ u _ => Subsingleton.elim u ()) rfl hrun
  exact ⟨w, s₁, state, seen, hs, hdone,
    getState_returns_recent_poll other hbase [] true false (h₀.moves hmoves) hs hdone⟩

end HomeAutomation
