import HomeAutomation.Buffer.Capacity
import HomeAutomation.Buffer.LastWriter
import HomeAutomation.Lib.Broadcast
import HomeAutomation.Network.Basic

/-!
# Stores of different controllers

The devices on one topic are replicas of a totally ordered broadcast: a field of the topic is
written by the messages that assign it (`messageWrites`), and every step of the network is a step of
the broadcast (`Abstracts.step`). Runs whose local stores are in time therefore converge
(`Network.Reachable.stores_converge`). Nothing in the code keeps a local store in time: the message
is handed to the client first, and its echo and a newer message can be handled before the local
store rolls them back (`not_stores_converge`).
-/

namespace HomeAutomation

/-! ## Fields as replicas -/

/-- What a message writes. -/
def messageWrites (m : Message) (k : CString) : Option CString :=
  if k = timestampKey then none
  else (OrderedMap.valuesOf k (payloadAssignments (cstr m.text))).getLast?

theorem getLast?_eq_none_iff_valuesOf {k : CString} {l : List (CString × CString)} :
    (OrderedMap.valuesOf k l).getLast? = none ↔ k ∉ l.map Prod.fst := by
  rw [List.getLast?_eq_none_iff, OrderedMap.valuesOf_eq_nil]

theorem messageWrites_ne_none {m : Message} {k : CString} (hk : k ≠ timestampKey) :
    messageWrites m k ≠ none ↔ k ∈ (payloadAssignments (cstr m.text)).map Prod.fst := by
  rw [messageWrites, if_neg hk, Ne, getLast?_eq_none_iff_valuesOf, not_not]

theorem lastWrite_eq_lastAssigned {k : CString} (hk : k ≠ timestampKey) (l : List Message) :
    Broadcast.lastWrite messageWrites k l = lastAssigned k l := by
  induction l using List.reverseRecOn with
  | nil => rfl
  | append_singleton l m ih =>
    have hlog : lastAssigned k (l ++ [m]) = (messageWrites m k).or (lastAssigned k l) := by
      rw [lastAssigned, List.flatMap_append, List.flatMap_singleton, OrderedMap.valuesOf_append,
        List.getLast?_append, messageWrites, if_neg hk]
      rfl
    rw [hlog, ← ih]
    cases hw : messageWrites m k with
    | some v => rw [Broadcast.lastWrite_append_some messageWrites hw, Option.some_or]
    | none =>
      rw [Broadcast.lastWrite_append_none messageWrites l [m] (by simpa using hw), Option.none_or]

theorem lastAssigned_singleton {k : CString} (hk : k ≠ timestampKey) (m : Message) :
    lastAssigned k [m] = messageWrites m k := by
  rw [lastAssigned, List.flatMap_singleton, messageWrites, if_neg hk]

theorem Store.value_put_message (s : Store) (topic : CString) (m : Message) (now : BitVec 32)
    {k : CString} (hk : k ≠ timestampKey) :
    (s.put topic (cstr m.text) now).value (trim topic) k =
      Broadcast.apply messageWrites m (s.value (trim topic)) k := by
  rw [Store.value_put s topic (cstr m.text) now hk, Broadcast.apply, messageWrites, if_neg hk]

/-! ## Devices as replicas -/

section
variable {ι : Type} [DecidableEq ι] {topic : CString}

/-- The store of the device has, for the topic, the values `r`; the timestamp aside. -/
def DeviceHolds (topic : CString) (b : Buffer) (r : CString → Option CString) : Prop :=
  ∃ s, BufferHolds b s ∧ s.Fits ∧ ∀ k ≠ timestampKey, r k = s.value (trim (cstr topic)) k

theorem DeviceHolds.put {b b' : Buffer} {r : CString → Option CString} {m : Message}
    {now : BitVec 32} (h : DeviceHolds topic b r)
    (hput : mqttBufferPut b topic m.text now = .ok b') :
    DeviceHolds topic b' (Broadcast.apply messageWrites m r) := by
  obtain ⟨s, hb, hfits, hr⟩ := h
  obtain ⟨hb', hfits'⟩ := mqttBufferPut_ok hb hfits hput
  refine ⟨_, hb', hfits', ?_⟩
  intro k hk
  rw [Store.value_put_message s (cstr topic) m now hk, Broadcast.apply, Broadcast.apply, hr k hk]

theorem DeviceHolds.putOther {b b' : Buffer} {r : CString → Option CString} {t data : List Char}
    {now : BitVec 32} (h : DeviceHolds topic b r) (ht : trim (cstr t) ≠ trim (cstr topic))
    (hput : mqttBufferPut b t data now = .ok b') : DeviceHolds topic b' r := by
  obtain ⟨s, hb, hfits, hr⟩ := h
  obtain ⟨hb', hfits'⟩ := mqttBufferPut_ok hb hfits hput
  refine ⟨_, hb', hfits', ?_⟩
  intro k hk
  rw [Store.value_put_other s (cstr data) now ht k, hr k hk]

/-- A value of a replica is what a reader of the store finds. -/
theorem DeviceHolds.read {b : Buffer} {r : CString → Option CString} {k v : CString}
    (h : DeviceHolds topic b r) (hk : trim k ≠ timestampKey) (hv : r (trim k) = some v) :
    ∃ fields, storeEntry b (cstr topic) = .ok (some fields) ∧ contentAt fields k = .ok (some v) := by
  obtain ⟨s, hb, _, hr⟩ := h
  rw [hr _ hk, Store.value, Option.bind_eq_some_iff] at hv
  obtain ⟨f, hf, hfv⟩ := hv
  rcases storeEntry_holds hb (cstr topic) with ⟨_, hnone⟩ | ⟨fields, f', hentry, hf', hholds⟩
  · rw [hf] at hnone
    exact absurd hnone (Option.some_ne_none f)
  · rw [hf, Option.some.injEq] at hf'
    subst hf'
    refine ⟨fields, hentry, ?_⟩
    rcases Holds.content hholds k with ⟨_, hnone⟩ | ⟨c, w, hget, hw, hcw⟩
    · rw [hfv] at hnone
      exact absurd hnone (Option.some_ne_none v)
    · rw [hget, hcw, ← hw, hfv]

/-- The broadcast that a network is, given the values of its devices. -/
def Network.config (n : Network ι) (r : ι → CString → Option CString) :
    Broadcast.Config ι Message CString CString :=
  { replica := r, unwritten := n.halfDone, sent := n.sent, log := n.log, handled := n.handled }

/-- The network abstracts to the broadcast with the values `r`: all devices are connected, no
published message is lost, and the stores hold `r`. -/
structure Abstracts (topic : CString) (n : Network ι) (r : ι → CString → Option CString) : Prop where
  connected : ∀ d, (n.device d).mqtt.connected = true
  published : ∀ m ∈ n.published, m ∈ n.sent ++ n.log
  store : ∀ d, DeviceHolds topic (n.device d).buffer (r d)

omit [DecidableEq ι] in
theorem Abstracts.start (topic : CString) {n : Network ι} (h : n.Start) : ∃ r, Abstracts topic n r := by
  have hstores : ∀ d, ∃ s, BufferHolds (n.device d).buffer s ∧ s.Fits := by
    intro d
    obtain ⟨puts, hrun⟩ := h.buffer d
    exact ⟨_, mqttBufferPutAll_ok BufferHolds.boot Store.fits_empty hrun⟩
  choose s hs using hstores
  refine ⟨fun d => (s d).value (trim (cstr topic)), h.connected, ?_, ?_⟩
  · intro m hm
    rw [h.published] at hm
    exact absurd hm (List.not_mem_nil)
  · intro d
    exact ⟨s d, (hs d).1, (hs d).2, fun _ _ => rfl⟩

theorem Abstracts.setDevice {n : Network ι} {r : ι → CString → Option CString}
    {rd : CString → Option CString} (h : Abstracts topic n r) (d : ι) (dev : Device)
    (hmqtt : dev.mqtt = (n.device d).mqtt) (hdev : DeviceHolds topic dev.buffer rd) :
    Abstracts topic (n.setDevice d dev) (Function.update r d rd) := by
  refine ⟨?_, h.published, ?_⟩
  · intro e
    unfold Network.setDevice
    by_cases he : e = d
    · subst he
      simp only [Function.update_self, hmqtt]
      exact h.connected e
    · simp only [Function.update_of_ne he]
      exact h.connected e
  · intro e
    unfold Network.setDevice
    by_cases he : e = d
    · subst he
      simp only [Function.update_self]
      exact hdev
    · simp only [Function.update_of_ne he]
      exact h.store e

/-- **A step of the network is a step of the broadcast**, or leaves it as it is. -/
theorem Abstracts.step {n n' : Network ι} {a : NetworkAction ι} {r : ι → CString → Option CString}
    (h : Abstracts topic n r) (hintime : n.InTime a) (hstep : Network.Step topic n a n') :
    ∃ r', Abstracts topic n' r' ∧
      (Broadcast.Step messageWrites (n.config r) (n'.config r') ∨ n'.config r' = n.config r) := by
  cases hstep with
  | publish d text hsetup =>
    have hsend : Network.taken topic n.published.length
        (mqttPublishSend (n.device d).mqtt topic text) = [⟨n.published.length, text⟩] := by
      simp [Network.taken, mqttPublishSend, h.connected d]
    refine ⟨r, ⟨h.connected, ?_, h.store⟩, Or.inl ?_⟩
    · intro m hm
      simp only [hsend]
      rcases List.mem_append.mp hm with hold | hnew
      · rcases List.mem_append.mp (h.published m hold) with hs | hl
        · exact List.mem_append_left _ (List.mem_append_left _ hs)
        · exact List.mem_append_right _ hl
      · exact List.mem_append_left _ (List.mem_append_right _ hnew)
    · simp only [hsend]
      exact Broadcast.Step.send (n.config r) d ⟨n.published.length, text⟩
  | store d m now hm b hput =>
    have hset := h.setDevice d { n.device d with buffer := b } rfl
      ((h.store d).put hput)
    refine ⟨_, ⟨hset.connected, hset.published, hset.store⟩, Or.inl ?_⟩
    refine Broadcast.Step.write (n.config r) d m hm ?_
    intro hhandled k hw
    have hk : k ≠ timestampKey := by
      intro he
      rw [messageWrites, if_pos he] at hw
      exact hw rfl
    rw [lastWrite_eq_lastAssigned hk, ← lastAssigned_singleton hk]
    exact hintime hhandled k hk ((messageWrites_ne_none hk).mp hw)
  | order m hm =>
    refine ⟨r, ⟨h.connected, ?_, h.store⟩, Or.inl (Broadcast.Step.order (n.config r) m hm)⟩
    intro m' hm'
    rcases List.mem_append.mp (h.published m' hm') with hs | hl
    · by_cases he : m' = m
      · exact List.mem_append_right _ (List.mem_append_right _ (by simp [he]))
      · exact List.mem_append_left _ ((List.mem_erase_of_ne he).mpr hs)
    · exact List.mem_append_right _ (List.mem_append_left _ hl)
  | deliver d m now hm dev calls hhandle =>
    simp only [mqttEventHandler, Runs.bind_eq_ok, Except.ok.injEq, Prod.mk.injEq] at hhandle
    obtain ⟨b, hput, rfl, _⟩ := hhandle
    have hset := h.setDevice d { n.device d with buffer := b } rfl
      ((h.store d).put hput)
    exact ⟨_, ⟨hset.connected, hset.published, hset.store⟩,
      Or.inl (Broadcast.Step.deliver (n.config r) d m hm)⟩
  | putOther d t data now ht b hput =>
    have hset := h.setDevice d { n.device d with buffer := b } rfl
      ((h.store d).putOther ht hput)
    refine ⟨r, ?_, Or.inr rfl⟩
    rwa [Function.update_eq_self] at hset

theorem Network.Reachable.abstracts {n : Network ι}
    (h : Network.Reachable topic Network.InTime n) :
    ∃ r, Abstracts topic n r ∧ Broadcast.Reachable messageWrites (n.config r) := by
  induction h with
  | start hstart =>
    obtain ⟨r, hr⟩ := Abstracts.start topic hstart
    exact ⟨r, hr, Broadcast.Reachable.start
      ⟨hstart.halfDone, hstart.sent, hstart.log, hstart.handled⟩⟩
  | step _ hintime hstep ih =>
    obtain ⟨r, hr, hreach⟩ := ih
    obtain ⟨r', hr', hstep' | hsame⟩ := hr.step hintime hstep
    · exact ⟨r', hr', Broadcast.Reachable.step hreach hstep'⟩
    · exact ⟨r', hr', hsame ▸ hreach⟩

/-- **Stores converge** in runs whose local stores are in time. -/
theorem Network.Reachable.stores_converge {n : Network ι}
    (h : Network.Reachable topic Network.InTime n) (hq : n.Quiescent) : n.Converged topic := by
  obtain ⟨r, hr, hreach⟩ := h.abstracts
  rintro d k hk ⟨m, hm, hassign⟩
  have hlog : m ∈ n.log := by
    have hmem := hr.published m hm
    rwa [hq.sent, List.nil_append] at hmem
  have hwrites : messageWrites m (trim k) ≠ none := (messageWrites_ne_none hk).mpr hassign
  have hvalue : r d (trim k) = lastAssigned (trim k) n.log := by
    rw [← lastWrite_eq_lastAssigned hk]
    exact hreach.converged ⟨hq.sent, hq.handled⟩ d (trim k) ⟨m, hlog, hwrites⟩
  have hsome : lastAssigned (trim k) n.log ≠ none := by
    rw [lastAssigned, Ne, getLast?_eq_none_iff_valuesOf, not_not, List.map_flatMap]
    exact List.mem_flatMap.mpr ⟨m, hlog, hassign⟩
  obtain ⟨v, hv⟩ := Option.ne_none_iff_exists'.mp hsome
  obtain ⟨fields, hentry, hcontent⟩ := (hr.store d).read hk (hvalue.trans hv)
  exact ⟨fields, v, hentry, hcontent, hv⟩

end

/-! ## Two devices -/

def overrideTopic : CString := "7abr/heating/switch/override".toList

/-- Two devices that are set up and connected. -/
def twoDevices (a b : Buffer) (halfDoneA halfDoneB published sent log : List Message)
    (handledA handledB : Nat) : Network Bool :=
  { device := fun d => ⟨⟨[], true, true⟩, if d then b else a⟩
    halfDone := fun d => if d then halfDoneB else halfDoneA
    published := published
    sent := sent
    log := log
    handled := fun d => if d then handledB else handledA }

theorem twoDevices_start : (twoDevices Buffer.boot Buffer.boot [] [] [] [] [] 0 0).Start := by
  refine ⟨fun _ => rfl, fun _ => rfl, ?_, ?_, rfl, rfl, rfl, ?_⟩
  · exact Bool.forall_bool.2 ⟨⟨[], rfl⟩, ⟨[], rfl⟩⟩
  · exact Bool.forall_bool.2 ⟨rfl, rfl⟩
  · exact Bool.forall_bool.2 ⟨rfl, rfl⟩

theorem Network.Reachable.next {topic : CString} {P : Network Bool → NetworkAction Bool → Prop}
    {n n' : Network Bool} {a : NetworkAction Bool} (h : Network.Reachable topic P n)
    (hstep : Network.Step topic n a n') (hP : P n a)
    (hmqtt : ∀ d, (n'.device d).mqtt = ⟨[], true, true⟩) :
    Network.Reachable topic P (twoDevices (n'.device false).buffer (n'.device true).buffer
      (n'.halfDone false) (n'.halfDone true) n'.published n'.sent n'.log
      (n'.handled false) (n'.handled true)) := by
  have heq : n' = twoDevices (n'.device false).buffer (n'.device true).buffer
      (n'.halfDone false) (n'.halfDone true) n'.published n'.sent n'.log
      (n'.handled false) (n'.handled true) := by
    obtain ⟨device, halfDone, published, sent, log, handled⟩ := n'
    unfold twoDevices
    congr 1
    · funext d
      have hd := hmqtt d
      cases d <;> simp [← hd]
    · funext d
      cases d <;> rfl
    · funext d
      cases d <;> rfl
  exact heq ▸ h.step hP hstep

theorem override_puts (puts : List Put) (hputs : puts.length ≤ 16)
    (hassign : (puts.flatMap fun p => putAssignments (cstr p.data) p.now).length ≤ 16) :
    ∃ b, mqttBufferPutAll Buffer.boot puts = .ok b ∧
      DeviceHolds overrideTopic b
        ((Store.putAll OrderedMap.empty puts).value (trim (cstr overrideTopic))) := by
  have hfits := (FitsRun.of_length hputs hassign).fits
  obtain ⟨b, hrun, hb⟩ := mqttBufferPutAll_holds BufferHolds.boot puts hfits
  exact ⟨b, hrun, _, hb, hfits, fun _ _ => rfl⟩

theorem mqttEventHandler_data {dev : Device} {topic data : List Char} {now : BitVec 32} {b : Buffer}
    (hput : mqttBufferPut dev.buffer topic data now = .ok b) :
    mqttEventHandler dev (.data topic data) now = .ok ({ dev with buffer := b }, []) := by
  simp only [mqttEventHandler, hput, Runs.ok_bind]

def onMessage : Message := ⟨0, "state:on".toList⟩
def offMessage : Message := ⟨1, "state:off".toList⟩

/-- Both devices publish and store at once; the broker puts the second message first. -/
theorem stores_converge_two :
    ∃ a b, (twoDevices a b [] [] [onMessage, offMessage] [] [offMessage, onMessage] 2 2).Converged
      overrideTopic := by
  obtain ⟨a3, hrunA, _⟩ := override_puts
    [⟨overrideTopic, onMessage.text, 1⟩, ⟨overrideTopic, offMessage.text, 2⟩,
      ⟨overrideTopic, onMessage.text, 3⟩] (by decide) (by decide +kernel)
  obtain ⟨b3, hrunB, _⟩ := override_puts
    [⟨overrideTopic, offMessage.text, 1⟩, ⟨overrideTopic, offMessage.text, 2⟩,
      ⟨overrideTopic, onMessage.text, 3⟩] (by decide) (by decide +kernel)
  simp only [mqttBufferPutAll, List.foldlM_cons, Runs.foldlM_nil, Runs.bind_eq_ok,
    Except.ok.injEq] at hrunA hrunB
  obtain ⟨a1, ha1, a2, ha2, a3, ha3, rfl⟩ := hrunA
  obtain ⟨b1, hb1, b2, hb2, b3, hb3, rfl⟩ := hrunB
  have h0 : Network.Reachable overrideTopic Network.InTime
      (twoDevices Buffer.boot Buffer.boot [] [] [] [] [] 0 0) := .start twoDevices_start
  have h1 : Network.Reachable overrideTopic Network.InTime
      (twoDevices Buffer.boot Buffer.boot [onMessage] [] [onMessage] [onMessage] [] 0 0) :=
    h0.next (.publish _ false onMessage.text rfl) trivial (Bool.forall_bool.2 ⟨rfl, rfl⟩)
  have h2 : Network.Reachable overrideTopic Network.InTime
      (twoDevices Buffer.boot Buffer.boot [onMessage] [offMessage] [onMessage, offMessage]
        [onMessage, offMessage] [] 0 0) :=
    h1.next (.publish _ true offMessage.text rfl) trivial (Bool.forall_bool.2 ⟨rfl, rfl⟩)
  have h3 : Network.Reachable overrideTopic Network.InTime
      (twoDevices a1 Buffer.boot [] [offMessage] [onMessage, offMessage]
        [onMessage, offMessage] [] 0 0) :=
    h2.next (.store _ false onMessage 1 (List.mem_singleton_self _) _ ha1)
      (fun h => absurd h List.not_mem_nil) (Bool.forall_bool.2 ⟨rfl, rfl⟩)
  have h4 : Network.Reachable overrideTopic Network.InTime
      (twoDevices a1 b1 [] [] [onMessage, offMessage] [onMessage, offMessage] [] 0 0) :=
    h3.next (.store _ true offMessage 1 (List.mem_singleton_self _) _ hb1)
      (fun h => absurd h List.not_mem_nil) (Bool.forall_bool.2 ⟨rfl, rfl⟩)
  have h5 : Network.Reachable overrideTopic Network.InTime
      (twoDevices a1 b1 [] [] [onMessage, offMessage] [onMessage] [offMessage] 0 0) :=
    h4.next (.order _ offMessage (List.mem_cons_of_mem _ (List.mem_singleton_self _))) trivial
      (Bool.forall_bool.2 ⟨rfl, rfl⟩)
  have h6 : Network.Reachable overrideTopic Network.InTime
      (twoDevices a1 b1 [] [] [onMessage, offMessage] [] [offMessage, onMessage] 0 0) :=
    h5.next (.order _ onMessage (List.mem_singleton_self _)) trivial (Bool.forall_bool.2 ⟨rfl, rfl⟩)
  have h7 : Network.Reachable overrideTopic Network.InTime
      (twoDevices a2 b1 [] [] [onMessage, offMessage] [] [offMessage, onMessage] 1 0) :=
    h6.next (.deliver _ false offMessage 2 rfl _ _ (mqttEventHandler_data ha2))
      trivial (Bool.forall_bool.2 ⟨rfl, rfl⟩)
  have h8 : Network.Reachable overrideTopic Network.InTime
      (twoDevices a2 b2 [] [] [onMessage, offMessage] [] [offMessage, onMessage] 1 1) :=
    h7.next (.deliver _ true offMessage 2 rfl _ _ (mqttEventHandler_data hb2))
      trivial (Bool.forall_bool.2 ⟨rfl, rfl⟩)
  have h9 : Network.Reachable overrideTopic Network.InTime
      (twoDevices a2 b3 [] [] [onMessage, offMessage] [] [offMessage, onMessage] 1 2) :=
    h8.next (.deliver _ true onMessage 3 rfl _ _ (mqttEventHandler_data hb3))
      trivial (Bool.forall_bool.2 ⟨rfl, rfl⟩)
  have h10 : Network.Reachable overrideTopic Network.InTime
      (twoDevices a3 b3 [] [] [onMessage, offMessage] [] [offMessage, onMessage] 2 2) :=
    h9.next (.deliver _ false onMessage 3 rfl _ _ (mqttEventHandler_data ha3))
      trivial (Bool.forall_bool.2 ⟨rfl, rfl⟩)
  exact ⟨a3, b3, h10.stores_converge
    ⟨rfl, Bool.forall_bool.2 ⟨rfl, rfl⟩, Bool.forall_bool.2 ⟨rfl, rfl⟩⟩⟩

/-- A device publishes, both devices handle the message, the other one publishes a new value and all
handle that, and only then the first device stores its own message: it keeps the old value. -/
theorem not_stores_converge :
    ¬ ∀ n : Network Bool, Network.Reachable overrideTopic (fun _ _ => True) n → n.Quiescent →
      n.Converged overrideTopic := by
  intro hconverge
  obtain ⟨a3, hrunA, hA⟩ := override_puts
    [⟨overrideTopic, onMessage.text, 1⟩, ⟨overrideTopic, offMessage.text, 2⟩,
      ⟨overrideTopic, onMessage.text, 3⟩] (by decide) (by decide +kernel)
  obtain ⟨b3, hrunB, _⟩ := override_puts
    [⟨overrideTopic, onMessage.text, 1⟩, ⟨overrideTopic, offMessage.text, 2⟩,
      ⟨overrideTopic, offMessage.text, 3⟩] (by decide) (by decide +kernel)
  simp only [mqttBufferPutAll, List.foldlM_cons, Runs.foldlM_nil, Runs.bind_eq_ok,
    Except.ok.injEq] at hrunA hrunB
  obtain ⟨a1, ha1, a2, ha2, a3, ha3, rfl⟩ := hrunA
  obtain ⟨b1, hb1, b2, hb2, b3, hb3, rfl⟩ := hrunB
  have h0 : Network.Reachable overrideTopic (fun _ _ => True)
      (twoDevices Buffer.boot Buffer.boot [] [] [] [] [] 0 0) := .start twoDevices_start
  have h1 : Network.Reachable overrideTopic (fun _ _ => True)
      (twoDevices Buffer.boot Buffer.boot [onMessage] [] [onMessage] [onMessage] [] 0 0) :=
    h0.next (.publish _ false onMessage.text rfl) trivial (Bool.forall_bool.2 ⟨rfl, rfl⟩)
  have h2 : Network.Reachable overrideTopic (fun _ _ => True)
      (twoDevices Buffer.boot Buffer.boot [onMessage] [] [onMessage] [] [onMessage] 0 0) :=
    h1.next (.order _ onMessage (List.mem_singleton_self _)) trivial (Bool.forall_bool.2 ⟨rfl, rfl⟩)
  have h3 : Network.Reachable overrideTopic (fun _ _ => True)
      (twoDevices a1 Buffer.boot [onMessage] [] [onMessage] [] [onMessage] 1 0) :=
    h2.next (.deliver _ false onMessage 1 rfl _ _ (mqttEventHandler_data ha1))
      trivial (Bool.forall_bool.2 ⟨rfl, rfl⟩)
  have h4 : Network.Reachable overrideTopic (fun _ _ => True)
      (twoDevices a1 b1 [onMessage] [] [onMessage] [] [onMessage] 1 1) :=
    h3.next (.deliver _ true onMessage 1 rfl _ _ (mqttEventHandler_data hb1))
      trivial (Bool.forall_bool.2 ⟨rfl, rfl⟩)
  -- the other device publishes its value and stores it at once
  have h5 : Network.Reachable overrideTopic (fun _ _ => True)
      (twoDevices a1 b1 [onMessage] [offMessage] [onMessage, offMessage] [offMessage] [onMessage]
        1 1) :=
    h4.next (.publish _ true offMessage.text rfl) trivial (Bool.forall_bool.2 ⟨rfl, rfl⟩)
  have h6 : Network.Reachable overrideTopic (fun _ _ => True)
      (twoDevices a1 b2 [onMessage] [] [onMessage, offMessage] [offMessage] [onMessage] 1 1) :=
    h5.next (.store _ true offMessage 2 (List.mem_singleton_self _) _ hb2) trivial
      (Bool.forall_bool.2 ⟨rfl, rfl⟩)
  have h7 : Network.Reachable overrideTopic (fun _ _ => True)
      (twoDevices a1 b2 [onMessage] [] [onMessage, offMessage] [] [onMessage, offMessage] 1 1) :=
    h6.next (.order _ offMessage (List.mem_singleton_self _)) trivial (Bool.forall_bool.2 ⟨rfl, rfl⟩)
  have h8 : Network.Reachable overrideTopic (fun _ _ => True)
      (twoDevices a2 b2 [onMessage] [] [onMessage, offMessage] [] [onMessage, offMessage] 2 1) :=
    h7.next (.deliver _ false offMessage 2 rfl _ _ (mqttEventHandler_data ha2))
      trivial (Bool.forall_bool.2 ⟨rfl, rfl⟩)
  have h9 : Network.Reachable overrideTopic (fun _ _ => True)
      (twoDevices a2 b3 [onMessage] [] [onMessage, offMessage] [] [onMessage, offMessage] 2 2) :=
    h8.next (.deliver _ true offMessage 3 rfl _ _ (mqttEventHandler_data hb3))
      trivial (Bool.forall_bool.2 ⟨rfl, rfl⟩)
  have h10 : Network.Reachable overrideTopic (fun _ _ => True)
      (twoDevices a3 b3 [] [] [onMessage, offMessage] [] [onMessage, offMessage] 2 2) :=
    h9.next (.store _ false onMessage 3 (List.mem_singleton_self _) _ ha3) trivial
      (Bool.forall_bool.2 ⟨rfl, rfl⟩)
  obtain ⟨fields, v, hentry, hcontent, hlast⟩ := hconverge _ h10
    ⟨rfl, Bool.forall_bool.2 ⟨rfl, rfl⟩, Bool.forall_bool.2 ⟨rfl, rfl⟩⟩ false "state".toList
    (by decide) ⟨onMessage, List.mem_cons_self, by decide +kernel⟩
  obtain ⟨fields', hentry', hcontent'⟩ := hA.read (k := "state".toList) (v := "on".toList)
    (by decide) (by decide +kernel)
  have hoff : lastAssigned (trim "state".toList) [onMessage, offMessage] = some "off".toList := by
    decide +kernel
  change storeEntry a3 (cstr overrideTopic) = .ok (some fields) at hentry
  change lastAssigned (trim "state".toList) [onMessage, offMessage] = some v at hlast
  rw [hentry', Except.ok.injEq, Option.some.injEq] at hentry
  rw [← hentry, hcontent', Except.ok.injEq, ← hlast, hoff] at hcontent
  exact absurd hcontent (by decide)

end HomeAutomation
