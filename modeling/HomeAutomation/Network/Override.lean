import HomeAutomation.Menu.Override
import HomeAutomation.Network.Convergence

/-!
# An override on every controller

Any controller can apply an override, and each shows what its own store has of it. When nothing is
under way any more, all show the override that the broker has put last, each of them counted down
from the time at which it stored a message of the topic last (`OverrideRun.override_shown`).
-/

namespace HomeAutomation

/-! ## Runs with overrides -/

/-- A topic that the refresh selects is the override topic itself. -/
def SelectsNoOther (topic : List Char) : Prop :=
  0 < matchTopic heatingControl (trim (cstr topic)) → trim (cstr topic) = heatingControl

/-- What `publishButton1` publishes for a value that edits reach. -/
def IsOverride (value : Int) (text : CString) : Prop :=
  -2 ^ 31 < value ∧ value < 2 ^ 31 ∧ overridePayload value = .ok text

theorem IsOverride.natAbs_lt {value : Int} {text : CString} (h : IsOverride value text) :
    value.natAbs < 2 ^ 32 := by
  obtain ⟨hgt, hlt, -⟩ := h
  omega

/-- The controllers publish overrides and nothing else on the topic. -/
def NetworkAction.Overrides {ι : Type} : NetworkAction ι → Prop
  | .publish _ text => ∃ value, IsOverride value text
  | .putOther _ t _ _ => SelectsNoOther t
  | _ => True

/-- When each device has stored a message of the topic last. -/
def NetworkAction.stamp {ι : Type} [DecidableEq ι] (stamps : ι → Option (BitVec 32)) :
    NetworkAction ι → ι → Option (BitVec 32)
  | .store d _ now => Function.update stamps d (some now)
  | .deliver d now => Function.update stamps d (some now)
  | _ => stamps

/-- A run of the network on the override topic, from stores with nothing else that the refresh
selects, its local stores in time. -/
inductive OverrideRun {ι : Type} [DecidableEq ι] : Network ι → (ι → Option (BitVec 32)) → Prop where
  | start {n : Network ι} (hstart : n.Start)
      (hputs : ∀ d, ∃ puts, mqttBufferPutAll Buffer.boot puts = .ok (n.device d).buffer ∧
        ∀ p ∈ puts, SelectsNoOther p.topic) : OverrideRun n fun _ => none
  | step {n n' : Network ι} {stamps : ι → Option (BitVec 32)} {a : NetworkAction ι}
      (h : OverrideRun n stamps) (hstep : Network.Step heatingControl n a n')
      (hintime : n.InTime a) (hoverrides : a.Overrides) : OverrideRun n' (a.stamp stamps)

variable {ι : Type} [DecidableEq ι] {n n' : Network ι} {stamps : ι → Option (BitVec 32)}

theorem OverrideRun.reachable (h : OverrideRun n stamps) :
    Network.Reachable heatingControl Network.InTime n := by
  induction h with
  | start hstart _ => exact .start hstart
  | step _ hstep hintime _ ih => exact ih.step hintime hstep

/-! ## The stores -/

theorem Store.OnlyTopic.putAll {s : Store} (h : s.OnlyTopic heatingControl) {puts : List Put}
    (hputs : ∀ p ∈ puts, SelectsNoOther p.topic) : (s.putAll puts).OnlyTopic heatingControl := by
  induction puts generalizing s with
  | nil => exact h
  | cons p puts ih =>
    obtain ⟨hp, hrest⟩ := List.forall_mem_cons.mp hputs
    exact ih (h.put hp _ p.now) hrest

theorem Store.value_put_stamp (s : Store) (topic payload : CString) (now : BitVec 32) :
    (s.put topic payload now).value (trim topic) timestampKey = some (decimal now.toNat) := by
  rw [Store.value, Store.put, OrderedMap.lookup_alter, if_pos rfl, Option.bind_some, overwrite,
    OrderedMap.lookup_overwrite, putAssignments, OrderedMap.valuesOf_append, List.getLast?_append]
  simp [OrderedMap.valuesOf]

/-- What the store of a device has, given when it stored a message of the topic last. -/
def Stamped (b : Buffer) (stamp : Option (BitVec 32)) : Prop :=
  ∃ s, BufferHolds b s ∧ s.Fits ∧ s.OnlyTopic heatingControl ∧
    ∀ t ∈ stamp, s.value heatingControl timestampKey = some (decimal t.toNat)

theorem Stamped.put {b b' : Buffer} {stamp : Option (BitVec 32)} {data : List Char}
    {now : BitVec 32} (h : Stamped b stamp)
    (hput : mqttBufferPut b heatingControl data now = .ok b') : Stamped b' (some now) := by
  obtain ⟨s, hb, hfits, honly, -⟩ := h
  obtain ⟨hb', hfits'⟩ := mqttBufferPut_ok hb hfits hput
  refine ⟨_, hb', hfits', honly.put (fun _ => trim_heatingControl) _ now, ?_⟩
  intro t ht
  obtain rfl := Option.some.inj ht
  have hstamp := s.value_put_stamp (cstr heatingControl) (cstr data) now
  rwa [trim_heatingControl] at hstamp

theorem Stamped.putOther {b b' : Buffer} {stamp : Option (BitVec 32)} {topic data : List Char}
    {now : BitVec 32} (h : Stamped b stamp) (hother : trim (cstr topic) ≠ heatingControl)
    (hselects : SelectsNoOther topic) (hput : mqttBufferPut b topic data now = .ok b') :
    Stamped b' stamp := by
  obtain ⟨s, hb, hfits, honly, hstamp⟩ := h
  obtain ⟨hb', hfits'⟩ := mqttBufferPut_ok hb hfits hput
  refine ⟨_, hb', hfits', honly.put hselects _ now, ?_⟩
  intro t ht
  have hne : trim (cstr topic) ≠ trim (cstr heatingControl) := by
    rw [trim_heatingControl]
    exact hother
  have hvalue := s.value_put_other (cstr data) now hne timestampKey
  rw [trim_heatingControl] at hvalue
  rw [hvalue]
  exact hstamp t ht

/-- What holds in every run: the messages are overrides, every device that has handled one has
stored one, and the stores are stamped. -/
structure OverrideInv (n : Network ι) (stamps : ι → Option (BitVec 32)) : Prop where
  overrides : ∀ m ∈ n.sent ++ n.log, ∃ value, IsOverride value m.text
  handled : ∀ d, 0 < n.handled d → (stamps d).isSome
  stamped : ∀ d, Stamped (n.device d).buffer (stamps d)

omit [DecidableEq ι] in
theorem OverrideInv.start (hstart : n.Start)
    (hputs : ∀ d, ∃ puts, mqttBufferPutAll Buffer.boot puts = .ok (n.device d).buffer ∧
      ∀ p ∈ puts, SelectsNoOther p.topic) : OverrideInv n fun _ => none := by
  refine ⟨?_, ?_, ?_⟩
  · rw [hstart.sent, hstart.log]
    exact fun m hm => absurd hm List.not_mem_nil
  · intro d hd
    have hzero := hstart.handled d
    omega
  · intro d
    obtain ⟨puts, hrun, hselects⟩ := hputs d
    obtain ⟨hb, hfits⟩ := mqttBufferPutAll_ok BufferHolds.boot Store.fits_empty hrun
    exact ⟨_, hb, hfits, (Store.OnlyTopic.empty _).putAll hselects, fun t ht => absurd ht (by simp)⟩

theorem OverrideInv.stored (h : OverrideInv n stamps) {d : ι} {b : Buffer} {data : List Char}
    {now : BitVec 32} (hput : mqttBufferPut (n.device d).buffer heatingControl data now = .ok b)
    {dev : Device} (hdev : dev.buffer = b) (e : ι) :
    Stamped ((n.setDevice d dev).device e).buffer (Function.update stamps d (some now) e) := by
  rw [Network.setDevice]
  by_cases he : e = d
  · subst he
    simp only [Function.update_self, hdev]
    exact (h.stamped e).put hput
  · simp only [Function.update_of_ne he]
    exact h.stamped e

theorem isSome_stamp (h : ∀ e, 0 < n.handled e → (stamps e).isSome) (d : ι) (now : BitVec 32) {e : ι}
    (he : e ≠ d → 0 < n.handled e) : (Function.update stamps d (some now) e).isSome := by
  by_cases hd : e = d
  · subst hd
    rw [Function.update_self]
    rfl
  · rw [Function.update_of_ne hd]
    exact h e (he hd)

/-- Every text that is taken to the broker is the one that was published. -/
theorem taken_text {q : MqttState} {topic text : CString} {id : Nat} {m : Message}
    (hm : m ∈ Network.taken topic id (mqttPublishSend q topic text)) : m.text = text := by
  unfold mqttPublishSend at hm
  split_ifs at hm
  · simp only [Network.taken, List.filterMap_cons, if_true, List.filterMap_nil,
      List.mem_singleton] at hm
    rw [hm]
  · exact absurd hm List.not_mem_nil

theorem OverrideInv.step (h : OverrideInv n stamps) {a : NetworkAction ι} (hoverrides : a.Overrides)
    (hstep : Network.Step heatingControl n a n') : OverrideInv n' (a.stamp stamps) := by
  cases hstep with
  | publish d text hsetup =>
    refine ⟨?_, h.handled, h.stamped⟩
    intro m hm
    rcases List.mem_append.mp hm with hm | hm
    · rcases List.mem_append.mp hm with hm | hm
      · exact h.overrides m (List.mem_append_left _ hm)
      · rw [taken_text hm]
        exact hoverrides
    · exact h.overrides m (List.mem_append_right _ hm)
  | store d m now hm b hput =>
    refine ⟨h.overrides, ?_, h.stored hput rfl⟩
    intro e he
    exact isSome_stamp h.handled d now fun _ => he
  | order m hm =>
    refine ⟨?_, h.handled, h.stamped⟩
    intro m' hm'
    apply h.overrides
    rcases List.mem_append.mp hm' with hm' | hm'
    · exact List.mem_append_left _ (List.mem_of_mem_erase hm')
    · rcases List.mem_append.mp hm' with hm' | hm'
      · exact List.mem_append_right _ hm'
      · rw [List.mem_singleton.mp hm']
        exact List.mem_append_left _ hm
  | deliver d m now hm dev calls hhandle =>
    rw [mqttEventHandler, Runs.bind_eq_ok] at hhandle
    obtain ⟨b, hput, heq⟩ := hhandle
    rw [Except.ok.injEq, Prod.mk.injEq] at heq
    refine ⟨h.overrides, ?_, h.stored hput (by rw [← heq.1])⟩
    intro e he
    apply isSome_stamp h.handled d now
    intro hne
    simp only [Function.update_of_ne hne] at he
    exact he
  | putOther d t data now ht b hput =>
    refine ⟨h.overrides, h.handled, ?_⟩
    intro e
    rw [trim_heatingControl] at ht
    have hput' := (h.stamped d).putOther ht hoverrides hput
    rw [Network.setDevice]
    by_cases he : e = d
    · subst he
      simp only [Function.update_self]
      exact hput'
    · simp only [Function.update_of_ne he]
      exact h.stamped e

theorem OverrideRun.inv (h : OverrideRun n stamps) : OverrideInv n stamps := by
  induction h with
  | start hstart hputs => exact .start hstart hputs
  | step _ hstep _ hoverrides ih => exact ih.step hoverrides hstep

/-! ## What is shown -/

theorem messageWrites_override {value : Int} {m : Message} (h : IsOverride value m.text) :
    messageWrites m forMsKey = some (decimal value.natAbs) := by
  have hne : forMsKey ≠ timestampKey ∧ stateKey ≠ forMsKey := by decide
  rw [messageWrites, if_neg hne.1, payloadAssignments_override h.1 h.2.2]
  simp [OrderedMap.valuesOf, hne.2]

/-- What the store of a device has of a field that its replica has. -/
theorem lookup_of_deviceHolds {b : Buffer} {r : CString → Option CString} {s : Store} {v : CString}
    (h : DeviceHolds heatingControl b r) (hb : BufferHolds b s) (hr : r forMsKey = some v) :
    ∃ f, s.lookup heatingControl = some f ∧ f.lookup forMsKey = some v := by
  obtain ⟨fields, hentry, hcontent⟩ := h.read (k := forMsKey) (by decide) (by rwa [trim_forMsKey])
  rcases storeEntry_holds hb heatingControl with ⟨hnone, -⟩ | ⟨m, f, hsome, hf, hholds⟩
  · have htopic : cstr heatingControl = heatingControl := by decide +kernel
    rw [htopic, hnone] at hentry
    cases hentry
  · have htopic : cstr heatingControl = heatingControl := by decide +kernel
    rw [htopic, hsome, Except.ok.injEq, Option.some.injEq] at hentry
    subst hentry
    have htrim := trim_heatingControl
    rw [htopic] at htrim
    rw [htrim] at hf
    refine ⟨f, hf, ?_⟩
    rcases Holds.content hholds forMsKey with ⟨hnone, -⟩ | ⟨c, w, hget, hw, hcw⟩
    · rw [hnone] at hcontent
      cases hcontent
    · rw [hget, Except.ok.injEq, Option.some.injEq] at hcontent
      rw [trim_forMsKey] at hw
      rw [hw, ← hcw, hcontent]

/-- **Every controller shows the override that the broker put last**, counted down from the time at
which it stored a message of the topic last, whatever its clock says. -/
theorem OverrideRun.override_shown (h : OverrideRun n stamps) (hq : n.Quiescent) {m : Message}
    (hlast : n.log.getLast? = some m) :
    (∃ value, IsOverride value m.text) ∧ ∀ value, IsOverride value m.text →
      ∀ d, ∃ t, stamps d = some t ∧ ∀ (other : CString → BitVec 32) (now : BitVec 32), ∃ b,
        timeRemaining other (n.device d).buffer now =
          .ok (b, some (BitVec.ofNat 32 value.natAbs - (now - t)).toInt) := by
  have hinv := h.inv
  have hlog : n.log ≠ [] := by
    intro hnil
    rw [hnil] at hlast
    cases hlast
  have hmem : m ∈ n.log := List.mem_of_getLast? hlast
  obtain ⟨r, hr, hreach⟩ := h.reachable.abstracts
  refine ⟨hinv.overrides m (List.mem_append_right _ hmem), ?_⟩
  intro value hvalue d
  have hwrites := messageWrites_override hvalue
  have hreplica : r d forMsKey = some (decimal value.natAbs) := by
    have hconverged := hreach.converged ⟨hq.sent, hq.handled⟩ d forMsKey
      ⟨m, hmem, by rw [hwrites]; exact Option.some_ne_none _⟩
    obtain ⟨before, hsplit⟩ := List.getLast?_eq_some_iff.mp hlast
    refine hconverged.trans ?_
    change Broadcast.lastWrite messageWrites forMsKey n.log = _
    rw [hsplit, Broadcast.lastWrite_append_some messageWrites hwrites]
  obtain ⟨t, ht⟩ := Option.isSome_iff_exists.mp
    (hinv.handled d (by rw [hq.handled d]; exact List.length_pos_iff.mpr hlog))
  refine ⟨t, ht, ?_⟩
  intro other now
  obtain ⟨s, hb, hfits, honly, hstamp⟩ := hinv.stamped d
  obtain ⟨f, hf, hforMs⟩ := lookup_of_deviceHolds (hr.store d) hb hreplica
  have htimestamp : f.lookup timestampKey = some (decimal t.toNat) := by
    have hvalue := hstamp t ht
    rw [Store.value, hf, Option.bind_some] at hvalue
    exact hvalue
  obtain ⟨b, -, -, htime⟩ := timeRemaining_holds other hb hfits now
  have hremaining := remainingOf_decimal other now hforMs (isDecimal_decimal _)
    (by rw [decimalValue_decimal]; exact hvalue.natAbs_lt) htimestamp
  rw [decimalValue_decimal] at hremaining
  refine ⟨b, ?_⟩
  rw [htime, honly.matching hf]
  simp only [hremaining, Runs.ok_bind]

/-- Half an hour, applied on one of two controllers, is shown on both. -/
theorem OverrideRun.override_shown_two :
    ∃ (n : Network Bool) (stamps : Bool → Option (BitVec 32)), OverrideRun n stamps ∧
      ∀ d, ∃ t, stamps d = some t ∧ ∀ (other : CString → BitVec 32) (now : BitVec 32), ∃ b,
        timeRemaining other (n.device d).buffer now =
          .ok (b, some (BitVec.ofNat 32 1800000 - (now - t)).toInt) := by
  let m : Message := ⟨0, "state:on,forMs:1800000".toList⟩
  have hvalue : IsOverride 1800000 m.text := ⟨by decide, by decide, by decide +kernel⟩
  obtain ⟨a₂, hrunA, -⟩ := override_puts
    [⟨heatingControl, m.text, 1⟩, ⟨heatingControl, m.text, 3⟩] (by decide) (by decide +kernel)
  obtain ⟨b₁, hrunB, -⟩ := override_puts [⟨heatingControl, m.text, 2⟩] (by decide)
    (by decide +kernel)
  simp only [mqttBufferPutAll, List.foldlM_cons, Runs.foldlM_nil, Runs.bind_eq_ok,
    Except.ok.injEq] at hrunA hrunB
  obtain ⟨a₁, ha₁, a₂, ha₂, rfl⟩ := hrunA
  obtain ⟨b₁, hb₁, rfl⟩ := hrunB
  have h₀ : OverrideRun (twoDevices Buffer.boot Buffer.boot [] [] [] [] [] 0 0) fun _ => none :=
    .start twoDevices_start
      (Bool.forall_bool.mpr ⟨⟨[], rfl, by simp⟩, ⟨[], rfl, by simp⟩⟩)
  have h₁ := h₀.step (.publish _ false m.text rfl) trivial ⟨1800000, hvalue⟩
  have h₂ := h₁.step (.store _ false m 1 (List.mem_singleton_self _) _ ha₁)
    (fun hm => absurd hm List.not_mem_nil) trivial
  have h₃ := h₂.step (.order _ m (List.mem_singleton_self _)) trivial trivial
  have h₄ := h₃.step (.deliver _ true m 2 rfl _ _ (mqttEventHandler_data hb₁)) trivial trivial
  have h₅ := h₄.step (.deliver _ false m 3 rfl _ _ (mqttEventHandler_data ha₂)) trivial trivial
  have hshown := h₅.override_shown
    ⟨rfl, Bool.forall_bool.mpr ⟨rfl, rfl⟩, Bool.forall_bool.mpr ⟨rfl, rfl⟩⟩ rfl
  exact ⟨_, _, h₅, hshown.2 1800000 hvalue⟩

end HomeAutomation
