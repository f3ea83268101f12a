import HomeAutomation.Buffer.Capacity
import HomeAutomation.Outlet.Basic

/-!
# How old a boiler state can be

The state that `getState` returns is the result of the last poll: through every poll that `publish`
suppresses, the last published state and the stored one agree with it (`Polled.Sound`). So a call
returns a fresh state exactly when the last poll is recent or the gate opens
(`getState_fresh_iff`). The gate compares a sum of 32-bit times with a clock that wraps: it stays
shut when the clock has wrapped since the last publish and the sum has not.
-/

namespace HomeAutomation

theorem payloadAssignments_state (state : Bool) :
    payloadAssignments (cstr (statePayload state)) = [(stateKey, decimal state.toNat)] := by
  cases state <;> decide +kernel

theorem strtodUint32_state (other : CString → BitVec 32) (state : Bool) :
    (strtodUint32 other (decimal state.toNat) != 0) = state := by
  cases state
  · rw [strtodUint32_decimal other (by decide)]
    rfl
  · rw [strtodUint32_decimal other (by decide)]
    rfl

theorem trim_stateKey : trim stateKey = stateKey := by decide

/-! ## One call -/

/-- The device is set up, and its store stands for `s`, in which the filter of the outlet selects its
own topic only. -/
structure Boiler.Stores (b : Boiler) (s : Store) : Prop where
  setup : b.device.mqtt.setupComplete = true
  store : BufferHolds b.device.buffer s
  fits : s.Fits
  only : s.OnlyTopic b.outlet.topicBase

section
variable {b b' : Boiler} {s : Store} {relay : Bool} {clocks : Clocks}

theorem Boiler.getStateAt_eq (other : CString → BitVec 32) (b : Boiler) (relay : Bool)
    (clocks : Clocks) :
    b.getStateAt other relay clocks =
      (if b.gateOpen clocks.gate then b.updateAt relay clocks else .ok b) >>=
        Boiler.readState other := by
  unfold Boiler.getStateAt
  split_ifs <;> rfl

theorem Boiler.getState_eq (other : CString → BitVec 32) (b : Boiler) (relay : Bool)
    (now : BitVec 32) :
    b.getState other relay now =
      (if b.gateOpen now then b.update relay now else .ok b) >>= Boiler.readState other :=
  b.getStateAt_eq other relay (.instant now)

/-- What a poll leaves: the result as the last published state, and in the store; a poll that is not
published repeats the one before. -/
theorem Boiler.Stores.publish (h : b.Stores s)
    (htopic : trim (cstr b.outlet.topicBase) = b.outlet.topicBase)
    (hlast : b.outlet.lastPublishTime = 0 ∨
      s.value b.outlet.topicBase stateKey = some (decimal b.outlet.lastPublishState.toNat))
    (hstep : b.publishAt relay clocks = .ok b') :
    ∃ s', b'.Stores s' ∧ b'.outlet.topicBase = b.outlet.topicBase ∧
      b'.outlet.lastPublishState = relay ∧
      s'.value b.outlet.topicBase stateKey = some (decimal relay.toNat) ∧
      (s.Within [b.outlet.topicBase] [stateKey, timestampKey] →
        s'.Within [b.outlet.topicBase] [stateKey, timestampKey]) := by
  unfold Boiler.publishAt at hstep
  split_ifs at hstep with hpublishes
  · simp only [mqttPublish, mqttPublishStore, h.setup, if_true, Runs.bind_eq_ok,
      Except.ok.injEq] at hstep
    obtain ⟨⟨_, _, _⟩, ⟨buffer, hput, heq⟩, rfl⟩ := hstep
    simp only [Prod.mk.injEq] at heq
    obtain ⟨rfl, _⟩ := heq
    obtain ⟨hb, hfits⟩ := mqttBufferPut_ok h.store h.fits hput
    refine ⟨_, ⟨h.setup, hb, hfits, h.only.put (fun _ => htopic) _ clocks.put⟩, rfl, rfl, ?_, ?_⟩
    · have hvalue := s.value_put (cstr b.outlet.topicBase) (cstr (statePayload relay)) clocks.put
        (k := stateKey) (by decide)
      rw [htopic, payloadAssignments_state] at hvalue
      rw [hvalue]
      rfl
    · intro hwithin
      refine hwithin.put ?_ (by decide) ?_ clocks.put
      · rw [htopic]
        exact List.mem_singleton_self _
      · rw [payloadAssignments_state]
        simp
  · -- nothing is published: the state is the published one, and something was published before
    rw [Except.ok.injEq] at hstep
    subst hstep
    simp only [Outlet.publishes, Bool.or_eq_true, bne_iff_ne, ne_eq, beq_iff_eq,
      decide_eq_true_eq, not_or, not_not] at hpublishes
    obtain ⟨⟨hsame, hpublished⟩, _⟩ := hpublishes
    refine ⟨s, h, rfl, hsame, ?_, id⟩
    rw [← hsame]
    exact hlast.resolve_left hpublished

/-- The snapshot that `getState` takes has one entry, with the state that the store holds. -/
theorem Boiler.Stores.snapshot (h : b.Stores s)
    (hvalue : s.value b.outlet.topicBase stateKey = some (decimal relay.toNat)) :
    ∃ buffer copy m, mqttBufferGetMatching b.device.buffer b.outlet.topicBase = .ok (buffer, copy) ∧
      flatmapGetEntryCount copy = 1 ∧ entryFields copy 0 = .ok m ∧
      resultContent m stateKey = .ok (decimal relay.toNat) ∧
      Boiler.Stores ⟨⟨b.device.mqtt, buffer⟩, b.outlet⟩ s := by
  rw [Store.value, Option.bind_eq_some_iff] at hvalue
  obtain ⟨f, hf, hstate⟩ := hvalue
  have hentries := h.only.matching hf
  obtain ⟨buffer, copy, hget, hinit, hb, h', hcopy⟩ :=
    mqttBufferGetMatching_holds h.store h.fits b.outlet.topicBase
  obtain ⟨m, hentry, hm⟩ := entryFields_holds hcopy (i := 0) (t := b.outlet.topicBase) (f := f)
    (by rw [hentries]; rfl)
  have hresult := resultContent_ok hm (k := stateKey) (v := decimal relay.toNat)
    (by rw [trim_stateKey]; exact hstate)
  have hcount : flatmapGetEntryCount copy = 1 := by
    rw [hcopy.count, OrderedMap.size, hentries]
    rfl
  exact ⟨buffer, copy, m, hget, hcount, hentry, hresult,
    h.setup, BufferHolds.of_holds hb h', h.fits, h.only⟩

theorem Boiler.Stores.readState (h : b.Stores s) (other : CString → BitVec 32)
    (hvalue : s.value b.outlet.topicBase stateKey = some (decimal relay.toNat)) :
    ∃ b', b.readState other = .ok (b', relay) ∧ b'.Stores s ∧ b'.outlet = b.outlet := by
  obtain ⟨buffer, copy, m, hget, hcount, hentry, hresult, hs⟩ := h.snapshot hvalue
  refine ⟨⟨⟨b.device.mqtt, buffer⟩, b.outlet⟩, ?_, hs, rfl⟩
  simp only [Boiler.readState, hget, hcount, hentry, hresult, Runs.ok_bind, strtodUint32_state,
    Nat.one_ne_zero, if_false]

end

/-! ## Runs of calls -/

/-- What holds of a boiler and its polls at a true time. -/
structure Polled.Sound (p : Polled) (topicBase : CString) (s : Store) (clock : Nat) : Prop where
  stores : p.boiler.Stores s
  topic : p.boiler.outlet.topicBase = topicBase
  sorted : p.polls.Pairwise fun a a' => a.1 ≤ a'.1
  past : ∀ a ∈ p.polls, a.1 ≤ clock
  unpolled : p.polls = [] → p.boiler.outlet.lastPublishTime = 0
  last : ∀ a, p.polls.getLast? = some a → p.boiler.outlet.lastPublishState = a.2 ∧
    s.value topicBase stateKey = some (decimal a.2.toNat)

/-- Messages on topics that the filter of the outlet does not select. -/
def BoilerEvent.Elsewhere (topicBase : CString) : BoilerEvent → Prop
  | .getState _ _ => True
  | .put _ topic _ => ¬ 0 < matchTopic topicBase (trim (cstr topic))

def BoilerEvent.IsCall : BoilerEvent → Prop
  | .getState _ _ => True
  | .put _ _ _ => False

section
variable {other : CString → BitVec 32} {p p' : Polled} {topicBase : CString} {s : Store}
  {clock time : Nat} {relay : Bool}

/-- The last published state is the one of the last poll, once there is one. -/
theorem Polled.Sound.published (h : p.Sound topicBase s clock) :
    p.boiler.outlet.lastPublishTime = 0 ∨ s.value p.boiler.outlet.topicBase stateKey =
      some (decimal p.boiler.outlet.lastPublishState.toNat) := by
  rcases List.eq_nil_or_concat p.polls with hnil | ⟨l, a, hconcat⟩
  · exact Or.inl (h.unpolled hnil)
  · obtain ⟨hstate, hvalue⟩ := h.last a (by rw [hconcat]; simp)
    right
    rw [h.topic, hstate]
    exact hvalue

/-- A call of `getState`: it polls when the gate is open, and returns the result of the last poll. -/
theorem Polled.Sound.getState (h : p.Sound topicBase s clock)
    (htopic : trim (cstr topicBase) = topicBase) (hclock : clock ≤ time) {state : Bool}
    (hstep : p.getState other time relay = .ok (p', state)) :
    ∃ s' a, p'.Sound topicBase s' time ∧ p'.polls.getLast? = some a ∧ state = a.2 ∧
      p'.polls = (if p.boiler.gateOpen (millis time) then p.polls ++ [(time, relay)] else p.polls) ∧
      (s.Within [topicBase] [stateKey, timestampKey] →
        s'.Within [topicBase] [stateKey, timestampKey]) := by
  have hbase := h.topic
  simp only [Polled.getState, Boiler.getState_eq, Runs.bind_eq_ok, Except.ok.injEq,
    Prod.mk.injEq] at hstep
  obtain ⟨⟨b2, v⟩, ⟨b1, hupdate, hread⟩, rfl, rfl⟩ := hstep
  by_cases hgate : p.boiler.gateOpen (millis time) = true
  · rw [if_pos hgate] at hupdate
    rw [if_pos hgate]
    obtain ⟨s', hs', hbase', hstate', hvalue', hwithin⟩ :=
      h.stores.publish (by rw [hbase]; exact htopic) h.published hupdate
    obtain ⟨b3, hread', hs3, houtlet⟩ := hs'.readState other (by rw [hbase']; exact hvalue')
    rw [hread, Except.ok.injEq, Prod.mk.injEq] at hread'
    obtain ⟨rfl, rfl⟩ := hread'
    rw [hbase] at hbase' hvalue' hwithin
    refine ⟨s', (time, v), ⟨hs3, by rw [houtlet, hbase'], ?_, ?_, ?_, ?_⟩, by simp, rfl, rfl,
      hwithin⟩
    · refine List.pairwise_append.mpr ⟨h.sorted, List.pairwise_singleton _ _, ?_⟩
      intro a ha a' ha'
      rw [List.mem_singleton] at ha'
      rw [ha']
      exact le_trans (h.past a ha) hclock
    · intro a ha
      rcases List.mem_append.mp ha with hin | hin
      · exact le_trans (h.past a hin) hclock
      · rw [List.mem_singleton.mp hin]
    · intro hnil
      exact absurd hnil (by simp)
    · intro a ha
      rw [List.getLast?_append, List.getLast?_singleton, Option.some_or, Option.some.injEq] at ha
      rw [← ha, houtlet]
      exact ⟨hstate', hvalue'⟩
  · rw [if_neg hgate, Except.ok.injEq] at hupdate
    subst hupdate
    rw [if_neg hgate]
    rcases List.eq_nil_or_concat p.polls with hnil | ⟨l, a, hconcat⟩
    · -- before the first poll the gate is open
      have hopen : p.boiler.gateOpen (millis time) = true := by
        simp [Boiler.gateOpen, h.unpolled hnil]
      exact absurd hopen hgate
    · have hlast : p.polls.getLast? = some a := by rw [hconcat]; simp
      obtain ⟨hstate, hvalue⟩ := h.last a hlast
      obtain ⟨b3, hread', hs3, houtlet⟩ :=
        h.stores.readState other (by rw [hbase]; exact hvalue)
      rw [hread, Except.ok.injEq, Prod.mk.injEq] at hread'
      obtain ⟨rfl, rfl⟩ := hread'
      refine ⟨s, a, ⟨hs3, by rw [houtlet, hbase], h.sorted, ?_, ?_, ?_⟩, hlast, rfl, rfl, id⟩
      · intro a' ha'
        exact le_trans (h.past a' ha') hclock
      · intro hnil
        rw [houtlet]
        exact h.unpolled hnil
      · intro a' ha'
        rw [houtlet]
        exact h.last a' ha'

/-- A call returns when the store has nothing but the state of the outlet. -/
theorem Polled.Sound.getState_ok (h : p.Sound topicBase s clock) (other : CString → BitVec 32)
    (time : Nat) (relay : Bool) (htopic : trim (cstr topicBase) = topicBase)
    (hwithin : s.Within [topicBase] [stateKey, timestampKey]) :
    ∃ p' state, p.getState other time relay = .ok (p', state) := by
  have hbase := h.topic
  suffices hphase : ∃ b1, (if p.boiler.gateOpen (millis time) then
      p.boiler.update relay (millis time) else .ok p.boiler) = .ok b1 by
    obtain ⟨b1, hupdate⟩ := hphase
    have hread : ∃ b2 v, b1.readState other = .ok (b2, v) := by
      split_ifs at hupdate with hgate
      · obtain ⟨s', hs', hbase', _, hvalue', _⟩ :=
          h.stores.publish (by rw [hbase]; exact htopic) h.published hupdate
        obtain ⟨b2, hread, _⟩ := hs'.readState other (by rw [hbase']; exact hvalue')
        exact ⟨b2, _, hread⟩
      · rw [Except.ok.injEq] at hupdate
        subst hupdate
        have hvalue := h.published.resolve_left (fun hzero => hgate (by
          simp [Boiler.gateOpen, hzero]))
        obtain ⟨b2, hread, _⟩ := h.stores.readState other hvalue
        exact ⟨b2, _, hread⟩
    obtain ⟨b2, v, hread⟩ := hread
    refine ⟨⟨b2, if p.boiler.gateOpen (millis time) then p.polls ++ [(time, relay)] else p.polls⟩,
      v, ?_⟩
    simp only [Polled.getState, Boiler.getState_eq, hupdate, hread, Runs.ok_bind]
  split_ifs with hgate
  · unfold Boiler.update Boiler.updateAt Boiler.publishAt
    split_ifs with hpublishes
    · have hput := Store.Within.put hwithin (t := cstr topicBase)
        (p := cstr (statePayload relay)) (by rw [htopic]; exact List.mem_singleton_self _)
        (by decide) (by rw [payloadAssignments_state]; simp) (millis time)
      obtain ⟨buffer, hbuffer, _⟩ := mqttBufferPut_holds h.stores.store topicBase
        (statePayload relay) (millis time) (hput.fits (by simp) (by simp))
      refine ⟨⟨⟨p.boiler.device.mqtt, buffer⟩,
        { p.boiler.outlet with lastPublishState := relay, lastPublishTime := millis time }⟩, ?_⟩
      simp only [Clocks.instant, mqttPublish, mqttPublishStore, h.stores.setup, if_true, hbase,
        hbuffer, Runs.ok_bind]
    · exact ⟨_, rfl⟩
  · exact ⟨_, rfl⟩

theorem Polled.Sound.step (h : p.Sound topicBase s clock)
    (htopic : trim (cstr topicBase) = topicBase) {e : BoilerEvent} (hclock : clock ≤ e.time)
    (he : e.Elsewhere topicBase) (hstep : p.step other e = .ok p') :
    ∃ s', p'.Sound topicBase s' e.time ∧ (e.IsCall → s.Within [topicBase] [stateKey, timestampKey] →
      s'.Within [topicBase] [stateKey, timestampKey]) := by
  cases e with
  | getState time relay =>
    simp only [Polled.step, Runs.bind_eq_ok, Except.ok.injEq] at hstep
    obtain ⟨⟨p1, state⟩, hcall, rfl⟩ := hstep
    obtain ⟨s', _, hsound, _, _, _, hwithin⟩ := h.getState htopic hclock hcall
    exact ⟨s', hsound, fun _ => hwithin⟩
  | put time topic data =>
    simp only [Polled.step, Runs.bind_eq_ok, Except.ok.injEq] at hstep
    obtain ⟨buffer, hput, rfl⟩ := hstep
    have hbase := h.topic
    obtain ⟨hb, hfits⟩ := mqttBufferPut_ok h.stores.store h.stores.fits hput
    have hne : trim (cstr topic) ≠ trim (cstr topicBase) := by
      intro heq
      rw [htopic] at heq
      refine he ?_
      rw [heq, matchTopic_self]
      exact Nat.zero_lt_one
    refine ⟨_, ⟨⟨h.stores.setup, hb, hfits, h.stores.only.put ?_ _ _⟩, h.topic, h.sorted, ?_,
      h.unpolled, ?_⟩, fun hcall => hcall.elim⟩
    · intro hmatch
      rw [hbase] at hmatch
      exact absurd hmatch he
    · intro a ha
      exact le_trans (h.past a ha) hclock
    · intro a ha
      have hvalue := s.value_put_other (cstr data) (millis time) hne stateKey
      rw [htopic] at hvalue
      rw [hvalue]
      exact h.last a ha

theorem Polled.Sound.run (h : p.Sound topicBase s clock) (htopic : trim (cstr topicBase) = topicBase)
    {events : List BoilerEvent} (htimes : (clock :: events.map BoilerEvent.time).Pairwise (· ≤ ·))
    (hevents : ∀ e ∈ events, e.Elsewhere topicBase) (hrun : p.run other events = .ok p') :
    ∃ s' clock', p'.Sound topicBase s' clock' ∧ clock' ∈ clock :: events.map BoilerEvent.time ∧
      ((∀ e ∈ events, e.IsCall) → s.Within [topicBase] [stateKey, timestampKey] →
        s'.Within [topicBase] [stateKey, timestampKey]) := by
  induction events generalizing p s clock with
  | nil =>
    rw [Polled.run, Runs.foldlM_nil, Except.ok.injEq] at hrun
    exact ⟨s, clock, hrun ▸ h, List.mem_cons_self, fun _ hs => hs⟩
  | cons e events ih =>
    rw [Polled.run, List.foldlM_cons, Runs.bind_eq_ok] at hrun
    obtain ⟨p1, hstep, hrest⟩ := hrun
    rw [List.map_cons, List.pairwise_cons] at htimes
    obtain ⟨hclock, hlater⟩ := htimes
    obtain ⟨s1, h1, hwithin1⟩ :=
      h.step htopic (hclock _ List.mem_cons_self) (hevents e List.mem_cons_self) hstep
    obtain ⟨s', clock', h', hmem, hwithin'⟩ :=
      ih h1 hlater (fun e' he' => hevents e' (List.mem_cons_of_mem _ he')) hrest
    refine ⟨s', clock', h', List.mem_cons_of_mem _ hmem, ?_⟩
    intro hcalls hs
    exact hwithin' (fun e' he' => hcalls e' (List.mem_cons_of_mem _ he'))
      (hwithin1 (hcalls e List.mem_cons_self) hs)

end

theorem Polled.Sound.boot (subscriptions : List CString) (connected : Bool) (topicBase : CString)
    (lastPublishState : Bool) :
    (Polled.boot subscriptions connected topicBase lastPublishState).Sound topicBase
      OrderedMap.empty 0 := by
  refine ⟨⟨rfl, BufferHolds.boot, Store.fits_empty, Store.OnlyTopic.empty topicBase⟩, rfl,
    List.Pairwise.nil, ?_, fun _ => rfl, ?_⟩
  · intro a ha
    exact absurd ha (List.not_mem_nil)
  · intro a ha
    exact absurd ha (by simp [Polled.boot])

/-- The state was polled at some time in the last 5000 milliseconds. -/
def Fresh (polls : List (Nat × Bool)) (time : Nat) (state : Bool) : Prop :=
  ∃ a ∈ polls, time ≤ a.1 + 5000 ∧ a.1 ≤ time ∧ a.2 = state

/-- A call returns a fresh state exactly when the last poll is recent or the gate opens. -/
theorem Polled.Sound.fresh_iff {other : CString → BitVec 32} {p p' : Polled} {topicBase : CString}
    {s : Store} {clock time : Nat} {relay state : Bool} (h : p.Sound topicBase s clock)
    (htopic : trim (cstr topicBase) = topicBase) (hclock : clock ≤ time)
    (hstep : p.getState other time relay = .ok (p', state)) :
    Fresh p'.polls time state ↔
      (∃ a, p.polls.getLast? = some a ∧ time ≤ a.1 + 5000) ∨
        p.boiler.gateOpen (millis time) = true := by
  obtain ⟨s', a, hsound, hlast, rfl, hpolls, _⟩ := h.getState htopic hclock hstep
  have hmem : a ∈ p'.polls := List.mem_of_getLast? hlast
  -- the last poll is the youngest one
  have hfresh : Fresh p'.polls time a.2 ↔ time ≤ a.1 + 5000 := by
    constructor
    · rintro ⟨a', ha', hrecent, _, _⟩
      obtain ⟨l, hl⟩ := List.getLast?_eq_some_iff.mp hlast
      have hsorted := hsound.sorted
      rw [hl] at ha' hsorted
      rcases List.mem_append.mp ha' with hin | hin
      · have hle := (List.pairwise_append.mp hsorted).2.2 a' hin a (by simp)
        omega
      · rw [List.mem_singleton.mp hin] at hrecent
        exact hrecent
    · intro hrecent
      exact ⟨a, hmem, hrecent, hsound.past a hmem, rfl⟩
  rw [hfresh]
  by_cases hgate : p.boiler.gateOpen (millis time) = true
  · rw [if_pos hgate] at hpolls
    rw [hpolls, List.getLast?_append, List.getLast?_singleton, Option.some_or,
      Option.some.injEq] at hlast
    refine ⟨fun _ => Or.inr hgate, fun _ => ?_⟩
    rw [← hlast]
    omega
  · rw [if_neg hgate] at hpolls
    rw [hpolls] at hlast
    constructor
    · intro hrecent
      exact Or.inl ⟨a, hlast, hrecent⟩
    · rintro (⟨a', hlast', hrecent⟩ | hopen)
      · rw [hlast, Option.some.injEq] at hlast'
        rw [hlast']
        exact hrecent
      · exact absurd hopen hgate

/-- **The boiler state is not stale** if and only if the last poll was at most 5000 milliseconds ago,
or nothing has been published, or the clock is past the 32-bit sum of the last publish time and
5000. -/
theorem getState_fresh_iff (other : CString → BitVec 32) (subscriptions : List CString)
    (connected : Bool) (topicBase : CString) (htopic : trim (cstr topicBase) = topicBase)
    (lastPublishState : Bool) (events : List BoilerEvent) (time : Nat)
    (htimes : (events.map BoilerEvent.time ++ [time]).Pairwise (· ≤ ·))
    (hevents : ∀ e ∈ events, e.Elsewhere topicBase) (p : Polled)
    (hrun : (Polled.boot subscriptions connected topicBase lastPublishState).run other events =
      .ok p) (relay : Bool) :
    ((∀ e ∈ events, e.IsCall) → ∃ p' state, p.getState other time relay = .ok (p', state)) ∧
      ∀ p' state, p.getState other time relay = .ok (p', state) →
        (Fresh p'.polls time state ↔
          (∃ a, p.polls.getLast? = some a ∧ time ≤ a.1 + 5000) ∨
            p.boiler.outlet.lastPublishTime = 0 ∨
            p.boiler.outlet.lastPublishTime + 5000 < millis time) := by
  obtain ⟨hpast, _, hlast⟩ := List.pairwise_append.mp htimes
  obtain ⟨s, clock, hs, hmem, hwithin⟩ :=
    (Polled.Sound.boot subscriptions connected topicBase lastPublishState).run htopic
      (List.pairwise_cons.mpr ⟨fun _ _ => Nat.zero_le _, hpast⟩) hevents hrun
  have hclock : clock ≤ time := by
    rcases List.mem_cons.mp hmem with rfl | hin
    · exact Nat.zero_le _
    · exact hlast clock hin time (by simp)
  refine ⟨fun hcalls => hs.getState_ok other time relay htopic (hwithin hcalls Store.Within.empty), ?_⟩
  intro p' state hstep
  rw [hs.fresh_iff htopic hclock hstep]
  simp [Boiler.gateOpen]

/-! ## Around the wrap of the counter -/

/-- What a run of calls returns last, and its polls. -/
def lastState (other : CString → BitVec 32) (events : List BoilerEvent) (time : Nat) (relay : Bool) :
    Option (List (Nat × Bool) × Bool) :=
  match (Polled.boot [] true boilerTopic false).run other events with
  | .error _ => none
  | .ok p =>
    match p.getState other time relay with
    | .error _ => none
    | .ok (p, state) => some (p.polls, state)

/-- Two calls three seconds apart: the second one returns what the first one polled. -/
theorem getState_fresh_iff_early :
    ∃ p p' state, (Polled.boot [] true boilerTopic false).run (fun _ => 0) [.getState 15000 true] =
        .ok p ∧
      p.getState (fun _ => 0) 18000 false = .ok (p', state) ∧ Fresh p'.polls 18000 state := by
  have htopic : trim (cstr boilerTopic) = boilerTopic := by decide
  have hboot := Polled.Sound.boot [] true boilerTopic false
  obtain ⟨p, _, hcall⟩ :=
    hboot.getState_ok (fun _ => 0) 15000 true htopic Store.Within.empty
  obtain ⟨_, _, _, _, _, hpolls, _⟩ := hboot.getState htopic (Nat.zero_le _) hcall
  rw [if_pos (by decide)] at hpolls
  have hrun : (Polled.boot [] true boilerTopic false).run (fun _ => 0) [.getState 15000 true] =
      .ok p := by
    rw [Polled.run, List.foldlM_cons, Polled.step, hcall, Runs.ok_bind]
    rfl
  obtain ⟨hreturns, hiff⟩ := getState_fresh_iff (fun _ => 0) [] true boilerTopic htopic false
    [.getState 15000 true] 18000 (by decide) (by simp [BoilerEvent.Elsewhere]) p hrun false
  obtain ⟨p', state, hcall'⟩ := hreturns (by simp [BoilerEvent.IsCall])
  refine ⟨p, p', state, hrun, hcall', (hiff p' state hcall').mpr (Or.inl ⟨(15000, true), ?_, ?_⟩)⟩
  · rw [hpolls]
    rfl
  · decide

/-- Polls five minutes and ten seconds before the counter wraps, the second published too since the
sum with the interval wraps; ten seconds after the wrap the gate compares 4294962296 with 10000 and is
shut: the boiler has gone on, and the answer is 20 seconds old. -/
theorem getState_stale_after_wrap :
    lastState (fun _ => 0) [.getState (2 ^ 32 - 300000) false, .getState (2 ^ 32 - 10000) false]
        (2 ^ 32 + 10000) true =
      some ([(2 ^ 32 - 300000, false), (2 ^ 32 - 10000, false)], false) ∧
    ¬ Fresh [(2 ^ 32 - 300000, false), (2 ^ 32 - 10000, false)] (2 ^ 32 + 10000) false := by
  refine ⟨by decide +kernel, ?_⟩
  rintro ⟨a, ha, hrecent, _, _⟩
  simp only [List.mem_cons, List.not_mem_nil, or_false] at ha
  rcases ha with rfl | rfl <;> omega

end HomeAutomation
