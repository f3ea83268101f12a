import HomeAutomation.Lib.History
import HomeAutomation.Outlet.Basic

/-!
# Publish on change or after an interval

`Outlet::publish` is meant to send a state when it is the first, when it is another one than was
sent last, and when more than `PUBLISH_INTERVAL` has passed since. It compares a sum of 32-bit times
with a clock that wraps, and a time of 0 stands for nothing sent yet. So it follows the rule exactly
as long as, for every repeated state, the sum and the clock compare as the true times do.
-/

namespace HomeAutomation

/-- `Outlet::publish`: the fields afterwards, and the payload handed to `mqtt_publish`. -/
def Outlet.publish (o : Outlet) (state : Bool) (now : BitVec 32) : Outlet × Option CString :=
  if o.publishes state now then
    ({ o with lastPublishState := state, lastPublishTime := now }, some (statePayload state))
  else (o, none)

theorem Boiler.publish_eq (s : Boiler) (state : Bool) (now : BitVec 32) :
    s.publish state now =
      match s.outlet.publish state now with
      | (outlet, some payload) => do
        let (device, _) ← mqttPublish s.device outlet.topicBase payload now
        .ok ⟨device, outlet⟩
      | (outlet, none) => .ok ⟨s.device, outlet⟩ := by
  unfold Boiler.publish Boiler.publishAt Outlet.publish Clocks.instant
  by_cases h : s.outlet.publishes state now = true
  · simp only [h, if_true]
  · simp only [h, Bool.false_eq_true, if_false]

/-- A call of `publish` at a true time. -/
structure PublishCall where
  time : Nat
  state : Bool
  deriving DecidableEq, Repr

/-- A call, and whether it sent a message. -/
structure Published where
  call : PublishCall
  sent : Bool
  deriving DecidableEq, Repr

/-- What comes of a sequence of calls. -/
def Outlet.log (o : Outlet) : List PublishCall → List Published
  | [] => []
  | c :: calls =>
    ⟨c, (o.publish c.state (millis c.time)).2.isSome⟩ ::
      (o.publish c.state (millis c.time)).1.log calls

/-! ## The rule -/

/-- The last call that sent a message. -/
def lastSent (past : List Published) : Option PublishCall :=
  ((past.filter Published.sent).getLast?).map Published.call

/-- It is time to send: for the first time, for another state, or after the interval. -/
def Due (past : List Published) (c : PublishCall) : Prop :=
  past = [] ∨ ∃ s, lastSent past = some s ∧ (c.state ≠ s.state ∨ s.time + 600000 < c.time)

/-- Every call sends exactly when it is due. -/
def ChangeOrInterval (log : List Published) : Prop :=
  History.AtEvery (fun past x => x.sent = true ↔ Due past x.call) log

/-- The sum of the last send and the interval compares with the clock as the true times do. -/
def SumAgrees (sent now : Nat) : Prop :=
  if sent + 600000 < now then sent % 2 ^ 32 = 0 ∨ (sent + 600000) % 2 ^ 32 < now % 2 ^ 32
  else sent % 2 ^ 32 ≠ 0 ∧ (sent + 600000) / 2 ^ 32 = now / 2 ^ 32

/-- Whether the rule sends, from the last send. -/
def ruleSends (last : Option PublishCall) (c : PublishCall) : Bool :=
  match last with
  | none => true
  | some s => c.state != s.state || decide (s.time + 600000 < c.time)

/-- In the calls after a last send, the clock agrees at every repeated state. -/
def ClockAgreesFrom : Option PublishCall → List PublishCall → Prop
  | _, [] => True
  | last, c :: calls =>
    (∀ s ∈ last, c.state = s.state → SumAgrees s.time c.time) ∧
      ClockAgreesFrom (if ruleSends last c then some c else last) calls

/-! ## One call -/

/-- The fields of the outlet tell the last send. -/
def Outlet.Recalls (o : Outlet) : Option PublishCall → Prop
  | none => o.lastPublishTime = 0
  | some s => o.lastPublishTime = millis s.time ∧ o.lastPublishState = s.state

theorem Outlet.boot_recalls (topicBase : CString) (lastPublishState : Bool) :
    (Outlet.boot topicBase lastPublishState).Recalls none := by
  show (0 : BitVec 32) = 0
  rfl

theorem millis_eq_zero_iff (t : Nat) : millis t = 0 ↔ t % 2 ^ 32 = 0 := by
  rw [← BitVec.toNat_inj, millis, BitVec.toNat_ofNat]
  rfl

theorem millis_add_lt_iff (s t : Nat) :
    millis s + publishInterval < millis t ↔ (s + 600000) % 2 ^ 32 < t % 2 ^ 32 := by
  have hinterval : publishInterval.toNat = 600000 := rfl
  rw [BitVec.lt_def, BitVec.toNat_add, hinterval, millis, millis, BitVec.toNat_ofNat,
    BitVec.toNat_ofNat]
  omega

theorem Outlet.publish_sends (o : Outlet) (state : Bool) (now : BitVec 32) :
    (o.publish state now).2.isSome = o.publishes state now := by
  unfold publish
  split_ifs with h
  · exact h.symm
  · simpa using h

/-- A repeated state is sent exactly when it is due as long as the clock agrees. -/
theorem sumAgrees_iff {s t : Nat} (hle : s ≤ t) :
    (millis s = 0 ∨ millis s + publishInterval < millis t ↔ s + 600000 < t) ↔ SumAgrees s t := by
  rw [millis_eq_zero_iff, millis_add_lt_iff, SumAgrees]
  split_ifs with h
  · rw [iff_true_right h]
  · rw [iff_false_right h]
    omega

theorem Outlet.publishes_eq_iff {o : Outlet} {last : Option PublishCall} (ho : o.Recalls last)
    {c : PublishCall} (hle : ∀ s ∈ last, s.time ≤ c.time) :
    o.publishes c.state (millis c.time) = ruleSends last c ↔
      ∀ s ∈ last, c.state = s.state → SumAgrees s.time c.time := by
  cases last with
  | none =>
    have hzero : o.lastPublishTime = 0 := ho
    simp [publishes, ruleSends, hzero]
  | some s =>
    obtain ⟨htime, hstate⟩ := ho
    by_cases hsame : c.state = s.state
    · have hcode : o.publishes c.state (millis c.time) = true ↔
          millis s.time = 0 ∨ millis s.time + publishInterval < millis c.time := by
        simp [publishes, htime, hstate, hsame]
      have hrule : ruleSends (some s) c = true ↔ s.time + 600000 < c.time := by
        simp [ruleSends, hsame]
      rw [Bool.eq_iff_iff, hcode, hrule, sumAgrees_iff (hle s rfl)]
      simp [hsame]
    · have hcode : o.publishes c.state (millis c.time) = true := by
        simp [publishes, hstate, Ne.symm hsame]
      have hrule : ruleSends (some s) c = true := by simp [ruleSends, hsame]
      rw [hcode, hrule]
      simp [hsame]

theorem Outlet.Recalls.publish {o : Outlet} {last : Option PublishCall} (ho : o.Recalls last)
    (c : PublishCall) :
    (o.publish c.state (millis c.time)).1.Recalls
      (if o.publishes c.state (millis c.time) then some c else last) := by
  unfold Outlet.publish
  split_ifs with h
  · exact ⟨rfl, rfl⟩
  · exact ho

/-! ## Runs -/

/-- The history of the calls and the last send in it. -/
structure Remembered (past : List Published) (last : Option PublishCall) : Prop where
  sent : lastSent past = last
  first : past = [] ↔ last = none

theorem Remembered.nil : Remembered [] none := ⟨rfl, by simp⟩

theorem Remembered.due_iff {past : List Published} {last : Option PublishCall}
    (h : Remembered past last) (c : PublishCall) : Due past c ↔ ruleSends last c = true := by
  cases last with
  | none => exact iff_of_true (Or.inl (h.first.mpr rfl)) rfl
  | some s =>
    have hne : past ≠ [] := fun hnil => absurd (h.first.mp hnil) (by simp)
    rw [Due, h.sent]
    simp [hne, ruleSends]

theorem Remembered.snoc {past : List Published} {last : Option PublishCall}
    (h : Remembered past last) (c : PublishCall) :
    Remembered (past ++ [⟨c, ruleSends last c⟩]) (if ruleSends last c then some c else last) := by
  constructor
  · cases hsends : ruleSends last c with
    | true => simp [lastSent]
    | false =>
      rw [← h.sent]
      simp [lastSent]
  · refine iff_of_false (by simp) ?_
    cases last with
    | none => simp [ruleSends]
    | some s => split_ifs <;> simp

theorem Outlet.log_changeOrInterval {o : Outlet} {last : Option PublishCall}
    {past : List Published} {calls : List PublishCall} (ho : o.Recalls last)
    (hpast : Remembered past last) (hle : ∀ s ∈ last, ∀ c ∈ calls, s.time ≤ c.time)
    (hmono : calls.Pairwise fun c c' => c.time ≤ c'.time) :
    History.AtEvery (fun later x => x.sent = true ↔ Due (past ++ later) x.call) (o.log calls) ↔
      ClockAgreesFrom last calls := by
  induction calls generalizing o last past with
  | nil => simp [log, ClockAgreesFrom]
  | cons c calls ih =>
    rw [log, History.atEvery_cons, ClockAgreesFrom, List.append_nil, hpast.due_iff,
      publish_sends, ← Bool.eq_iff_iff, publishes_eq_iff ho (fun s hs => hle s hs c (by simp))]
    refine and_congr_right ?_
    intro hagree
    rw [← publishes_eq_iff ho (fun s hs => hle s hs c (by simp))] at hagree
    have ho' := ho.publish c
    rw [hagree] at ho' ⊢
    rw [List.pairwise_cons] at hmono
    have hle' : ∀ s ∈ (if ruleSends last c then some c else last), ∀ d ∈ calls,
        s.time ≤ d.time := by
      intro s hs d hd
      split_ifs at hs
      · exact Option.some.inj hs ▸ hmono.1 d hd
      · exact hle s hs d (List.mem_cons_of_mem _ hd)
    have hrest := ih ho' (hpast.snoc c) hle' hmono.2
    simp only [List.append_assoc, List.singleton_append] at hrest
    exact hrest

/-- **When publishing is change-or-interval.** An outlet that starts out having sent nothing follows
the rule in a sequence of calls exactly when, at every state that repeats the last one due to be
sent, the 32-bit sum compares with the clock as the true times do. -/
theorem Outlet.changeOrInterval_iff (topicBase : CString) (lastPublishState : Bool)
    {calls : List PublishCall} (hmono : calls.Pairwise fun c c' => c.time ≤ c'.time) :
    ChangeOrInterval ((Outlet.boot topicBase lastPublishState).log calls) ↔
      ClockAgreesFrom none calls :=
  log_changeOrInterval (boot_recalls topicBase lastPublishState) Remembered.nil (by simp) hmono

/-- An unchanged state over ten minutes. -/
theorem Outlet.changeOrInterval_hour :
    ChangeOrInterval ((Outlet.boot boilerTopic false).log
      [⟨1000, true⟩, ⟨16000, true⟩, ⟨601000, true⟩, ⟨601001, true⟩, ⟨602000, false⟩]) := by
  refine (changeOrInterval_iff boilerTopic false (by simp)).mpr ?_
  simp [ClockAgreesFrom, ruleSends, SumAgrees]

/-- A state sent just before the wrap of the counter is sent again at once. -/
theorem Outlet.publish_before_wrap :
    ¬ ChangeOrInterval ((Outlet.boot boilerTopic false).log
      [⟨4294960000, true⟩, ⟨4294960001, true⟩]) := by
  intro h
  have hsecond := h [⟨⟨4294960000, true⟩, true⟩] ⟨⟨4294960001, true⟩, true⟩ [] (by decide)
  simp [Due, lastSent] at hsecond

end HomeAutomation
