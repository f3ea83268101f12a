import HomeAutomation.Outlet.LastPoll
import HomeAutomation.Outlet.Publish

/-!
# How often the relay is polled

The gate of `getState` is meant to keep two polls more than five seconds apart. It looks at the time
of the last publish, and `publish` records no time for a state that it does not send. So a call soon
after a poll is held back exactly when that poll was published, and its time is not so close to the
wrap of the counter that the sum wraps.
-/

namespace HomeAutomation

/-- A call of `getState` by a task, the relay being in a state then. -/
structure GateCall (τ : Type) where
  task : τ
  time : Nat
  relay : Bool
  deriving DecidableEq, Repr

/-- The gate of `getState`. -/
def Outlet.gateOpen (o : Outlet) (now : BitVec 32) : Bool :=
  o.lastPublishTime == 0 || decide (o.lastPublishTime + 5000 < now)

/-- What `getState` does to the outlet while it has the mutex. -/
def Outlet.locked (o : Outlet) (relay : Bool) (now : BitVec 32) : Outlet :=
  if o.gateOpen now then (o.publish relay now).1 else o

section
variable {τ : Type}

/-- The calls that poll the relay. -/
def Outlet.polling (o : Outlet) : List (GateCall τ) → List (GateCall τ)
  | [] => []
  | c :: calls =>
    if o.gateOpen (millis c.time) then
      c :: (o.locked c.relay (millis c.time)).polling calls
    else (o.locked c.relay (millis c.time)).polling calls

/-- Any two polls are more than five seconds apart. -/
def PollsApart (polls : List (GateCall τ)) : Prop :=
  polls.Pairwise fun c c' => c.time + 5000 < c'.time

/-! ## The condition -/

/-- Whether a poll is due, from the time of the last one. -/
def pollDue (last : Option Nat) (time : Nat) : Bool :=
  match last with
  | none => true
  | some q => decide (q + 5000 < time)

/-- Where only the polls that are due are made, every call that comes too early finds the last poll
recorded in the outlet, and no wrap of the counter near. -/
def Recorded (o : Outlet) : Option Nat → List (GateCall τ) → Prop
  | _, [] => True
  | last, c :: calls =>
    (∀ q ∈ last, c.time ≤ q + 5000 → o.lastPublishTime = millis q ∧ q + 5000 < 2 ^ 32) ∧
      if pollDue last c.time then
        Recorded (o.publish c.relay (millis c.time)).1 (some c.time) calls
      else Recorded o last calls

/-! ## One call -/

/-- The outlet knows of a publish since boot, not later than the last poll; when that poll was not
the one published, the gate was open for it. -/
def Outlet.Knows (o : Outlet) : Option Nat → Prop
  | none => o.lastPublishTime = 0
  | some q => ∃ p, o.lastPublishTime = millis p ∧ 0 < p ∧ p ≤ q ∧ q < 2 ^ 32 ∧
      (p = q ∨ (p + 5000) % 2 ^ 32 < q)

theorem Outlet.boot_knows (topicBase : CString) (lastPublishState : Bool) :
    (Outlet.boot topicBase lastPublishState).Knows none := by
  show (0 : BitVec 32) = 0
  rfl

theorem millis_injective {s t : Nat} (hs : s < 2 ^ 32) (ht : t < 2 ^ 32) :
    millis s = millis t ↔ s = t := by
  rw [← BitVec.toNat_inj, millis, millis, BitVec.toNat_ofNat, BitVec.toNat_ofNat]
  omega

/-- The gate at a time below the wrap, from the time of the last publish. -/
theorem Outlet.gateOpen_iff {o : Outlet} {p t : Nat} (ho : o.lastPublishTime = millis p)
    (hp : 0 < p) (hlt : p < 2 ^ 32) (ht : t < 2 ^ 32) :
    o.gateOpen (millis t) = true ↔ (p + 5000) % 2 ^ 32 < t := by
  have h5000 : (5000 : BitVec 32).toNat = 5000 := rfl
  have hsum : millis p + 5000 < millis t ↔ (p + 5000) % 2 ^ 32 < t := by
    rw [BitVec.lt_def, BitVec.toNat_add, h5000, millis, millis, BitVec.toNat_ofNat,
      BitVec.toNat_ofNat, Nat.mod_eq_of_lt hlt, Nat.mod_eq_of_lt ht]
  have hne : millis p ≠ 0 := by
    rw [Ne, millis_eq_zero_iff]
    omega
  rw [gateOpen, ho, Bool.or_eq_true, beq_iff_eq, decide_eq_true_eq, hsum, or_iff_right hne]

theorem Outlet.Knows.gateOpen {o : Outlet} {last : Option Nat} (h : o.Knows last) {t : Nat}
    (ht : t < 2 ^ 32) (hdue : pollDue last t = true) : o.gateOpen (millis t) = true := by
  cases last with
  | none =>
    have hzero : o.lastPublishTime = 0 := h
    simp [Outlet.gateOpen, hzero]
  | some q =>
    obtain ⟨p, htime, hpos, hle, hlt, -⟩ := h
    have hlate : q + 5000 < t := by simpa [pollDue] using hdue
    rw [gateOpen_iff htime hpos (by omega) ht]
    omega

/-- The gate holds a call back that comes too early exactly when the outlet recorded the last poll
away from the wrap. -/
theorem Outlet.Knows.gateShut_iff {o : Outlet} {q : Nat} (h : o.Knows (some q)) {t : Nat}
    (ht : t < 2 ^ 32) (hle : q ≤ t) (hearly : t ≤ q + 5000) :
    o.gateOpen (millis t) = false ↔ o.lastPublishTime = millis q ∧ q + 5000 < 2 ^ 32 := by
  obtain ⟨p, htime, hpos, hpq, hlt, hopen⟩ := h
  rw [← Bool.not_eq_true, gateOpen_iff htime hpos (by omega) ht, htime,
    millis_injective (by omega) hlt]
  omega

theorem Outlet.Knows.publish {o : Outlet} {last : Option Nat} (h : o.Knows last) {t : Nat}
    (hpos : 0 < t) (ht : t < 2 ^ 32) (hle : ∀ q ∈ last, q ≤ t)
    (hopen : o.gateOpen (millis t) = true) (relay : Bool) :
    (o.publish relay (millis t)).1.Knows (some t) := by
  unfold Outlet.publish
  split_ifs with hpublishes
  · exact ⟨t, rfl, hpos, le_refl t, ht, Or.inl rfl⟩
  · cases last with
    | none =>
      have hzero : o.lastPublishTime = 0 := h
      exact absurd (by simp [Outlet.publishes, hzero]) hpublishes
    | some q =>
      obtain ⟨p, htime, hp, hpq, hq, -⟩ := h
      have hqt := hle q rfl
      exact ⟨p, htime, hp, by omega, ht,
        Or.inr ((gateOpen_iff htime hp (by omega) ht).mp hopen)⟩

/-! ## Runs -/

/-- Polls after a due one are far from all that came before it. -/
theorem PollsApart.cons_iff {last : Option Nat} {c : GateCall τ} {polls : List (GateCall τ)}
    (hdue : ∀ q ∈ last, q + 5000 < c.time) :
    ((∀ q ∈ last, ∀ d ∈ c :: polls, q + 5000 < d.time) ∧ PollsApart (c :: polls)) ↔
      (∀ q ∈ some c.time, ∀ d ∈ polls, q + 5000 < d.time) ∧ PollsApart polls := by
  rw [PollsApart, List.pairwise_cons]
  constructor
  · rintro ⟨-, hfirst, hrest⟩
    exact ⟨fun q hq => Option.some.inj hq ▸ hfirst, hrest⟩
  · rintro ⟨hfirst, hrest⟩
    refine ⟨?_, hfirst c.time rfl, hrest⟩
    intro q hq d hd
    have hqc := hdue q hq
    rcases List.mem_cons.mp hd with rfl | hd
    · exact hqc
    · have hcd := hfirst c.time rfl d hd
      omega

/-- The polls that the calls after a last poll make stay apart exactly when the outlet recorded every
poll that a call follows too early. -/
theorem Outlet.polling_apart {o : Outlet} {last : Option Nat} {calls : List (GateCall τ)}
    (ho : o.Knows last) (hle : ∀ q ∈ last, ∀ c ∈ calls, q ≤ c.time)
    (hmono : calls.Pairwise fun c c' => c.time ≤ c'.time)
    (hrange : ∀ c ∈ calls, 0 < c.time ∧ c.time < 2 ^ 32) :
    ((∀ q ∈ last, ∀ d ∈ o.polling calls, q + 5000 < d.time) ∧ PollsApart (o.polling calls)) ↔
      Recorded o last calls := by
  induction calls generalizing o last with
  | nil => simp [polling, Recorded, PollsApart]
  | cons c calls ih =>
    obtain ⟨hpos, ht⟩ := hrange c List.mem_cons_self
    have hrange' := fun d hd => hrange d (List.mem_cons_of_mem c hd)
    have hle' : ∀ q ∈ last, ∀ d ∈ calls, q ≤ d.time :=
      fun q hq d hd => hle q hq d (List.mem_cons_of_mem c hd)
    have hlec : ∀ q ∈ last, q ≤ c.time := fun q hq => hle q hq c List.mem_cons_self
    rw [List.pairwise_cons] at hmono
    rw [polling, locked, Recorded]
    by_cases hdue : pollDue last c.time = true
    · -- the poll is due and made
      have hopen := ho.gateOpen ht hdue
      have hfar : ∀ q ∈ last, q + 5000 < c.time := by
        intro q hq
        rw [Option.mem_def.mp hq] at hdue
        simpa [pollDue] using hdue
      have hvacuous : ∀ q ∈ last, c.time ≤ q + 5000 →
          o.lastPublishTime = millis q ∧ q + 5000 < 2 ^ 32 := by
        intro q hq hearly
        have := hfar q hq
        omega
      rw [if_pos hopen, if_pos hopen, if_pos hdue, PollsApart.cons_iff hfar,
        ih (ho.publish hpos ht hlec hopen c.relay)
          (fun q hq d hd => Option.some.inj hq ▸ hmono.1 d hd) hmono.2 hrange']
      exact (and_iff_right hvacuous).symm
    · -- the poll is not due: it is held back, or breaks the bound
      obtain ⟨q, rfl, hearly⟩ : ∃ q, last = some q ∧ c.time ≤ q + 5000 := by
        cases last with
        | none => exact absurd rfl hdue
        | some q => exact ⟨q, rfl, by simpa [pollDue] using hdue⟩
      have hshut := ho.gateShut_iff ht (hlec q rfl) hearly
      by_cases hopen : o.gateOpen (millis c.time) = true
      · rw [if_pos hopen, if_pos hopen]
        refine iff_of_false ?_ ?_
        · rintro ⟨hfar, -⟩
          have := hfar q rfl c List.mem_cons_self
          omega
        · rintro ⟨hrecorded, -⟩
          rw [hshut.mpr (hrecorded q rfl hearly)] at hopen
          exact absurd hopen (by simp)
      · rw [if_neg hopen, if_neg hopen, if_neg hdue, ih ho hle' hmono.2 hrange']
        have hrecorded := hshut.mp (by simpa using hopen)
        refine (and_iff_right ?_).symm
        intro q' hq' _
        exact Option.some.inj hq' ▸ hrecorded

/-- **How often the relay is polled.** In calls of `getState` by any tasks, at times that do not
decrease, after 0 and before the wrap, any two polls are more than five seconds apart exactly when
each call that comes at most five seconds after the last poll due finds that poll recorded as the
last publish, more than five seconds before the wrap. -/
theorem Outlet.polls_apart_iff (topicBase : CString) (lastPublishState : Bool)
    {calls : List (GateCall τ)} (hmono : calls.Pairwise fun c c' => c.time ≤ c'.time)
    (hrange : ∀ c ∈ calls, 0 < c.time ∧ c.time < 2 ^ 32) :
    PollsApart ((Outlet.boot topicBase lastPublishState).polling calls) ↔
      Recorded (Outlet.boot topicBase lastPublishState) none calls := by
  rw [← polling_apart (boot_knows topicBase lastPublishState) (by simp) hmono hrange]
  simp

end

/-- Calls of two tasks while the relay is switched at every poll. -/
theorem Outlet.polls_apart_changing :
    PollsApart ((Outlet.boot boilerTopic false).polling
      [⟨0, 1000, true⟩, ⟨1, 1500, true⟩, ⟨0, 16000, false⟩, (⟨1, 21000, true⟩ : GateCall Nat)]) := by
  refine (polls_apart_iff boilerTopic false (by simp) (by simp)).mpr ?_
  simp [Recorded, pollDue, Outlet.publish, Outlet.publishes, Outlet.boot, millis, publishInterval]

/-- The third call polls a millisecond after the second, whose state was sent before. -/
theorem Outlet.polls_after_repeat :
    ¬ PollsApart ((Outlet.boot boilerTopic false).polling
      [⟨0, 15000, true⟩, ⟨0, 30000, true⟩, (⟨1, 30001, true⟩ : GateCall Nat)]) := by
  have hpolls : (Outlet.boot boilerTopic false).polling
      [⟨0, 15000, true⟩, ⟨0, 30000, true⟩, (⟨1, 30001, true⟩ : GateCall Nat)] =
      [⟨0, 15000, true⟩, ⟨0, 30000, true⟩, ⟨1, 30001, true⟩] := by decide
  rw [hpolls, PollsApart]
  simp

/-! ## The tasks poll as the outlet does -/

theorem Boiler.gateOpen_eq (s : Boiler) (now : BitVec 32) :
    s.gateOpen now = s.outlet.gateOpen now := rfl

theorem Boiler.publish_outlet {s s' : Boiler} {state : Bool} {now : BitVec 32}
    (h : s.publish state now = .ok s') : s'.outlet = (s.outlet.publish state now).1 := by
  rw [Boiler.publish_eq] at h
  cases hpublish : s.outlet.publish state now with
  | mk outlet payload =>
    rw [hpublish] at h
    cases payload with
    | none =>
      rw [Except.ok.injEq] at h
      exact h ▸ rfl
    | some payload =>
      simp only [Runs.bind_eq_ok, Except.ok.injEq] at h
      obtain ⟨_, _, rfl⟩ := h
      rfl

theorem Boiler.readState_outlet {other : CString → BitVec 32} {s s' : Boiler} {state : Bool}
    (h : s.readState other = .ok (s', state)) : s'.outlet = s.outlet := by
  simp only [Boiler.readState, Runs.bind_eq_ok] at h
  obtain ⟨⟨b, copy⟩, _, h⟩ := h
  split_ifs at h
  · simp only [Except.ok.injEq, Prod.mk.injEq] at h
    exact h.1 ▸ rfl
  · simp only [Runs.bind_eq_ok, Except.ok.injEq, Prod.mk.injEq] at h
    obtain ⟨_, _, _, _, rfl, _⟩ := h
    rfl

/-- The call of `getState` whose guarded part a step is. -/
def OutletAction.gateCall {τ : Type} : OutletAction τ → Option (GateCall τ)
  | .locked task clocks relay => some ⟨task, clocks.gate.toNat, relay⟩
  | _ => none

/-- The check of the gate and the publish are one instant. -/
def OutletAction.OneInstant {τ : Type} : OutletAction τ → Prop
  | .locked _ clocks _ => clocks = .instant clocks.gate
  | _ => True

namespace OutletTasks
variable {τ : Type} [DecidableEq τ]

/-- The steps of a run. -/
inductive Trace (other : CString → BitVec 32) :
    OutletTasks τ → List (OutletAction τ) → OutletTasks τ → Prop where
  | nil (p : OutletTasks τ) : Trace other p [] p
  | cons {p p' p'' : OutletTasks τ} {a : OutletAction τ} {actions : List (OutletAction τ)} :
      Step other p a p' → Trace other p' actions p'' → Trace other p (a :: actions) p''

variable {other : CString → BitVec 32} {p p' : OutletTasks τ}

/-- Only what is done under the mutex moves the outlet and adds polls. -/
theorem Step.polls {a : OutletAction τ} (h : Step other p a p') (hone : a.OneInstant) :
    (match a.gateCall with
      | some c => p'.boiler.outlet = p.boiler.outlet.locked c.relay (millis c.time) ∧
          p'.polls = if p.boiler.outlet.gateOpen (millis c.time) then p.polls ++ [c.relay]
            else p.polls
      | none => p'.boiler.outlet = p.boiler.outlet ∧ p'.polls = p.polls) := by
  cases h with
  | locked task clocks relay _ boiler hupdate =>
    have hclocks : clocks = .instant clocks.gate := hone
    generalize clocks.gate = now at hclocks
    subst hclocks
    change (if p.boiler.gateOpen now then p.boiler.update relay now else .ok p.boiler) =
      .ok boiler at hupdate
    have hmillis : millis now.toNat = now := by simp [millis]
    change boiler.outlet = p.boiler.outlet.locked relay (millis now.toNat) ∧
      (if p.boiler.gateOpen now then p.polls ++ [relay] else p.polls) =
        if p.boiler.outlet.gateOpen (millis now.toNat) then p.polls ++ [relay] else p.polls
    rw [hmillis, Outlet.locked, ← Boiler.gateOpen_eq]
    refine ⟨?_, rfl⟩
    split_ifs at hupdate ⊢
    · exact Boiler.publish_outlet hupdate
    · rw [Except.ok.injEq] at hupdate
      rw [hupdate]
  | snapshot task _ boiler state hread => exact ⟨Boiler.readState_outlet hread, rfl⟩
  | publish _ _ _ _ _ _ _ => exact ⟨rfl, rfl⟩
  | handle _ _ _ _ _ => exact ⟨rfl, rfl⟩

/-- **The polls of a run** are the ones its calls of `getState` make, whatever stands between. -/
theorem Trace.polls {actions : List (OutletAction τ)} (h : Trace other p actions p')
    (hone : ∀ a ∈ actions, a.OneInstant) :
    p'.polls =
      p.polls ++ (p.boiler.outlet.polling (actions.filterMap OutletAction.gateCall)).map
        GateCall.relay := by
  induction h with
  | nil p => simp [Outlet.polling]
  | @cons p p' p'' a actions hstep _ ih =>
    have hfirst := hstep.polls (hone a List.mem_cons_self)
    rw [ih (fun b hb => hone b (List.mem_cons_of_mem a hb)), List.filterMap_cons]
    cases hcall : a.gateCall with
    | none =>
      rw [hcall] at hfirst
      rw [hfirst.1, hfirst.2]
    | some c =>
      rw [hcall] at hfirst
      rw [hfirst.1, hfirst.2, Outlet.polling]
      split_ifs <;> simp

end OutletTasks

end HomeAutomation
