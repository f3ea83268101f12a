import HomeAutomation.Occupancy.Basic
import Mathlib.Data.List.Basic

/-!
# How long a press counts

In true time a press at `P` counts until `P + validTimeButtonPress`. The code compares 32 bits of
that deadline with 32 bits of the time, which agrees with the comparison of the true times exactly
while the clock has not wrapped between the two readings.
-/

namespace HomeAutomation

/-- The last press of a run was made at `P`. -/
def LastPress (P : Nat) (updates : List Update) : Prop :=
  ∃ before p quiet, updates = before ++ p :: quiet ∧ p.press = some P ∧
    ∀ u ∈ quiet, u.press = none

/-- After `past` the update `u` treats a press at `P` as it should: it keeps the occupancy before the
deadline, and as the first update later than it clears the occupancy and says so once. -/
def TreatsPress (P : Nat) (past : List Update) (u : Update) : Prop :=
  (u.now < P + validTimeButtonPress →
      (Occupancy.run (past ++ [u])).currentOccupancy = 1 ∧
        stateFalse ∉ Occupancy.published past u) ∧
    ((∀ w ∈ past, w.now ≤ P + validTimeButtonPress) → P + validTimeButtonPress < u.now →
      (Occupancy.run (past ++ [u])).currentOccupancy = 0 ∧
        (Occupancy.published past u).count stateFalse = 1)

/-- Between two updates that publish `state:false`, the second included, a press publishes
`state:true`. -/
def Latched (updates : List Update) : Prop :=
  ∀ past w mid u after, updates = past ++ w :: mid ++ u :: after →
    stateFalse ∈ Occupancy.published past w →
    stateFalse ∈ Occupancy.published (past ++ w :: mid) u →
    ∃ before p rest, mid ++ [u] = before ++ p :: rest ∧ p.press ≠ none ∧
      stateTrue ∈ Occupancy.published (past ++ w :: before) p

/-- Occupancy lasts its validity time in a run. -/
def LastsValidTime (updates : List Update) : Prop :=
  (∀ past u after P, updates = past ++ u :: after → LastPress P (past ++ [u]) →
    TreatsPress P past u) ∧ Latched updates

/-- The clock has not wrapped between the deadline of a press at `P` and an update before it, or the
first update after it. -/
def ClockAgrees (P : Nat) (past : List Update) (u : Update) : Prop :=
  (u.now < P + validTimeButtonPress →
      u.now / 2 ^ 32 = (P + validTimeButtonPress) / 2 ^ 32) ∧
    ((∀ w ∈ past, w.now ≤ P + validTimeButtonPress) → P + validTimeButtonPress < u.now →
      (P + validTimeButtonPress) % 2 ^ 32 < u.now % 2 ^ 32)

namespace Occupancy

/-! ## One update -/

/-- The comparison with the deadline of a press at `P`. -/
def Expired (P now : Nat) : Prop := (P + validTimeButtonPress) % 2 ^ 32 < now % 2 ^ 32

theorem expired_iff {o : Occupancy} {P : Nat} (h : o.timeoutLastSet = BitVec.ofNat 32 P)
    (now : Nat) : o.timeoutLastSet + timeout < BitVec.ofNat 32 now ↔ Expired P now := by
  rw [h, timeout, ← BitVec.ofNat_add, BitVec.lt_def, BitVec.toNat_ofNat, BitVec.toNat_ofNat]
  rfl

/-- Before its deadline a press is expired when the clock wraps first. -/
theorem expired_early {P now : Nat} (hstart : P ≤ now) (h : now < P + validTimeButtonPress) :
    ¬ Expired P now ↔ now / 2 ^ 32 = (P + validTimeButtonPress) / 2 ^ 32 := by
  unfold Expired validTimeButtonPress at *
  omega

theorem not_expired_self (P : Nat) : ¬ Expired P (P + validTimeButtonPress) :=
  Nat.lt_irrefl _

theorem stateTrue_ne_stateFalse : stateTrue ≠ stateFalse := by decide

/-- The variables between the two `if`s of an update. -/
def afterPress (o : Occupancy) (u : Update) : Occupancy :=
  match u.press with
  | some t => ⟨BitVec.ofNat 32 t, 1⟩
  | none => o

theorem step_fst (o : Occupancy) (u : Update) :
    (o.step u).1 = ((o.afterPress u).expire (BitVec.ofNat 32 u.now)).1 := by
  rcases u with ⟨_ | t, now⟩ <;> rfl

theorem step_snd (o : Occupancy) (u : Update) :
    (o.step u).2 = (if u.press = none then [] else [stateTrue]) ++
      ((o.afterPress u).expire (BitVec.ofNat 32 u.now)).2 := by
  rcases u with ⟨_ | t, now⟩ <;> rfl

theorem expire_timeoutLastSet (o : Occupancy) (now : BitVec 32) :
    (o.expire now).1.timeoutLastSet = o.timeoutLastSet := by
  unfold expire
  split_ifs <;> rfl

theorem stateFalse_notMem_press (u : Update) :
    stateFalse ∉ if u.press = none then [] else [stateTrue] := by
  split_ifs
  · simp
  · simpa using stateTrue_ne_stateFalse.symm

theorem stateFalse_mem_step {o : Occupancy} {u : Update} :
    stateFalse ∈ (o.step u).2 ↔
      (o.afterPress u).timeoutLastSet + timeout < BitVec.ofNat 32 u.now ∧
        (o.afterPress u).currentOccupancy ≠ 0 := by
  rw [step_snd, List.mem_append, or_iff_right (stateFalse_notMem_press u), expire]
  by_cases h : (o.afterPress u).timeoutLastSet + timeout < BitVec.ofNat 32 u.now ∧
      (o.afterPress u).currentOccupancy ≠ 0
  · rw [if_pos h]
    exact iff_of_true (by simp) h
  · rw [if_neg h]
    exact iff_of_false (by simp) h

theorem count_stateFalse {o : Occupancy} {u : Update} (h : stateFalse ∈ (o.step u).2) :
    (o.step u).2.count stateFalse = 1 := by
  rw [stateFalse_mem_step] at h
  rw [step_snd, List.count_append, List.count_eq_zero.mpr (stateFalse_notMem_press u), expire,
    if_pos h]
  simp

/-- After an update the device is occupied unless the period is over. -/
theorem step_currentOccupancy {o : Occupancy} {u : Update} :
    (o.step u).1.currentOccupancy =
      if (o.afterPress u).timeoutLastSet + timeout < BitVec.ofNat 32 u.now then 0
      else (o.afterPress u).currentOccupancy := by
  rw [step_fst, expire]
  split_ifs with h1 h2 h2
  · rfl
  · exact absurd h1.1 h2
  · by_contra hne
    exact h1 ⟨h2, hne⟩
  · rfl

/-! ## Since the last press -/

theorem lastPress_concat {P : Nat} {past : List Update} {u : Update} :
    LastPress P (past ++ [u]) ↔
      u.press = some P ∨ u.press = none ∧ LastPress P past := by
  constructor
  · rintro ⟨before, p, quiet, heq, hp, hquiet⟩
    rcases List.eq_nil_or_concat' quiet with rfl | ⟨quiet, v, rfl⟩
    · obtain ⟨-, hu⟩ := List.append_inj' heq rfl
      rw [List.singleton_inj] at hu
      exact Or.inl (hu ▸ hp)
    · have heq' : past ++ [u] = (before ++ p :: quiet) ++ [v] := by simpa using heq
      obtain ⟨hpast, hu⟩ := List.append_inj' heq' rfl
      rw [List.singleton_inj] at hu
      exact Or.inr ⟨hu ▸ hquiet v (by simp), before, p, quiet, hpast, hp,
        fun w hw => hquiet w (by simp [hw])⟩
  · rintro (hu | ⟨hu, before, p, quiet, rfl, hp, hquiet⟩)
    · exact ⟨past, u, [], rfl, hu, by simp⟩
    · refine ⟨before, p, quiet ++ [u], by simp, hp, ?_⟩
      intro w hw
      rcases List.mem_append.mp hw with hw | hw
      · exact hquiet w hw
      · exact List.mem_singleton.mp hw ▸ hu

theorem afterPress_timeoutLastSet {P : Nat} (updates : List Update) :
    (LastPress P updates → (run updates).timeoutLastSet = BitVec.ofNat 32 P) ∧
      ∀ u, LastPress P (updates ++ [u]) →
        ((run updates).afterPress u).timeoutLastSet = BitVec.ofNat 32 P := by
  induction updates using List.reverseRecOn with
  | nil =>
    have hnil : ¬ LastPress P [] := by
      rintro ⟨before, p, quiet, heq, -⟩
      simp at heq
    refine ⟨fun h => absurd h hnil, ?_⟩
    intro u hu
    rcases lastPress_concat.mp hu with hpress | ⟨-, hpast⟩
    · simp [afterPress, hpress]
    · exact absurd hpast hnil
  | append_singleton updates v ih =>
    have hrun : LastPress P (updates ++ [v]) →
        (run (updates ++ [v])).timeoutLastSet = BitVec.ofNat 32 P := by
      intro h
      rw [run_concat, step_fst, expire_timeoutLastSet, ih.2 v h]
    refine ⟨hrun, ?_⟩
    intro u hu
    rcases lastPress_concat.mp hu with hpress | ⟨hnone, hpast⟩
    · simp [afterPress, hpress]
    · simp [afterPress, hnone, hrun hpast]

/-- While no update since the press is expired, the device is occupied. -/
theorem run_occupied {P : Nat} (updates : List Update)
    (h : ∀ past w after, updates = past ++ w :: after → LastPress P (past ++ [w]) →
      ¬ Expired P w.now) (hlast : LastPress P updates) : (run updates).currentOccupancy = 1 := by
  induction updates using List.reverseRecOn with
  | nil =>
    obtain ⟨before, p, quiet, heq, -⟩ := hlast
    exact absurd heq (by simp)
  | append_singleton updates v ih =>
    have hset := (afterPress_timeoutLastSet updates).2 v hlast
    have hv : ¬ Expired P v.now := h updates v [] rfl hlast
    rw [run_concat, step_currentOccupancy, if_neg (by rwa [expired_iff hset])]
    rcases lastPress_concat.mp hlast with hpress | ⟨hnone, hpast⟩
    · simp [afterPress, hpress]
    · have hrun := ih (fun past w after heq => h past w (after ++ [v]) (by simp [heq])) hpast
      simp [afterPress, hnone, hrun]

theorem afterPress_occupied {P : Nat} {past : List Update} {u : Update}
    (h : ∀ past' w after, past = past' ++ w :: after → LastPress P (past' ++ [w]) →
      ¬ Expired P w.now) (hlast : LastPress P (past ++ [u])) :
    ((run past).afterPress u).currentOccupancy = 1 := by
  rcases lastPress_concat.mp hlast with hpress | ⟨hnone, hpast⟩
  · simp [afterPress, hpress]
  · simpa [afterPress, hnone] using run_occupied past h hpast

/-- An update comes no earlier than the last press and the updates before it. -/
theorem now_le {updates past after : List Update} {u : Update} (hchron : Chronological updates)
    (heq : updates = past ++ u :: after) : ∀ w ∈ past, w.now ≤ u.now := by
  intro w hw
  have hstart : u.start ≤ u.now := hchron.1 u (by simp [heq])
  have hpair := hchron.2
  rw [heq, List.pairwise_append] at hpair
  exact (hpair.2.2 w hw u (by simp)).trans hstart

theorem press_le_now {updates past after : List Update} {u : Update} {P : Nat}
    (hchron : Chronological updates) (heq : updates = past ++ u :: after)
    (hlast : LastPress P (past ++ [u])) : P ≤ u.now := by
  obtain ⟨before, p, quiet, hsplit, hp, -⟩ := hlast
  have hmem : p ∈ past ++ [u] := by simp [hsplit]
  have hpnow : P ≤ p.now := by
    have hstart := hchron.1 p (by
      rw [heq]
      rcases List.mem_append.mp hmem with h | h
      · simp [h]
      · simp [List.mem_singleton.mp h])
    simpa [Update.start, hp] using hstart
  rcases List.mem_append.mp hmem with h | h
  · exact hpnow.trans (now_le hchron heq p h)
  · exact List.mem_singleton.mp h ▸ hpnow

/-- In the first round of the clock it agrees, up to the last period. -/
theorem clockAgrees_of_uptime {updates : List Update} (hchron : Chronological updates)
    (huptime : ∀ u ∈ updates, u.now + validTimeButtonPress < 2 ^ 32) :
    ∀ past u after P, updates = past ++ u :: after → LastPress P (past ++ [u]) →
      ClockAgrees P past u := by
  intro past u after P heq hlast
  have hle := press_le_now hchron heq hlast
  have hlt := huptime u (by simp [heq])
  unfold ClockAgrees validTimeButtonPress at *
  omega

/-! ## The latch -/

theorem foldl_clear {quiet : List Update} (hquiet : ∀ u ∈ quiet, u.press = none) {o : Occupancy}
    (h : o.currentOccupancy = 0) :
    (quiet.foldl (fun o u => (o.step u).1) o).currentOccupancy = 0 := by
  induction quiet generalizing o with
  | nil => exact h
  | cons u quiet ih =>
    refine ih (fun v hv => hquiet v (by simp [hv])) ?_
    rw [step_currentOccupancy]
    simp [afterPress, hquiet u (by simp), h]

/-- Every run is latched: only a press can set the occupancy again, and it publishes that. -/
theorem latched (updates : List Update) : Latched updates := by
  intro past w mid u after _ hw hu
  by_cases hquiet : ∀ x ∈ mid ++ [u], x.press = none
  · have hclear : (run (past ++ [w])).currentOccupancy = 0 := by
      rw [run_concat, step_currentOccupancy, if_pos (stateFalse_mem_step.mp hw).1]
    have hmid : (run (past ++ w :: mid)).currentOccupancy = 0 := by
      have hsplit : run (past ++ w :: mid) =
          mid.foldl (fun o u => (o.step u).1) (run (past ++ [w])) := by
        rw [run, run, ← List.foldl_append]
        simp
      rw [hsplit]
      exact foldl_clear (fun x hx => hquiet x (by simp [hx])) hclear
    have hset := (stateFalse_mem_step.mp hu).2
    simp [afterPress, hquiet u (by simp), hmid] at hset
  · push Not at hquiet
    obtain ⟨p, hp, hpress⟩ := hquiet
    obtain ⟨before, rest, hsplit⟩ := List.append_of_mem hp
    refine ⟨before, p, rest, hsplit, hpress, ?_⟩
    rw [published, step_snd, if_neg hpress]
    simp

end Occupancy

open Occupancy

/-- **When occupancy lasts its validity time.** In the runs in which the clock agrees at every update
before the deadline of the last press, and at the first one after it. -/
theorem lastsValidTime_iff (updates : List Update) (hchron : Chronological updates) :
    LastsValidTime updates ↔
      ∀ past u after P, updates = past ++ u :: after → LastPress P (past ++ [u]) →
        ClockAgrees P past u := by
  constructor
  · rintro ⟨htreats, -⟩ past u after P heq hlast
    have hset := (afterPress_timeoutLastSet past).2 u hlast
    obtain ⟨hbefore, hlater⟩ := htreats past u after P heq hlast
    refine ⟨?_, ?_⟩
    · intro hnow
      rw [← expired_early (press_le_now hchron heq hlast) hnow]
      intro hexp
      have hocc := (hbefore hnow).1
      rw [run_concat, step_currentOccupancy, if_pos ((expired_iff hset _).mpr hexp)] at hocc
      omega
    · intro hpast hnow
      have hcount := (hlater hpast hnow).2
      have hmem : stateFalse ∈ published past u := by
        rw [← List.count_pos_iff]
        omega
      exact (expired_iff hset _).mp (stateFalse_mem_step.mp hmem).1
  · intro hclock
    refine ⟨?_, latched updates⟩
    intro past u after P heq hlast
    have hset := (afterPress_timeoutLastSet past).2 u hlast
    -- the updates since the press that are not later than the deadline have not expired
    have hquiet : (∀ w ∈ past, w.now ≤ P + validTimeButtonPress) →
        ∀ past' w after', past = past' ++ w :: after' → LastPress P (past' ++ [w]) →
          ¬ Expired P w.now := by
      intro hpast past' w after' hsplit hw
      have hwhole : updates = past' ++ w :: (after' ++ u :: after) := by simp [heq, hsplit]
      rcases Nat.lt_or_eq_of_le (hpast w (by simp [hsplit])) with hlt | hat
      · exact (expired_early (press_le_now hchron hwhole hw) hlt).mpr
          ((hclock past' w _ P hwhole hw).1 hlt)
      · rw [hat]
        exact not_expired_self P
    refine ⟨?_, ?_⟩
    · intro hnow
      have hpast : ∀ w ∈ past, w.now ≤ P + validTimeButtonPress :=
        fun w hw => (now_le hchron heq w hw).trans hnow.le
      have hexp : ¬ Expired P u.now :=
        (expired_early (press_le_now hchron heq hlast) hnow).mpr
          ((hclock past u after P heq hlast).1 hnow)
      refine ⟨?_, ?_⟩
      · rw [run_concat, step_currentOccupancy, if_neg (by rwa [expired_iff hset])]
        exact afterPress_occupied (hquiet hpast) hlast
      · intro hmem
        exact hexp ((expired_iff hset _).mp (stateFalse_mem_step.mp hmem).1)
    · intro hpast hnow
      have hexp := (expired_iff hset _).mpr ((hclock past u after P heq hlast).2 hpast hnow)
      have hocc := afterPress_occupied (hquiet hpast) hlast
      refine ⟨?_, ?_⟩
      · rw [run_concat, step_currentOccupancy, if_pos hexp]
      · exact count_stateFalse (stateFalse_mem_step.mpr ⟨hexp, by omega⟩)

theorem lastsValidTime_first_press : LastsValidTime [⟨some 20, 20⟩, ⟨none, 10021⟩] := by
  have hchron : Chronological [⟨some 20, 20⟩, ⟨none, 10021⟩] :=
    ⟨by simp [Update.start], by simp [Update.start]⟩
  exact (lastsValidTime_iff _ hchron).mpr
    (clockAgrees_of_uptime hchron (by simp [validTimeButtonPress]))

/-- A press five seconds before the clock wraps is over at once. -/
theorem press_before_wrap_cleared :
    Chronological [⟨some 4294962296, 4294962296⟩] ∧
      ¬ LastsValidTime [⟨some 4294962296, 4294962296⟩] := by
  refine ⟨⟨by simp [Update.start], by simp⟩, ?_⟩
  rintro ⟨htreats, -⟩
  have hpress : LastPress 4294962296 [⟨some 4294962296, 4294962296⟩] :=
    ⟨[], _, [], rfl, rfl, by simp⟩
  have hocc := ((htreats [] _ [] _ rfl hpress).1 (by decide)).1
  exact absurd hocc (by decide)

end HomeAutomation
