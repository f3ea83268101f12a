import HomeAutomation.CString

/-!
# Presses of button B (`updateMenu`, `Button.cpp`)

`loopTask` reads the buttons and then calls `updateMenu`. A hold of a second is handed to the focus
as a long push as soon as a call sees it, a shorter one as a press when it ends; the flag `longPush`
remembers over the calls of a hold that it was handed on already. A reading is the level of the pin
and the true time in milliseconds, of which `millis` gives the lower 32 bits.
-/

namespace HomeAutomation

/-- The fields of the class `Button`, but for the pin; `_state` is 1 for pressed. -/
structure Button where
  invert : Bool
  dbTime : BitVec 32
  state : Bool
  lastState : Bool
  changed : Bool
  time : BitVec 32
  lastTime : BitVec 32
  lastChange : BitVec 32

/-- What `digitalRead` and `millis` give. -/
structure Reading where
  level : Bool
  time : Nat

namespace Button

/-- The pin as 1 for pressed. -/
def pinVal (invert level : Bool) : Bool := if invert then !level else level

/-- The constructor. -/
def init (invert : Bool) (dbTime : BitVec 32) (r : Reading) : Button :=
  let state := pinVal invert r.level
  let time := BitVec.ofNat 32 r.time
  ⟨invert, dbTime, state, state, false, time, time, time⟩

/-- `read`: within the debounce time only the clock is taken over. -/
def read (b : Button) (r : Reading) : Button :=
  let ms := BitVec.ofNat 32 r.time
  if ms - b.lastChange < b.dbTime then
    { b with lastTime := b.time, time := ms, changed := false }
  else if pinVal b.invert r.level ≠ b.state then
    { b with
      lastTime := b.time, lastState := b.state, state := pinVal b.invert r.level, time := ms
      lastChange := ms, changed := true }
  else
    { b with
      lastTime := b.time, lastState := b.state, state := pinVal b.invert r.level, time := ms
      changed := false }

def wasReleased (b : Button) : Bool := !b.state && b.changed

def pressedFor (b : Button) (ms : BitVec 32) : Bool :=
  b.state && decide (ms ≤ b.time - b.lastChange)

end Button

/-- What `updateMenu` calls on the focus for button B. -/
inductive ActionB where
  | longPush
  | pressed
  deriving DecidableEq, Repr

/-- The part of `updateMenu` about button B: the flag `longPush` afterwards, and the action. -/
def updateMenuB (btnB : Button) (longPush : Bool) : Bool × Option ActionB :=
  if btnB.pressedFor 1000 then
    if !longPush then (true, some .longPush) else (longPush, none)
  else if btnB.wasReleased then
    if !longPush then (longPush, some .pressed) else (false, none)
  else (longPush, none)

/-- Button B and the flag, as `loopTask` finds them. -/
structure ButtonTask where
  btnB : Button
  longPush : Bool

/-- What one turn of `loopTask` shows. -/
structure Call where
  time : Nat
  pressed : Bool
  longPush : Bool
  action : Option ActionB
  deriving DecidableEq, Repr

namespace ButtonTask

/-- One turn of `loopTask`: `M5.update` and `updateMenu`. -/
def turn (t : ButtonTask) (r : Reading) : ButtonTask :=
  ⟨t.btnB.read r, (updateMenuB (t.btnB.read r) t.longPush).1⟩

def call (t : ButtonTask) (r : Reading) : Call where
  time := r.time
  pressed := (t.turn r).btnB.state
  longPush := (t.turn r).longPush
  action := (updateMenuB (t.btnB.read r) t.longPush).2

/-- The calls of a run of `loopTask`. -/
def calls (t : ButtonTask) : List Reading → List Call
  | [] => []
  | r :: rs => t.call r :: (t.turn r).calls rs

end ButtonTask

/-! ## What a reading does to the button -/

/-- A reading counts as a change exactly when the state is another one than before. -/
theorem Button.read_spec (b : Button) (r : Reading) :
    (b.read r).time = BitVec.ofNat 32 r.time ∧
      (b.read r).changed = ((b.read r).state != b.state) ∧
      (b.read r).lastChange =
        if (b.read r).state = b.state then b.lastChange else BitVec.ofNat 32 r.time := by
  by_cases hbounce : BitVec.ofNat 32 r.time - b.lastChange < b.dbTime
  · simp [read, hbounce]
  · by_cases hchange : pinVal b.invert r.level = b.state
    · simp [read, hbounce, hchange]
    · simp [read, hbounce, hchange]

/-! ## One turn -/

/-- A button that is released has no long push pending. -/
def ButtonTask.Settled (t : ButtonTask) : Prop := t.btnB.state = false → t.longPush = false

/-- The button is held since the time `t₀`. -/
structure ButtonTask.Held (t : ButtonTask) (t₀ : Nat) : Prop where
  state : t.btnB.state = true
  lastChange : t.btnB.lastChange = BitVec.ofNat 32 t₀

theorem Button.pressedFor_of_released {b : Button} (h : b.state = false) (ms : BitVec 32) :
    b.pressedFor ms = false := by
  simp [pressedFor, h]

/-- The clock counts the hold, as long as it is shorter than a turn of the counter. -/
theorem ofNat_sub_ge {t₀ t : Nat} (hle : t₀ ≤ t) (hlt : t < t₀ + 2 ^ 32) :
    (1000 : BitVec 32) ≤ BitVec.ofNat 32 t - BitVec.ofNat 32 t₀ ↔ t₀ + 1000 ≤ t := by
  rw [BitVec.le_def, BitVec.toNat_sub, BitVec.toNat_ofNat, BitVec.toNat_ofNat]
  have h1000 : (1000 : BitVec 32).toNat = 1000 := rfl
  omega

theorem Button.pressedFor_read {b : Button} {r : Reading} {t₀ : Nat}
    (hpressed : (b.read r).state = true) (hchange : (b.read r).lastChange = BitVec.ofNat 32 t₀)
    (hle : t₀ ≤ r.time) (hlt : r.time < t₀ + 2 ^ 32) :
    (b.read r).pressedFor 1000 = decide (t₀ + 1000 ≤ r.time) := by
  rw [pressedFor, hpressed, hchange, (read_spec b r).1, Bool.true_and]
  exact decide_eq_decide.mpr (ofNat_sub_ge hle hlt)

theorem Button.wasReleased_read (b : Button) (r : Reading) :
    (b.read r).wasReleased = (b.state && !(b.read r).state) := by
  rw [wasReleased, (read_spec b r).2.1]
  cases b.state <;> cases (b.read r).state <;> rfl

namespace ButtonTask

theorem turn_press {t : ButtonTask} {r : Reading} (hsettled : t.Settled)
    (hstate : t.btnB.state = false) (hpressed : (t.call r).pressed = true) :
    (t.turn r).Held r.time ∧ (t.turn r).longPush = false ∧ (t.call r).action = none := by
  have hread : (t.btnB.read r).state = true := hpressed
  have hchange : (t.btnB.read r).lastChange = BitVec.ofNat 32 r.time := by
    rw [(t.btnB.read_spec r).2.2, hread, hstate]
    rfl
  have hlong : (t.btnB.read r).pressedFor 1000 = false := by
    rw [Button.pressedFor_read hread hchange (by omega) (by omega)]
    simp
  have hmenu : updateMenuB (t.btnB.read r) t.longPush = (false, none) := by
    rw [updateMenuB, hlong, Button.wasReleased_read, hstate, hsettled hstate]
    rfl
  exact ⟨⟨hread, hchange⟩, congrArg Prod.fst hmenu, congrArg Prod.snd hmenu⟩

/-- A turn during a hold hands it on when it is long enough, unless that happened before. -/
theorem turn_hold {t : ButtonTask} {r : Reading} {t₀ : Nat} (hheld : t.Held t₀)
    (hpressed : (t.call r).pressed = true) (hle : t₀ ≤ r.time) (hlt : r.time < t₀ + 2 ^ 32) :
    (t.turn r).Held t₀ ∧
      (if t₀ + 1000 ≤ r.time ∧ t.longPush = false then
        (t.turn r).longPush = true ∧ (t.call r).action = some .longPush
      else (t.turn r).longPush = t.longPush ∧ (t.call r).action = none) := by
  have hread : (t.btnB.read r).state = true := hpressed
  have hchange : (t.btnB.read r).lastChange = BitVec.ofNat 32 t₀ := by
    rw [(t.btnB.read_spec r).2.2, hread, hheld.state]
    exact hheld.lastChange
  have hlong := Button.pressedFor_read hread hchange hle hlt
  have hreleased : (t.btnB.read r).wasReleased = false := by
    rw [Button.wasReleased_read, hread]
    simp
  have hmenu : updateMenuB (t.btnB.read r) t.longPush =
      if t₀ + 1000 ≤ r.time ∧ t.longPush = false then (true, some .longPush)
      else (t.longPush, none) := by
    rw [updateMenuB, hlong, hreleased]
    by_cases hsecond : t₀ + 1000 ≤ r.time
    · cases t.longPush <;> simp [hsecond]
    · simp [hsecond]
  refine ⟨⟨hread, hchange⟩, ?_⟩
  split_ifs at hmenu ⊢
  · exact ⟨congrArg Prod.fst hmenu, congrArg Prod.snd hmenu⟩
  · exact ⟨congrArg Prod.fst hmenu, congrArg Prod.snd hmenu⟩

theorem turn_release {t : ButtonTask} {r : Reading} (hstate : t.btnB.state = true)
    (hreleased : (t.call r).pressed = false) :
    (t.turn r).longPush = false ∧
      (t.call r).action = if t.longPush then none else some .pressed := by
  have hread : (t.btnB.read r).state = false := hreleased
  have hmenu : updateMenuB (t.btnB.read r) t.longPush =
      (false, if t.longPush then none else some .pressed) := by
    rw [updateMenuB, Button.pressedFor_of_released hread, Button.wasReleased_read, hstate, hread]
    cases t.longPush <;> rfl
  exact ⟨congrArg Prod.fst hmenu, congrArg Prod.snd hmenu⟩

theorem turn_idle {t : ButtonTask} {r : Reading} (hsettled : t.Settled)
    (hstate : t.btnB.state = false) (hreleased : (t.call r).pressed = false) :
    (t.turn r).longPush = false ∧ (t.call r).action = none := by
  have hread : (t.btnB.read r).state = false := hreleased
  have hmenu : updateMenuB (t.btnB.read r) t.longPush = (false, none) := by
    rw [updateMenuB, Button.pressedFor_of_released hread, Button.wasReleased_read, hstate,
      hsettled hstate]
    rfl
  exact ⟨congrArg Prod.fst hmenu, congrArg Prod.snd hmenu⟩

theorem Settled.turn {t : ButtonTask} (h : t.Settled) (r : Reading) : (t.turn r).Settled := by
  intro hreleased
  cases hstate : t.btnB.state with
  | true => exact (turn_release hstate hreleased).1
  | false => exact (turn_idle h hstate hreleased).1

/-! ## Runs -/

/-- The task after the readings. -/
def after (t : ButtonTask) (readings : List Reading) : ButtonTask := readings.foldl turn t

theorem Settled.after {t : ButtonTask} (h : t.Settled) (readings : List Reading) :
    (t.after readings).Settled := by
  induction readings generalizing t with
  | nil => exact h
  | cons r rs ih => exact ih (h.turn r)

theorem calls_split {t : ButtonTask} {readings : List Reading} {before later : List Call}
    (h : t.calls readings = before ++ later) :
    ∃ past rest, readings = past ++ rest ∧ t.calls past = before ∧
      (t.after past).calls rest = later := by
  induction before generalizing t readings with
  | nil => exact ⟨[], readings, rfl, rfl, h⟩
  | cons c before ih =>
    cases readings with
    | nil => exact absurd h (by simp [calls])
    | cons r rs =>
      rw [calls, List.cons_append, List.cons.injEq] at h
      obtain ⟨hc, hcalls⟩ := h
      obtain ⟨past, rest, rfl, hpast, hrest⟩ := ih hcalls
      exact ⟨r :: past, rest, rfl, by rw [calls, hc, hpast], hrest⟩

theorem calls_cons {t : ButtonTask} {readings : List Reading} {c : Call} {later : List Call}
    (h : t.calls readings = c :: later) :
    ∃ r rest, readings = r :: rest ∧ t.call r = c ∧ (t.turn r).calls rest = later := by
  cases readings with
  | nil => exact absurd h (by simp [calls])
  | cons r rest =>
    rw [calls, List.cons.injEq] at h
    exact ⟨r, rest, rfl, h⟩

theorem calls_time (t : ButtonTask) (readings : List Reading) :
    (t.calls readings).map Call.time = readings.map Reading.time := by
  induction readings generalizing t with
  | nil => rfl
  | cons r rs ih => rw [calls, List.map_cons, List.map_cons, ih]; rfl

theorem calls_append (t : ButtonTask) (past rest : List Reading) :
    t.calls (past ++ rest) = t.calls past ++ (t.after past).calls rest := by
  induction past generalizing t with
  | nil => rfl
  | cons r past ih => rw [List.cons_append, calls, calls, ih]; rfl

theorem state_after {t : ButtonTask} (hstate : t.btnB.state = false) {past : List Reading}
    (h : ∀ c ∈ (t.calls past).getLast?, c.pressed = false) :
    (t.after past).btnB.state = false := by
  rcases List.eq_nil_or_concat past with rfl | ⟨past, r, rfl⟩
  · exact hstate
  · rw [List.concat_eq_append, calls_append] at h
    have hlast := h ((t.after past).call r) (by simp [calls])
    rw [List.concat_eq_append, after, List.foldl_append]
    exact hlast

/-- A call of a hold that began at `t₀`. -/
structure InHold (t₀ : Nat) (c : Call) : Prop where
  pressed : c.pressed = true
  le : t₀ ≤ c.time
  lt : c.time < t₀ + 2 ^ 32

/-- The calls of a hold since `t₀` cause one action: a long push at the first that sees a second of
it, or a press at the end when none did. -/
def OneAction (t₀ : Nat) (hold : List Call) (release : Call) : Prop :=
  (∃ short c rest, hold = short ++ c :: rest ∧
      (∀ d ∈ short, d.time < t₀ + 1000 ∧ d.action = none) ∧
      t₀ + 1000 ≤ c.time ∧ c.action = some .longPush ∧
      (∀ d ∈ rest, d.action = none) ∧ release.action = none) ∨
    ((∀ d ∈ hold, d.time < t₀ + 1000 ∧ d.action = none) ∧ release.action = some .pressed)

theorem OneAction.cons {t₀ : Nat} {c : Call} {hold : List Call} {release : Call}
    (h : OneAction t₀ hold release) (htime : c.time < t₀ + 1000) (hnone : c.action = none) :
    OneAction t₀ (c :: hold) release := by
  rcases h with ⟨short, d, rest, rfl, hshort, hd⟩ | ⟨hhold, hrelease⟩
  · exact Or.inl ⟨c :: short, d, rest, rfl,
      List.forall_mem_cons.mpr ⟨⟨htime, hnone⟩, hshort⟩, hd⟩
  · exact Or.inr ⟨List.forall_mem_cons.mpr ⟨⟨htime, hnone⟩, hhold⟩, hrelease⟩

theorem hold_pushed {t : ButtonTask} {t₀ : Nat} {hold later : List Call} {release : Call}
    {readings : List Reading} (hheld : t.Held t₀) (hflag : t.longPush = true)
    (hcalls : t.calls readings = hold ++ release :: later) (hhold : ∀ c ∈ hold, InHold t₀ c)
    (hrelease : release.pressed = false) :
    (∀ d ∈ hold, d.action = none) ∧ release.action = none ∧ release.longPush = false := by
  induction hold generalizing t readings with
  | nil =>
    obtain ⟨r, rest, rfl, rfl, _⟩ := calls_cons hcalls
    have hturn := turn_release hheld.state hrelease
    rw [hflag] at hturn
    exact ⟨by simp, hturn.2, hturn.1⟩
  | cons c hold ih =>
    obtain ⟨r, rest, rfl, rfl, hrest⟩ := calls_cons hcalls
    have hin := hhold _ List.mem_cons_self
    obtain ⟨hheld', hturn⟩ := turn_hold hheld hin.pressed hin.le hin.lt
    rw [if_neg (by simp [hflag])] at hturn
    obtain ⟨hnone, hend⟩ := ih hheld' (hturn.1.trans hflag) hrest
      (fun d hd => hhold d (List.mem_cons_of_mem _ hd))
    exact ⟨List.forall_mem_cons.mpr ⟨hturn.2, hnone⟩, hend⟩

theorem hold_waiting {t : ButtonTask} {t₀ : Nat} {hold later : List Call} {release : Call}
    {readings : List Reading} (hheld : t.Held t₀) (hflag : t.longPush = false)
    (hcalls : t.calls readings = hold ++ release :: later) (hhold : ∀ c ∈ hold, InHold t₀ c)
    (hrelease : release.pressed = false) :
    OneAction t₀ hold release ∧ release.longPush = false := by
  induction hold generalizing t readings with
  | nil =>
    obtain ⟨r, rest, rfl, rfl, _⟩ := calls_cons hcalls
    have hturn := turn_release hheld.state hrelease
    rw [hflag] at hturn
    exact ⟨Or.inr ⟨by simp, hturn.2⟩, hturn.1⟩
  | cons c hold ih =>
    obtain ⟨r, rest, rfl, rfl, hrest⟩ := calls_cons hcalls
    have hin := hhold _ List.mem_cons_self
    have hrestHold : ∀ d ∈ hold, InHold t₀ d := fun d hd => hhold d (List.mem_cons_of_mem _ hd)
    obtain ⟨hheld', hturn⟩ := turn_hold hheld hin.pressed hin.le hin.lt
    by_cases hsecond : t₀ + 1000 ≤ r.time
    · rw [if_pos ⟨hsecond, hflag⟩] at hturn
      obtain ⟨hnone, hend, hclear⟩ := hold_pushed hheld' hturn.1 hrest hrestHold hrelease
      exact ⟨Or.inl ⟨[], t.call r, hold, rfl, by simp, hsecond, hturn.2, hnone, hend⟩, hclear⟩
    · rw [if_neg (by tauto)] at hturn
      obtain ⟨hone, hclear⟩ := ih hheld' (hturn.1.trans hflag) hrest hrestHold
      exact ⟨hone.cons (Nat.lt_of_not_le hsecond) hturn.2, hclear⟩

/-- **Every press of button B causes one action.** Between the call that sees the button pressed
after it was released and the call that sees it released again, either the first call that sees a
second of hold hands on a long push or the last one hands on a press, and nothing else happens. The
flag is clear afterwards. -/
theorem press_causes_one_action (t : ButtonTask) (hstate : t.btnB.state = false)
    (hflag : t.longPush = false) {readings : List Reading}
    (hmono : readings.Pairwise (fun r r' => r.time ≤ r'.time)) {before held later : List Call}
    {press release : Call}
    (hcalls : t.calls readings = before ++ press :: (held ++ release :: later))
    (hbefore : ∀ c ∈ before.getLast?, c.pressed = false) (hpress : press.pressed = true)
    (hheld : ∀ c ∈ held, c.pressed = true ∧ c.time < press.time + 2 ^ 32)
    (hrelease : release.pressed = false) :
    OneAction press.time (press :: held) release ∧ release.longPush = false := by
  have hsorted : (t.calls readings).Pairwise (fun c d => c.time ≤ d.time) := by
    have h := List.pairwise_map.mpr hmono
    rw [← calls_time t, List.pairwise_map] at h
    exact h
  have hlater : ∀ c ∈ held, press.time ≤ c.time := by
    intro c hc
    rw [hcalls, List.pairwise_append, List.pairwise_cons] at hsorted
    exact hsorted.2.1.1 c (by simp [hc])
  obtain ⟨past, rest, rfl, rfl, hrest⟩ := calls_split hcalls
  obtain ⟨r, rest, rfl, rfl, htail⟩ := calls_cons hrest
  have hsettled : (t.after past).Settled := Settled.after (fun _ => hflag) past
  obtain ⟨hheld', hflag', hnone⟩ := turn_press hsettled (state_after hstate hbefore) hpress
  have hin : ∀ c ∈ held, InHold r.time c :=
    fun c hc => ⟨(hheld c hc).1, hlater c hc, (hheld c hc).2⟩
  obtain ⟨hone, hclear⟩ := hold_waiting hheld' hflag' htail hin hrelease
  exact ⟨hone.cons (Nat.lt_add_of_pos_right (by decide)) hnone, hclear⟩

/-- A hold over the wrap of the counter. -/
theorem press_over_wrap :
    OneAction 4294967000 [⟨4294967000, true, false, none⟩, ⟨4294967600, true, false, none⟩,
      ⟨4294968100, true, true, some .longPush⟩] ⟨4294968200, false, false, none⟩ := by
  have hcalls : (⟨Button.init true 5 ⟨true, 0⟩, false⟩ : ButtonTask).calls
      [⟨true, 20⟩, ⟨false, 4294967000⟩, ⟨false, 4294967600⟩, ⟨false, 4294968100⟩,
        ⟨true, 4294968200⟩] =
      [⟨20, false, false, none⟩] ++ ⟨4294967000, true, false, none⟩ ::
        ([⟨4294967600, true, false, none⟩, ⟨4294968100, true, true, some .longPush⟩] ++
          ⟨4294968200, false, false, none⟩ :: []) := by
    decide
  exact (press_causes_one_action _ rfl rfl (by simp) hcalls (by simp) rfl (by simp) rfl).1

/-- A call that sees the button released, as the one before it did, causes no action. -/
theorem no_press_no_action (t : ButtonTask) (hstate : t.btnB.state = false)
    (hflag : t.longPush = false) {readings : List Reading} {before later : List Call} {c : Call}
    (hcalls : t.calls readings = before ++ c :: later)
    (hbefore : ∀ d ∈ before.getLast?, d.pressed = false) (hc : c.pressed = false) :
    c.action = none ∧ c.longPush = false := by
  obtain ⟨past, rest, rfl, rfl, hrest⟩ := calls_split hcalls
  obtain ⟨r, rest, rfl, rfl, _⟩ := calls_cons hrest
  have hsettled : (t.after past).Settled := Settled.after (fun _ => hflag) past
  obtain ⟨hclear, hnone⟩ := turn_idle hsettled (state_after hstate hbefore) hc
  exact ⟨hnone, hclear⟩

end ButtonTask

end HomeAutomation
