import HomeAutomation.Menu.ButtonB

/-!
# Presses of a bouncing key

The contacts of a key bounce: for a while after it has moved the pin can show anything. `Button.read`
looks at the pin only when the debounce time is over since the last change it has seen. So every
press of the key, long or short, causes one action of `updateMenu`, however its contacts bounce
within the debounce time (`ButtonTask.bouncing_presses`), as long as a change is first read when the
debounce time of the one before is over and no press takes 2^32 milliseconds.
-/

namespace HomeAutomation

/-! ## Presses -/

/-- The readings while a key stays where it is: the first that shows it, those within the debounce
time behind it, and those later. -/
structure Hold where
  first : Reading
  bounce : List Reading
  steady : List Reading

def Hold.rest (h : Hold) : List Reading := h.bounce ++ h.steady

/-- The key is in the position `state` after a change at `t₀`: the pin shows the position first when
the debounce time is over since then, anything within the debounce time, and the position later. -/
structure Hold.Bounces (invert : Bool) (dbTime : BitVec 32) (t₀ : Nat) (state : Bool) (h : Hold) :
    Prop where
  shows : Button.pinVal invert h.first.level = state
  le : t₀ ≤ h.first.time
  settled : dbTime.toNat ≤ (h.first.time - t₀) % 2 ^ 32
  bounce : ∀ r ∈ h.bounce, h.first.time ≤ r.time ∧ r.time < h.first.time + dbTime.toNat
  steady : ∀ r ∈ h.steady, h.first.time ≤ r.time ∧ Button.pinVal invert r.level = state

/-- A press of a key, with the time up to the next one. -/
structure Press where
  down : Hold
  up : Hold

def Press.readings (p : Press) : List Reading :=
  p.down.first :: (p.down.rest ++ p.up.first :: p.up.rest)

/-- The action that a press should cause: a long push when a reading sees a second of it. -/
def Press.action (p : Press) : ActionB :=
  if p.down.rest.any fun r => p.down.first.time + 1000 ≤ r.time then .longPush else .pressed

/-- Presses one after another, the key being released since `t₀`; no press takes as long as the
clock takes to come round. -/
def BouncingPresses (invert : Bool) (dbTime : BitVec 32) : Nat → List Press → Prop
  | _, [] => True
  | t₀, p :: presses =>
    p.down.Bounces invert dbTime t₀ true ∧
      (∀ r ∈ p.down.rest, r.time < p.down.first.time + 2 ^ 32) ∧
      p.up.Bounces invert dbTime p.down.first.time false ∧
      BouncingPresses invert dbTime p.up.first.time presses

/-! ## Readings -/

/-- The button has seen its last change at `t₀`, into the position `state`. -/
structure Button.Since (b : Button) (invert : Bool) (dbTime : BitVec 32) (t₀ : Nat) (state : Bool) :
    Prop where
  invert : b.invert = invert
  dbTime : b.dbTime = dbTime
  state : b.state = state
  lastChange : b.lastChange = BitVec.ofNat 32 t₀

namespace Button
variable {b : Button} {invert state : Bool} {dbTime : BitVec 32} {t₀ : Nat} {r : Reading}

theorem read_fixed (b : Button) (r : Reading) :
    (b.read r).invert = b.invert ∧ (b.read r).dbTime = b.dbTime := by
  by_cases hbounce : BitVec.ofNat 32 r.time - b.lastChange < b.dbTime
  · simp [read, hbounce]
  · by_cases hchange : pinVal b.invert r.level = b.state
    · simp [read, hbounce, hchange]
    · simp [read, hbounce, hchange]

theorem toNat_elapsed (hle : t₀ ≤ r.time) :
    (BitVec.ofNat 32 r.time - BitVec.ofNat 32 t₀).toNat = (r.time - t₀) % 2 ^ 32 := by
  rw [BitVec.toNat_sub, BitVec.toNat_ofNat, BitVec.toNat_ofNat]
  omega

/-- A reading that shows the position that the button is in, or that comes within the debounce
time. -/
theorem Since.stays (h : b.Since invert dbTime t₀ state)
    (hr : pinVal invert r.level = state ∨ t₀ ≤ r.time ∧ r.time < t₀ + dbTime.toNat) :
    (b.read r).Since invert dbTime t₀ state := by
  obtain ⟨hinvert, hdbTime, hstate, hchange⟩ := h
  obtain ⟨hinvert', hdbTime'⟩ := b.read_fixed r
  have hsame : (b.read r).state = b.state := by
    by_cases hbounce : BitVec.ofNat 32 r.time - b.lastChange < b.dbTime
    · simp [read, hbounce]
    · rcases hr with hshows | ⟨hle, hlt⟩
      · simp [read, hbounce, hinvert, hshows, hstate]
      · exfalso
        apply hbounce
        rw [hchange, hdbTime, BitVec.lt_def, toNat_elapsed hle]
        have hdb := dbTime.isLt
        omega
  refine ⟨hinvert'.trans hinvert, hdbTime'.trans hdbTime, hsame.trans hstate, ?_⟩
  rw [(b.read_spec r).2.2, if_pos hsame]
  exact hchange

/-- The first reading of the other position, when the debounce time is over. -/
theorem Since.changes (h : b.Since invert dbTime t₀ state) (hle : t₀ ≤ r.time)
    (hover : dbTime.toNat ≤ (r.time - t₀) % 2 ^ 32) (hshows : pinVal invert r.level = !state) :
    (b.read r).Since invert dbTime r.time (!state) := by
  obtain ⟨hinvert, hdbTime, hstate, hchange⟩ := h
  obtain ⟨hinvert', hdbTime'⟩ := b.read_fixed r
  have hopen : ¬ BitVec.ofNat 32 r.time - b.lastChange < b.dbTime := by
    rw [hchange, hdbTime, BitVec.lt_def, toNat_elapsed hle]
    omega
  have hread : (b.read r).state = !state := by
    simp [read, hopen, hinvert, hshows, hstate]
  refine ⟨hinvert'.trans hinvert, hdbTime'.trans hdbTime, hread, ?_⟩
  rw [(b.read_spec r).2.2, hread, hstate, if_neg (by simp)]

end Button

/-! ## Turns -/

namespace ButtonTask
variable {t : ButtonTask} {invert : Bool} {dbTime : BitVec 32} {t₀ : Nat} {h : Hold}

/-- The actions of a run. -/
def actions (t : ButtonTask) (readings : List Reading) : List ActionB :=
  (t.calls readings).filterMap Call.action

theorem actions_cons (t : ButtonTask) (r : Reading) (rs : List Reading) :
    t.actions (r :: rs) = (t.call r).action.toList ++ (t.turn r).actions rs := by
  rw [actions, calls, List.filterMap_cons]
  cases (t.call r).action <;> rfl

theorem actions_append (t : ButtonTask) (past rest : List Reading) :
    t.actions (past ++ rest) = t.actions past ++ (t.after past).actions rest := by
  rw [actions, calls_append, List.filterMap_append]
  rfl

theorem after_cons (t : ButtonTask) (r : Reading) (rs : List Reading) :
    t.after (r :: rs) = (t.turn r).after rs := rfl

theorem after_append (t : ButtonTask) (past rest : List Reading) :
    t.after (past ++ rest) = (t.after past).after rest := List.foldl_append

/-- A press after its first reading, which has been seen as a long push or not. -/
theorem down_rest (hsince : t.btnB.Since invert dbTime t₀ true) {rs : List Reading}
    (hrs : ∀ r ∈ rs, (Button.pinVal invert r.level = true ∨
      t₀ ≤ r.time ∧ r.time < t₀ + dbTime.toNat) ∧ t₀ ≤ r.time ∧ r.time < t₀ + 2 ^ 32) :
    (t.after rs).btnB.Since invert dbTime t₀ true ∧
      (t.after rs).longPush = (t.longPush || rs.any fun r => t₀ + 1000 ≤ r.time) ∧
      t.actions rs =
        if t.longPush = false ∧ (rs.any fun r => t₀ + 1000 ≤ r.time) = true then [.longPush]
        else [] := by
  induction rs generalizing t with
  | nil => exact ⟨hsince, by simp [after], by simp [actions, calls]⟩
  | cons r rs ih =>
    obtain ⟨⟨hr, hle, hlt⟩, hrest⟩ := List.forall_mem_cons.mp hrs
    have hnext : (t.turn r).btnB.Since invert dbTime t₀ true := hsince.stays hr
    obtain ⟨hafter, hflag, hactions⟩ := ih hnext hrest
    obtain ⟨-, hturn⟩ := turn_hold ⟨hsince.state, hsince.lastChange⟩ hnext.state hle hlt
    rw [after_cons, actions_cons, hflag, hactions]
    refine ⟨hafter, ?_⟩
    by_cases hlong : t₀ + 1000 ≤ r.time
    · cases hpushed : t.longPush with
      | false =>
        rw [if_pos ⟨hlong, hpushed⟩] at hturn
        simp [hturn.1, hturn.2, hlong]
      | true =>
        rw [if_neg (by simp [hpushed])] at hturn
        simp [hturn.1, hturn.2, hpushed]
    · rw [if_neg (fun hboth => hlong hboth.1)] at hturn
      simp [hturn.1, hturn.2, hlong]

/-- A key that has been released, after the first reading of that. -/
theorem up_rest (hsince : t.btnB.Since invert dbTime t₀ false) (hflag : t.longPush = false)
    {rs : List Reading} (hrs : ∀ r ∈ rs, Button.pinVal invert r.level = false ∨
      t₀ ≤ r.time ∧ r.time < t₀ + dbTime.toNat) :
    (t.after rs).btnB.Since invert dbTime t₀ false ∧ (t.after rs).longPush = false ∧
      t.actions rs = [] := by
  induction rs generalizing t with
  | nil => exact ⟨hsince, hflag, rfl⟩
  | cons r rs ih =>
    obtain ⟨hr, hrest⟩ := List.forall_mem_cons.mp hrs
    have hnext : (t.turn r).btnB.Since invert dbTime t₀ false := hsince.stays hr
    obtain ⟨hclear, hnone⟩ := turn_idle (fun _ => hflag) hsince.state hnext.state
    obtain ⟨hafter, hflag', hactions⟩ := ih hnext hclear hrest
    rw [after_cons, actions_cons, hactions, hnone]
    exact ⟨hafter, hflag', rfl⟩

theorem press_actions {p : Press} (hsince : t.btnB.Since invert dbTime t₀ false)
    (hflag : t.longPush = false) (hdown : p.down.Bounces invert dbTime t₀ true)
    (hshort : ∀ r ∈ p.down.rest, r.time < p.down.first.time + 2 ^ 32)
    (hup : p.up.Bounces invert dbTime p.down.first.time false) :
    (t.after p.readings).btnB.Since invert dbTime p.up.first.time false ∧
      (t.after p.readings).longPush = false ∧ t.actions p.readings = [p.action] := by
  -- the press is seen
  have h₁ : (t.turn p.down.first).btnB.Since invert dbTime p.down.first.time true :=
    hsince.changes hdown.le hdown.settled hdown.shows
  obtain ⟨-, hflag₁, hnone₁⟩ := turn_press (fun _ => hflag) hsince.state h₁.state
  -- and held
  have hrest : ∀ r ∈ p.down.rest, (Button.pinVal invert r.level = true ∨
      p.down.first.time ≤ r.time ∧ r.time < p.down.first.time + dbTime.toNat) ∧
        p.down.first.time ≤ r.time ∧ r.time < p.down.first.time + 2 ^ 32 := by
    intro r hr
    rcases List.mem_append.mp hr with hbounce | hsteady
    · exact ⟨Or.inr (hdown.bounce r hbounce), (hdown.bounce r hbounce).1, hshort r hr⟩
    · exact ⟨Or.inl (hdown.steady r hsteady).2, (hdown.steady r hsteady).1, hshort r hr⟩
  obtain ⟨h₂, hflag₂, hactions₂⟩ := down_rest h₁ hrest
  rw [hflag₁, Bool.false_or] at hflag₂
  -- the release is seen
  have h₃ := h₂.changes hup.le hup.settled hup.shows
  obtain ⟨hflag₃, haction₃⟩ := turn_release h₂.state h₃.state
  have hlater : ∀ r ∈ p.up.rest, Button.pinVal invert r.level = false ∨
      p.up.first.time ≤ r.time ∧ r.time < p.up.first.time + dbTime.toNat := by
    intro r hr
    rcases List.mem_append.mp hr with hbounce | hsteady
    · exact Or.inr (hup.bounce r hbounce)
    · exact Or.inl (hup.steady r hsteady).2
  obtain ⟨h₄, hflag₄, hactions₄⟩ := up_rest h₃ hflag₃ hlater
  rw [Press.readings, after_cons, after_append, after_cons, actions_cons, actions_append,
    actions_cons, hnone₁, hactions₂, haction₃, hactions₄, hflag₂, hflag₁, Press.action]
  refine ⟨h₄, hflag₄, ?_⟩
  cases p.down.rest.any fun r => p.down.first.time + 1000 ≤ r.time <;> rfl

/-- **Every press of a bouncing key causes one action**, whichever it should be. -/
theorem bouncing_presses (hsince : t.btnB.Since invert dbTime t₀ false) (hflag : t.longPush = false)
    {presses : List Press} (hpresses : BouncingPresses invert dbTime t₀ presses) :
    t.actions (presses.flatMap Press.readings) = presses.map Press.action := by
  induction presses generalizing t t₀ with
  | nil => rfl
  | cons p presses ih =>
    obtain ⟨hdown, hshort, hup, hrest⟩ := hpresses
    obtain ⟨hafter, hclear, haction⟩ := press_actions hsince hflag hdown hshort hup
    rw [List.flatMap_cons, actions_append, haction, ih hafter hclear hrest, List.map_cons]
    rfl

/-- A short press that bounces when it begins and when it ends, and a long one. -/
theorem bouncing_presses_two :
    actions ⟨Button.init true 5 ⟨true, 0⟩, false⟩
      [⟨false, 100⟩, ⟨true, 103⟩, ⟨false, 120⟩, ⟨true, 300⟩, ⟨false, 304⟩, ⟨true, 310⟩,
        ⟨false, 1000⟩, ⟨false, 2000⟩, ⟨true, 2020⟩] = [.pressed, .longPush] := by
  let short : Press :=
    ⟨⟨⟨false, 100⟩, [⟨true, 103⟩], [⟨false, 120⟩]⟩, ⟨⟨true, 300⟩, [⟨false, 304⟩], [⟨true, 310⟩]⟩⟩
  let long : Press := ⟨⟨⟨false, 1000⟩, [], [⟨false, 2000⟩]⟩, ⟨⟨true, 2020⟩, [], []⟩⟩
  have hsince : (Button.init true 5 ⟨true, 0⟩).Since true 5 0 false := ⟨rfl, rfl, rfl, rfl⟩
  have hshort : short.down.Bounces true 5 0 true ∧ short.up.Bounces true 5 100 false :=
    ⟨⟨rfl, by decide, by decide, by decide, by decide⟩, rfl, by decide, by decide, by decide,
      by decide⟩
  have hlong : long.down.Bounces true 5 300 true ∧ long.up.Bounces true 5 1000 false :=
    ⟨⟨rfl, by decide, by decide, by decide, by decide⟩, rfl, by decide, by decide, by decide,
      by decide⟩
  have hpresses : BouncingPresses true 5 0 [short, long] :=
    ⟨hshort.1, by decide, hshort.2, hlong.1, by decide, hlong.2, trivial⟩
  have hactions : [short, long].map Press.action = [.pressed, .longPush] := by decide
  have hflag : (⟨Button.init true 5 ⟨true, 0⟩, false⟩ : ButtonTask).longPush = false := rfl
  exact (bouncing_presses hsince hflag hpresses).trans hactions

end ButtonTask

end HomeAutomation
