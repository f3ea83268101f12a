import HomeAutomation.Menu.Override

/-!
# What the user sees

The title of button 1 is the text of the value it was last given: an edited value, or what was left
of the override at a refresh. Values of one sign that print the same read alike.
-/

namespace HomeAutomation

/-! ## Equal texts -/

/-- Two values that the button shows alike: the heating is forced the same way, for durations that
print the same. -/
def SameText (v w : Int) : Prop :=
  v.sign = w.sign ∧ durationText (v.natAbs / 1000) = durationText (w.natAbs / 1000)

theorem duration_cases {value : Int} {text : CString} (h : duration value = .ok text) :
    text = durationText (value.natAbs / 1000) := by
  unfold duration at h
  split_ifs at h with hpos
  · rw [Except.ok.injEq] at h
    rw [← h, show value.toNat = value.natAbs by omega]
  · simp only [Runs.bind_eq_ok, Except.ok.injEq] at h
    obtain ⟨negated, hnegated, rfl⟩ := h
    unfold int32 at hnegated
    split_ifs at hnegated
    rw [Except.ok.injEq] at hnegated
    rw [← hnegated, show (-value).toNat = value.natAbs by omega]

theorem button1Title_cases {value : Int} {title : CString} (h : button1Title value = .ok title) :
    (value < 0 ∧ title = "Force off for ".toList ++ durationText (value.natAbs / 1000)) ∨
      (0 < value ∧ title = "Force on for ".toList ++ durationText (value.natAbs / 1000)) ∨
        (value = 0 ∧ title = "auto".toList) := by
  unfold button1Title at h
  split_ifs at h with hneg hpos
  · simp only [Runs.bind_eq_ok, Except.ok.injEq] at h
    obtain ⟨text, htext, rfl⟩ := h
    exact Or.inl ⟨hneg, by rw [duration_cases htext]⟩
  · simp only [Runs.bind_eq_ok, Except.ok.injEq] at h
    obtain ⟨text, htext, rfl⟩ := h
    exact Or.inr (Or.inl ⟨hpos, by rw [duration_cases htext]⟩)
  · rw [Except.ok.injEq] at h
    exact Or.inr (Or.inr ⟨by omega, h.symm⟩)

theorem button1Title_eq_iff {v w : Int} {title title' : CString} (hv : button1Title v = .ok title)
    (hw : button1Title w = .ok title') : title = title' ↔ SameText v w := by
  unfold SameText
  obtain ⟨hneg, rfl⟩ | ⟨hpos, rfl⟩ | ⟨rfl, rfl⟩ := button1Title_cases hv <;>
    obtain ⟨hneg', rfl⟩ | ⟨hpos', rfl⟩ | ⟨rfl, rfl⟩ := button1Title_cases hw
  · rw [Int.sign_eq_neg_one_of_neg hneg, Int.sign_eq_neg_one_of_neg hneg',
      List.append_cancel_left_eq]
    simp
  · rw [Int.sign_eq_neg_one_of_neg hneg, Int.sign_eq_one_of_pos hpos']
    simp
  · rw [Int.sign_eq_neg_one_of_neg hneg, Int.sign_zero]
    simp
  · rw [Int.sign_eq_one_of_pos hpos, Int.sign_eq_neg_one_of_neg hneg']
    simp
  · rw [Int.sign_eq_one_of_pos hpos, Int.sign_eq_one_of_pos hpos', List.append_cancel_left_eq]
    simp
  · rw [Int.sign_eq_one_of_pos hpos, Int.sign_zero]
    simp
  · rw [Int.sign_eq_neg_one_of_neg hneg', Int.sign_zero]
    simp
  · rw [Int.sign_eq_one_of_pos hpos', Int.sign_zero]
    simp
  · simp

/-! ## The value shown -/

/-- A controller with the value that its title was last given. -/
structure Displayed where
  controller : Controller
  shown : Int

namespace Controller

/-- The value that the title is given in a refresh, if it is given one. -/
def refreshed (other : CString → BitVec 32) (c : Controller) (now : BitVec 32) : Option Int :=
  if c.menu.editingButton1Value then none
  else
    match timeRemaining other c.device.buffer now with
    | .ok (_, remaining) => remaining
    | .error _ => none

/-- The value that the title is given in an event, if it is given one. -/
def given (other : CString → BitVec 32) (c : Controller) : MenuEvent → Option Int
  | .up => (valueUp c.menu.editButton1Value).toOption
  | .down => (valueDown c.menu.editButton1Value).toOption
  | .apply _ => none
  | .cancel now => c.cancelled.refreshed other now
  | .refresh now => c.refreshed other now
  | .receive _ _ _ => none

/-- The value that Apply publishes. -/
def applied (c : Controller) : Int := c.menu.editButton1Value

theorem applyCallback_publishes (c : Controller) (now : BitVec 32) :
    c.applyCallback now = publishButton1 c.device c.applied now >>= fun r =>
      .ok ⟨r.1, ⟨c.applied, c.applied, false, c.menu.title⟩⟩ := rfl

end Controller

namespace Displayed

def step (other : CString → BitVec 32) (d : Displayed) (e : MenuEvent) : Except Fault Displayed := do
  let controller ← d.controller.step other e
  .ok ⟨controller, (d.controller.given other e).getD d.shown⟩

def run (other : CString → BitVec 32) (d : Displayed) (events : List MenuEvent) :
    Except Fault Displayed :=
  events.foldlM (step other) d

/-- After `setupMenu` the title is `auto`, the text of 0. -/
def boot (subscriptions : List CString) (connected : Bool) : Displayed :=
  ⟨Controller.boot subscriptions connected, 0⟩

variable {other : CString → BitVec 32} {d d' : Displayed}

theorem run_controller (other : CString → BitVec 32) (events : List MenuEvent) (d : Displayed) :
    d.controller.run other events = run other d events >>= fun d' => .ok d'.controller := by
  induction events generalizing d with
  | nil => rfl
  | cons e events ih =>
    rw [Controller.run, run, List.foldlM_cons, List.foldlM_cons, step]
    cases hstep : d.controller.step other e with
    | error fault => rfl
    | ok controller => exact ih ⟨controller, _⟩

/-! ## The title -/

/-- The title is the text of the value shown, and during an edit that is the edit value. -/
structure Sound (d : Displayed) : Prop where
  title : button1Title d.shown = .ok d.controller.menu.title
  editing : d.controller.menu.editingButton1Value = true →
    d.shown = d.controller.menu.editButton1Value
  edits : d.controller.menu.Edits

theorem boot_sound (subscriptions : List CString) (connected : Bool) :
    (boot subscriptions connected).Sound :=
  ⟨rfl, fun h => absurd h Bool.false_ne_true, Menu.Edits.boot⟩

/-- What a refresh does to the menu: nothing, or the title takes the text of what it is given. -/
theorem refresh_shown {c c' : Controller} {now : BitVec 32}
    (h : c.refreshButton1 other now = .ok c') :
    (c.refreshed other now = none ∧ c'.menu = c.menu) ∨
      ∃ value title, c.refreshed other now = some value ∧ button1Title value = .ok title ∧
        c.menu.editingButton1Value = false ∧ c'.menu = { c.menu with title := title } := by
  unfold Controller.refreshed
  cases hediting : c.menu.editingButton1Value with
  | true =>
    rw [Controller.refreshButton1_editing other now hediting, Except.ok.injEq] at h
    exact Or.inl ⟨if_pos rfl, by rw [h]⟩
  | false =>
    simp only [Controller.refreshButton1_idle other now hediting, Runs.bind_eq_ok,
      Except.ok.injEq] at h
    obtain ⟨⟨b, remaining⟩, htime, menu, hmenu, rfl⟩ := h
    rw [if_neg Bool.false_ne_true, htime]
    cases remaining with
    | none =>
      rw [Menu.showRemaining, Except.ok.injEq] at hmenu
      exact Or.inl ⟨rfl, hmenu.symm⟩
    | some value =>
      obtain ⟨title, htitle, rfl⟩ := updateButton1Value_ok hmenu
      exact Or.inr ⟨value, title, rfl, htitle, rfl, rfl⟩

theorem Sound.refresh (h : d.Sound) {c' : Controller} {now : BitVec 32}
    (hrefresh : d.controller.refreshButton1 other now = .ok c') :
    Sound ⟨c', (d.controller.refreshed other now).getD d.shown⟩ := by
  rcases refresh_shown hrefresh with ⟨hnone, hmenu⟩ | ⟨value, title, hsome, htext, hidle, hmenu⟩
  · refine ⟨?_, fun hedit => ?_, hmenu ▸ h.edits⟩
    · rw [hnone, hmenu]
      exact h.title
    · rw [hmenu] at hedit
      rw [hnone, hmenu]
      exact h.editing hedit
  · refine ⟨?_, fun hedit => ?_, hmenu ▸ ⟨h.edits.value, h.edits.old⟩⟩
    · rw [hsome, hmenu]
      exact htext
    · rw [hmenu] at hedit
      exact absurd (hidle.symm.trans hedit) Bool.false_ne_true

theorem Sound.step (h : d.Sound) {e : MenuEvent} (hstep : Displayed.step other d e = .ok d') :
    d'.Sound := by
  rw [Displayed.step, Runs.bind_eq_ok] at hstep
  obtain ⟨c', hevent, heq⟩ := hstep
  rw [Except.ok.injEq] at heq
  subst heq
  cases e with
  | up =>
    have hedits := Controller.step_edits h.edits hevent
    obtain ⟨value, title, hvalue, htext, rfl⟩ := Controller.upCallback_cases hevent
    rw [Controller.given, hvalue]
    exact ⟨htext, fun _ => rfl, hedits⟩
  | down =>
    have hedits := Controller.step_edits h.edits hevent
    obtain ⟨value, title, hvalue, htext, rfl⟩ := Controller.downCallback_cases hevent
    rw [Controller.given, hvalue]
    exact ⟨htext, fun _ => rfl, hedits⟩
  | apply now =>
    rw [Controller.step, Controller.applyCallback_publishes, Runs.bind_eq_ok] at hevent
    obtain ⟨r, _, hc'⟩ := hevent
    rw [Except.ok.injEq] at hc'
    subst hc'
    exact ⟨h.title, fun hnot => absurd hnot Bool.false_ne_true, h.edits.value, h.edits.value⟩
  | cancel now =>
    have hcancelled : Sound ⟨d.controller.cancelled, d.shown⟩ :=
      ⟨h.title, fun hnot => absurd hnot Bool.false_ne_true, h.edits.old, h.edits.old⟩
    exact hcancelled.refresh hevent
  | refresh now => exact h.refresh hevent
  | receive topic data now =>
    obtain ⟨b, _, rfl⟩ := Controller.receiveMessage_cases hevent
    exact ⟨h.title, h.editing, h.edits⟩

theorem Sound.run (h : d.Sound) {events : List MenuEvent}
    (hrun : Displayed.run other d events = .ok d') : d'.Sound :=
  Runs.foldlM_invariant Sound (fun _ _ _ _ hs hstep => hs.step hstep) h hrun

end Displayed

end HomeAutomation
