import HomeAutomation.Menu.Countdown
import HomeAutomation.Menu.Shown

/-!
# What Cancel takes back

Cancel takes the edit value back from its saved copy, and the title by a refresh. A refresh that
finds no override leaves the title alone, so up to the first override that is stored the title of
the edit stays (`cancel_undoes_iff`).
-/

namespace HomeAutomation

/-! ## Client calls of a run -/

namespace Controller

/-- What an event hands to the client library. -/
def calls (c : Controller) : MenuEvent → Except Fault (List ClientCall)
  | .apply now => do
    let (_, calls) ← publishButton1 c.device c.menu.editButton1Value now
    .ok calls
  | .receive topic data now => do
    let (_, calls) ← mqttEventHandler c.device (.data topic data) now
    .ok calls
  | _ => .ok []

def stepCalls (other : CString → BitVec 32) (r : Controller × List ClientCall) (e : MenuEvent) :
    Except Fault (Controller × List ClientCall) := do
  let calls ← r.1.calls e
  let c ← r.1.step other e
  .ok (c, r.2 ++ calls)

/-- A run with what it hands to the client library. -/
def runCalls (other : CString → BitVec 32) (c : Controller) (events : List MenuEvent) :
    Except Fault (Controller × List ClientCall) :=
  events.foldlM (stepCalls other) (c, [])

end Controller

/-! ## Stored overrides -/

/-- An event that stores a message which the refresh finds. -/
def MenuEvent.PutsOverride : MenuEvent → Prop
  | .apply _ => True
  | .receive topic _ _ => 0 < matchTopic heatingControl (trim (cstr topic))
  | _ => False

/-- The refresh finds something. -/
def Store.HasOverride (s : Store) : Prop := ∃ t ∈ s.keys, 0 < matchTopic heatingControl t

theorem Store.not_hasOverride_empty : ¬ Store.HasOverride OrderedMap.empty := by
  rintro ⟨t, ht, _⟩
  exact absurd ht List.not_mem_nil

theorem Store.hasOverride_put (s : Store) (topic payload : CString) (now : BitVec 32) :
    (s.put topic payload now).HasOverride ↔
      s.HasOverride ∨ 0 < matchTopic heatingControl (trim topic) := by
  simp only [Store.HasOverride, Store.put, OrderedMap.mem_keys_alter, or_and_right, exists_or,
    exists_eq_left]

theorem Store.matching_eq_nil_iff {s : Store} :
    (s.matching heatingControl).entries = [] ↔ ¬ s.HasOverride := by
  rw [← List.map_eq_nil_iff (f := Prod.fst), ← OrderedMap.keys, Store.matching,
    OrderedMap.keys_filterKeys, List.filter_eq_nil_iff, Store.HasOverride]
  simp

theorem Store.HasOverride.effect_iff {menu : Menu} {s s' : Store} {e : MenuEvent}
    (h : e.Effect menu s s') : s'.HasOverride ↔ s.HasOverride ∨ e.PutsOverride := by
  cases e with
  | apply now =>
    obtain ⟨payload, _, rfl⟩ := h
    rw [Store.hasOverride_put, trim_heatingControl]
    exact or_congr_right (iff_true_intro (by decide +kernel))
  | receive topic data now =>
    obtain rfl := h
    exact Store.hasOverride_put s _ _ now
  | up | down | cancel now | refresh now =>
    obtain rfl := h
    exact (or_iff_left id).symm

/-! ## Runs -/

/-- What holds of a controller with the store in every run, whatever is received. -/
structure Controller.Stores (c : Controller) (s : Store) : Prop where
  setup : c.device.mqtt.setupComplete = true
  store : BufferHolds c.device.buffer s
  fits : s.Fits
  idle : c.menu.editingButton1Value = false →
    c.menu.editButton1Value = c.menu.editOldButton1Value

namespace Controller
variable {other : CString → BitVec 32} {c c' : Controller} {s : Store}

theorem Stores.boot (subscriptions : List CString) (connected : Bool) :
    (boot subscriptions connected).Stores OrderedMap.empty :=
  ⟨rfl, BufferHolds.boot, Store.fits_empty, fun _ => rfl⟩

theorem step_idle {e : MenuEvent} (h : c.menu.editingButton1Value = false →
      c.menu.editButton1Value = c.menu.editOldButton1Value)
    (hstep : step other c e = .ok c') : c'.menu.editingButton1Value = false →
      c'.menu.editButton1Value = c'.menu.editOldButton1Value := by
  cases e with
  | up =>
    obtain ⟨value, title, _, _, rfl⟩ := upCallback_cases hstep
    exact fun hidle => absurd hidle.symm Bool.false_ne_true
  | down =>
    obtain ⟨value, title, _, _, rfl⟩ := downCallback_cases hstep
    exact fun hidle => absurd hidle.symm Bool.false_ne_true
  | apply now =>
    rw [step, applyCallback_publishes, Runs.bind_eq_ok] at hstep
    obtain ⟨_, _, hc'⟩ := hstep
    rw [Except.ok.injEq] at hc'
    subst hc'
    exact fun _ => rfl
  | cancel now =>
    obtain ⟨b, title, rfl, _⟩ := refreshButton1_cases hstep
    exact fun _ => rfl
  | refresh now =>
    obtain ⟨b, title, rfl, _⟩ := refreshButton1_cases hstep
    exact h
  | receive topic data now =>
    obtain ⟨b, _, rfl⟩ := receiveMessage_cases hstep
    exact h

/-- The store of a run has an override if and only if an event of the run stored one. -/
theorem Stores.run {events : List MenuEvent} (h : c.Stores s)
    (hrun : c.run other events = .ok c') :
    ∃ s', c'.Stores s' ∧ (s'.HasOverride ↔ s.HasOverride ∨ ∃ e ∈ events, e.PutsOverride) := by
  induction events generalizing c s with
  | nil =>
    rw [Controller.run, Runs.foldlM_nil, Except.ok.injEq] at hrun
    subst hrun
    exact ⟨s, h, by simp⟩
  | cons e events ih =>
    rw [Controller.run, List.foldlM_cons, Runs.bind_eq_ok] at hrun
    obtain ⟨c1, hstep, hrest⟩ := hrun
    obtain ⟨hmqtt, s1, hb1, hfits1, heffect⟩ := step_store h.setup h.store h.fits hstep
    obtain ⟨s', h', hoverride⟩ :=
      ih ⟨hmqtt ▸ h.setup, hb1, hfits1, step_idle h.idle hstep⟩ hrest
    refine ⟨s', h', ?_⟩
    rw [hoverride, Store.HasOverride.effect_iff heffect, or_assoc, List.exists_mem_cons_iff]

end Controller

/-! ## The edit -/

/-- A press of Up or Down. -/
def MenuEvent.Edits (e : MenuEvent) : Prop := e = .up ∨ e = .down

/-- What a press makes of the edit value. -/
def MenuEvent.edit (value : Int) : MenuEvent → Except Fault Int
  | .up => valueUp value
  | .down => valueDown value
  | _ => .ok value

/-- The edit value after presses. -/
def editedValue (value : Int) (moves : List MenuEvent) : Except Fault Int :=
  moves.foldlM MenuEvent.edit value

namespace Controller
variable {other : CString → BitVec 32} {c c' : Controller}

theorem stepCalls_edit (other : CString → BitVec 32) (h : c.menu.Edits) {e : MenuEvent}
    (he : e.Edits) (calls : List ClientCall) :
    ∃ value title, e.edit c.menu.editButton1Value = .ok value ∧ button1Title value = .ok title ∧
      stepCalls other (c, calls) e =
        .ok (⟨c.device, ⟨value, c.menu.editOldButton1Value, true, title⟩⟩, calls) := by
  rcases he with rfl | rfl
  · obtain ⟨c', hup⟩ := upCallback_ok h
    obtain ⟨value, title, hvalue, htitle, rfl⟩ := upCallback_cases hup
    refine ⟨value, title, hvalue, htitle, ?_⟩
    simp only [stepCalls, Controller.calls, step, hup, Runs.ok_bind, List.append_nil]
  · obtain ⟨c', hdown⟩ := downCallback_ok h
    obtain ⟨value, title, hvalue, htitle, rfl⟩ := downCallback_cases hdown
    refine ⟨value, title, hvalue, htitle, ?_⟩
    simp only [stepCalls, Controller.calls, step, hdown, Runs.ok_bind, List.append_nil]

theorem foldlM_stepCalls_edit (other : CString → BitVec 32) (h : c.menu.Edits)
    {moves : List MenuEvent} (hne : moves ≠ []) (hmoves : ∀ e ∈ moves, e.Edits)
    (calls : List ClientCall) :
    ∃ value title, editedValue c.menu.editButton1Value moves = .ok value ∧
      button1Title value = .ok title ∧
      moves.foldlM (stepCalls other) (c, calls) =
        .ok (⟨c.device, ⟨value, c.menu.editOldButton1Value, true, title⟩⟩, calls) := by
  induction moves generalizing c with
  | nil => exact absurd rfl hne
  | cons e moves ih =>
    have he := hmoves e List.mem_cons_self
    obtain ⟨value, title, hvalue, htitle, hstep⟩ := stepCalls_edit other h he calls
    have hedits : Menu.Edits ⟨value, c.menu.editOldButton1Value, true, title⟩ := by
      rcases he with rfl | rfl
      · exact ⟨h.value.up_eq hvalue, h.old⟩
      · exact ⟨h.value.down_eq hvalue, h.old⟩
    rw [editedValue, List.foldlM_cons, List.foldlM_cons, hvalue, hstep, Runs.ok_bind, Runs.ok_bind]
    cases moves with
    | nil => exact ⟨value, title, rfl, htitle, rfl⟩
    | cons e' moves =>
      exact ih (c := ⟨c.device, ⟨value, c.menu.editOldButton1Value, true, title⟩⟩) hedits
        (List.cons_ne_nil _ _) fun e'' he'' => hmoves e'' (List.mem_cons_of_mem _ he'')

/-- An edit and Cancel: the menu is what the refresh of Cancel makes of the old value under the title
of the edit. -/
theorem runCalls_edit_cancel (h : c.menu.Edits) {moves : List MenuEvent} (hne : moves ≠ [])
    (hmoves : ∀ e ∈ moves, e.Edits) {now : BitVec 32} {remaining : Option Int}
    (htime : timeRemaining other c.device.buffer now = .ok (c.device.buffer, remaining)) :
    ∃ value title, editedValue c.menu.editButton1Value moves = .ok value ∧
      button1Title value = .ok title ∧
      c.runCalls other (moves ++ [.cancel now]) =
        Menu.showRemaining
          ⟨c.menu.editOldButton1Value, c.menu.editOldButton1Value, false, title⟩ remaining >>=
        fun menu => .ok (⟨c.device, menu⟩, []) := by
  obtain ⟨value, title, hvalue, htitle, hrun⟩ := foldlM_stepCalls_edit other h hne hmoves []
  refine ⟨value, title, hvalue, htitle, ?_⟩
  rw [runCalls, Runs.foldlM_append_ok hrun, List.foldlM_cons]
  simp only [stepCalls, Controller.calls, step, cancelCallback_refreshes, Runs.ok_bind]
  rw [refreshButton1_idle other now rfl]
  simp only [cancelled, htime, Runs.ok_bind]
  cases Menu.showRemaining
    ⟨c.menu.editOldButton1Value, c.menu.editOldButton1Value, false, title⟩ remaining <;> rfl

end Controller

theorem timeRemaining_again {other : CString → BitVec 32} {b b' : Buffer} {now : BitVec 32}
    {remaining : Option Int} (h : timeRemaining other b now = .ok (b', remaining)) :
    timeRemaining other b' now = .ok (b', remaining) := by
  rw [timeRemaining, mqttBufferGetMatching_afterInit (timeRemaining_initializes h)]
  exact h

theorem timeRemaining_none_iff {other : CString → BitVec 32} {b b' : Buffer} {s : Store}
    {now : BitVec 32} {remaining : Option Int} (hs : BufferHolds b s) (hfits : s.Fits)
    (h : timeRemaining other b now = .ok (b', remaining)) : remaining = none ↔ ¬ s.HasOverride := by
  obtain ⟨b1, _, _, htime⟩ := timeRemaining_holds other hs hfits now
  rw [h] at htime
  rw [← Store.matching_eq_nil_iff]
  cases hentries : (s.matching heatingControl).entries with
  | nil =>
    simp only [hentries, Except.ok.injEq, Prod.mk.injEq] at htime
    simp [htime.2]
  | cons p l =>
    simp only [hentries] at htime
    rw [eq_comm, Runs.bind_eq_ok] at htime
    obtain ⟨value, _, hvalue⟩ := htime
    rw [Except.ok.injEq, Prod.mk.injEq] at hvalue
    simp [← hvalue.2]

/-! ## Undoing -/

/-- The edit and Cancel leave the menu and the device as they were, and publish nothing. -/
def CancelUndoes (other : CString → BitVec 32) (c : Controller) (now : BitVec 32)
    (moves : List MenuEvent) : Prop :=
  ∃ c', c.runCalls other (moves ++ [.cancel now]) = .ok (c', []) ∧ c'.menu = c.menu ∧
    c'.device = c.device

theorem cancelUndoes_of_run {other : CString → BitVec 32} {c : Controller} {now : BitVec 32}
    {moves : List MenuEvent} {menu : Menu}
    (h : c.runCalls other (moves ++ [.cancel now]) = .ok (⟨c.device, menu⟩, [])) :
    CancelUndoes other c now moves ↔ menu = c.menu := by
  simp only [CancelUndoes, h, Except.ok.injEq, Prod.mk.injEq, and_true]
  constructor
  · rintro ⟨c', rfl, hmenu, _⟩
    exact hmenu
  · intro hmenu
    exact ⟨_, rfl, hmenu, rfl⟩

theorem Menu.idle_title_eq {menu : Menu} (hidle : menu.editingButton1Value = false)
    (hold : menu.editButton1Value = menu.editOldButton1Value) (title : CString) :
    ⟨menu.editOldButton1Value, menu.editOldButton1Value, false, title⟩ =
      { menu with title := title } := by
  rw [hidle, hold]

theorem Menu.idle_eq_iff {menu : Menu} {title : CString} (hidle : menu.editingButton1Value = false)
    (hold : menu.editButton1Value = menu.editOldButton1Value) :
    ⟨menu.editOldButton1Value, menu.editOldButton1Value, false, title⟩ = menu ↔
      title = menu.title := by
  rw [idle_title_eq hidle hold]
  constructor
  · exact fun h => congrArg Menu.title h
  · rintro rfl
    rfl

/-- **When Cancel undoes an edit.** After a run, outside an edit and right after a refresh: as soon as
any event of the run stored an override, or if the edit ends at a value that reads as the one shown
before it. -/
theorem cancel_undoes_iff (other : CString → BitVec 32) (subscriptions : List CString)
    (connected : Bool) (events : List MenuEvent) (d : Displayed)
    (hrun : (Displayed.boot subscriptions connected).run other events = .ok d)
    (hidle : d.controller.menu.editingButton1Value = false) (now : BitVec 32) (c : Controller)
    (hrefresh : d.controller.step other (.refresh now) = .ok c) (moves : List MenuEvent)
    (hne : moves ≠ []) (hmoves : ∀ e ∈ moves, e.Edits) :
    CancelUndoes other c now moves ↔ (∃ e ∈ events, e.PutsOverride) ∨
      ∃ value, editedValue d.controller.menu.editButton1Value moves = .ok value ∧
        SameText value d.shown := by
  have hcontroller := Displayed.run_controller other events (Displayed.boot subscriptions connected)
  rw [hrun] at hcontroller
  obtain ⟨s, hs, hoverride⟩ := (Controller.Stores.boot subscriptions connected).run hcontroller
  have hsound := (Displayed.boot_sound subscriptions connected).run hrun
  have hold := hs.idle hidle
  simp only [Controller.step, Controller.refreshButton1_idle other now hidle, Runs.bind_eq_ok,
    Except.ok.injEq] at hrefresh
  obtain ⟨⟨b, remaining⟩, htime, menu, hmenu, rfl⟩ := hrefresh
  have hnone := timeRemaining_none_iff hs.store hs.fits htime
  have hagain := timeRemaining_again htime
  rw [or_iff_right Store.not_hasOverride_empty] at hoverride
  rw [hoverride] at hnone
  cases remaining with
  | none =>
    -- nothing in the cache: the title of the edit stays
    rw [Menu.showRemaining, Except.ok.injEq] at hmenu
    subst hmenu
    obtain ⟨value, title, hvalue, htitle, hcancel⟩ := Controller.runCalls_edit_cancel
      (c := ⟨⟨d.controller.device.mqtt, b⟩, d.controller.menu⟩) hsound.edits hne hmoves hagain
    rw [Menu.showRemaining, Runs.ok_bind] at hcancel
    rw [cancelUndoes_of_run hcancel, Menu.idle_eq_iff hidle hold,
      button1Title_eq_iff htitle hsound.title, or_iff_right (hnone.mp rfl)]
    constructor
    · exact fun hsame => ⟨value, hvalue, hsame⟩
    · rintro ⟨value', hvalue', hsame⟩
      rw [hvalue, Except.ok.injEq] at hvalue'
      exact hvalue' ▸ hsame
  | some left =>
    -- the refresh of Cancel finds what the refresh before the edit found
    obtain ⟨text, htext, rfl⟩ := updateButton1Value_ok hmenu
    obtain ⟨value, title, hvalue, htitle, hcancel⟩ := Controller.runCalls_edit_cancel
      (c := ⟨⟨d.controller.device.mqtt, b⟩, { d.controller.menu with title := text }⟩)
      ⟨hsound.edits.value, hsound.edits.old⟩ hne hmoves hagain
    rw [Menu.showRemaining, updateButton1Value, htext, Runs.ok_bind, Runs.ok_bind] at hcancel
    have hputs : ∃ e ∈ events, e.PutsOverride := by
      by_contra hnot
      exact absurd (hnone.mpr hnot) (by simp)
    rw [cancelUndoes_of_run hcancel]
    exact iff_of_true (Menu.idle_title_eq hidle hold text) (Or.inl hputs)

/-- After one applied press, another press and Cancel. -/
theorem cancel_undoes_after_apply :
    ∃ d c, (Displayed.boot [] true).run (fun _ => 0) [.up, .apply 0] = .ok d ∧
      d.controller.step (fun _ => 0) (.refresh 0) = .ok c ∧ CancelUndoes (fun _ => 0) c 0 [.up] := by
  have hruns : ((Displayed.boot [] true).run (fun _ => 0) [.up, .apply 0] >>= fun d =>
      d.controller.step (fun _ => 0) (.refresh 0) >>= fun _ =>
        .ok d.controller.menu.editingButton1Value).toOption = some false := by
    decide +kernel
  obtain ⟨d, hrun, hrest⟩ := Runs.bind_eq_ok.mp (Runs.toOption_eq_some.mp hruns)
  obtain ⟨c, hrefresh, hidle⟩ := Runs.bind_eq_ok.mp hrest
  rw [Except.ok.injEq] at hidle
  exact ⟨d, c, hrun, hrefresh, (cancel_undoes_iff (fun _ => 0) [] true [.up, .apply 0] d hrun hidle 0
    c hrefresh [.up] (by simp) (by simp [MenuEvent.Edits])).mpr
      (Or.inl ⟨.apply 0, by simp, trivial⟩)⟩

/-- After the boot the title of the edit stays. -/
theorem first_cancel_keeps_title :
    ∃ c, (Controller.boot [] true).step (fun _ => 0) (.refresh 0) = .ok c ∧
      c.menu.editingButton1Value = false ∧ ¬ CancelUndoes (fun _ => 0) c 0 [.up] := by
  have hruns : ((Controller.boot [] true).step (fun _ => 0) (.refresh 0) >>= fun c =>
      c.runCalls (fun _ => 0) [.up, .cancel 0] >>= fun r =>
        .ok (c.menu.editingButton1Value, c.menu.title, r.1.menu.title)).toOption =
      some (false, "auto".toList, "Force on for 30:00min".toList) := by
    decide +kernel
  obtain ⟨c, hrefresh, hrest⟩ := Runs.bind_eq_ok.mp (Runs.toOption_eq_some.mp hruns)
  obtain ⟨r, hcancel, htitles⟩ := Runs.bind_eq_ok.mp hrest
  simp only [Except.ok.injEq, Prod.mk.injEq] at htitles
  obtain ⟨hidle, hbefore, hafter⟩ := htitles
  refine ⟨c, hrefresh, hidle, ?_⟩
  rintro ⟨c', hrun, hmenu, _⟩
  rw [List.singleton_append, hcancel, Except.ok.injEq] at hrun
  rw [hrun] at hafter
  rw [← hmenu, hafter] at hbefore
  exact absurd hbefore (by decide)

end HomeAutomation
