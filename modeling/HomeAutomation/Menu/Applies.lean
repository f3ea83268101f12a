import HomeAutomation.Menu.Cancel

/-!
# What Apply publishes and what the user sees

Apply publishes the edit value. A refresh outside an edit, and Cancel, can leave another text in the
title than that of the edit value; the next Up or Down sets both anew. So Apply publishes what the
user sees in every run in which an Up or Down comes between (`appliesShown_of_edited`).
-/

namespace HomeAutomation

/-- Whenever Apply publishes a value, the title is the text of that value. -/
def AppliesShown (other : CString → BitVec 32) (c : Controller) (events : List MenuEvent) : Prop :=
  ∀ past now later c', events = past ++ .apply now :: later → c.run other past = .ok c' →
    button1Title c'.applied = .ok c'.menu.title

/-- Whether an edit is in progress after these events, none being in progress before. -/
def editing (past : List MenuEvent) : Bool :=
  past.foldl (fun b e =>
    match e with
    | .up | .down => true
    | .apply _ | .cancel _ => false
    | .refresh _ | .receive _ _ _ => b) false

/-- What can leave another text in the title than that of the edit value: a refresh outside an edit
that finds an override, and Cancel, which ends an edit or finds an override. -/
def MenuEvent.Retitles (past : List MenuEvent) : MenuEvent → Prop
  | .refresh _ => editing past = false ∧ ∃ e ∈ past, e.PutsOverride
  | .cancel _ => editing past = true ∨ ∃ e ∈ past, e.PutsOverride
  | _ => False

/-- Each such event is followed by Up or Down. -/
def Edited (past : List MenuEvent) : Prop :=
  ∀ before e after, past = before ++ e :: after → e.Retitles before → ∃ e' ∈ after, e'.Edits

theorem editing_concat (past : List MenuEvent) (e : MenuEvent) :
    editing (past ++ [e]) =
      match e with
      | .up | .down => true
      | .apply _ | .cancel _ => false
      | .refresh _ | .receive _ _ _ => editing past := by
  rw [editing, List.foldl_append]
  cases e <;> rfl

/-- The last event, unless it is Up or Down, has not touched the title. -/
theorem Edited.concat {past : List MenuEvent} {e : MenuEvent} (h : Edited (past ++ [e]))
    (he : ¬ e.Edits) : Edited past ∧ ¬ e.Retitles past := by
  constructor
  · intro before e' after hpast hretitles
    obtain ⟨e'', hmem, hedits⟩ := h before e' (after ++ [e]) (by simp [hpast]) hretitles
    rcases List.mem_append.mp hmem with hmem | hmem
    · exact ⟨e'', hmem, hedits⟩
    · exact absurd (List.mem_singleton.mp hmem ▸ hedits) he
  · intro hretitles
    obtain ⟨e', hmem, _⟩ := h past e [] rfl hretitles
    exact List.not_mem_nil hmem

theorem edited_concat {e : MenuEvent} (he : e.Edits) (past : List MenuEvent) :
    Edited (past ++ [e]) := by
  intro before e' after hpast hretitles
  rcases List.eq_nil_or_concat after with rfl | ⟨after, e'', rfl⟩
  · obtain ⟨_, hlast⟩ := List.append_inj' hpast rfl
    obtain rfl := List.singleton_inj.mp hlast
    rcases he with rfl | rfl <;> exact hretitles.elim
  · have hlast : past ++ [e] = (before ++ e' :: after) ++ [e''] := by simpa using hpast
    obtain ⟨_, hsame⟩ := List.append_inj' hlast rfl
    exact ⟨e, by rw [List.singleton_inj.mp hsame]; simp, he⟩

/-- The flag is that of the events, and the title is the text of the edit value if they allow it. -/
structure Controller.Titled (c : Controller) (past : List MenuEvent) : Prop where
  flag : c.menu.editingButton1Value = editing past
  title : Edited past → button1Title c.menu.editButton1Value = .ok c.menu.title

namespace Controller
variable {other : CString → BitVec 32} {c c' : Controller} {s : Store} {past : List MenuEvent}

/-- A refresh that finds nothing, or comes in an edit, leaves the menu. -/
theorem refresh_untouched (h : c.Stores s) (hnone : c.menu.editingButton1Value = true ∨ ¬ s.HasOverride)
    {now : BitVec 32} (hrefresh : c.refreshButton1 other now = .ok c') : c'.menu = c.menu := by
  cases hediting : c.menu.editingButton1Value with
  | true =>
    rw [refreshButton1_editing other now hediting, Except.ok.injEq] at hrefresh
    rw [← hrefresh]
  | false =>
    rw [hediting, or_iff_right Bool.false_ne_true] at hnone
    simp only [refreshButton1_idle other now hediting, Runs.bind_eq_ok, Except.ok.injEq] at hrefresh
    obtain ⟨⟨b, remaining⟩, htime, menu, hmenu, rfl⟩ := hrefresh
    obtain rfl := (timeRemaining_none_iff h.store h.fits htime).mpr hnone
    rw [Menu.showRemaining, Except.ok.injEq] at hmenu
    exact hmenu.symm

theorem Titled.step (h : c.Titled past) (hs : c.Stores s)
    (hoverride : s.HasOverride ↔ ∃ e ∈ past, e.PutsOverride) {e : MenuEvent}
    (hstep : step other c e = .ok c') : c'.Titled (past ++ [e]) := by
  cases e with
  | up =>
    obtain ⟨value, title, _, htitle, rfl⟩ := upCallback_cases hstep
    exact ⟨(editing_concat past .up).symm, fun _ => htitle⟩
  | down =>
    obtain ⟨value, title, _, htitle, rfl⟩ := downCallback_cases hstep
    exact ⟨(editing_concat past .down).symm, fun _ => htitle⟩
  | apply now =>
    rw [Controller.step, applyCallback_publishes, Runs.bind_eq_ok] at hstep
    obtain ⟨_, _, hc'⟩ := hstep
    rw [Except.ok.injEq] at hc'
    subst hc'
    refine ⟨(editing_concat past (.apply now)).symm, fun hedited => ?_⟩
    exact h.title (hedited.concat (by simp [MenuEvent.Edits])).1
  | cancel now =>
    have hflag := (editing_concat past (.cancel now)).symm
    obtain ⟨b, title, hc', _⟩ := refreshButton1_cases hstep
    refine ⟨by rw [hc']; exact hflag, fun hedited => ?_⟩
    obtain ⟨hbefore, hnot⟩ := hedited.concat (by simp [MenuEvent.Edits])
    obtain ⟨hidle, hnone⟩ := not_or.mp hnot
    -- nothing was being edited, so Cancel has nothing to take back
    have hold := hs.idle (h.flag.trans (Bool.eq_false_of_not_eq_true hidle))
    have hsame := refresh_untouched (c := c.cancelled) ⟨hs.setup, hs.store, hs.fits, fun _ => rfl⟩
      (Or.inr (mt hoverride.mp hnone)) hstep
    rw [hsame, cancelled, ← hold]
    exact h.title hbefore
  | refresh now =>
    have hflag := (editing_concat past (.refresh now)).symm
    obtain ⟨b, title, hc', _⟩ := refreshButton1_cases hstep
    refine ⟨by rw [hc']; exact h.flag.trans hflag, fun hedited => ?_⟩
    obtain ⟨hbefore, hnot⟩ := hedited.concat (by simp [MenuEvent.Edits])
    have huntouched : c.menu.editingButton1Value = true ∨ ¬ s.HasOverride := by
      rw [h.flag, hoverride]
      cases hediting : editing past with
      | true => exact Or.inl rfl
      | false => exact Or.inr fun hputs => hnot ⟨hediting, hputs⟩
    rw [refresh_untouched hs huntouched hstep]
    exact h.title hbefore
  | receive topic data now =>
    obtain ⟨b, _, rfl⟩ := receiveMessage_cases hstep
    refine ⟨h.flag.trans (editing_concat past (.receive topic data now)).symm, fun hedited => ?_⟩
    exact h.title (hedited.concat (by simp [MenuEvent.Edits])).1

theorem Titled.run (subscriptions : List CString) (connected : Bool)
    (hrun : (boot subscriptions connected).run other past = .ok c') : c'.Titled past := by
  induction past using List.reverseRecOn generalizing c' with
  | nil =>
    rw [Controller.run, Runs.foldlM_nil, Except.ok.injEq] at hrun
    subst hrun
    exact ⟨rfl, fun _ => rfl⟩
  | append_singleton past e ih =>
    rw [Controller.run, Runs.foldlM_append_eq_ok] at hrun
    obtain ⟨c, hpast, hlast⟩ := hrun
    rw [List.foldlM_cons, Runs.bind_eq_ok] at hlast
    obtain ⟨c1, hstep, heq⟩ := hlast
    rw [Runs.foldlM_nil, Except.ok.injEq] at heq
    subst heq
    obtain ⟨s, hs, hoverride⟩ := (Stores.boot subscriptions connected).run hpast
    rw [or_iff_right Store.not_hasOverride_empty] at hoverride
    exact (ih hpast).step hs hoverride hstep

end Controller

/-- **When Apply publishes what the user sees.** In every run in which, before each Apply, whatever
could have touched the title has been followed by Up or Down. -/
theorem appliesShown_of_edited (other : CString → BitVec 32) (subscriptions : List CString)
    (connected : Bool) {events : List MenuEvent}
    (h : ∀ past now later, events = past ++ .apply now :: later → Edited past) :
    AppliesShown other (Controller.boot subscriptions connected) events := by
  intro past now later c' hevents hrun
  exact (Controller.Titled.run subscriptions connected hrun).title (h past now later hevents)

/-- A refresh between two edits. -/
theorem appliesShown_of_edited_twice :
    titleAfter ((Controller.boot [] true).run (fun _ => 0) [.up, .apply 0, .refresh 60000, .up]) =
        some "Force on for 1:00:00ho".toList ∧
      AppliesShown (fun _ => 0) (Controller.boot [] true)
        [.up, .apply 0, .refresh 60000, .up, .apply 60000] := by
  refine ⟨by decide +kernel, appliesShown_of_edited (fun _ => 0) [] true ?_⟩
  intro past now later hevents
  have hpast : past = [] ++ [.up] ∨ past = [.up, .apply 0, .refresh 60000] ++ [.up] := by
    rcases past with _ | ⟨e₁, _ | ⟨e₂, _ | ⟨e₃, _ | ⟨e₄, _ | ⟨e₅, past⟩⟩⟩⟩⟩ <;>
      simp at hevents ⊢ <;> grind
  rcases hpast with rfl | rfl
  · exact edited_concat (Or.inl rfl) []
  · exact edited_concat (Or.inl rfl) [.up, .apply 0, .refresh 60000]

/-- One press of Up is applied, the button is refreshed a minute later, and Apply comes again: the
title says 29 minutes, what is published is half an hour. -/
theorem second_apply_publishes_unshown :
    titleAfter ((Controller.boot [] true).run (fun _ => 0) [.up, .apply 0, .refresh 60000]) =
        some "Force on for 29:00min".toList ∧
      ¬ AppliesShown (fun _ => 0) (Controller.boot [] true)
        [.up, .apply 0, .refresh 60000, .apply 60000] := by
  have hruns : ((Controller.boot [] true).run (fun _ => 0) [.up, .apply 0, .refresh 60000] >>=
      fun c => .ok (c.applied, c.menu.title)).toOption =
        some (1800000, "Force on for 29:00min".toList) := by
    decide +kernel
  obtain ⟨c, hrun, hafter⟩ := Runs.bind_eq_ok.mp (Runs.toOption_eq_some.mp hruns)
  rw [Except.ok.injEq, Prod.mk.injEq] at hafter
  refine ⟨by decide +kernel, fun happlies => ?_⟩
  have hshown := happlies _ 60000 [] c rfl hrun
  rw [hafter.1, hafter.2] at hshown
  exact absurd hshown (by decide)

end HomeAutomation
