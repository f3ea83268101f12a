import HomeAutomation.Menu.Readers

/-!
# Edit values

The values that Up and Down reach are whole half hours, at most four of them upwards and as many
doublings downwards as an `int32_t` has room for. So none of the arithmetic on an edit value
overflows: not the doubling, not the negation before a publish or a title.
-/

namespace HomeAutomation

/-- A value that Up and Down can reach. -/
structure Editable (value : Int) : Prop where
  halfHours : 1800000 ∣ value
  ge : -2 ^ 31 ≤ value
  le : value ≤ 7200000

theorem Editable.zero : Editable 0 := ⟨by decide, by decide, by decide⟩

theorem Editable.gt {value : Int} (h : Editable value) : -2 ^ 31 < value := by
  obtain ⟨hdvd, hge, hle⟩ := h
  omega

theorem int32_ok {i : Int} (h : -2 ^ 31 ≤ i ∧ i < 2 ^ 31) : int32 i = .ok i := by
  rw [int32, if_pos h]

theorem Editable.up {value : Int} (h : Editable value) :
    ∃ value', valueUp value = .ok value' ∧ Editable value' := by
  obtain ⟨hdvd, hge, hle⟩ := h
  unfold valueUp
  split_ifs with hneg hroom
  · exact ⟨0, rfl, Editable.zero⟩
  · refine ⟨value + 30 * 60 * 1000, int32_ok ?_, ?_, ?_, ?_⟩ <;> omega
  · exact ⟨value, rfl, hdvd, hge, hle⟩

theorem Editable.down {value : Int} (h : Editable value) :
    ∃ value', valueDown value = .ok value' ∧ Editable value' := by
  obtain ⟨hdvd, hge, hle⟩ := h
  unfold valueDown
  split_ifs with hpos hzero hroom
  · exact ⟨0, rfl, Editable.zero⟩
  · refine ⟨value - 30 * 60 * 1000, int32_ok ?_, ?_, ?_, ?_⟩ <;> omega
  · refine ⟨value * 2, int32_ok ?_, ?_, ?_, ?_⟩ <;> omega
  · exact ⟨value, rfl, hdvd, hge, hle⟩

theorem Editable.up_eq {value value' : Int} (h : Editable value)
    (hup : valueUp value = .ok value') : Editable value' := by
  obtain ⟨value'', hvalue, hedit⟩ := h.up
  rw [hup, Except.ok.injEq] at hvalue
  exact hvalue ▸ hedit

theorem Editable.down_eq {value value' : Int} (h : Editable value)
    (hdown : valueDown value = .ok value') : Editable value' := by
  obtain ⟨value'', hvalue, hedit⟩ := h.down
  rw [hdown, Except.ok.injEq] at hvalue
  exact hvalue ▸ hedit

theorem duration_ok {value : Int} (hge : -2 ^ 31 < value) (hlt : value < 2 ^ 31) :
    duration value = .ok (durationText (value.natAbs / 1000)) := by
  unfold duration
  split_ifs with hpos
  · rw [show value.toNat = value.natAbs by omega]
  · rw [int32_ok ⟨by omega, by omega⟩, Runs.ok_bind, show (-value).toNat = value.natAbs by omega]

theorem button1Title_ok {value : Int} (hge : -2 ^ 31 < value) (hlt : value < 2 ^ 31) :
    button1Title value = .ok (
      if value < 0 then "Force off for ".toList ++ durationText (value.natAbs / 1000)
      else if 0 < value then "Force on for ".toList ++ durationText (value.natAbs / 1000)
      else "auto".toList) := by
  rw [button1Title, duration_ok hge hlt]
  split_ifs <;> rfl

/-- The texts of the payload of an edit value. -/
def stateText (value : Int) : CString := if 0 < value then "on".toList else "off".toList

theorem overridePayload_ok {value : Int} (hge : -2 ^ 31 < value) :
    overridePayload value = .ok ("state".toList ++ ':' :: (stateText value ++
      ',' :: (forMsKey ++ ':' :: decimal value.natAbs))) := by
  unfold overridePayload stateText
  split_ifs with hpos
  · rw [decimalInt, if_neg (by omega)]
    rfl
  · rw [int32_ok ⟨by omega, by omega⟩, Runs.ok_bind, decimalInt, if_neg (by omega),
      show (-value).natAbs = value.natAbs by omega]
    rfl

/-- Both values of the menu are reachable by edits. -/
structure Menu.Edits (menu : Menu) : Prop where
  value : Editable menu.editButton1Value
  old : Editable menu.editOldButton1Value

theorem Menu.Edits.boot : Menu.boot.Edits := ⟨Editable.zero, Editable.zero⟩

/-- Setting the title gives it the text and changes nothing else. -/
theorem updateButton1Value_ok {menu menu' : Menu} {value : Int}
    (h : updateButton1Value menu value = .ok menu') :
    ∃ title, button1Title value = .ok title ∧ menu' = { menu with title := title } := by
  simp only [updateButton1Value, Runs.bind_eq_ok, Except.ok.injEq] at h
  obtain ⟨title, htitle, rfl⟩ := h
  exact ⟨title, htitle, rfl⟩

theorem button1Title_edit {value : Int} (h : Editable value) :
    ∃ title, button1Title value = .ok title := by
  have hle := h.le
  exact ⟨_, button1Title_ok h.gt (by omega)⟩

theorem updateButton1Value_edit {value : Int} (h : Editable value) (menu : Menu) :
    ∃ menu', updateButton1Value menu value = .ok menu' := by
  obtain ⟨title, htitle⟩ := button1Title_edit h
  rw [updateButton1Value, htitle]
  exact ⟨_, rfl⟩

/-- The menu after a refresh that reads a value or nothing from the store. -/
def Menu.showRemaining (menu : Menu) : Option Int → Except Fault Menu
  | none => .ok menu
  | some value => updateButton1Value menu value

theorem timeRemaining_initializes {other : CString → BitVec 32} {b b' : Buffer} {now : BitVec 32}
    {r : Option Int} (h : timeRemaining other b now = .ok (b', r)) : initializeBuffer b = .ok b' := by
  simp only [timeRemaining, Runs.bind_eq_ok] at h
  obtain ⟨⟨b1, copy⟩, hget, hrest⟩ := h
  have hb : b1 = b' := by
    split_ifs at hrest with hcount
    · simp only [Except.ok.injEq, Prod.mk.injEq] at hrest
      exact hrest.1
    · simp only [Runs.bind_eq_ok, Except.ok.injEq, Prod.mk.injEq] at hrest
      obtain ⟨_, _, _, _, _, _, heq, _⟩ := hrest
      exact heq
  exact hb ▸ mqttBufferGetMatching_initializes hget

namespace Controller
variable {c c' : Controller}

theorem upCallback_ok (h : c.menu.Edits) : ∃ c', c.upCallback = .ok c' := by
  obtain ⟨value, hvalue, hedit⟩ := h.value.up
  obtain ⟨menu, hmenu⟩ := updateButton1Value_edit hedit
    { c.menu with editingButton1Value := true, editButton1Value := value }
  exact ⟨{ c with menu := menu }, by simp only [upCallback, hvalue, hmenu, Runs.ok_bind]⟩

theorem downCallback_ok (h : c.menu.Edits) : ∃ c', c.downCallback = .ok c' := by
  obtain ⟨value, hvalue, hedit⟩ := h.value.down
  obtain ⟨menu, hmenu⟩ := updateButton1Value_edit hedit
    { c.menu with editingButton1Value := true, editButton1Value := value }
  exact ⟨{ c with menu := menu }, by simp only [downCallback, hvalue, hmenu, Runs.ok_bind]⟩

/-- Up and Down edit the value and nothing else but the title. -/
theorem upCallback_cases (h : c.upCallback = .ok c') :
    ∃ value title, valueUp c.menu.editButton1Value = .ok value ∧ button1Title value = .ok title ∧
      c' = ⟨c.device, ⟨value, c.menu.editOldButton1Value, true, title⟩⟩ := by
  simp only [upCallback, Runs.bind_eq_ok, Except.ok.injEq] at h
  obtain ⟨value, hvalue, menu, hmenu, rfl⟩ := h
  obtain ⟨title, htitle, rfl⟩ := updateButton1Value_ok hmenu
  exact ⟨value, title, hvalue, htitle, rfl⟩

theorem downCallback_cases (h : c.downCallback = .ok c') :
    ∃ value title, valueDown c.menu.editButton1Value = .ok value ∧ button1Title value = .ok title ∧
      c' = ⟨c.device, ⟨value, c.menu.editOldButton1Value, true, title⟩⟩ := by
  simp only [downCallback, Runs.bind_eq_ok, Except.ok.injEq] at h
  obtain ⟨value, hvalue, menu, hmenu, rfl⟩ := h
  obtain ⟨title, htitle, rfl⟩ := updateButton1Value_ok hmenu
  exact ⟨value, title, hvalue, htitle, rfl⟩

/-- Apply ends the edit, keeps the value, and stores its payload. -/
theorem applyCallback_cases {now : BitVec 32} (hsetup : c.device.mqtt.setupComplete = true)
    (h : c.applyCallback now = .ok c') :
    ∃ payload b, overridePayload c.menu.editButton1Value = .ok payload ∧
      mqttBufferPut c.device.buffer heatingControl payload now = .ok b ∧
      c' = ⟨⟨c.device.mqtt, b⟩,
        ⟨c.menu.editButton1Value, c.menu.editButton1Value, false, c.menu.title⟩⟩ := by
  simp only [applyCallback, publishButton1, mqttPublish, mqttPublishStore, hsetup, if_true,
    Runs.bind_eq_ok, Except.ok.injEq] at h
  obtain ⟨⟨_, _⟩, ⟨payload, hpayload, ⟨_, _, _⟩, ⟨b, hput, heq⟩, heq'⟩, rfl⟩ := h
  simp only [Prod.mk.injEq] at heq heq'
  obtain ⟨rfl, _⟩ := heq
  obtain ⟨rfl, _⟩ := heq'
  exact ⟨payload, b, hpayload, hput, rfl⟩

/-- Outside an edit a refresh shows what it reads from the store. -/
theorem refreshButton1_idle (other : CString → BitVec 32) (now : BitVec 32)
    (hidle : c.menu.editingButton1Value = false) :
    c.refreshButton1 other now = timeRemaining other c.device.buffer now >>= fun r =>
      c.menu.showRemaining r.2 >>= fun menu => .ok ⟨⟨c.device.mqtt, r.1⟩, menu⟩ := by
  rw [refreshButton1, updateButton1, if_neg (by rw [hidle]; exact Bool.false_ne_true)]
  cases timeRemaining other c.device.buffer now with
  | error fault => rfl
  | ok r =>
    obtain ⟨b, remaining⟩ := r
    cases remaining with
    | none => rfl
    | some value =>
      simp only [Runs.ok_bind, Menu.showRemaining]
      cases updateButton1Value c.menu value <;> rfl

theorem refreshButton1_editing (other : CString → BitVec 32) (now : BitVec 32)
    (hediting : c.menu.editingButton1Value = true) : c.refreshButton1 other now = .ok c := by
  rw [refreshButton1, updateButton1, if_pos hediting]
  rfl

/-- A refresh sets at most the title, and initialises the store. -/
theorem refreshButton1_cases {other : CString → BitVec 32} {now : BitVec 32}
    (h : c.refreshButton1 other now = .ok c') :
    ∃ b title, c' = ⟨⟨c.device.mqtt, b⟩, { c.menu with title := title }⟩ ∧
      (b = c.device.buffer ∨ initializeBuffer c.device.buffer = .ok b) := by
  cases hediting : c.menu.editingButton1Value with
  | true =>
    rw [refreshButton1_editing other now hediting, Except.ok.injEq] at h
    exact ⟨c.device.buffer, c.menu.title, h.symm, Or.inl rfl⟩
  | false =>
    simp only [refreshButton1_idle other now hediting, Runs.bind_eq_ok, Except.ok.injEq] at h
    obtain ⟨⟨b, remaining⟩, htime, menu, hmenu, rfl⟩ := h
    have hinit := timeRemaining_initializes htime
    cases remaining with
    | none =>
      rw [Menu.showRemaining, Except.ok.injEq] at hmenu
      exact ⟨b, c.menu.title, by rw [← hmenu], Or.inr hinit⟩
    | some value =>
      obtain ⟨title, _, rfl⟩ := updateButton1Value_ok hmenu
      exact ⟨b, title, rfl, Or.inr hinit⟩

theorem receiveMessage_cases {topic data : List Char} {now : BitVec 32}
    (h : c.receiveMessage topic data now = .ok c') :
    ∃ b, mqttBufferPut c.device.buffer topic data now = .ok b ∧
      c' = ⟨⟨c.device.mqtt, b⟩, c.menu⟩ := by
  simp only [receiveMessage, mqttEventHandler, Runs.bind_eq_ok, Except.ok.injEq] at h
  obtain ⟨⟨_, _⟩, ⟨b, hput, heq⟩, rfl⟩ := h
  rw [Prod.mk.injEq] at heq
  obtain ⟨rfl, _⟩ := heq
  exact ⟨b, hput, rfl⟩

/-- A controller whose edit has been taken back, before the refresh. -/
def cancelled (c : Controller) : Controller :=
  { c with
    menu :=
      { c.menu with
        editingButton1Value := false
        editButton1Value := c.menu.editOldButton1Value } }

theorem cancelCallback_refreshes (other : CString → BitVec 32) (c : Controller) (now : BitVec 32) :
    c.cancelCallback other now = c.cancelled.refreshButton1 other now := rfl

theorem step_edits {other : CString → BitVec 32} (h : c.menu.Edits) {e : MenuEvent}
    (hstep : step other c e = .ok c') : c'.menu.Edits := by
  cases e with
  | up =>
    obtain ⟨value, title, hvalue, _, rfl⟩ := upCallback_cases hstep
    exact ⟨h.value.up_eq hvalue, h.old⟩
  | down =>
    obtain ⟨value, title, hvalue, _, rfl⟩ := downCallback_cases hstep
    exact ⟨h.value.down_eq hvalue, h.old⟩
  | apply now =>
    simp only [step, applyCallback, Runs.bind_eq_ok, Except.ok.injEq] at hstep
    obtain ⟨_, _, rfl⟩ := hstep
    exact ⟨h.value, h.value⟩
  | cancel now =>
    obtain ⟨b, title, rfl, _⟩ := refreshButton1_cases hstep
    exact ⟨h.old, h.old⟩
  | refresh now =>
    obtain ⟨b, title, rfl, _⟩ := refreshButton1_cases hstep
    exact ⟨h.value, h.old⟩
  | receive topic data now =>
    obtain ⟨b, _, rfl⟩ := receiveMessage_cases hstep
    exact h

end Controller

end HomeAutomation
