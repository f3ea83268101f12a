import HomeAutomation.Buffer.Capacity
import HomeAutomation.Buffer.Payload
import HomeAutomation.Menu.Edit

/-!
# Applied overrides

What an applied edit value becomes on its way through `publishButton1`, the payload parser, the
store and the refresh. The payload says `state:on` or `state:off` and gives the magnitude; the
refresh reads the magnitude and the timestamp only, and takes what is left of the 32-bit difference
as a signed value. So a value that forces the heating off reads back as one that forces it on
(`applied_override_reads_back_iff`), and an override that has run out reads back as one with the
opposite sign (`override_counts_down_iff`).
-/

namespace HomeAutomation

/-! ## The stored payload -/

theorem payloadAssignments_override {value : Int} {payload : CString}
    (hge : -2 ^ 31 < value) (hpayload : overridePayload value = .ok payload) :
    payloadAssignments (cstr payload) =
      [(stateKey, stateText value), (forMsKey, decimal value.natAbs)] := by
  rw [overridePayload_ok hge, Except.ok.injEq] at hpayload
  have hdigits : nul ∉ decimal value.natAbs ∧ ',' ∉ decimal value.natAbs :=
    ⟨decimal_not_mem (by decide), decimal_not_mem (by decide)⟩
  have hstate : nul ∉ stateText value ∧ ',' ∉ stateText value := by
    unfold stateText
    split_ifs <;> decide
  have hcstr : cstr payload = payload := by
    apply cstr_of_notMem
    rw [← hpayload]
    simp only [List.mem_append, List.mem_cons, not_or]
    exact ⟨by decide, by decide, hstate.1, by decide, by decide, by decide, hdigits.1⟩
  have hset : stateText value ≠ [] := by
    unfold stateText
    split_ifs <;> decide
  rw [hcstr, ← hpayload,
    payloadAssignments_segment (by decide) (by decide) hset hstate.2,
    payloadAssignments_last (by decide) (by decide) (decimal_ne_nil _) hdigits.2]
  rfl

/-! ## Runs -/

/-- A received message whose topic the refresh selects is on the override topic itself. -/
def MenuEvent.SelectsOverride : MenuEvent → Prop
  | .receive topic _ _ => 0 < matchTopic heatingControl (trim (cstr topic)) →
      trim (cstr topic) = heatingControl
  | _ => True

/-- An event of the device itself. -/
def MenuEvent.Local : MenuEvent → Prop
  | .receive _ _ _ => False
  | _ => True

/-- What an event does to the store. -/
def MenuEvent.Effect (menu : Menu) (s s' : Store) : MenuEvent → Prop
  | .apply now => ∃ payload, overridePayload menu.editButton1Value = .ok payload ∧
      s' = s.put (cstr heatingControl) (cstr payload) now
  | .receive topic data now => s' = s.put (cstr topic) (cstr data) now
  | _ => s' = s

theorem trim_heatingControl : trim (cstr heatingControl) = heatingControl := by decide

/-- The store holds nothing but overrides of this device. -/
def Store.Own (s : Store) : Prop := s.Within [heatingControl] [stateKey, forMsKey, timestampKey]

theorem Store.Own.put {s : Store} (h : s.Own) {value : Int} {payload : CString}
    (hpayload : payloadAssignments (cstr payload) =
      [(stateKey, stateText value), (forMsKey, decimal value.natAbs)]) (now : BitVec 32) :
    (s.put (cstr heatingControl) (cstr payload) now).Own := by
  refine Store.Within.put h ?_ (by decide) ?_ now
  · rw [trim_heatingControl]
    exact List.mem_singleton_self _
  · rw [hpayload]
    simp

/-- What holds of a controller in every run. -/
structure Controller.Sound (c : Controller) (s : Store) : Prop where
  edits : c.menu.Edits
  setup : c.device.mqtt.setupComplete = true
  store : BufferHolds c.device.buffer s
  fits : s.Fits
  only : s.OnlyTopic heatingControl

namespace Controller
variable {other : CString → BitVec 32} {c c' : Controller} {s : Store}

theorem Sound.boot (subscriptions : List CString) (connected : Bool) :
    (boot subscriptions connected).Sound OrderedMap.empty := by
  refine ⟨Menu.Edits.boot, rfl, BufferHolds.boot, Store.fits_empty, ?_⟩
  intro t ht
  exact absurd ht (List.not_mem_nil)

/-- Every event keeps the store a store, with the effect of the event. -/
theorem step_store (hsetup : c.device.mqtt.setupComplete = true)
    (hstore : BufferHolds c.device.buffer s) (hfits : s.Fits) {e : MenuEvent}
    (hstep : step other c e = .ok c') :
    c'.device.mqtt = c.device.mqtt ∧
      ∃ s', BufferHolds c'.device.buffer s' ∧ s'.Fits ∧ e.Effect c.menu s s' := by
  have hrefresh : ∀ (c1 : Controller) (now : BitVec 32), c1.device = c.device →
      c1.refreshButton1 other now = .ok c' →
      c'.device.mqtt = c.device.mqtt ∧ BufferHolds c'.device.buffer s := by
    intro c1 now hdevice h
    obtain ⟨b, title, rfl, hb⟩ := refreshButton1_cases h
    rw [hdevice] at hb ⊢
    refine ⟨rfl, ?_⟩
    rcases hb with rfl | hinit
    · exact hstore
    · exact hstore.afterInit hinit
  cases e with
  | up =>
    obtain ⟨value, title, _, _, rfl⟩ := upCallback_cases hstep
    exact ⟨rfl, s, hstore, hfits, rfl⟩
  | down =>
    obtain ⟨value, title, _, _, rfl⟩ := downCallback_cases hstep
    exact ⟨rfl, s, hstore, hfits, rfl⟩
  | apply now =>
    obtain ⟨payload, b, hpayload, hput, rfl⟩ := applyCallback_cases hsetup hstep
    obtain ⟨hb, hfits'⟩ := mqttBufferPut_ok hstore hfits hput
    exact ⟨rfl, _, hb, hfits', payload, hpayload, rfl⟩
  | cancel now =>
    obtain ⟨hmqtt, hb⟩ := hrefresh c.cancelled now rfl hstep
    exact ⟨hmqtt, s, hb, hfits, rfl⟩
  | refresh now =>
    obtain ⟨hmqtt, hb⟩ := hrefresh c now rfl hstep
    exact ⟨hmqtt, s, hb, hfits, rfl⟩
  | receive topic data now =>
    obtain ⟨b, hput, rfl⟩ := receiveMessage_cases hstep
    obtain ⟨hb, hfits'⟩ := mqttBufferPut_ok hstore hfits hput
    exact ⟨rfl, _, hb, hfits', rfl⟩

theorem Sound.apply (h : c.Sound s) {now : BitVec 32} (hstep : c.applyCallback now = .ok c') :
    ∃ payload, overridePayload c.menu.editButton1Value = .ok payload ∧
      c'.Sound (s.put (cstr heatingControl) (cstr payload) now) := by
  have hevent : step (fun _ => 0) c (.apply now) = .ok c' := hstep
  obtain ⟨hmqtt, _, hb, hfits, payload, hpayload, rfl⟩ :=
    step_store h.setup h.store h.fits hevent
  exact ⟨payload, hpayload, step_edits h.edits hevent, hmqtt ▸ h.setup, hb, hfits,
    h.only.put (fun _ => trim_heatingControl) _ now⟩

/-- Every event keeps the controller sound; the device's own ones keep its store its own. -/
theorem Sound.step (h : c.Sound s) {e : MenuEvent} (he : e.SelectsOverride)
    (hstep : step other c e = .ok c') : ∃ s', c'.Sound s' ∧ (e.Local → s.Own → s'.Own) := by
  obtain ⟨hmqtt, s', hb, hfits, heffect⟩ := step_store h.setup h.store h.fits hstep
  have hsound : s'.OnlyTopic heatingControl → c'.Sound s' := fun honly =>
    ⟨step_edits h.edits hstep, hmqtt ▸ h.setup, hb, hfits, honly⟩
  cases e with
  | apply now =>
    obtain ⟨payload, hpayload, rfl⟩ := heffect
    exact ⟨_, hsound (h.only.put (fun _ => trim_heatingControl) _ now), fun _ hs =>
      hs.put (payloadAssignments_override h.edits.value.gt hpayload) now⟩
  | receive topic data now =>
    obtain rfl := heffect
    exact ⟨_, hsound (h.only.put he _ now), fun hlocal => hlocal.elim⟩
  | up | down | cancel now | refresh now =>
    obtain rfl := heffect
    exact ⟨_, hsound h.only, fun _ hs => hs⟩

theorem Sound.run (h : c.Sound s) {events : List MenuEvent}
    (hevents : ∀ e ∈ events, e.SelectsOverride) (hrun : run other c events = .ok c') :
    ∃ s', c'.Sound s' ∧ ((∀ e ∈ events, e.Local) → s.Own → s'.Own) := by
  refine Runs.foldlM_invariant (fun c' : Controller => ∃ s' : Store, c'.Sound s' ∧
    ((∀ e ∈ events, e.Local) → s.Own → s'.Own)) ?_ ⟨s, h, fun _ hs => hs⟩ hrun
  rintro e he c1 c2 ⟨s1, h1, hown1⟩ hstep
  obtain ⟨s2, h2, hown2⟩ := h1.step (hevents e he) hstep
  exact ⟨s2, h2, fun hlocal hs => hown2 (hlocal e he) (hown1 hlocal hs)⟩

end Controller

/-! ## Reading back -/

/-- What the refresh computes from a magnitude and a time stamp. -/
theorem remainingOf_decimal (other : CString → BitVec 32) {f : Fields} {text : CString}
    {t : BitVec 32} (now : BitVec 32) (htext : f.lookup forMsKey = some text)
    (hdecimal : isDecimal text = true) (hvalue : decimalValue text < 2 ^ 32)
    (ht : f.lookup timestampKey = some (decimal t.toNat)) :
    remainingOf other f now = .ok (BitVec.ofNat 32 (decimalValue text) - (now - t)).toInt := by
  have htimestamp : strtodUint32 other (decimal t.toNat) = t := by
    rw [strtodUint32_decimal other t.isLt]
    simp
  rw [remainingOf, htext, ht]
  simp only [strtodUint32_of_decimal other hdecimal hvalue, htimestamp]

theorem toInt_ofNat_of_lt {n : Nat} (h : n < 2 ^ 31) : (BitVec.ofNat 32 n).toInt = n := by
  rw [BitVec.toInt_eq_toNat_of_lt] <;> rw [BitVec.toNat_ofNat] <;> omega

theorem lookup_applied {value : Int} {payload : CString}
    (hpayload : payloadAssignments (cstr payload) =
      [(stateKey, stateText value), (forMsKey, decimal value.natAbs)]) (old : Option Fields)
    (now : BitVec 32) :
    (overwrite old (putAssignments (cstr payload) now)).lookup forMsKey =
        some (decimal value.natAbs) ∧
      (overwrite old (putAssignments (cstr payload) now)).lookup timestampKey =
        some (decimal now.toNat) := by
  have hne : stateKey ≠ forMsKey ∧ timestampKey ≠ forMsKey ∧ stateKey ≠ timestampKey := by decide
  rw [putAssignments, hpayload]
  refine ⟨?_, ?_⟩
  · rw [overwrite, OrderedMap.lookup_overwrite]
    simp [OrderedMap.valuesOf, hne]
  · rw [overwrite, OrderedMap.lookup_overwrite]
    simp [OrderedMap.valuesOf, hne, hne.2.1.symm]

namespace Controller
variable {other : CString → BitVec 32} {c c' : Controller} {s : Store}

theorem refresh_title (hs : BufferHolds c.device.buffer s) (hfits : s.Fits) {t : CString}
    {f : Fields} {l : List (CString × Fields)} {now : BitVec 32} {value : Int}
    (hentries : (s.matching heatingControl).entries = (t, f) :: l)
    (hidle : c.menu.editingButton1Value = false) (hvalue : remainingOf other f now = .ok value) :
    c.refreshButton1 other now = button1Title value >>= fun title =>
      initializeBuffer c.device.buffer >>= fun b =>
        .ok ⟨⟨c.device.mqtt, b⟩, { c.menu with title := title }⟩ := by
  obtain ⟨b, hinit, _, htime⟩ := timeRemaining_holds other hs hfits now
  rw [hentries] at htime
  simp only [hvalue, Runs.ok_bind] at htime
  rw [refreshButton1_idle other now hidle, htime, Runs.ok_bind, Menu.showRemaining,
    updateButton1Value, hinit]
  cases button1Title value <;> rfl

theorem Sound.refresh_applied (h : c.Sound s) (other : CString → BitVec 32) {now : BitVec 32}
    (hstep : c.applyCallback now = .ok c') :
    ∃ c'', c'.refreshButton1 other now = .ok c'' ∧
      button1Title c.menu.editButton1Value.natAbs = .ok c''.menu.title := by
  have hgt := h.edits.value.gt
  have hle := h.edits.value.le
  have hsound := h.apply hstep
  obtain ⟨payload, b, hpayload, hput, rfl⟩ := applyCallback_cases h.setup hstep
  obtain ⟨payload', hpayload', hsound'⟩ := hsound
  rw [hpayload, Except.ok.injEq] at hpayload'
  subst hpayload'
  have hassign := payloadAssignments_override hgt hpayload
  have hlookup : (s.put (cstr heatingControl) (cstr payload) now).lookup heatingControl =
      some (overwrite (s.lookup heatingControl) (putAssignments (cstr payload) now)) := by
    rw [Store.put, OrderedMap.lookup_alter, trim_heatingControl, if_pos rfl]
  obtain ⟨hforMs, htimestamp⟩ := lookup_applied hassign (s.lookup heatingControl) now
  have hremaining := remainingOf_decimal other now hforMs (isDecimal_decimal _)
    (by rw [decimalValue_decimal]; omega) htimestamp
  rw [decimalValue_decimal, BitVec.sub_self, BitVec.sub_zero,
    toInt_ofNat_of_lt (by omega)] at hremaining
  have hrefresh := refresh_title (c := ⟨⟨c.device.mqtt, b⟩,
      ⟨c.menu.editButton1Value, c.menu.editButton1Value, false, c.menu.title⟩⟩)
    hsound'.store hsound'.fits (hsound'.only.matching hlookup) rfl hremaining
  obtain ⟨b', hinit, _⟩ := initializeBuffer_holds hsound'.store
  have htitle := @button1Title_ok c.menu.editButton1Value.natAbs (by omega) (by omega)
  rw [hrefresh, htitle, hinit]
  exact ⟨_, rfl, rfl⟩

end Controller

/-- Titles of a value and of its magnitude agree just when the value forces nothing off. -/
theorem button1Title_natAbs_iff {value : Int} (hgt : -2 ^ 31 < value) (hle : value < 2 ^ 31) :
    button1Title value.natAbs = button1Title value ↔ 0 ≤ value := by
  constructor
  · intro heq
    by_contra hneg
    have habs := @button1Title_ok value.natAbs (by omega) (by omega)
    rw [habs, button1Title_ok hgt hle, if_neg (by omega), if_pos (by omega), if_pos (by omega),
      Except.ok.injEq] at heq
    have hlen := congrArg (fun l => l.getD 8 ' ') heq
    simp at hlen
  · intro hpos
    rw [show (value.natAbs : Int) = value by omega]

/-- **An applied override reads back as what was applied** if and only if it is not negative. No
edit, no publish and no title of an edit value overflows on the way. -/
theorem applied_override_reads_back_iff (other : CString → BitVec 32)
    (subscriptions : List CString) (connected : Bool) (events : List MenuEvent)
    (hevents : ∀ e ∈ events, e.SelectsOverride) (c : Controller)
    (hrun : (Controller.boot subscriptions connected).run other events = .ok c)
    (now : BitVec 32) :
    (∃ c', c.step other .up = .ok c') ∧ (∃ c', c.step other .down = .ok c') ∧
      ∃ payload title, overridePayload c.menu.editButton1Value = .ok payload ∧
        button1Title c.menu.editButton1Value = .ok title ∧
        ((∀ e ∈ events, e.Local) → ∃ c', c.step other (.apply now) = .ok c') ∧
        ∀ c', c.step other (.apply now) = .ok c' →
          ∃ c'', c'.step other (.refresh now) = .ok c'' ∧
            (c''.menu.title = title ↔ 0 ≤ c.menu.editButton1Value) := by
  obtain ⟨s, hs, hown⟩ := (Controller.Sound.boot subscriptions connected).run hevents hrun
  have hgt := hs.edits.value.gt
  have hle := hs.edits.value.le
  have hpayload := overridePayload_ok hgt
  have htitle := button1Title_ok hgt (by omega)
  refine ⟨Controller.upCallback_ok hs.edits, Controller.downCallback_ok hs.edits, _, _, hpayload,
    htitle, ?_, ?_⟩
  · intro hlocal
    have hassign := payloadAssignments_override hgt hpayload
    obtain ⟨b, hput, _⟩ := mqttBufferPut_holds hs.store heatingControl _ now
      (((hown hlocal Store.Within.empty).put hassign now).fits (by decide) (by decide))
    refine ⟨⟨{ c.device with buffer := b }, { c.menu with
      editingButton1Value := false
      editOldButton1Value := c.menu.editButton1Value }⟩, ?_⟩
    simp only [Controller.step, Controller.applyCallback, publishButton1, mqttPublish,
      mqttPublishStore, hs.setup, if_true, hpayload, hput, Runs.ok_bind]
  · intro c' happly
    obtain ⟨c'', hrefresh, hshown⟩ := hs.refresh_applied other happly
    refine ⟨c'', hrefresh, ?_⟩
    rw [← button1Title_natAbs_iff hgt (by omega), hshown, htitle, Except.ok.injEq]

theorem Controller.run_singleton {other : CString → BitVec 32} {c c' : Controller} {e : MenuEvent}
    (h : c.step other e = .ok c') : c.run other [e] = .ok c' := by
  rw [Controller.run, List.foldlM_cons, h, Runs.ok_bind, Runs.foldlM_nil]

/-- One press of Up, applied and read back. -/
theorem applied_override_reads_back_up :
    ∃ c title, (Controller.boot [] true).run (fun _ => 0) [.up] = .ok c ∧
      button1Title c.menu.editButton1Value = .ok title ∧
      ∃ c' c'', c.step (fun _ => 0) (.apply 7) = .ok c' ∧ c'.step (fun _ => 0) (.refresh 7) = .ok c'' ∧
        c''.menu.title = title := by
  obtain ⟨c, hup⟩ := Controller.upCallback_ok (c := Controller.boot [] true) Menu.Edits.boot
  have hrun : (Controller.boot [] true).run (fun _ => 0) [.up] = .ok c :=
    Controller.run_singleton hup
  obtain ⟨_, _, payload, title, _, htitle, happlies, hreads⟩ :=
    applied_override_reads_back_iff (fun _ => 0) [] true [.up] (by simp [MenuEvent.SelectsOverride]) c
      hrun 7
  obtain ⟨c', happly⟩ := happlies (by simp [MenuEvent.Local])
  obtain ⟨c'', hrefresh, hiff⟩ := hreads c' happly
  obtain ⟨value, _, hvalue, _, rfl⟩ := Controller.upCallback_cases hup
  have hpos : value = 1800000 := by
    rw [show valueUp (Controller.boot [] true).menu.editButton1Value = .ok 1800000 by decide,
      Except.ok.injEq] at hvalue
    exact hvalue.symm
  refine ⟨_, title, hrun, htitle, c', c'', happly, hrefresh, hiff.mpr ?_⟩
  show 0 ≤ value
  omega

/-- The title after a run. -/
def titleAfter (r : Except Fault Controller) : Option CString :=
  match r with
  | .ok c => some c.menu.title
  | .error _ => none

/-- One press of Down, applied, reads back as a value that forces the heating on. -/
theorem applied_down_reads_back_on :
    titleAfter ((Controller.boot [] true).run (fun _ => 0) [.down]) =
        some "Force off for 30:00min".toList ∧
      titleAfter ((Controller.boot [] true).run (fun _ => 0) [.down, .apply 7, .refresh 7]) =
        some "Force on for 30:00min".toList := by
  decide +kernel

end HomeAutomation
