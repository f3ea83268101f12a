import HomeAutomation.Menu.Override

/-!
# Overrides that run out

The refresh subtracts the elapsed time from the magnitude of the stored override in 32-bit
arithmetic and takes the difference as a signed number. Up to the end of the override this counts
down, wherever the clock wraps; from the next millisecond on the difference is negative, or positive
again half a wrap later, and the button shows an override that nobody made
(`override_counts_down_iff`).
-/

namespace HomeAutomation

/-- The refresh finds an override with this text as its magnitude, stored at `t`. -/
def StoresOverride (b : Buffer) (text : CString) (t : BitVec 32) : Prop :=
  ∃ b' copy fields, mqttBufferGetMatching b heatingControl = .ok (b', copy) ∧
    entryFields copy 0 = .ok fields ∧ resultContent fields forMsKey = .ok text ∧
    resultContent fields timestampKey = .ok (decimal t.toNat)

/-- What the button should show `e` milliseconds into an override of `n`. -/
def overrideTitle (n e : Nat) : CString :=
  if e < n then "Force on for ".toList ++ durationText ((n - e) / 1000) else "auto".toList

/-- Refreshes at given times after `t`. -/
def refreshes (t : BitVec 32) (es : List Nat) : List MenuEvent :=
  es.map fun e => .refresh (t + BitVec.ofNat 32 e)

/-- The value that a refresh `e` milliseconds after `t` gives to the title. -/
def ShownAt (other : CString → BitVec 32) (c : Controller) (t : BitVec 32) (e : Nat) (value : Int) :
    Prop :=
  ∃ b, timeRemaining other c.device.buffer (t + BitVec.ofNat 32 e) = .ok (b, some value)

/-- The override counts down and then ends: each refresh shows what is left, what is shown never
grows, and forcing on never becomes forcing off or the other way around. -/
structure CountsDown (other : CString → BitVec 32) (c : Controller) (t : BitVec 32) (n : Nat)
    (es : List Nat) : Prop where
  shown : ∀ l e, l ++ [e] <+: es → ∃ c', c.run other (refreshes t (l ++ [e])) = .ok c' ∧
    c'.menu.title = overrideTitle n e
  decreases : es.Pairwise fun e e' => ∀ v v', ShownAt other c t e v → ShownAt other c t e' v' →
    v'.natAbs ≤ v.natAbs
  keepsSide : es.Pairwise fun e e' => ∀ v v', ShownAt other c t e v → ShownAt other c t e' v' →
    ¬ (0 < v ∧ v' < 0) ∧ ¬ (v < 0 ∧ 0 < v')

/-! ## The 32-bit difference -/

/-- What is left after `e` milliseconds, as the code computes it. -/
def remaining (n e : Nat) : Int := (BitVec.ofNat 32 n - BitVec.ofNat 32 e).toInt

theorem remaining_eq {n e : Nat} (hn : n < 2 ^ 31) (he : e < 2 ^ 32) :
    remaining n e = if (n : Int) - e < -2 ^ 31 then (n : Int) - e + 2 ^ 32 else (n : Int) - e := by
  rw [remaining, BitVec.toInt_eq_toNat_cond, BitVec.toNat_sub, BitVec.toNat_ofNat,
    BitVec.toNat_ofNat, Nat.mod_eq_of_lt (by omega : n < 2 ^ 32), Nat.mod_eq_of_lt he]
  split_ifs <;> omega

theorem remaining_of_le {n e : Nat} (hn : n < 2 ^ 31) (h : e ≤ n) : remaining n e = (n - e : Nat) := by
  rw [remaining_eq hn (by omega), if_neg (by omega)]
  omega

theorem remaining_ne_zero {n e : Nat} (hn : n < 2 ^ 31) (he : e < 2 ^ 32) (h : n < e) :
    remaining n e ≠ 0 := by
  rw [remaining_eq hn he]
  split_ifs <;> omega

theorem button1Title_remaining {n e : Nat} (hn : n < 2 ^ 31) (h : e ≤ n) :
    button1Title (remaining n e) = .ok (overrideTitle n e) := by
  rw [remaining_of_le hn h, button1Title_ok (by omega) (by omega), if_neg (by omega), overrideTitle]
  by_cases hlt : e < n
  · rw [if_pos (by omega), if_pos hlt, Int.natAbs_natCast]
  · rw [if_neg (by omega), if_neg hlt]

/-- The title of a value that is not zero never says that nothing is forced. -/
theorem button1Title_ne_auto {value : Int} (h : value ≠ 0) :
    button1Title value ≠ .ok "auto".toList := by
  intro heq
  unfold button1Title at heq
  have hcase : ∀ (front : CString), front.head? = some 'F' →
      (duration value >>= fun text => Except.ok (front ++ text)) ≠ .ok "auto".toList := by
    intro front hfront htitle
    rw [Runs.bind_eq_ok] at htitle
    obtain ⟨text, _, htext⟩ := htitle
    rw [Except.ok.injEq] at htext
    have hhead := congrArg List.head? htext
    rw [List.head?_append, hfront, Option.some_or] at hhead
    exact absurd hhead (by decide)
  split_ifs at heq with hneg hpos
  · exact hcase _ (by decide) heq
  · exact hcase _ (by decide) heq
  · omega

/-! ## Refreshes -/

theorem StoresOverride.afterInit {b b' : Buffer} {text : CString} {t : BitVec 32}
    (h : StoresOverride b text t) (hb : initializeBuffer b = .ok b') : StoresOverride b' text t := by
  obtain ⟨b1, copy, fields, hget, hrest⟩ := h
  exact ⟨b1, copy, fields, (mqttBufferGetMatching_afterInit hb _).trans hget, hrest⟩

theorem StoresOverride.of_holds {b : Buffer} {s : Store} (hb : BufferHolds b s) (hfits : s.Fits)
    {k text : CString} {f : Fields} {l : List (CString × Fields)} {t : BitVec 32}
    (hentries : (s.matching heatingControl).entries = (k, f) :: l)
    (htext : f.lookup forMsKey = some text) (ht : f.lookup timestampKey = some (decimal t.toNat)) :
    StoresOverride b text t := by
  obtain ⟨b', copy, hget, _, _, _, hcopy⟩ := mqttBufferGetMatching_holds hb hfits heatingControl
  obtain ⟨m, hentry, hm⟩ := entryFields_holds hcopy (i := 0) (t := k) (f := f) (by rw [hentries]; rfl)
  exact ⟨b', copy, m, hget, hentry, resultContent_ok hm (by rw [trim_forMsKey]; exact htext),
    resultContent_ok hm (by rw [trim_timestampKey]; exact ht)⟩

section
variable {other : CString → BitVec 32} {c c' : Controller} {text : CString} {t : BitVec 32}
  {n : Nat}

theorem StoresOverride.timeRemaining {b : Buffer} (h : StoresOverride b text t)
    (other : CString → BitVec 32) (hdecimal : isDecimal text = true)
    (hvalue : decimalValue text = n) (hn : n < 2 ^ 31) (e : Nat) :
    ∃ b', HomeAutomation.timeRemaining other b (t + BitVec.ofNat 32 e) =
      .ok (b', some (remaining n e)) := by
  obtain ⟨b', copy, fields, hget, hentry, hforMs, htimestamp⟩ := h
  refine ⟨b', ?_⟩
  have hcount : flatmapGetEntryCount copy ≠ 0 := by
    intro hzero
    have hnull : flatmapGetByIndex copy 0 = .ok none := by
      unfold flatmapGetEntryCount at hzero
      rw [flatmapGetByIndex, hzero, if_pos (le_refl 0)]
    simp only [entryFields, hnull, Runs.ok_bind] at hentry
    exact absurd hentry (by simp)
  have htext : strtodUint32 other text = BitVec.ofNat 32 n := by
    rw [strtodUint32_of_decimal other hdecimal (by omega), hvalue]
  have ht : strtodUint32 other (decimal t.toNat) = t := by
    rw [strtodUint32_decimal other t.isLt]
    simp
  have hclock : t + BitVec.ofNat 32 e - t = BitVec.ofNat 32 e := by
    rw [BitVec.add_comm, BitVec.add_sub_cancel]
  simp only [HomeAutomation.timeRemaining, hget, hentry, hforMs, htimestamp, Runs.ok_bind, htext, ht,
    hclock, remaining, if_neg hcount]

/-- The controller shows the override whenever it is refreshed. -/
structure Idle (c : Controller) (text : CString) (t : BitVec 32) : Prop where
  idle : c.menu.editingButton1Value = false
  stores : StoresOverride c.device.buffer text t

theorem Idle.refresh (h : Idle c text t) {now : BitVec 32}
    (hstep : c.refreshButton1 other now = .ok c') : Idle c' text t := by
  obtain ⟨b, title, rfl, hb⟩ := Controller.refreshButton1_cases hstep
  refine ⟨h.idle, ?_⟩
  rcases hb with rfl | hinit
  · exact h.stores
  · exact h.stores.afterInit hinit

theorem Idle.run {es : List Nat} (h : Idle c text t)
    (hrun : c.run other (refreshes t es) = .ok c') : Idle c' text t := by
  refine Runs.foldlM_invariant (fun c => Idle c text t) ?_ h hrun
  intro a ha c1 c2 h1 hstep
  obtain ⟨e, -, rfl⟩ := List.mem_map.1 ha
  exact h1.refresh hstep

theorem run_refreshes_append {l : List Nat} {e : Nat} :
    c.run other (refreshes t (l ++ [e])) = .ok c' ↔
      ∃ c1, c.run other (refreshes t l) = .ok c1 ∧
        c1.refreshButton1 other (t + BitVec.ofNat 32 e) = .ok c' := by
  rw [refreshes, List.map_append, Controller.run, Runs.foldlM_append_eq_ok]
  refine exists_congr fun c1 => and_congr_right fun _ => ?_
  rw [List.map_singleton, List.foldlM_cons]
  simp only [Runs.foldlM_nil, Runs.bind_eq_ok, Except.ok.injEq, exists_eq_right]
  rfl

/-- A refresh of an override sets the title of the 32-bit difference. -/
theorem Idle.refresh_eq (h : Idle c text t) (other : CString → BitVec 32)
    (hdecimal : isDecimal text = true) (hvalue : decimalValue text = n) (hn : n < 2 ^ 31) (e : Nat) :
    ∃ b, c.refreshButton1 other (t + BitVec.ofNat 32 e) =
      button1Title (remaining n e) >>= fun title =>
        .ok ⟨⟨c.device.mqtt, b⟩, { c.menu with title := title }⟩ := by
  obtain ⟨b, htime⟩ := h.stores.timeRemaining other hdecimal hvalue hn e
  refine ⟨b, ?_⟩
  rw [Controller.refreshButton1_idle other _ h.idle, htime, Runs.ok_bind, Menu.showRemaining,
    updateButton1Value]
  cases button1Title (remaining n e) <;> rfl

theorem Idle.run_ok (h : Idle c text t) (other : CString → BitVec 32)
    (hdecimal : isDecimal text = true) (hvalue : decimalValue text = n) (hn : n < 2 ^ 31)
    (l : List Nat) (hl : ∀ e ∈ l, e ≤ n) :
    ∃ c', c.run other (refreshes t l) = .ok c' := by
  induction l using List.reverseRecOn with
  | nil => exact ⟨c, rfl⟩
  | append_singleton l e ih =>
    obtain ⟨c1, hrun⟩ := ih fun e' he' => hl e' (List.mem_append_left _ he')
    obtain ⟨b, hrefresh⟩ := (h.run hrun).refresh_eq other hdecimal hvalue hn e
    rw [button1Title_remaining hn (hl e (by simp)), Runs.ok_bind] at hrefresh
    exact ⟨_, run_refreshes_append.mpr ⟨c1, hrun, hrefresh⟩⟩

theorem ShownAt.eq {e : Nat} {v : Int} (hv : ShownAt other c t e v) (h : Idle c text t)
    (hdecimal : isDecimal text = true) (hvalue : decimalValue text = n) (hn : n < 2 ^ 31) :
    v = remaining n e := by
  obtain ⟨b, htime⟩ := hv
  obtain ⟨b', htime'⟩ := h.stores.timeRemaining other hdecimal hvalue hn e
  rw [htime, Except.ok.injEq, Prod.mk.injEq, Option.some.injEq] at htime'
  exact htime'.2

end

/-- **An override counts down and then ends** if and only if it is not refreshed after its end: only
up to `n` milliseconds is the difference what is left. -/
theorem override_counts_down_iff (other : CString → BitVec 32) (c : Controller) (text : CString)
    (t : BitVec 32) (n : Nat) (hidle : c.menu.editingButton1Value = false)
    (hstores : StoresOverride c.device.buffer text t) (hdecimal : isDecimal text = true)
    (hvalue : decimalValue text = n) (hn : n < 2 ^ 31) (es : List Nat) (hes : es.Pairwise (· ≤ ·))
    (hlt : ∀ e ∈ es, e < 2 ^ 32) :
    CountsDown other c t n es ↔ ∀ e ∈ es, e ≤ n := by
  have h : Idle c text t := ⟨hidle, hstores⟩
  constructor
  · intro hcounts e he
    obtain ⟨l, r, rfl⟩ := List.append_of_mem he
    obtain ⟨c', hrun, htitle⟩ := hcounts.shown l e ⟨r, by simp⟩
    by_contra hlate
    obtain ⟨c1, hrun1, hrefresh⟩ := run_refreshes_append.mp hrun
    obtain ⟨b, heq⟩ := (h.run hrun1).refresh_eq other hdecimal hvalue hn e
    rw [hrefresh, eq_comm, Runs.bind_eq_ok] at heq
    obtain ⟨title, hshown, hc'⟩ := heq
    rw [Except.ok.injEq] at hc'
    rw [← hc'] at htitle
    have hauto : title = "auto".toList := by
      rw [overrideTitle, if_neg (by omega)] at htitle
      exact htitle
    rw [hauto] at hshown
    exact button1Title_ne_auto (remaining_ne_zero hn (hlt e he) (by omega)) hshown
  · intro hle
    refine ⟨?_, ?_, ?_⟩
    · intro l e hpre
      obtain ⟨c1, hrun⟩ := h.run_ok other hdecimal hvalue hn l
        fun e' he' => hle e' (hpre.subset (List.mem_append_left _ he'))
      obtain ⟨b, hrefresh⟩ := (h.run hrun).refresh_eq other hdecimal hvalue hn e
      rw [button1Title_remaining hn (hle e (hpre.subset (by simp))), Runs.ok_bind] at hrefresh
      exact ⟨_, run_refreshes_append.mpr ⟨c1, hrun, hrefresh⟩, rfl⟩
    · refine hes.imp_of_mem ?_
      intro e e' he he' hee v v' hv hv'
      rw [hv.eq h hdecimal hvalue hn, hv'.eq h hdecimal hvalue hn, remaining_of_le hn (hle e he),
        remaining_of_le hn (hle e' he')]
      omega
    · refine hes.imp_of_mem ?_
      intro e e' he he' _ v v' hv hv'
      rw [hv.eq h hdecimal hvalue hn, hv'.eq h hdecimal hvalue hn, remaining_of_le hn (hle e he),
        remaining_of_le hn (hle e' he')]
      omega

/-- Half an hour from shortly before the wrap of the clock, refreshed three times. -/
theorem override_counts_down_across_wrap :
    ∃ b, mqttBufferPutAll Buffer.boot
        [⟨heatingControl, "state:on,forMs:1800000".toList, 4294967000⟩] = .ok b ∧
      CountsDown (fun _ => 0) ⟨⟨⟨[], true, true⟩, b⟩, Menu.boot⟩ 4294967000 1800000
        [0, 1000, 1800000] := by
  have hfits : FitsRun [⟨heatingControl, "state:on,forMs:1800000".toList, 4294967000⟩] :=
    FitsRun.of_length (by decide) (by decide +kernel)
  obtain ⟨b, hrun, hb⟩ := mqttBufferPutAll_holds BufferHolds.boot _ hfits.fits
  have hentries := matching_entries
    [⟨heatingControl, "state:on,forMs:1800000".toList, 4294967000⟩] heatingControl
  rw [show ((topicsOf [⟨heatingControl, "state:on,forMs:1800000".toList, 4294967000⟩]).filter
    fun t => 0 < matchTopic heatingControl t) = [heatingControl] by decide +kernel] at hentries
  refine ⟨b, hrun, (override_counts_down_iff (fun _ => 0) _ "1800000".toList 4294967000 1800000 rfl
    (StoresOverride.of_holds hb hfits.fits hentries ?_ ?_) ?_ ?_ ?_ _ ?_ ?_).mpr ?_⟩ <;>
    decide +kernel

/-- A second after the end of an override the button says that the heating is forced off. -/
theorem expired_override_shows_off :
    titleAfter ((Controller.boot [] true).run (fun _ => 0)
        [.receive heatingControl "state:on,forMs:1000".toList 0, .refresh 2000]) =
      some "Force off for 1sec".toList ∧
    overrideTitle 1000 2000 = "auto".toList := by
  decide +kernel

end HomeAutomation
