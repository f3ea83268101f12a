import HomeAutomation.Buffer.Tasks

/-!
# The first call

Every function of `buffer.cpp` calls `initialize()` before it takes the mutex, and `initialize()`
creates the mutex: what stands in it runs under none. It sets `initialized` first and the mutex last,
so that a task which calls while the first call is in `initialize()` goes on to take a mutex that does
not exist, and one that has read `initialized` before it was set makes a second map and a second
mutex. From a state on nothing of this can happen any more exactly if one mutex has been created and
no task is in `initialize()` (`initialize_safe_iff`).
-/

namespace HomeAutomation

/-! ## `initialize()` -/

/-- The static variables, a mutex being a number, and how many mutexes were created. -/
structure Statics where
  buffer : Buffer
  mutex : Option Nat
  created : Nat

/-- Before the first call. -/
def Statics.boot : Statics := ⟨Buffer.boot, none, 0⟩

/-- The statements of `initialize()` behind its test. -/
inductive Statement where
  | raise
  | clear
  | allocate
  | create

/-- `initialized = 1`, `mapInfo = {..}`, `flatmap_init(&mapInfo)`, `mutex = xSemaphoreCreateMutex()`. -/
def Statement.exec (s : Statics) : Statement → Except Fault Statics
  | .raise => .ok { s with buffer.initialized := true }
  | .clear => .ok { s with buffer.mapInfo := MapInfo.fresh 16 }
  | .allocate => do
    let mapInfo ← flatmapInit s.buffer.mapInfo
    .ok { s with buffer.mapInfo := mapInfo }
  | .create => .ok { s with mutex := some s.created, created := s.created + 1 }

def Statement.next : Statement → Option Statement
  | .raise => some .clear
  | .clear => some .allocate
  | .allocate => some .create
  | .create => none

/-- The statements that are left. -/
def Statement.rest : Statement → List Statement
  | .raise => [.raise, .clear, .allocate, .create]
  | .clear => [.clear, .allocate, .create]
  | .allocate => [.allocate, .create]
  | .create => [.create]

/-- The store in front of a statement, where one task alone is in the first call. -/
def Statement.before : Statement → Buffer
  | .raise => Buffer.boot
  | .clear => ⟨true, Buffer.boot.mapInfo⟩
  | .allocate => ⟨true, MapInfo.fresh 16⟩
  | .create => ⟨true, emptyTopics⟩

theorem statements_alone {s : Statics} (hinitialized : s.buffer.initialized = false) :
    (Statement.rest .raise).foldlM Statement.exec s =
      (initializeBuffer s.buffer).map fun b => ⟨b, some s.created, s.created + 1⟩ := by
  rw [initializeBuffer, if_neg (by simp [hinitialized]), emptyTopics_init]
  rfl

/-! ## Tasks -/

/-- Where a task is. -/
inductive InitPhase where
  | out
  | testing (call : BufferCall)
  | initializing (call : BufferCall) (stmt : Statement)
  | ready (call : BufferCall)
  | inside (call : BufferCall)

/-- The static variables, who holds which mutex, whether the device crashed, the calls whose critical
sections are over, and the tasks. -/
structure InitWorld (τ : Type) where
  statics : Statics
  holder : Nat → Option τ
  crashed : Bool
  calls : List BufferCall
  phase : τ → InitPhase

namespace InitWorld
variable {τ : Type} [DecidableEq τ]

def go (w : InitWorld τ) (t : τ) (p : InitPhase) : InitWorld τ :=
  { w with phase := Function.update w.phase t p }

@[simp] theorem go_self (w : InitWorld τ) (t : τ) (p : InitPhase) : (w.go t p).phase t = p :=
  Function.update_self ..

theorem go_of_ne (w : InitWorld τ) {t u : τ} (p : InitPhase) (h : u ≠ t) :
    (w.go t p).phase u = w.phase u := Function.update_of_ne h ..

/-- The steps of the tasks while the device runs. A critical section is one step. -/
inductive Step : InitWorld τ → InitWorld τ → Prop where
  | call (w : InitWorld τ) (t : τ) (c : BufferCall) (hrun : w.crashed = false)
      (hphase : w.phase t = .out) : Step w (w.go t (.testing c))
  | found (w : InitWorld τ) (t : τ) (c : BufferCall) (hrun : w.crashed = false)
      (hphase : w.phase t = .testing c) (htest : w.statics.buffer.initialized = true) :
      Step w (w.go t (.ready c))
  | missed (w : InitWorld τ) (t : τ) (c : BufferCall) (hrun : w.crashed = false)
      (hphase : w.phase t = .testing c) (htest : w.statics.buffer.initialized = false) :
      Step w (w.go t (.initializing c .raise))
  | work (w : InitWorld τ) (t : τ) (c : BufferCall) (stmt : Statement) (hrun : w.crashed = false)
      (hphase : w.phase t = .initializing c stmt) (statics : Statics)
      (hexec : stmt.exec w.statics = .ok statics) :
      Step w (({ w with statics := statics } : InitWorld τ).go t
        (stmt.next.elim (.ready c) (.initializing c)))
  | assertion (w : InitWorld τ) (t : τ) (c : BufferCall) (stmt : Statement) (hrun : w.crashed = false)
      (hphase : w.phase t = .initializing c stmt) (e : Fault)
      (hexec : stmt.exec w.statics = .error e) : Step w { w with crashed := true }
  | take (w : InitWorld τ) (t : τ) (c : BufferCall) (hrun : w.crashed = false)
      (hphase : w.phase t = .ready c) (m : Nat) (hmutex : w.statics.mutex = some m)
      (hfree : w.holder m = none) :
      Step w (({ w with holder := Function.update w.holder m (some t) } : InitWorld τ).go t
        (.inside c))
  | takeNull (w : InitWorld τ) (t : τ) (c : BufferCall) (hrun : w.crashed = false)
      (hphase : w.phase t = .ready c) (hmutex : w.statics.mutex = none) :
      Step w { w with crashed := true }
  | give (w : InitWorld τ) (t : τ) (c : BufferCall) (hrun : w.crashed = false)
      (hphase : w.phase t = .inside c) (m : Nat) (hmutex : w.statics.mutex = some m)
      (r : Buffer × BufferReply) (hcall : c.alone w.statics.buffer = .ok r) :
      Step w (({ w with
        statics := { w.statics with buffer := r.1 }
        holder := Function.update w.holder m none
        calls := w.calls ++ [c] } : InitWorld τ).go t .out)

/-- Before the first call. -/
def boot (τ : Type) : InitWorld τ := ⟨Statics.boot, fun _ => none, false, [], fun _ => .out⟩

abbrev Steps : InitWorld τ → InitWorld τ → Prop := Relation.ReflTransGen Step

/-- The task is in `initialize()` behind the test. -/
def Initializing (w : InitWorld τ) (t : τ) : Prop := ∃ c stmt, w.phase t = .initializing c stmt

/-- The task has the mutex. -/
def Inside (w : InitWorld τ) (t : τ) : Prop := ∃ c, w.phase t = .inside c

/-- What the functions of `buffer.cpp` rely on: no crash, one mutex, which at most one task has, and
behind it the store that the calls so far leave. -/
structure Safe (w : InitWorld τ) : Prop where
  running : w.crashed = false
  single : w.statics.created ≤ 1
  exclusive : ∀ t u, w.Inside t → w.Inside u → t = u
  stored : 0 < w.statics.created →
    callAll ⟨true, emptyTopics⟩ w.calls = .ok w.statics.buffer

/-! ## What every reachable state keeps -/

/-- A task that has not got further than the first statement. -/
def Early (w : InitWorld τ) (t : τ) : Prop :=
  w.phase t = .out ∨ (∃ c, w.phase t = .testing c) ∨ ∃ c, w.phase t = .initializing c .raise

structure Inv (w : InitWorld τ) : Prop where
  before : w.statics.created = 0 → w.statics.mutex = none ∧ ∀ t, w.holder 0 ≠ some t
  made : 0 < w.statics.created →
    w.statics.mutex = some (w.statics.created - 1) ∧ w.statics.buffer.initialized = true
  early : w.statics.buffer.initialized = false → ∀ t, w.Early t
  holder : w.statics.created ≤ 1 → ∀ t, w.holder 0 = some t ↔ w.Inside t

section
variable {w w' : InitWorld τ}

omit [DecidableEq τ] in
theorem boot_inv : (boot τ).Inv := by
  refine ⟨fun _ => ⟨rfl, by simp [boot]⟩, fun h => absurd h (by simp [boot, Statics.boot]), ?_, ?_⟩
  · intro _ t
    exact Or.inl rfl
  · intro _ t
    simp [boot, Inside]

/-- A step that only moves a task between two points outside the critical section. -/
theorem Inv.go (h : w.Inv) {t : τ} {p : InitPhase} (hout : ¬ w.Inside t) (hp : ∀ c, p ≠ .inside c)
    (hearly : w.statics.buffer.initialized = false →
      p = .out ∨ (∃ c, p = .testing c) ∨ ∃ c, p = .initializing c .raise) : (w.go t p).Inv := by
  refine ⟨h.before, h.made, ?_, ?_⟩
  · intro hfalse u
    by_cases hut : u = t
    · rw [Early, hut, go_self]
      exact hearly hfalse
    · rw [Early, go_of_ne _ _ hut]
      exact h.early hfalse u
  · intro hle u
    by_cases hut : u = t
    · rw [Inside, hut, go_self]
      refine iff_of_false (fun hholder => hout ((h.holder hle t).mp hholder)) ?_
      intro ⟨c, hc⟩
      exact hp c hc
    · rw [Inside, go_of_ne _ _ hut]
      exact h.holder hle u

theorem exec_cases {s s' : Statics} {stmt : Statement} (h : stmt.exec s = .ok s') :
    (stmt = .create ∧ s'.created = s.created + 1 ∧ s'.mutex = some s.created ∧
        s'.buffer = s.buffer) ∨
      stmt ≠ .create ∧ s'.created = s.created ∧ s'.mutex = s.mutex ∧
        (s.buffer.initialized = true ∨ stmt = .raise → s'.buffer.initialized = true) := by
  cases stmt with
  | raise =>
    obtain rfl := Except.ok.inj h
    exact Or.inr ⟨by simp, rfl, rfl, fun _ => rfl⟩
  | clear =>
    obtain rfl := Except.ok.inj h
    exact Or.inr ⟨by simp, rfl, rfl, by simp⟩
  | allocate =>
    rw [Statement.exec, Runs.bind_eq_ok] at h
    obtain ⟨m, -, heq⟩ := h
    obtain rfl := Except.ok.inj heq
    exact Or.inr ⟨by simp, rfl, rfl, by simp⟩
  | create =>
    obtain rfl := Except.ok.inj h
    exact Or.inl ⟨rfl, rfl, rfl, rfl⟩

omit [DecidableEq τ] in
/-- In `initialize()` behind its first statement, `initialized` is set. -/
theorem Inv.initialized (h : w.Inv) {t : τ} {c : BufferCall} {stmt : Statement}
    (hphase : w.phase t = .initializing c stmt) :
    w.statics.buffer.initialized = true ∨ stmt = .raise := by
  rcases hinit : w.statics.buffer.initialized with _ | _
  · rcases h.early hinit t with hout | ⟨c', htest⟩ | ⟨c', hraise⟩
    · exact absurd (hphase.symm.trans hout) (by simp)
    · exact absurd (hphase.symm.trans htest) (by simp)
    · right
      have heq := hphase.symm.trans hraise
      rw [InitPhase.initializing.injEq] at heq
      exact heq.2
  · exact Or.inl rfl

omit [DecidableEq τ] in
theorem not_inside_of {t : τ} {p : InitPhase} (hphase : w.phase t = p) (hp : ∀ c, p ≠ .inside c) :
    ¬ w.Inside t := by
  intro ⟨c, hc⟩
  exact hp c (hphase.symm.trans hc)

theorem next_not_inside (c d : BufferCall) (stmt : Statement) :
    stmt.next.elim (InitPhase.ready c) (.initializing c) ≠ .inside d := by
  cases stmt <;> exact InitPhase.noConfusion

theorem Inv.work (h : w.Inv) {t : τ} {c : BufferCall} {stmt : Statement}
    (hphase : w.phase t = .initializing c stmt) {statics : Statics}
    (hexec : stmt.exec w.statics = .ok statics) :
    (({ w with statics := statics } : InitWorld τ).go t
      (stmt.next.elim (.ready c) (.initializing c))).Inv := by
  have hinitialized := h.initialized hphase
  have houtside : ¬ w.Inside t := not_inside_of hphase (by simp)
  have hinside : ∀ u, (({ w with statics := statics } : InitWorld τ).go t
      (stmt.next.elim (.ready c) (.initializing c))).Inside u ↔ w.Inside u := by
    intro u
    by_cases hut : u = t
    · rw [Inside, hut, go_self]
      refine iff_of_false ?_ houtside
      intro ⟨d, hd⟩
      exact next_not_inside c d stmt hd
    · rw [Inside, go_of_ne _ _ hut]
      rfl
  rcases exec_cases hexec with ⟨hcreate, hcreated, hmutex, hbuffer⟩ |
    ⟨hne, hcreated, hmutex, hbuffer⟩
  · have htrue : w.statics.buffer.initialized = true := by
      rcases hinitialized with htrue | hraise
      · exact htrue
      · exact absurd (hcreate.symm.trans hraise) (by simp)
    have htrue' : statics.buffer.initialized = true := by rw [hbuffer, htrue]
    refine ⟨?_, ?_, ?_, ?_⟩
    · intro hzero
      exact absurd (hcreated.symm.trans hzero) (by omega)
    · intro _
      refine ⟨?_, htrue'⟩
      change statics.mutex = some (statics.created - 1)
      rw [hmutex, hcreated, Nat.add_sub_cancel]
    · intro hfalse
      exact absurd (htrue'.symm.trans hfalse) (by simp)
    · intro hle u
      have hzero : w.statics.created = 0 := by
        change statics.created ≤ 1 at hle
        omega
      rw [hinside u]
      exact h.holder (by omega) u
  · have htrue' := hbuffer hinitialized
    refine ⟨?_, ?_, ?_, ?_⟩
    · intro hzero
      obtain ⟨hnull, hfree⟩ := h.before (hcreated.symm.trans hzero)
      exact ⟨hmutex.trans hnull, hfree⟩
    · intro hpos
      refine ⟨?_, htrue'⟩
      change statics.mutex = some (statics.created - 1)
      rw [hmutex, hcreated]
      exact (h.made (hcreated ▸ hpos)).1
    · intro hfalse
      exact absurd (htrue'.symm.trans hfalse) (by simp)
    · intro hle u
      rw [hinside u]
      exact h.holder (hcreated ▸ hle) u

theorem Inv.take (h : w.Inv) {t : τ} {c : BufferCall} (hphase : w.phase t = .ready c) {m : Nat}
    (hmutex : w.statics.mutex = some m) (hfree : w.holder m = none) :
    (({ w with holder := Function.update w.holder m (some t) } : InitWorld τ).go t
      (.inside c)).Inv := by
  have hpos : 0 < w.statics.created := by
    by_contra hzero
    have hnull := (h.before (by omega)).1
    exact absurd (hmutex.symm.trans hnull) (by simp)
  obtain ⟨hmade, htrue⟩ := h.made hpos
  refine ⟨?_, h.made, ?_, ?_⟩
  · intro hzero
    exact absurd hzero (by change w.statics.created ≠ 0; omega)
  · intro hfalse
    exact absurd (htrue.symm.trans hfalse) (by simp)
  · intro hle u
    have hzero : m = 0 := by
      have heq := Option.some.inj (hmutex.symm.trans hmade)
      change w.statics.created ≤ 1 at hle
      omega
    subst hzero
    by_cases hut : u = t
    · subst hut
      rw [Inside, go_self]
      refine iff_of_true ?_ ⟨c, rfl⟩
      change Function.update w.holder 0 (some u) 0 = some u
      rw [Function.update_self]
    · rw [Inside, go_of_ne _ _ hut]
      refine iff_of_false ?_ ?_
      · change Function.update w.holder 0 (some t) 0 ≠ some u
        rw [Function.update_self]
        exact fun heq => hut (Option.some.inj heq).symm
      · intro hin
        have hholder := (h.holder hle u).mpr hin
        exact absurd (hfree.symm.trans hholder) (by simp)

theorem Inv.give (h : w.Inv) {t : τ} {c : BufferCall} (hphase : w.phase t = .inside c) {m : Nat}
    (hmutex : w.statics.mutex = some m) {r : Buffer × BufferReply}
    (hcall : c.alone w.statics.buffer = .ok r) :
    (({ w with
      statics := { w.statics with buffer := r.1 }
      holder := Function.update w.holder m none
      calls := w.calls ++ [c] } : InitWorld τ).go t .out).Inv := by
  have htrue : r.1.initialized = true := alone_initialized hcall
  have hpos : 0 < w.statics.created := by
    by_contra hzero
    have hnull := (h.before (by omega)).1
    exact absurd (hmutex.symm.trans hnull) (by simp)
  refine ⟨?_, ?_, ?_, ?_⟩
  · intro hzero
    exact absurd hzero (by change w.statics.created ≠ 0; omega)
  · intro _
    exact ⟨(h.made hpos).1, htrue⟩
  · intro hfalse
    exact absurd (htrue.symm.trans hfalse) (by simp)
  · intro hle u
    have hzero : m = 0 := by
      have heq := Option.some.inj (hmutex.symm.trans (h.made hpos).1)
      change w.statics.created ≤ 1 at hle
      omega
    subst hzero
    have hfree : Function.update w.holder 0 none 0 ≠ some u := by
      rw [Function.update_self]
      exact (Option.some_ne_none u).symm
    refine iff_of_false hfree ?_
    by_cases hut : u = t
    · rw [Inside, hut, go_self]
      simp
    · rw [Inside, go_of_ne _ _ hut]
      intro hin
      have hu := (h.holder hle u).mpr hin
      have ht := (h.holder hle t).mpr ⟨c, hphase⟩
      exact hut (Option.some.inj (hu.symm.trans ht))

theorem Step.inv (hstep : Step w w') (h : w.Inv) : w'.Inv := by
  cases hstep with
  | call t c hrun hphase =>
    exact h.go (not_inside_of hphase (by simp)) (by simp) fun _ => Or.inr (Or.inl ⟨c, rfl⟩)
  | found t c hrun hphase htest =>
    exact h.go (not_inside_of hphase (by simp)) (by simp) fun hfalse =>
      absurd (htest.symm.trans hfalse) (by simp)
  | missed t c hrun hphase htest =>
    exact h.go (not_inside_of hphase (by simp)) (by simp) fun _ => Or.inr (Or.inr ⟨c, rfl⟩)
  | work t c stmt hrun hphase statics hexec => exact h.work hphase hexec
  | assertion t c stmt hrun hphase e hexec => exact ⟨h.before, h.made, h.early, h.holder⟩
  | take t c hrun hphase m hmutex hfree => exact h.take hphase hmutex hfree
  | takeNull t c hrun hphase hmutex => exact ⟨h.before, h.made, h.early, h.holder⟩
  | give t c hrun hphase m hmutex r hcall => exact h.give hphase hmutex hcall

theorem steps_inv (hsteps : Steps w w') (h : w.Inv) : w'.Inv := by
  induction hsteps with
  | refl => exact h
  | tail _ hstep ih => exact hstep.inv ih

/-- What the steps of states with the invariant keep. -/
theorem steps_keep {P : InitWorld τ → Prop}
    (hkeep : ∀ {v v' : InitWorld τ}, Step v v' → v.Inv → P v → P v') (hsteps : Steps w w')
    (hinv : w.Inv) (h : P w) : P w' := by
  induction hsteps with
  | refl => exact h
  | tail hsteps hstep ih => exact hkeep hstep (steps_inv hsteps hinv) ih

/-! ## One task in the first call -/

/-- No other task is in `initialize()`. -/
def Alone (w : InitWorld τ) (t : τ) : Prop := ∀ u, u ≠ t → ¬ w.Initializing u

/-- What the tasks in `initialize()` leave as long as no mutex has been created, and the first one
that creates it, where no other task is in `initialize()`. -/
structure Stage (w : InitWorld τ) : Prop where
  crash : w.crashed = true → w.statics.created = 0 ∨ ∃ t, w.Initializing t
  calls : w.statics.created = 0 → w.calls = []
  untouched : w.statics.created = 0 → (∀ t, ¬ w.Initializing t) → w.statics.buffer = Buffer.boot
  alone : w.statics.created = 0 → ∀ t c stmt, w.phase t = .initializing c stmt → w.Alone t →
    w.statics.buffer = stmt.before
  stored : w.statics.created = 1 → (∀ t, ¬ w.Initializing t) →
    callAll ⟨true, emptyTopics⟩ w.calls = .ok w.statics.buffer

omit [DecidableEq τ] in
theorem boot_stage : (boot τ).Stage := by
  refine ⟨?_, fun _ => rfl, fun _ _ => rfl, ?_, ?_⟩
  · intro hcrash
    exact absurd hcrash (by simp [boot])
  · intro _ t c stmt hphase
    exact absurd hphase (by simp [boot])
  · intro hone
    exact absurd hone (by simp [boot, Statics.boot])

omit [DecidableEq τ] in
theorem not_initializing_of {t : τ} {p : InitPhase} (hphase : w.phase t = p)
    (hp : ∀ c stmt, p ≠ .initializing c stmt) : ¬ w.Initializing t := by
  intro ⟨c, stmt, hc⟩
  exact hp c stmt (hphase.symm.trans hc)

theorem go_initializing {t : τ} {p : InitPhase} (hout : ¬ w.Initializing t)
    (hp : ∀ c stmt, p ≠ .initializing c stmt) (u : τ) (c : BufferCall) (stmt : Statement) :
    (w.go t p).phase u = .initializing c stmt ↔ w.phase u = .initializing c stmt := by
  by_cases hut : u = t
  · rw [hut, go_self]
    exact iff_of_false (hp c stmt) fun hc => hout ⟨c, stmt, hc⟩
  · rw [go_of_ne _ _ hut]

omit [DecidableEq τ] in
theorem initializing_congr (h : ∀ u c stmt, w'.phase u = .initializing c stmt ↔
    w.phase u = .initializing c stmt) (u : τ) : w'.Initializing u ↔ w.Initializing u := by
  simp only [Initializing, h]

omit [DecidableEq τ] in
/-- What is no step of a task in `initialize()` and ends no call. -/
theorem Stage.congr (h : w.Stage) (hstatics : w'.statics = w.statics) (hcalls : w'.calls = w.calls)
    (hrun : w'.crashed = false)
    (hphase : ∀ u c stmt, w'.phase u = .initializing c stmt ↔ w.phase u = .initializing c stmt) :
    w'.Stage := by
  have hinit := initializing_congr hphase
  refine ⟨fun hcrash => absurd (hrun.symm.trans hcrash) (by simp), ?_, ?_, ?_, ?_⟩
  · rw [hstatics, hcalls]
    exact h.calls
  · rw [hstatics]
    simp only [hinit]
    exact h.untouched
  · rw [hstatics]
    simp only [Alone, hinit, hphase]
    exact h.alone
  · rw [hstatics, hcalls]
    simp only [hinit]
    exact h.stored

theorem Alone.of_go {t u : τ} {p : InitPhase} (h : (w.go t p).Alone u)
    (ht : (w.go t p).Initializing t) : u = t ∧ w.Alone t := by
  have hut : u = t := by
    by_contra hne
    exact h t (Ne.symm hne) ht
  refine ⟨hut, ?_⟩
  intro v hvt ⟨c, stmt, hv⟩
  exact h v (hut ▸ hvt) ⟨c, stmt, by rw [go_of_ne _ _ hvt, hv]⟩

theorem Stage.missed (h : w.Stage) {t : τ} {c : BufferCall} (hrun : w.crashed = false)
    (hphase : w.phase t = .testing c) : (w.go t (.initializing c .raise)).Stage := by
  have ht : (w.go t (.initializing c .raise)).Initializing t := ⟨c, .raise, go_self ..⟩
  refine ⟨fun hcrash => absurd (hrun.symm.trans hcrash) (by simp), h.calls, ?_, ?_, ?_⟩
  · intro _ hnone
    exact absurd ht (hnone t)
  · intro hzero u d stmt hu halone
    obtain ⟨rfl, hothers⟩ := halone.of_go ht
    have hraise : stmt = .raise := by
      rw [go_self, InitPhase.initializing.injEq] at hu
      exact hu.2.symm
    subst hraise
    apply h.untouched hzero
    intro v
    by_cases hv : v = u
    · rw [hv]
      exact not_initializing_of hphase (by simp)
    · exact hothers v hv
  · intro _ hnone
    exact absurd ht (hnone t)

theorem exec_before {s s' : Statics} {stmt at' : Statement} (hnext : stmt.next = some at')
    (hbuffer : s.buffer = stmt.before) (h : stmt.exec s = .ok s') : s'.buffer = at'.before := by
  cases stmt with
  | raise =>
    obtain rfl := Option.some.inj hnext
    obtain rfl := Except.ok.inj h
    rw [hbuffer]
    rfl
  | clear =>
    obtain rfl := Option.some.inj hnext
    obtain rfl := Except.ok.inj h
    rw [hbuffer]
    rfl
  | allocate =>
    obtain rfl := Option.some.inj hnext
    rw [Statement.exec, hbuffer, Statement.before, emptyTopics_init] at h
    obtain rfl := Except.ok.inj h
    rfl
  | create => exact absurd hnext (by simp [Statement.next])

theorem Stage.work (h : w.Stage) {t : τ} {c : BufferCall} {stmt : Statement}
    (hrun : w.crashed = false) (hphase : w.phase t = .initializing c stmt) {statics : Statics}
    (hexec : stmt.exec w.statics = .ok statics) :
    (({ w with statics := statics } : InitWorld τ).go t
      (stmt.next.elim (.ready c) (.initializing c))).Stage := by
  have hcrash : ∀ {P : Prop}, w.crashed = true → P := fun hcrash =>
    absurd (hrun.symm.trans hcrash) (by simp)
  rcases exec_cases hexec with ⟨rfl, hcreated, -, hbuffer⟩ | ⟨hne, hcreated, -, -⟩
  · -- the mutex is created: the only task in `initialize()` leaves it
    have hpos : statics.created ≠ 0 := by omega
    refine ⟨hcrash, fun hzero => absurd hzero hpos, fun hzero => absurd hzero hpos,
      fun hzero => absurd hzero hpos, ?_⟩
    intro hone hnone
    have hzero : w.statics.created = 0 := Nat.succ.inj (hcreated.symm.trans hone)
    have halone : w.Alone t := by
      intro u hut ⟨d, stmt, hu⟩
      exact hnone u ⟨d, stmt, (go_of_ne _ _ hut).trans hu⟩
    change callAll ⟨true, emptyTopics⟩ w.calls = .ok statics.buffer
    rw [h.calls hzero, hbuffer, h.alone hzero t c .create hphase halone]
    rfl
  · obtain ⟨at', hnext⟩ : ∃ at', stmt.next = some at' := by
      cases stmt with
      | create => exact absurd rfl hne
      | raise | clear | allocate => exact ⟨_, rfl⟩
    rw [hnext]
    have ht : (({ w with statics := statics } : InitWorld τ).go t
        (.initializing c at')).Initializing t := ⟨c, at', go_self ..⟩
    refine ⟨hcrash, fun hzero => h.calls (hcreated.symm.trans hzero), ?_, ?_, ?_⟩
    · intro _ hnone
      exact absurd ht (hnone t)
    · intro hzero u d stmt' hu halone
      obtain ⟨rfl, hothers⟩ := halone.of_go ht
      have hat : stmt' = at' := by
        rw [Option.elim, go_self, InitPhase.initializing.injEq] at hu
        exact hu.2.symm
      subst hat
      exact exec_before hnext (h.alone (hcreated.symm.trans hzero) u c stmt hphase hothers) hexec
    · intro _ hnone
      exact absurd ht (hnone t)

theorem Stage.give (h : w.Stage) (hinv : w.Inv) {t : τ} {c : BufferCall} (hrun : w.crashed = false)
    (hphase : w.phase t = .inside c) {m : Nat} (hmutex : w.statics.mutex = some m)
    {r : Buffer × BufferReply} (hcall : c.alone w.statics.buffer = .ok r) :
    (({ w with
      statics := { w.statics with buffer := r.1 }
      holder := Function.update w.holder m none
      calls := w.calls ++ [c] } : InitWorld τ).go t .out).Stage := by
  have hpos : w.statics.created ≠ 0 := by
    intro hzero
    exact absurd (hmutex.symm.trans (hinv.before hzero).1) (by simp)
  refine ⟨fun hcrash => absurd (hrun.symm.trans hcrash) (by simp), fun hzero => absurd hzero hpos,
    fun hzero => absurd hzero hpos, fun hzero => absurd hzero hpos, ?_⟩
  intro hone hnone
  have hout : ¬ w.Initializing t := not_initializing_of hphase (by simp)
  have hnone' : ∀ u, ¬ w.Initializing u := by
    intro u ⟨d, stmt, hu⟩
    exact hnone u ⟨d, stmt, (go_initializing hout (by simp) u d stmt).mpr hu⟩
  change callAll ⟨true, emptyTopics⟩ (w.calls ++ [c]) = .ok r.1
  rw [callAll_concat, h.stored hone hnone', Runs.ok_bind, hcall]
  rfl

theorem Step.stage (hstep : Step w w') (hinv : w.Inv) (h : w.Stage) : w'.Stage := by
  cases hstep with
  | call t c hrun hphase =>
    exact h.congr rfl rfl hrun (go_initializing (not_initializing_of hphase (by simp)) (by simp))
  | found t c hrun hphase htest =>
    exact h.congr rfl rfl hrun (go_initializing (not_initializing_of hphase (by simp)) (by simp))
  | missed t c hrun hphase htest => exact h.missed hrun hphase
  | work t c stmt hrun hphase statics hexec => exact h.work hrun hphase hexec
  | assertion t c stmt hrun hphase e hexec =>
    exact ⟨fun _ => Or.inr ⟨t, c, stmt, hphase⟩, h.calls, h.untouched, h.alone, h.stored⟩
  | take t c hrun hphase m hmutex hfree =>
    exact h.congr rfl rfl hrun (go_initializing (not_initializing_of hphase (by simp)) (by simp))
  | takeNull t c hrun hphase hmutex =>
    have hzero : w.statics.created = 0 := by
      by_contra hpos
      have hmade := (hinv.made (Nat.pos_of_ne_zero hpos)).1
      exact absurd (hmutex.symm.trans hmade) (by simp)
    exact ⟨fun _ => Or.inl hzero, h.calls, h.untouched, h.alone, h.stored⟩
  | give t c hrun hphase m hmutex r hcall => exact h.give hinv hrun hphase hmutex hcall

theorem steps_stage (hsteps : Steps w w') (hinv : w.Inv) (h : w.Stage) : w'.Stage :=
  steps_keep Step.stage hsteps hinv h

/-! ## Initialized for good -/

/-- One mutex has been created, and no task is in `initialize()`. -/
structure Settled (w : InitWorld τ) : Prop where
  created : w.statics.created = 1
  past : ∀ t, ¬ w.Initializing t

omit [DecidableEq τ] in
theorem Settled.safe (h : w.Settled) (hinv : w.Inv) (hstage : w.Stage) : w.Safe := by
  refine ⟨?_, by rw [h.created], ?_, fun _ => hstage.stored h.created h.past⟩
  · by_contra hcrash
    rcases hstage.crash (Bool.eq_true_of_not_eq_false hcrash) with hzero | ⟨t, ht⟩
    · exact absurd (h.created.symm.trans hzero) (by decide)
    · exact h.past t ht
  · intro t u ht hu
    have hle : w.statics.created ≤ 1 := by rw [h.created]
    have hholder := (hinv.holder hle t).mpr ht
    have hother := (hinv.holder hle u).mpr hu
    exact Option.some.inj (hholder.symm.trans hother)

/-- Where no task is in `initialize()` and `initialized` is set, none gets into it. -/
theorem Step.settled (hstep : Step w w') (hinv : w.Inv) (h : w.Settled) : w'.Settled := by
  have htrue := (hinv.made (by rw [h.created]; decide)).2
  have hpast : ∀ {v : InitWorld τ} {t : τ} {p : InitPhase}, v.phase = w.phase →
      (∀ c stmt, p ≠ .initializing c stmt) → ∀ u, ¬ (v.go t p).Initializing u := by
    intro v t p hv hp u ⟨c, stmt, hu⟩
    have hout : ¬ v.Initializing t := by
      rw [Initializing, hv]
      exact h.past t
    rw [go_initializing hout hp, hv] at hu
    exact h.past u ⟨c, stmt, hu⟩
  cases hstep with
  | call t c hrun hphase => exact ⟨h.created, hpast rfl (by simp)⟩
  | found t c hrun hphase htest => exact ⟨h.created, hpast rfl (by simp)⟩
  | missed t c hrun hphase htest => exact absurd (htrue.symm.trans htest) (by simp)
  | work t c stmt hrun hphase statics hexec => exact absurd ⟨c, stmt, hphase⟩ (h.past t)
  | assertion t c stmt hrun hphase e hexec => exact absurd ⟨c, stmt, hphase⟩ (h.past t)
  | take t c hrun hphase m hmutex hfree => exact ⟨h.created, hpast rfl (by simp)⟩
  | takeNull t c hrun hphase hmutex => exact ⟨h.created, h.past⟩
  | give t c hrun hphase m hmutex r hcall => exact ⟨h.created, hpast rfl (by simp)⟩

theorem steps_settled (hsteps : Steps w w') (hinv : w.Inv) (h : w.Settled) : w'.Settled :=
  steps_keep Step.settled hsteps hinv h

/-! ## What can happen before -/

theorem exists_work (hrun : w.crashed = false) {t : τ} {c : BufferCall} {stmt : Statement}
    (hphase : w.phase t = .initializing c stmt) :
    ∃ w', Step w w' ∧ (w'.crashed = true ∨ w'.crashed = false ∧
      w'.phase t = stmt.next.elim (.ready c) (.initializing c) ∧
      w'.statics.created = w.statics.created + (if stmt.next.isSome then 0 else 1) ∧
      ∀ u, u ≠ t → w'.phase u = w.phase u) := by
  rcases hexec : stmt.exec w.statics with e | statics
  · exact ⟨_, .assertion w t c stmt hrun hphase e hexec, Or.inl rfl⟩
  · refine ⟨_, .work w t c stmt hrun hphase statics hexec, Or.inr ⟨hrun, go_self .., ?_, ?_⟩⟩
    · change statics.created = _
      rcases exec_cases hexec with ⟨rfl, hcreated, -⟩ | ⟨hne, hcreated, -⟩
      · rw [hcreated]
        rfl
      · rw [hcreated]
        cases stmt with
        | create => exact absurd rfl hne
        | raise | clear | allocate => rfl
    · intro u hut
      exact go_of_ne _ _ hut

/-- A task in `initialize()` can go on to its end, and then another mutex has been created, unless an
assertion fails. -/
theorem exists_create (hrun : w.crashed = false) {t : τ} (h : w.Initializing t) :
    ∃ w', Steps w w' ∧ (w'.crashed = true ∨ w'.crashed = false ∧
      w'.statics.created = w.statics.created + 1 ∧ ∀ u, u ≠ t → w'.phase u = w.phase u) := by
  obtain ⟨c, stmt, hphase⟩ := h
  -- the statements left
  induction hn : stmt.rest.length generalizing w stmt with
  | zero => cases stmt <;> simp [Statement.rest] at hn
  | succ n ih =>
    obtain ⟨w₁, hstep, hcrash | ⟨hrun₁, hphase₁, hcreated, hothers⟩⟩ := exists_work hrun hphase
    · exact ⟨w₁, .single hstep, Or.inl hcrash⟩
    · rcases hnext : stmt.next with _ | at'
      · rw [hnext] at hcreated
        exact ⟨w₁, .single hstep, Or.inr ⟨hrun₁, hcreated, hothers⟩⟩
      · rw [hnext] at hphase₁ hcreated
        have hrest : at'.rest.length = n := by
          cases stmt <;> cases hnext <;> simp_all [Statement.rest]
        obtain ⟨w', hsteps, hend⟩ := ih hrun₁ at' hphase₁ hrest
        refine ⟨w', .head hstep hsteps, ?_⟩
        rcases hend with hcrash | ⟨hrun', hcreated', hothers'⟩
        · exact Or.inl hcrash
        · refine Or.inr ⟨hrun', by rw [hcreated', hcreated]; simp, ?_⟩
          intro u hut
          rw [hothers' u hut, hothers u hut]

theorem exists_unsafe (hrun : w.crashed = false) {t u : τ} (hne : t ≠ u) (ht : w.Initializing t)
    (hu : w.Initializing u) : ∃ w', Steps w w' ∧ ¬ w'.Safe := by
  obtain ⟨w₁, hsteps₁, hcrash | ⟨hrun₁, hcreated₁, hothers⟩⟩ := exists_create hrun ht
  · exact ⟨w₁, hsteps₁, fun hsafe => absurd (hcrash.symm.trans hsafe.running) (by simp)⟩
  · obtain ⟨c, stmt, hphase⟩ := hu
    have hu₁ : w₁.Initializing u := ⟨c, stmt, by rw [hothers u hne.symm, hphase]⟩
    obtain ⟨w₂, hsteps₂, hcrash | ⟨-, hcreated₂, -⟩⟩ := exists_create hrun₁ hu₁
    · exact ⟨w₂, hsteps₁.trans hsteps₂, fun hsafe =>
        absurd (hcrash.symm.trans hsafe.running) (by simp)⟩
    · refine ⟨w₂, hsteps₁.trans hsteps₂, ?_⟩
      intro hsafe
      have hle := hsafe.single
      omega

theorem exists_crash (hrun : w.crashed = false) (hmutex : w.statics.mutex = none)
    (htrue : w.statics.buffer.initialized = true) {t : τ} (hinit : ¬ w.Initializing t)
    (hin : ¬ w.Inside t) : ∃ w', Steps w w' ∧ ¬ w'.Safe := by
  have hready : ∀ (v : InitWorld τ) (c : BufferCall), v.crashed = false → v.statics.mutex = none →
      v.phase t = .ready c → ∃ w', Steps v w' ∧ ¬ w'.Safe := by
    intro v c hv hnull hphase
    refine ⟨_, .single (.takeNull v t c hv hphase hnull), ?_⟩
    intro hsafe
    exact absurd hsafe.running (by simp)
  have htesting : ∀ (v : InitWorld τ) (c : BufferCall), v.crashed = false →
      v.statics = w.statics → v.phase t = .testing c → ∃ w', Steps v w' ∧ ¬ w'.Safe := by
    intro v c hv hstatics hphase
    have hstep : Step v (v.go t (.ready c)) := .found v t c hv hphase (by rw [hstatics, htrue])
    obtain ⟨w', hsteps, hunsafe⟩ := hready (v.go t (.ready c)) c hv
      (by change v.statics.mutex = none; rw [hstatics, hmutex]) (go_self ..)
    exact ⟨w', .head hstep hsteps, hunsafe⟩
  cases hphase : w.phase t with
  | out =>
    let c : BufferCall := .dispalyAll
    have hstep : Step w (w.go t (.testing c)) := .call w t c hrun hphase
    obtain ⟨w', hsteps, hunsafe⟩ := htesting (w.go t (.testing c)) c hrun rfl (go_self ..)
    exact ⟨w', .head hstep hsteps, hunsafe⟩
  | testing c => exact htesting w c hrun rfl hphase
  | initializing c stmt => exact absurd ⟨c, stmt, hphase⟩ hinit
  | ready c => exact hready w c hrun hmutex hphase
  | inside c => exact absurd ⟨c, hphase⟩ hin

/-- Before `initialized` is set every task can get into `initialize()`. -/
theorem exists_missed (hrun : w.crashed = false) (hfalse : w.statics.buffer.initialized = false)
    {t : τ} (h : w.Early t) : ∃ w', Steps w w' ∧ w'.Initializing t ∧ w'.statics = w.statics ∧
      w'.crashed = false ∧ ∀ u, u ≠ t → w'.phase u = w.phase u := by
  have htesting : ∀ (v : InitWorld τ) (c : BufferCall), v.crashed = false →
      v.statics = w.statics → v.phase t = .testing c → (∀ u, u ≠ t → v.phase u = w.phase u) →
      ∃ w', Steps v w' ∧ w'.Initializing t ∧ w'.statics = w.statics ∧
        w'.crashed = false ∧ ∀ u, u ≠ t → w'.phase u = w.phase u := by
    intro v c hv hstatics hphase hothers
    refine ⟨_, .single (.missed v t c hv hphase (by rw [hstatics, hfalse])),
      ⟨c, .raise, go_self ..⟩, hstatics, hv, ?_⟩
    intro u hut
    rw [go_of_ne _ _ hut, hothers u hut]
  rcases h with hout | ⟨c, htest⟩ | ⟨c, hraise⟩
  · let c : BufferCall := .dispalyAll
    have hstep : Step w (w.go t (.testing c)) := .call w t c hrun hout
    obtain ⟨w', hsteps, hend⟩ := htesting (w.go t (.testing c)) c hrun rfl (go_self ..)
      fun u hut => go_of_ne _ _ hut
    exact ⟨w', .head hstep hsteps, hend⟩
  · exact htesting w c hrun rfl htest fun _ _ => rfl
  · exact ⟨w, .refl, ⟨c, .raise, hraise⟩, rfl, hrun, fun _ _ => rfl⟩

theorem exists_unsafe_early (h : w.Inv) (hrun : w.crashed = false) (hzero : w.statics.created = 0)
    {t₀ t₁ : τ} (htasks : t₀ ≠ t₁) : ∃ w', Steps w w' ∧ ¬ w'.Safe := by
  obtain ⟨hmutex, hfree⟩ := h.before hzero
  have hout : ∀ t, ¬ w.Inside t := fun t hin => hfree t ((h.holder (by omega) t).mpr hin)
  cases htrue : w.statics.buffer.initialized with
  | true =>
    by_cases h₀ : w.Initializing t₀
    · by_cases h₁ : w.Initializing t₁
      · exact exists_unsafe hrun htasks h₀ h₁
      · exact exists_crash hrun hmutex htrue h₁ (hout t₁)
    · exact exists_crash hrun hmutex htrue h₀ (hout t₀)
  | false =>
    obtain ⟨w₁, hsteps₁, h₀, hstatics₁, hrun₁, -⟩ := exists_missed hrun htrue (h.early htrue t₀)
    have hfalse₁ : w₁.statics.buffer.initialized = false := by rw [hstatics₁, htrue]
    obtain ⟨w₂, hsteps₂, h₁, -, hrun₂, hothers₂⟩ := exists_missed hrun₁ hfalse₁
      ((steps_inv hsteps₁ h).early hfalse₁ t₁)
    obtain ⟨c, stmt, hphase⟩ := h₀
    have h₀ : w₂.Initializing t₀ := ⟨c, stmt, by rw [hothers₂ t₀ htasks, hphase]⟩
    obtain ⟨w', hsteps, hunsafe⟩ := exists_unsafe hrun₂ htasks h₀ h₁
    exact ⟨w', (hsteps₁.trans hsteps₂).trans hsteps, hunsafe⟩

theorem exists_settled (t : τ) (c : BufferCall) : ∃ w, Steps (boot τ) w ∧ w.Settled := by
  refine ⟨_, .head (.call (boot τ) t c rfl rfl)
    (.head (.missed _ t c rfl (go_self ..) rfl)
      (.head (.work _ t c .raise rfl (go_self ..) _ rfl)
        (.head (.work _ t c .clear rfl (go_self ..) _ rfl)
          (.head (.work _ t c .allocate rfl (go_self ..) _ rfl)
            (.single (.work _ t c .create rfl (go_self ..) _ rfl)))))), rfl, ?_⟩
  intro u ⟨d, stmt, hu⟩
  by_cases hut : u = t
  · rw [hut, go_self] at hu
    exact absurd hu (by simp [Statement.next])
  · simp only [go_of_ne _ _ hut] at hu
    exact absurd hu (by simp [boot])

/-- **From here on `initialize()` is safe** exactly if one mutex has been created and no task is in
`initialize()`. -/
theorem initialize_safe_iff {t₀ t₁ : τ} (htasks : t₀ ≠ t₁) (h : Steps (boot τ) w) :
    (∀ w', Steps w w' → w'.Safe) ↔
      w.statics.created = 1 ∧ ∀ t, ¬ w.Initializing t := by
  have hinv := steps_inv h boot_inv
  constructor
  · intro hforever
    have hsafe := hforever w .refl
    have hcreated : w.statics.created = 1 := by
      by_contra hne
      have hle := hsafe.single
      obtain ⟨w', hsteps, hunsafe⟩ := exists_unsafe_early hinv hsafe.running (by omega) htasks
      exact hunsafe (hforever w' hsteps)
    refine ⟨hcreated, ?_⟩
    intro t ht
    obtain ⟨w', hsteps, hcrash | ⟨-, hmore, -⟩⟩ := exists_create hsafe.running ht
    · exact absurd (hcrash.symm.trans (hforever w' hsteps).running) (by simp)
    · have hle := (hforever w' hsteps).single
      omega
  · intro hsettled w' hsteps
    have hpast := steps_settled hsteps hinv ⟨hsettled.1, hsettled.2⟩
    exact hpast.safe (steps_inv hsteps hinv) (steps_stage (h.trans hsteps) boot_inv boot_stage)

end

/-- At start-up it is not; once a first call has got through `initialize()` alone it is. -/
theorem initialize_unsafe_at_boot : (¬ ∀ w' : InitWorld Bool, Steps (boot Bool) w' → w'.Safe) ∧
    ∃ w : InitWorld Bool, Steps (boot Bool) w ∧ ∀ w', Steps w w' → w'.Safe := by
  have htasks : true ≠ false := by decide
  refine ⟨?_, ?_⟩
  · intro hforever
    have hcreated := ((initialize_safe_iff htasks (.refl (a := boot Bool))).mp hforever).1
    exact absurd hcreated (by decide)
  · obtain ⟨w, hsteps, hcreated, hpast⟩ := exists_settled true .dispalyAll
    exact ⟨w, hsteps, (initialize_safe_iff htasks hsteps).mpr ⟨hcreated, hpast⟩⟩

end InitWorld

end HomeAutomation
