import Mathlib.Data.List.Basic
import Mathlib.Logic.Function.Basic
import Mathlib.Logic.Relation

/-!
# Critical sections under one mutex

Any number of tasks make calls. A call is one critical section: the task waits for the mutex, makes
its accesses to the shared state one at a time, and gives the mutex back. Steps of the tasks are
interleaved in any order. `Reachable.sound` says that the sections are atomic: the shared state is
what the sections leave when each is run whole, in the order in which they were entered, and a
section's result is the one of that run.
-/

universe u

namespace Sections

variable {τ ι σ ρ : Type u}

/-- Accesses to the shared state, each of which decides what comes next by the state it finds, and a
result. -/
inductive Section (σ ρ : Type u) where
  | done (result : ρ)
  | access (f : σ → σ) (next : σ → Section σ ρ)

/-- The section run whole. -/
def Section.run : Section σ ρ → σ → σ × ρ
  | .done result, s => (s, result)
  | .access f next, s => (next s).run (f s)

/-! ## Sections that can fail

The shared state is an error once an access has failed; so is what every later section finds. -/

section
variable {ε α β : Type u}

/-- One access that can fail. -/
def Section.attempt (p : σ → Except ε (σ × α)) : Section (Except ε σ) (Except ε α) :=
  .access (fun s => s >>= fun m => (p m).map Prod.fst)
    fun s => .done (s >>= fun m => (p m).map Prod.snd)

/-- One section, then another with its result, unless it failed. -/
def Section.andThen (k : α → Section (Except ε σ) (Except ε β)) :
    Section (Except ε σ) (Except ε α) → Section (Except ε σ) (Except ε β)
  | .done (.error e) => .done (.error e)
  | .done (.ok a) => k a
  | .access f next => .access f fun s => (next s).andThen k

/-- Run whole, the section does what the fallible function `p` does. -/
def Section.Performs (sec : Section (Except ε σ) (Except ε α)) (p : σ → Except ε (σ × α)) : Prop :=
  (∀ m, sec.run (.ok m) = ((p m).map Prod.fst, (p m).map Prod.snd)) ∧
    ∀ e, (sec.run (.error e)).1 = .error e

theorem Section.performs_attempt (p : σ → Except ε (σ × α)) :
    (Section.attempt p).Performs p := ⟨fun _ => rfl, fun _ => rfl⟩

theorem Section.performs_done (a : α) :
    (Section.done (.ok a) : Section (Except ε σ) (Except ε α)).Performs fun m => .ok (m, a) :=
  ⟨fun _ => rfl, fun _ => rfl⟩

theorem Section.run_andThen (k : α → Section (Except ε σ) (Except ε β))
    (sec : Section (Except ε σ) (Except ε α)) (s : Except ε σ) :
    (sec.andThen k).run s = match sec.run s with
      | (s', .error e) => (s', .error e)
      | (s', .ok a) => (k a).run s' := by
  induction sec generalizing s with
  | done result => cases result <;> rfl
  | access f next ih => exact ih s (f s)

/-- Sections in sequence do what the functions do in sequence. -/
theorem Section.Performs.andThen {sec : Section (Except ε σ) (Except ε α)}
    {p : σ → Except ε (σ × α)} (h : sec.Performs p)
    {k : α → Section (Except ε σ) (Except ε β)} {q : α → σ → Except ε (σ × β)}
    (hk : ∀ a, (k a).Performs (q a)) :
    (sec.andThen k).Performs fun m => p m >>= fun r => q r.2 r.1 := by
  refine ⟨?_, ?_⟩
  · intro m
    rw [Section.run_andThen, h.1 m]
    beta_reduce
    rcases p m with e | ⟨m', a⟩
    · rfl
    · exact (hk a).1 m'
  · intro e
    have herror := h.2 e
    rw [Section.run_andThen]
    rcases hrun : sec.run (.error e) with ⟨s', e' | a⟩
    · rw [hrun] at herror
      exact herror
    · rw [hrun] at herror
      obtain rfl : s' = .error e := herror
      exact (hk a).2 e

theorem Section.Performs.congr {sec : Section (Except ε σ) (Except ε α)}
    {p q : σ → Except ε (σ × α)} (h : sec.Performs p) (hpq : ∀ m, p m = q m) : sec.Performs q := by
  obtain rfl : p = q := funext hpq
  exact h

end

/-! ## Tasks -/

/-- Where a task is in its call; `entry` counts the sections entered before its own. -/
inductive Phase (ι σ ρ : Type u) where
  | idle
  | waiting (call : ι)
  | inside (call : ι) (entry : Nat) (rest : Section σ ρ)
  | left (call : ι) (entry : Nat) (result : ρ)

/-- The shared state, the task that holds the mutex, the sections entered so far, and the tasks. -/
structure World (τ ι σ ρ : Type u) where
  shared : σ
  owner : Option τ
  entered : List (τ × ι)
  phase : τ → Phase ι σ ρ

/-- A task that is not in a call. -/
def Phase.Out : Phase ι σ ρ → Prop
  | .idle => True
  | .left _ _ _ => True
  | _ => False

section
variable [DecidableEq τ]

/-- The task goes on to another phase. -/
def World.go (w : World τ ι σ ρ) (t : τ) (p : Phase ι σ ρ) : World τ ι σ ρ :=
  { w with phase := Function.update w.phase t p }

@[simp] theorem World.go_self (w : World τ ι σ ρ) (t : τ) (p : Phase ι σ ρ) :
    (w.go t p).phase t = p := Function.update_self ..

theorem World.go_of_ne (w : World τ ι σ ρ) {t u : τ} (p : Phase ι σ ρ) (h : u ≠ t) :
    (w.go t p).phase u = w.phase u := Function.update_of_ne h ..

variable (body : ι → Section σ ρ)

/-- The steps of the tasks. -/
inductive Step : World τ ι σ ρ → World τ ι σ ρ → Prop where
  | call (w : World τ ι σ ρ) (t : τ) (c : ι) (hout : (w.phase t).Out) :
      Step w (w.go t (.waiting c))
  | enter (w : World τ ι σ ρ) (t : τ) (c : ι) (hwaiting : w.phase t = .waiting c)
      (hfree : w.owner = none) :
      Step w (({ w with owner := some t, entered := w.entered ++ [(t, c)] } : World τ ι σ ρ).go t
        (.inside c w.entered.length (body c)))
  | access (w : World τ ι σ ρ) (t : τ) (c : ι) (n : Nat) (f : σ → σ) (next : σ → Section σ ρ)
      (hinside : w.phase t = .inside c n (.access f next)) :
      Step w (({ w with shared := f w.shared } : World τ ι σ ρ).go t (.inside c n (next w.shared)))
  | leave (w : World τ ι σ ρ) (t : τ) (c : ι) (n : Nat) (result : ρ)
      (hinside : w.phase t = .inside c n (.done result)) :
      Step w (({ w with owner := none } : World τ ι σ ρ).go t (.left c n result))

/-- Before any call. -/
def World.start (τ ι : Type u) {σ : Type u} (ρ : Type u) (s₀ : σ) : World τ ι σ ρ :=
  ⟨s₀, none, [], fun _ => .idle⟩

/-- Reached from the state `s₀`. -/
inductive Reachable (s₀ : σ) : World τ ι σ ρ → Prop where
  | start : Reachable s₀ (World.start τ ι ρ s₀)
  | step {w w' : World τ ι σ ρ} : Reachable s₀ w → Step body w w' → Reachable s₀ w'

end

variable (body : ι → Section σ ρ)

/-- What the sections leave, each run whole. -/
def after (s₀ : σ) (entered : List (τ × ι)) : σ :=
  entered.foldl (fun s e => ((body e.2).run s).1) s₀

theorem after_concat (s₀ : σ) (entered : List (τ × ι)) (e : τ × ι) :
    after body s₀ (entered ++ [e]) = ((body e.2).run (after body s₀ entered)).1 := by
  rw [after, List.foldl_append]
  rfl

/-- The sections entered so far explain the shared state and the results. -/
structure Sound (s₀ : σ) (w : World τ ι σ ρ) : Prop where
  free : w.owner = none → w.shared = after body s₀ w.entered
  held : ∀ t, w.owner = some t → ∃ c n rest, w.phase t = .inside c n rest
  inside : ∀ t c n rest, w.phase t = .inside c n rest → w.owner = some t ∧
    ∃ past, w.entered = past ++ [(t, c)] ∧ past.length = n ∧
      rest.run w.shared = (body c).run (after body s₀ past)
  left : ∀ t c n result, w.phase t = .left c n result →
    ∃ past later, w.entered = past ++ (t, c) :: later ∧ past.length = n ∧
      result = ((body c).run (after body s₀ past)).2

variable {body} {s₀ : σ}

theorem sound_start : Sound body s₀ (World.start τ ι ρ s₀) := by
  refine ⟨fun _ => rfl, ?_, ?_, ?_⟩
  · intro t h
    exact absurd h (by simp [World.start])
  · intro t c n rest h
    exact absurd h (by simp [World.start])
  · intro t c n result h
    exact absurd h (by simp [World.start])

theorem Sound.owner_ne {w : World τ ι σ ρ} (h : Sound body s₀ w) {t : τ}
    (hout : (w.phase t).Out) : w.owner ≠ some t := by
  intro howner
  obtain ⟨c, n, rest, hin⟩ := h.held t howner
  rw [hin] at hout
  exact hout

section
variable [DecidableEq τ] {w w' : World τ ι σ ρ}

theorem Sound.go (h : Sound body s₀ w) {t : τ} (hnot : w.owner ≠ some t) {c : ι} :
    Sound body s₀ (w.go t (.waiting c)) := by
  refine ⟨h.free, ?_, ?_, ?_⟩
  · intro u hu
    have hne : u ≠ t := fun e => hnot (e ▸ hu)
    rw [w.go_of_ne _ hne]
    exact h.held u hu
  · intro u d n rest hin
    by_cases hut : u = t
    · rw [hut, w.go_self] at hin
      exact absurd hin (by simp)
    · rw [w.go_of_ne _ hut] at hin
      exact h.inside u d n rest hin
  · intro u d n result hleft
    by_cases hut : u = t
    · rw [hut, w.go_self] at hleft
      exact absurd hleft (by simp)
    · rw [w.go_of_ne _ hut] at hleft
      exact h.left u d n result hleft

theorem Sound.enter (h : Sound body s₀ w) (hfree : w.owner = none) (t : τ) (c : ι) :
    Sound body s₀ (({ w with owner := some t, entered := w.entered ++ [(t, c)] } :
      World τ ι σ ρ).go t (.inside c w.entered.length (body c))) := by
  refine ⟨?_, ?_, ?_, ?_⟩
  · intro hnone
    exact absurd hnone (Option.some_ne_none _)
  · intro u hu
    obtain rfl : t = u := Option.some.inj hu
    exact ⟨c, w.entered.length, body c, World.go_self ..⟩
  · intro u d n rest hin
    by_cases hut : u = t
    · rw [hut, World.go_self, Phase.inside.injEq] at hin
      obtain ⟨rfl, rfl, rfl⟩ := hin
      rw [hut]
      exact ⟨rfl, w.entered, rfl, rfl, congrArg _ (h.free hfree)⟩
    · rw [World.go_of_ne _ _ hut] at hin
      have howner := (h.inside u d n rest hin).1
      exact absurd (hfree.symm.trans howner) (by simp)
  · intro u d n result hleft
    by_cases hut : u = t
    · rw [hut, World.go_self] at hleft
      exact absurd hleft (by simp)
    · rw [World.go_of_ne _ _ hut] at hleft
      obtain ⟨past, later, hentered, hn, hresult⟩ := h.left u d n result hleft
      refine ⟨past, later ++ [(t, c)], ?_, hn, hresult⟩
      change w.entered ++ [(t, c)] = _
      rw [hentered, List.append_assoc, List.cons_append]

/-- An access inside leaves what the rest of the section does with the new state. -/
theorem Sound.access (h : Sound body s₀ w) {t : τ} {c : ι} {n : Nat} {f : σ → σ}
    {next : σ → Section σ ρ} (hinside : w.phase t = .inside c n (.access f next)) :
    Sound body s₀ (({ w with shared := f w.shared } : World τ ι σ ρ).go t
      (.inside c n (next w.shared))) := by
  obtain ⟨howner, past, hentered, hn, hrun⟩ := h.inside t c n _ hinside
  refine ⟨?_, ?_, ?_, ?_⟩
  · intro hnone
    exact absurd (howner.symm.trans hnone) (by simp)
  · intro u hu
    obtain rfl : t = u := Option.some.inj (howner.symm.trans hu)
    exact ⟨c, n, next w.shared, World.go_self ..⟩
  · intro u d k rest hin
    by_cases hut : u = t
    · rw [hut, World.go_self, Phase.inside.injEq] at hin
      obtain ⟨rfl, rfl, rfl⟩ := hin
      rw [hut]
      exact ⟨howner, past, hentered, hn, hrun⟩
    · rw [World.go_of_ne _ _ hut] at hin
      have hother := (h.inside u d k rest hin).1
      exact absurd (Option.some.inj (hother.symm.trans howner)) hut
  · intro u d k result hleft
    by_cases hut : u = t
    · rw [hut, World.go_self] at hleft
      exact absurd hleft (by simp)
    · rw [World.go_of_ne _ _ hut] at hleft
      exact h.left u d k result hleft

theorem Sound.leave (h : Sound body s₀ w) {t : τ} {c : ι} {n : Nat} {result : ρ}
    (hinside : w.phase t = .inside c n (.done result)) :
    Sound body s₀ (({ w with owner := none } : World τ ι σ ρ).go t (.left c n result)) := by
  obtain ⟨howner, past, hentered, hn, hrun⟩ := h.inside t c n _ hinside
  refine ⟨?_, ?_, ?_, ?_⟩
  · intro _
    change w.shared = after body s₀ w.entered
    rw [hentered, after_concat, ← hrun]
    rfl
  · intro u hu
    exact absurd hu.symm (Option.some_ne_none _)
  · intro u d k rest hin
    by_cases hut : u = t
    · rw [hut, World.go_self] at hin
      exact absurd hin (by simp)
    · rw [World.go_of_ne _ _ hut] at hin
      have hother := (h.inside u d k rest hin).1
      exact absurd (Option.some.inj (hother.symm.trans howner)) hut
  · intro u d k r hleft
    by_cases hut : u = t
    · rw [hut, World.go_self, Phase.left.injEq] at hleft
      obtain ⟨rfl, rfl, rfl⟩ := hleft
      rw [hut]
      exact ⟨past, [], hentered, hn, by rw [← hrun]; rfl⟩
    · rw [World.go_of_ne _ _ hut] at hleft
      exact h.left u d k r hleft

theorem Step.sound (hstep : Step body w w') (h : Sound body s₀ w) : Sound body s₀ w' := by
  cases hstep with
  | call t c hout => exact h.go (h.owner_ne hout)
  | enter t c _ hfree => exact h.enter hfree t c
  | access t c n f next hinside => exact h.access hinside
  | leave t c n result hinside => exact h.leave hinside

/-- **Sections are atomic.** -/
theorem Reachable.sound (h : Reachable body s₀ w) : Sound body s₀ w := by
  induction h with
  | start => exact sound_start
  | step _ hstep ih => exact hstep.sound ih

theorem Step.entered_front (h : Step body w w') : w.entered <+: w'.entered := by
  cases h with
  | call t c _ => exact List.prefix_refl _
  | enter t c _ _ => exact List.prefix_append _ _
  | access t c n f next _ => exact List.prefix_refl _
  | leave t c n result _ => exact List.prefix_refl _

theorem entered_front (h : Relation.ReflTransGen (Step body) w w') : w.entered <+: w'.entered := by
  induction h with
  | refl => exact List.prefix_refl _
  | tail _ hstep ih => exact ih.trans hstep.entered_front

theorem Reachable.trans (h : Reachable body s₀ w) (hsteps : Relation.ReflTransGen (Step body) w w') :
    Reachable body s₀ w' := by
  induction hsteps with
  | refl => exact h
  | tail _ hstep ih => exact ih.step hstep

theorem steps_finish {t : τ} {c : ι} {n : Nat} {rest : Section σ ρ}
    (hinside : w.phase t = .inside c n rest) :
    Relation.ReflTransGen (Step body) w (({ w with
      shared := (rest.run w.shared).1
      owner := none } : World τ ι σ ρ).go t (.left c n (rest.run w.shared).2)) := by
  induction rest generalizing w with
  | done result => exact .single (.leave w t c n result hinside)
  | access f next ih =>
    have hrest := Relation.ReflTransGen.head (.access w t c n f next hinside)
      (ih w.shared (World.go_self ..))
    simp only [World.go, Function.update_idem] at hrest
    exact hrest

theorem steps_whole (hfree : w.owner = none) {t : τ} (hout : (w.phase t).Out) (c : ι) :
    Relation.ReflTransGen (Step body) w (({ w with
      shared := ((body c).run w.shared).1
      owner := none
      entered := w.entered ++ [(t, c)] } : World τ ι σ ρ).go t
        (.left c w.entered.length ((body c).run w.shared).2)) := by
  have hcall : Step body w (w.go t (.waiting c)) := .call w t c hout
  have henter := @Step.enter τ ι σ ρ _ body (w.go t (.waiting c)) t c (World.go_self ..) hfree
  have hwhole := Relation.ReflTransGen.head hcall (.head henter (steps_finish (World.go_self ..)))
  simp only [World.go, Function.update_idem] at hwhole
  exact hwhole

end

end Sections
