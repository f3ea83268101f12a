import Mathlib.Logic.Function.Basic
import Mathlib.Logic.Relation
import Mathlib.Data.List.Basic

/-!
# Tasks and several mutexes

Any number of tasks run codes: accesses to a shared state, each of which finds a value and can fail,
and takings and givings of mutexes. The steps of the tasks interleave in any order; a failed access
stops them all. Two rules for such programs:

* Mutexes that every code takes in the order of a rank and gives back last one first never hold a
  call up for good (`Reachable.can_finish`).
* What a code promises of its result it keeps in every interleaving, if it promises no more than what
  its steps establish and the steps of the others leave alone (`Reachable.valid`).
-/

namespace Locks

variable {τ μ ε σ ρ α β : Type}

/-- What a task has still to do. -/
inductive Code (μ ε σ ρ : Type) : Type 1 where
  | done (result : ρ)
  | take (m : μ) (next : Code μ ε σ ρ)
  | give (m : μ) (next : Code μ ε σ ρ)
  | access {α : Type} (p : σ → Except ε (σ × α)) (next : α → Code μ ε σ ρ)

namespace Code

def bind : Code μ ε σ α → (α → Code μ ε σ β) → Code μ ε σ β
  | .done a, k => k a
  | .take m next, k => .take m (next.bind k)
  | .give m next, k => .give m (next.bind k)
  | .access p next, k => .access p fun a => (next a).bind k

instance : Monad (Code μ ε σ) where
  pure := .done
  bind := Code.bind

/-- One access. -/
def attempt (p : σ → Except ε (σ × α)) : Code μ ε σ α := .access p .done

/-- An access that cannot fail. -/
def step (f : σ → σ × α) : Code μ ε σ α := attempt fun s => .ok (f s)

/-- The code between taking a mutex and giving it back. -/
def locked (m : μ) (c : Code μ ε σ α) : Code μ ε σ α :=
  .take m (c.bind fun a => .give m (.done a))

/-- The code with nobody else running. -/
def run : Code μ ε σ ρ → σ → Except ε (σ × ρ)
  | .done result, s => .ok (s, result)
  | .take _ next, s => next.run s
  | .give _ next, s => next.run s
  | .access p next, s => p s >>= fun r => (next r.2).run r.1

theorem run_bind (c : Code μ ε σ α) (k : α → Code μ ε σ β) (s : σ) :
    (c >>= k).run s = c.run s >>= fun r => (k r.2).run r.1 := by
  change (c.bind k).run s = _
  induction c generalizing s with
  | done a => rfl
  | take m next ih => exact ih s
  | give m next ih => exact ih s
  | access p next ih =>
    simp only [Code.bind, run]
    rcases p s with e | ⟨s', a⟩
    · rfl
    · exact ih a s'

@[simp] theorem run_pure (a : α) (s : σ) : (pure a : Code μ ε σ α).run s = .ok (s, a) := rfl

@[simp] theorem run_attempt (p : σ → Except ε (σ × α)) (s : σ) :
    (attempt p : Code μ ε σ α).run s = p s := by
  simp only [attempt, run]
  rcases p s with e | r <;> rfl

@[simp] theorem run_step (f : σ → σ × α) (s : σ) :
    (step f : Code μ ε σ α).run s = .ok (f s) := run_attempt _ _

@[simp] theorem run_locked (m : μ) (c : Code μ ε σ α) (s : σ) :
    (locked m c).run s = c.run s := by
  change (c >>= fun a => Code.give m (.done a)).run s = _
  rw [run_bind]
  rcases c.run s with e | r <;> rfl

end Code

/-! ## Tasks -/

/-- The shared state, or the failure that stopped the tasks; who holds which mutex; and what the
tasks have still to do. -/
structure World (τ μ ε σ ρ : Type) where
  shared : Except ε σ
  holder : μ → Option τ
  code : τ → Code μ ε σ ρ

section
variable [DecidableEq τ]

/-- The task goes on with another code. -/
def World.go (w : World τ μ ε σ ρ) (t : τ) (c : Code μ ε σ ρ) : World τ μ ε σ ρ :=
  { w with code := Function.update w.code t c }

@[simp] theorem World.go_self (w : World τ μ ε σ ρ) (t : τ) (c : Code μ ε σ ρ) :
    (w.go t c).code t = c := Function.update_self ..

theorem World.go_of_ne (w : World τ μ ε σ ρ) {t u : τ} (c : Code μ ε σ ρ) (h : u ≠ t) :
    (w.go t c).code u = w.code u := Function.update_of_ne h ..

end

section
variable [DecidableEq μ]

/-- The mutex changes hands. -/
def World.hand (w : World τ μ ε σ ρ) (m : μ) (o : Option τ) : World τ μ ε σ ρ :=
  { w with holder := Function.update w.holder m o }

@[simp] theorem World.hand_self (w : World τ μ ε σ ρ) (m : μ) (o : Option τ) :
    (w.hand m o).holder m = o := Function.update_self ..

theorem World.hand_of_ne (w : World τ μ ε σ ρ) {m n : μ} (o : Option τ) (h : n ≠ m) :
    (w.hand m o).holder n = w.holder n := Function.update_of_ne h ..

end

section
variable [DecidableEq τ] [DecidableEq μ]

/-- The steps of the tasks in their calls. -/
inductive Move : World τ μ ε σ ρ → World τ μ ε σ ρ → Prop where
  | take (w : World τ μ ε σ ρ) (s : σ) (hs : w.shared = .ok s) (t : τ) (m : μ)
      (next : Code μ ε σ ρ) (hcode : w.code t = .take m next) (hfree : w.holder m = none) :
      Move w ((w.hand m (some t)).go t next)
  | give (w : World τ μ ε σ ρ) (s : σ) (hs : w.shared = .ok s) (t : τ) (m : μ)
      (next : Code μ ε σ ρ) (hcode : w.code t = .give m next) :
      Move w ((w.hand m none).go t next)
  | access (w : World τ μ ε σ ρ) (s : σ) (hs : w.shared = .ok s) (t : τ) {α : Type}
      (p : σ → Except ε (σ × α)) (next : α → Code μ ε σ ρ) (hcode : w.code t = .access p next)
      (s' : σ) (a : α) (hp : p s = .ok (s', a)) :
      Move w (({ w with shared := .ok s' } : World τ μ ε σ ρ).go t (next a))
  | fault (w : World τ μ ε σ ρ) (s : σ) (hs : w.shared = .ok s) (t : τ) {α : Type}
      (p : σ → Except ε (σ × α)) (next : α → Code μ ε σ ρ) (hcode : w.code t = .access p next)
      (e : ε) (hp : p s = .error e) : Move w { w with shared := .error e }

/-- The steps of the tasks; `calls` are the codes that they can be called with. -/
inductive Step (calls : Code μ ε σ ρ → Prop) : World τ μ ε σ ρ → World τ μ ε σ ρ → Prop where
  | call (w : World τ μ ε σ ρ) (t : τ) (r : ρ) (hdone : w.code t = .done r) (c : Code μ ε σ ρ)
      (hcall : calls c) : Step calls w (w.go t c)
  | move {w w' : World τ μ ε σ ρ} (h : Move w w') : Step calls w w'

/-- Before any call. -/
def World.start (τ μ : Type) {ε σ ρ : Type} (s₀ : σ) (r₀ : ρ) : World τ μ ε σ ρ :=
  ⟨.ok s₀, fun _ => none, fun _ => .done r₀⟩

/-- Reached from the start. -/
inductive Reachable (calls : Code μ ε σ ρ → Prop) (s₀ : σ) (r₀ : ρ) : World τ μ ε σ ρ → Prop where
  | start : Reachable calls s₀ r₀ (World.start τ μ s₀ r₀)
  | step {w w' : World τ μ ε σ ρ} : Reachable calls s₀ r₀ w → Step calls w w' →
      Reachable calls s₀ r₀ w'

end

/-! ## What a task holds -/

/-- The task holds these mutexes and no others. -/
structure World.Holds (w : World τ μ ε σ ρ) (t : τ) (held : List μ) : Prop where
  nodup : held.Nodup
  mem : ∀ m, w.holder m = some t ↔ m ∈ held

theorem World.Holds.congr {w w' : World τ μ ε σ ρ} {t : τ} {held : List μ} (h : w.Holds t held)
    (hholder : w'.holder = w.holder) : w'.Holds t held :=
  ⟨h.nodup, by rw [hholder]; exact h.mem⟩

section
variable [DecidableEq μ] {w : World τ μ ε σ ρ} {t u : τ} {held : List μ} {m : μ}

theorem World.Holds.take (h : w.Holds t held) (hfree : w.holder m = none) :
    (w.hand m (some t)).Holds t (m :: held) := by
  have hnot : m ∉ held := by
    rw [← h.mem m, hfree]
    simp
  refine ⟨List.nodup_cons.mpr ⟨hnot, h.nodup⟩, ?_⟩
  intro n
  by_cases hnm : n = m
  · simp [hnm]
  · rw [w.hand_of_ne _ hnm, List.mem_cons, or_iff_right hnm]
    exact h.mem n

theorem World.Holds.give (h : w.Holds t (m :: held)) : (w.hand m none).Holds t held := by
  obtain ⟨hnot, hnodup⟩ := List.nodup_cons.mp h.nodup
  refine ⟨hnodup, ?_⟩
  intro n
  by_cases hnm : n = m
  · simp [hnm, hnot]
  · rw [w.hand_of_ne _ hnm, h.mem n, List.mem_cons, or_iff_right hnm]

theorem World.Holds.others (h : w.Holds u held) {o : Option τ} (hbefore : w.holder m ≠ some u)
    (hafter : o ≠ some u) : (w.hand m o).Holds u held := by
  refine ⟨h.nodup, ?_⟩
  intro n
  by_cases hnm : n = m
  · rw [hnm, w.hand_self, ← h.mem m]
    exact iff_of_false hafter hbefore
  · rw [w.hand_of_ne _ hnm]
    exact h.mem n

end

/-! ## The order of the mutexes -/

section
variable (rank : μ → Nat)

/-- The code, run by a task that holds `held`, takes mutexes above those it holds only, gives back
the last one first, and ends with `last`. -/
def Code.Ordered (last : List μ) : Code μ ε σ ρ → List μ → Prop
  | .done _, held => held = last
  | .take m next, held => (∀ n ∈ held, rank n < rank m) ∧ next.Ordered last (m :: held)
  | .give m next, held => ∃ rest, held = m :: rest ∧ next.Ordered last rest
  | .access _ next, held => ∀ a, (next a).Ordered last held

variable {rank}

theorem Code.Ordered.bind {c : Code μ ε σ α} {mid last held : List μ}
    (h : c.Ordered rank mid held) {k : α → Code μ ε σ β} (hk : ∀ a, (k a).Ordered rank last mid) :
    (c >>= k).Ordered rank last held := by
  change (c.bind k).Ordered rank last held
  induction c generalizing held with
  | done a =>
    obtain rfl : held = mid := h
    exact hk a
  | take m next ih => exact ⟨h.1, ih h.2⟩
  | give m next ih =>
    obtain ⟨rest, rfl, hrest⟩ := h
    exact ⟨rest, rfl, ih hrest⟩
  | access p next ih =>
    intro a
    exact ih a (h a)

theorem Code.ordered_pure (held : List μ) (a : α) :
    (pure a : Code μ ε σ α).Ordered rank held held := rfl

theorem Code.ordered_attempt (held : List μ) (p : σ → Except ε (σ × α)) :
    (Code.attempt p : Code μ ε σ α).Ordered rank held held := fun _ => rfl

theorem Code.Ordered.locked {c : Code μ ε σ α} {m : μ} {held : List μ}
    (h : c.Ordered rank (m :: held) (m :: held)) (hm : ∀ n ∈ held, rank n < rank m) :
    (Code.locked m c).Ordered rank held held := by
  refine ⟨hm, ?_⟩
  exact h.bind (k := fun a => .give m (.done a)) fun a => ⟨held, rfl, rfl⟩

variable (rank)

/-- The code of the task keeps to the order with what the task holds. -/
def World.InOrder (w : World τ μ ε σ ρ) (t : τ) : Prop :=
  ∃ held, (w.code t).Ordered rank [] held ∧ w.Holds t held

/-- A task that holds mutexes below the rank only. -/
def World.Below (w : World τ μ ε σ ρ) (n : Nat) (t : τ) : Prop :=
  ∀ m, w.holder m = some t → rank m < n

/-- The tasks that hold mutexes below the rank only are where they were. -/
def Spares (n : Nat) (w w' : World τ μ ε σ ρ) : Prop :=
  ∀ t, w.Below rank n t → w'.code t = w.code t ∧ ∀ m, w'.holder m = some t ↔ w.holder m = some t

variable {rank}

theorem Spares.refl (n : Nat) (w : World τ μ ε σ ρ) : Spares rank n w w :=
  fun _ _ => ⟨rfl, fun _ => Iff.rfl⟩

theorem Spares.trans {n : Nat} {w w' w'' : World τ μ ε σ ρ} (h : Spares rank n w w')
    (h' : Spares rank n w' w'') : Spares rank n w w'' := by
  intro t ht
  obtain ⟨hcode, hholder⟩ := h t ht
  obtain ⟨hcode', hholder'⟩ := h' t fun m hm => ht m ((hholder m).mp hm)
  exact ⟨hcode'.trans hcode, fun m => (hholder' m).trans (hholder m)⟩

theorem Spares.mono {n k : Nat} {w w' : World τ μ ε σ ρ} (h : Spares rank k w w') (hnk : n ≤ k) :
    Spares rank n w w' :=
  fun t ht => h t fun m hm => Nat.lt_of_lt_of_le (ht m hm) hnk

section
variable [DecidableEq τ] [DecidableEq μ] {w w' : World τ μ ε σ ρ}

/-- A task that takes a free mutex stays in order, and so do the others. -/
theorem inOrder_take (h : ∀ u, w.InOrder rank u) {t : τ} {m : μ} {next : Code μ ε σ ρ}
    (hcode : w.code t = .take m next) (hfree : w.holder m = none) (u : τ) :
    ((w.hand m (some t)).go t next).InOrder rank u := by
  obtain ⟨held, hordered, hheld⟩ := h u
  by_cases hut : u = t
  · subst hut
    rw [hcode] at hordered
    exact ⟨m :: held, by simpa using hordered.2, (hheld.take hfree).congr rfl⟩
  · refine ⟨held, by rwa [World.go_of_ne _ _ hut], (hheld.others ?_ ?_).congr rfl⟩
    · simp [hfree]
    · simpa using Ne.symm hut

/-- A task that gives a mutex has it, and every task stays in order. -/
theorem inOrder_give (h : ∀ u, w.InOrder rank u) {t : τ} {m : μ} {next : Code μ ε σ ρ}
    (hcode : w.code t = .give m next) :
    w.holder m = some t ∧ ∀ u, ((w.hand m none).go t next).InOrder rank u := by
  obtain ⟨held, hordered, hheld⟩ := h t
  rw [hcode] at hordered
  obtain ⟨rest, rfl, hrest⟩ := hordered
  have hholder : w.holder m = some t := (hheld.mem m).mpr (List.mem_cons_self ..)
  refine ⟨hholder, ?_⟩
  intro u
  by_cases hut : u = t
  · rw [hut]
    exact ⟨rest, by simpa using hrest, hheld.give.congr rfl⟩
  · obtain ⟨held, hordered, hheld⟩ := h u
    refine ⟨held, by rwa [World.go_of_ne _ _ hut], (hheld.others ?_ ?_).congr rfl⟩
    · simpa [hholder] using Ne.symm hut
    · simp

omit [DecidableEq μ] in
theorem inOrder_go (h : ∀ u, w.InOrder rank u) {t : τ} {c : Code μ ε σ ρ}
    (hc : ∀ held, (w.code t).Ordered rank [] held → c.Ordered rank [] held)
    {shared : Except ε σ} (u : τ) :
    (({ w with shared := shared } : World τ μ ε σ ρ).go t c).InOrder rank u := by
  obtain ⟨held, hordered, hheld⟩ := h u
  refine ⟨held, ?_, hheld.congr rfl⟩
  by_cases hut : u = t
  · subst hut
    rw [World.go_self]
    exact hc held hordered
  · rw [World.go_of_ne _ _ hut]
    exact hordered

theorem Move.inOrder (hmove : Move w w') (h : ∀ u, w.InOrder rank u) (u : τ) :
    w'.InOrder rank u := by
  cases hmove with
  | take s hs t m next hcode hfree => exact inOrder_take h hcode hfree u
  | give s hs t m next hcode => exact (inOrder_give h hcode).2 u
  | access s hs t p next hcode s' a hp =>
    apply inOrder_go h
    intro held hordered
    rw [hcode] at hordered
    exact hordered a
  | fault s hs t p next hcode e hp =>
    obtain ⟨held, hordered, hheld⟩ := h u
    exact ⟨held, hordered, hheld.congr rfl⟩

theorem moves_inOrder (hmoves : Relation.ReflTransGen Move w w') (h : ∀ u, w.InOrder rank u) :
    ∀ u, w'.InOrder rank u := by
  induction hmoves with
  | refl => exact h
  | tail _ hmove ih => exact hmove.inOrder ih

/-- The tasks have stopped. -/
def World.Halted (w : World τ μ ε σ ρ) : Prop := ∃ e, w.shared = .error e

omit [DecidableEq τ] [DecidableEq μ] in
theorem spares_of_step {u : τ} {m : μ} (hu : w.holder m = some u)
    (hcode : ∀ t, t ≠ u → w'.code t = w.code t)
    (hholder : ∀ t, t ≠ u → ∀ n, w'.holder n = some t ↔ w.holder n = some t) :
    Spares rank (rank m) w w' := by
  intro t ht
  have hne : t ≠ u := fun heq => Nat.lt_irrefl _ (ht m (heq ▸ hu))
  exact ⟨hcode t hne, hholder t hne⟩

theorem spares_take {u : τ} {m n : μ} (hu : w.holder m = some u) (hfree : w.holder n = none)
    (c : Code μ ε σ ρ) : Spares rank (rank m) w ((w.hand n (some u)).go u c) := by
  apply spares_of_step hu
  · intro t hne
    exact World.go_of_ne _ _ hne
  · intro t hne k
    by_cases hkn : k = n
    · rw [hkn, hfree]
      simp [World.go, Ne.symm hne]
    · exact iff_of_eq (congrArg (· = some t) (World.hand_of_ne w _ hkn))

theorem spares_give {u : τ} {m n : μ} (hu : w.holder m = some u) (hn : w.holder n = some u)
    (c : Code μ ε σ ρ) : Spares rank (rank m) w ((w.hand n none).go u c) := by
  apply spares_of_step hu
  · intro t hne
    exact World.go_of_ne _ _ hne
  · intro t hne k
    by_cases hkn : k = n
    · rw [hkn, hn]
      simp [World.go, Ne.symm hne]
    · exact iff_of_eq (congrArg (· = some t) (World.hand_of_ne w _ hkn))

/-- A task that waits for a mutex finds it free once whoever holds it has given it back, and neither
the task nor those that hold lower mutexes only need move for that. -/
theorem exists_free (h : ∀ u, w.InOrder rank u) {u : τ} {n : μ} {next : Code μ ε σ ρ}
    (hcode : w.code u = .take n next) (hrelease : ∀ v, w.holder n = some v →
      ∃ w', Relation.ReflTransGen Move w w' ∧
        (w'.Halted ∨ w'.holder n = none ∧ Spares rank (rank n) w w')) :
    w.Below rank (rank n) u ∧ ∃ w', Relation.ReflTransGen Move w w' ∧
      (w'.Halted ∨ w'.code u = .take n next ∧ w'.holder n = none ∧ Spares rank (rank n) w w') := by
  obtain ⟨held, hordered, hheld⟩ := h u
  rw [hcode] at hordered
  have hbelow : w.Below rank (rank n) u := fun m hm => hordered.1 m ((hheld.mem m).mp hm)
  refine ⟨hbelow, ?_⟩
  rcases hholder : w.holder n with _ | v
  · exact ⟨w, .refl, Or.inr ⟨hcode, hholder, Spares.refl _ w⟩⟩
  · obtain ⟨w', hmoves, hend⟩ := hrelease v hholder
    refine ⟨w', hmoves, ?_⟩
    rcases hend with hhalted | ⟨hfree, hspares⟩
    · exact Or.inl hhalted
    · exact Or.inr ⟨(hspares u hbelow).1.trans hcode, hfree, hspares⟩

/-- The holder of a mutex can go on until it has given it back, and the tasks that hold lower
mutexes only need not move for that. -/
theorem exists_release {bound : Nat} (hbound : ∀ m, rank m < bound)
    (h : ∀ u, w.InOrder rank u) {m : μ} {u : τ} (hu : w.holder m = some u) :
    ∃ w', Relation.ReflTransGen Move w w' ∧
      (w'.Halted ∨ w'.holder m = none ∧ Spares rank (rank m) w w') := by
  -- the holder may have to wait for a mutex of a higher rank first
  induction hk : bound - rank m using Nat.strongRecOn generalizing w m u with
  | _ k ih =>
  generalize hcode : w.code u = c
  induction c generalizing w with
  | done r =>
    obtain ⟨held, hordered, hheld⟩ := h u
    rw [hcode] at hordered
    obtain rfl : held = [] := hordered
    exact absurd ((hheld.mem m).mp hu) List.not_mem_nil
  | take n next ihc =>
    obtain ⟨held, hordered, hheld⟩ := h u
    rw [hcode] at hordered
    have hmn : rank m < rank n := hordered.1 m ((hheld.mem m).mp hu)
    have hne : m ≠ n := fun heq => Nat.lt_irrefl _ (heq ▸ hmn)
    have hlt : bound - rank n < k := by
      have hn := hbound n
      omega
    -- once the mutex is free the task takes it and goes on
    obtain ⟨hbelow, w₁, hmoves, hend⟩ := exists_free h hcode fun v hholder => ih _ hlt h hholder rfl
    rcases hend with hhalted | ⟨hcode₁, hfree, hspares⟩
    · exact ⟨w₁, hmoves, Or.inl hhalted⟩
    rcases hs : w₁.shared with e | s
    · exact ⟨w₁, hmoves, Or.inl ⟨e, hs⟩⟩
    have hu₁ : w₁.holder m = some u := ((hspares u hbelow).2 m).mpr hu
    have hmove := Move.take w₁ s hs u n next hcode₁ hfree
    obtain ⟨w', hmoves', hend'⟩ := ihc (w := (w₁.hand n (some u)).go u next)
      (hmove.inOrder (moves_inOrder hmoves h)) ((World.hand_of_ne w₁ _ hne).trans hu₁)
      (World.go_self ..)
    refine ⟨w', hmoves.trans (.head hmove hmoves'), ?_⟩
    rcases hend' with hhalted | ⟨hnone, hspares'⟩
    · exact Or.inl hhalted
    · have hfirst := (hspares.mono (Nat.le_of_lt hmn)).trans (spares_take hu₁ hfree next)
      exact Or.inr ⟨hnone, hfirst.trans hspares'⟩
  | give n next ihc =>
    rcases hs : w.shared with e | s
    · exact ⟨w, .refl, Or.inl ⟨e, hs⟩⟩
    have hmove := Move.give w s hs u n next hcode
    obtain ⟨hn, h₁⟩ := inOrder_give h hcode
    by_cases hmn : m = n
    · refine ⟨_, .single hmove, Or.inr ⟨?_, spares_give hu hn next⟩⟩
      rw [hmn]
      exact World.hand_self ..
    · obtain ⟨w', hmoves, hend⟩ := ihc (w := (w.hand n none).go u next) h₁
        ((World.hand_of_ne w _ hmn).trans hu) (World.go_self ..)
      refine ⟨w', .head hmove hmoves, ?_⟩
      rcases hend with hhalted | ⟨hnone, hspares⟩
      · exact Or.inl hhalted
      · exact Or.inr ⟨hnone, (spares_give hu hn next).trans hspares⟩
  | access p next ihc =>
    rcases hs : w.shared with e | s
    · exact ⟨w, .refl, Or.inl ⟨e, hs⟩⟩
    rcases hp : p s with e | ⟨s', a⟩
    · exact ⟨_, .single (.fault w s hs u p next hcode e hp), Or.inl ⟨e, rfl⟩⟩
    have hmove := Move.access w s hs u p next hcode s' a hp
    obtain ⟨w', hmoves, hend⟩ := ihc a
      (w := ({ w with shared := .ok s' } : World τ μ ε σ ρ).go u (next a)) (hmove.inOrder h) hu
      (World.go_self ..)
    refine ⟨w', .head hmove hmoves, ?_⟩
    rcases hend with hhalted | ⟨hnone, hspares⟩
    · exact Or.inl hhalted
    · have hfirst : Spares rank (rank m) w
          (({ w with shared := .ok s' } : World τ μ ε σ ρ).go u (next a)) := by
        apply spares_of_step hu
        · intro t hne
          exact World.go_of_ne _ _ hne
        · intro t _ n
          exact Iff.rfl
      exact Or.inr ⟨hnone, hfirst.trans hspares⟩

theorem exists_finish {bound : Nat} (hbound : ∀ m, rank m < bound) (h : ∀ u, w.InOrder rank u)
    (t : τ) : ∃ w', Relation.ReflTransGen Move w w' ∧
      (w'.Halted ∨ ∃ r, w'.code t = .done r) := by
  generalize hcode : w.code t = c
  induction c generalizing w with
  | done r => exact ⟨w, .refl, Or.inr ⟨r, hcode⟩⟩
  | take n next ihc =>
    obtain ⟨-, w₁, hmoves, hend⟩ := exists_free h hcode fun v => exists_release hbound h
    rcases hend with hhalted | ⟨hcode₁, hfree, -⟩
    · exact ⟨w₁, hmoves, Or.inl hhalted⟩
    rcases hs : w₁.shared with e | s
    · exact ⟨w₁, hmoves, Or.inl ⟨e, hs⟩⟩
    have hmove := Move.take w₁ s hs t n next hcode₁ hfree
    obtain ⟨w', hmoves', hend'⟩ := ihc (w := (w₁.hand n (some t)).go t next)
      (hmove.inOrder (moves_inOrder hmoves h)) (World.go_self ..)
    exact ⟨w', hmoves.trans (.head hmove hmoves'), hend'⟩
  | give n next ihc =>
    rcases hs : w.shared with e | s
    · exact ⟨w, .refl, Or.inl ⟨e, hs⟩⟩
    have hmove := Move.give w s hs t n next hcode
    obtain ⟨w', hmoves, hend⟩ := ihc (w := (w.hand n none).go t next) (hmove.inOrder h)
      (World.go_self ..)
    exact ⟨w', .head hmove hmoves, hend⟩
  | access p next ihc =>
    rcases hs : w.shared with e | s
    · exact ⟨w, .refl, Or.inl ⟨e, hs⟩⟩
    rcases hp : p s with e | ⟨s', a⟩
    · exact ⟨_, .single (.fault w s hs t p next hcode e hp), Or.inl ⟨e, rfl⟩⟩
    have hmove := Move.access w s hs t p next hcode s' a hp
    obtain ⟨w', hmoves, hend⟩ := ihc a
      (w := ({ w with shared := .ok s' } : World τ μ ε σ ρ).go t (next a)) (hmove.inOrder h)
      (World.go_self ..)
    exact ⟨w', .head hmove hmoves, hend⟩

variable {calls : Code μ ε σ ρ → Prop} {s₀ : σ} {r₀ : ρ}

theorem Reachable.moves (h : Reachable calls s₀ r₀ w)
    (hmoves : Relation.ReflTransGen Move w w') : Reachable calls s₀ r₀ w' := by
  induction hmoves with
  | refl => exact h
  | tail _ hmove ih => exact ih.step (.move hmove)

theorem Reachable.inOrder (hcalls : ∀ c, calls c → c.Ordered rank [] [])
    (h : Reachable calls s₀ r₀ w) : ∀ t, w.InOrder rank t := by
  induction h with
  | start =>
    intro t
    exact ⟨[], rfl, ⟨.nil, by simp [World.start]⟩⟩
  | step _ hstep ih =>
    cases hstep with
    | move hmove => exact hmove.inOrder ih
    | call t r hdone c hcall =>
      apply inOrder_go ih
      intro held hheld
      rw [hdone] at hheld
      obtain rfl : held = [] := hheld
      exact hcalls c hcall

/-- While no other task holds a mutex, a task can go through its call alone. -/
theorem exists_run {last held : List μ} {t : τ} {c : Code μ ε σ ρ} (hcode : w.code t = c)
    (hordered : c.Ordered rank last held) (hheld : w.Holds t held)
    (halone : ∀ m u, w.holder m = some u → u = t) {s s' : σ} {r : ρ} (hs : w.shared = .ok s)
    (hrun : c.run s = .ok (s', r)) :
    ∃ w', Relation.ReflTransGen Move w w' ∧ w'.shared = .ok s' ∧ w'.code t = .done r := by
  induction c generalizing w held s with
  | done r' =>
    rw [Code.run, Except.ok.injEq, Prod.mk.injEq] at hrun
    obtain ⟨rfl, rfl⟩ := hrun
    exact ⟨w, .refl, hs, hcode⟩
  | take m next ih =>
    have hfree : w.holder m = none := by
      rcases hholder : w.holder m with _ | u
      · rfl
      · obtain rfl := halone m u hholder
        exact absurd (hordered.1 m ((hheld.mem m).mp hholder)) (Nat.lt_irrefl _)
    obtain ⟨w', hmoves, hend⟩ := ih (w := (w.hand m (some t)).go t next) (World.go_self ..)
      hordered.2 ((hheld.take hfree).congr rfl) (by
        intro n u hn
        by_cases hnm : n = m
        · rw [hnm] at hn
          exact (Option.some.inj ((w.hand_self m _).symm.trans hn)).symm
        · exact halone n u ((w.hand_of_ne _ hnm).symm.trans hn)) hs hrun
    exact ⟨w', .head (.take w s hs t m next hcode hfree) hmoves, hend⟩
  | give m next ih =>
    obtain ⟨rest, rfl, hrest⟩ := hordered
    obtain ⟨w', hmoves, hend⟩ := ih (w := (w.hand m none).go t next) (World.go_self ..) hrest
      (hheld.give.congr rfl) (by
        intro n u hn
        by_cases hnm : n = m
        · rw [hnm] at hn
          exact absurd ((w.hand_self m _).symm.trans hn) (by simp)
        · exact halone n u ((w.hand_of_ne _ hnm).symm.trans hn)) hs hrun
    exact ⟨w', .head (.give w s hs t m next hcode) hmoves, hend⟩
  | access p next ih =>
    rw [Code.run] at hrun
    rcases hp : p s with e | ⟨s₁, a⟩
    · rw [hp] at hrun
      exact absurd hrun (by simp [bind, Except.bind])
    · rw [hp] at hrun
      obtain ⟨w', hmoves, hend⟩ := ih a
        (w := ({ w with shared := .ok s₁ } : World τ μ ε σ ρ).go t (next a)) (World.go_self ..)
        (hordered a) (hheld.congr rfl) halone rfl hrun
      exact ⟨w', .head (.access w s hs t p next hcode s₁ a hp) hmoves, hend⟩

/-- **No call is held up for good.** -/
theorem Reachable.can_finish {bound : Nat} (hbound : ∀ m, rank m < bound)
    (hcalls : ∀ c, calls c → c.Ordered rank [] []) (h : Reachable calls s₀ r₀ w) (t : τ) :
    ∃ w', Relation.ReflTransGen Move w w' ∧ (w'.Halted ∨ ∃ r, w'.code t = .done r) :=
  exists_finish hbound (h.inOrder hcalls) t

end

end

/-! ## Rely and guarantee -/

/-- What holds of the shared state at any time and while a mutex is free, and what a task that holds
some mutexes sees the others do. -/
structure Protocol (μ σ : Type) where
  inv : σ → Prop
  free : μ → σ → Prop
  rely : List μ → σ → σ → Prop
  refl : ∀ held s, rely held s s
  trans : ∀ held s s' s'', rely held s s' → rely held s' s'' → rely held s s''

/-- A step of a task that holds `held` keeps to the protocol. -/
structure Protocol.Keeps (P : Protocol μ σ) (held : List μ) (s s' : σ) : Prop where
  inv : P.inv s'
  free : ∀ m, m ∉ held → P.free m s → P.free m s'
  rely : ∀ other, (∀ m ∈ other, m ∉ held) → P.rely other s s'

/-- Whatever the others do, a task that holds `held` and goes on with the code keeps to the protocol,
and ends with a result, and with mutexes in its hands, of which `Q` holds. -/
def Code.Valid (P : Protocol μ σ) (Q : ρ → List μ → σ → Prop) :
    Code μ ε σ ρ → List μ → σ → Prop
  | .done r, held, s => ∀ s', P.rely held s s' → P.inv s' → Q r held s'
  | .take m next, held, s => ∀ s', P.rely held s s' → P.inv s' → P.free m s' →
      next.Valid P Q (m :: held) s'
  | .give m next, held, s => ∀ s', P.rely held s s' → P.inv s' →
      ∃ rest, held = m :: rest ∧ P.free m s' ∧ next.Valid P Q rest s'
  | .access p next, held, s => ∀ s', P.rely held s s' → P.inv s' → ∀ s'' a,
      p s' = .ok (s'', a) → P.Keeps held s' s'' ∧ (next a).Valid P Q held s''

section
variable {P : Protocol μ σ} {Q : ρ → List μ → σ → Prop} {held : List μ} {s s' : σ}

theorem Code.Valid.stable {c : Code μ ε σ ρ} (h : c.Valid P Q held s) (hs : P.rely held s s') :
    c.Valid P Q held s' := by
  cases c with
  | done r => exact fun s₁ h₁ => h s₁ (P.trans _ _ _ _ hs h₁)
  | take m next => exact fun s₁ h₁ => h s₁ (P.trans _ _ _ _ hs h₁)
  | give m next => exact fun s₁ h₁ => h s₁ (P.trans _ _ _ _ hs h₁)
  | access p next => exact fun s₁ h₁ => h s₁ (P.trans _ _ _ _ hs h₁)

/-- A code is valid if it is so after whatever the others do. -/
theorem Code.Valid.of_rely {c : Code μ ε σ ρ}
    (h : ∀ s', P.rely held s s' → P.inv s' → c.Valid P Q held s') : c.Valid P Q held s := by
  cases c with
  | done r => exact fun s₁ h₁ hinv => h s₁ h₁ hinv s₁ (P.refl _ _) hinv
  | take m next => exact fun s₁ h₁ hinv => h s₁ h₁ hinv s₁ (P.refl _ _) hinv
  | give m next => exact fun s₁ h₁ hinv => h s₁ h₁ hinv s₁ (P.refl _ _) hinv
  | access p next => exact fun s₁ h₁ hinv => h s₁ h₁ hinv s₁ (P.refl _ _) hinv

theorem Code.Valid.mono {Q' : ρ → List μ → σ → Prop} {c : Code μ ε σ ρ} (h : c.Valid P Q held s)
    (hQ : ∀ r held s, P.inv s → Q r held s → Q' r held s) : c.Valid P Q' held s := by
  induction c generalizing held s with
  | done r => exact fun s₁ h₁ hinv => hQ r held s₁ hinv (h s₁ h₁ hinv)
  | take m next ih => exact fun s₁ h₁ hinv hfree => ih (h s₁ h₁ hinv hfree)
  | give m next ih =>
    intro s₁ h₁ hinv
    obtain ⟨rest, hheld, hfree, hnext⟩ := h s₁ h₁ hinv
    exact ⟨rest, hheld, hfree, ih hnext⟩
  | access p next ih =>
    intro s₁ h₁ hinv s₂ a hp
    obtain ⟨hkeeps, hnext⟩ := h s₁ h₁ hinv s₂ a hp
    exact ⟨hkeeps, ih a hnext⟩

theorem Code.Valid.bind {R : α → List μ → σ → Prop} {c : Code μ ε σ α} (h : c.Valid P R held s)
    {k : α → Code μ ε σ ρ} (hk : ∀ a held s, (Code.done a : Code μ ε σ α).Valid P R held s →
      (k a).Valid P Q held s) : (c >>= k).Valid P Q held s := by
  change (c.bind k).Valid P Q held s
  induction c generalizing held s with
  | done a => exact hk a held s h
  | take m next ih => exact fun s₁ h₁ hinv hfree => ih (h s₁ h₁ hinv hfree)
  | give m next ih =>
    intro s₁ h₁ hinv
    obtain ⟨rest, hheld, hfree, hnext⟩ := h s₁ h₁ hinv
    exact ⟨rest, hheld, hfree, ih hnext⟩
  | access p next ih =>
    intro s₁ h₁ hinv s₂ a hp
    obtain ⟨hkeeps, hnext⟩ := h s₁ h₁ hinv s₂ a hp
    exact ⟨hkeeps, ih a hnext⟩

/-- Codes in sequence, the second from the state in which the first ends. -/
theorem Code.Valid.seq {R : α → List μ → σ → Prop} {c : Code μ ε σ α} (h : c.Valid P R held s)
    {k : α → Code μ ε σ ρ}
    (hk : ∀ a held s, P.inv s → R a held s → (k a).Valid P Q held s) :
    (c >>= k).Valid P Q held s := by
  apply h.bind
  intro a held s hdone
  apply Code.Valid.of_rely
  intro s' hs' hinv
  exact hk a held s' hinv (hdone s' hs' hinv)

theorem Code.valid_attempt {p : σ → Except ε (σ × ρ)}
    (h : ∀ s', P.rely held s s' → P.inv s' → ∀ s'' a, p s' = .ok (s'', a) →
      P.Keeps held s' s'' ∧ ∀ s₁, P.rely held s'' s₁ → P.inv s₁ → Q a held s₁) :
    (Code.attempt p).Valid P Q held s := h

/-- What holds at the end holds after whatever the others do then. -/
theorem Code.Valid.stabilize {c : Code μ ε σ ρ} (h : c.Valid P Q held s) :
    c.Valid P (fun r held s => ∀ s', P.rely held s s' → P.inv s' → Q r held s') held s := by
  induction c generalizing held s with
  | done r => exact fun s₁ h₁ _ s₂ h₂ => h s₂ (P.trans _ _ _ _ h₁ h₂)
  | take m next ih => exact fun s₁ h₁ hinv hfree => ih (h s₁ h₁ hinv hfree)
  | give m next ih =>
    intro s₁ h₁ hinv
    obtain ⟨rest, hheld, hfree, hnext⟩ := h s₁ h₁ hinv
    exact ⟨rest, hheld, hfree, ih hnext⟩
  | access p next ih =>
    intro s₁ h₁ hinv s₂ a hp
    obtain ⟨hkeeps, hnext⟩ := h s₁ h₁ hinv s₂ a hp
    exact ⟨hkeeps, ih a hnext⟩

theorem Code.valid_locked {m : μ} {c : Code μ ε σ ρ}
    (h : ∀ s', P.rely held s s' → P.inv s' → P.free m s' →
      c.Valid P (fun a held' s => held' = m :: held ∧ P.free m s ∧
        ∀ s', P.rely held s s' → P.inv s' → Q a held s') (m :: held) s') :
    (Code.locked m c).Valid P Q held s := by
  intro s₁ h₁ hinv hfree
  apply (h s₁ h₁ hinv hfree).bind (k := fun a => .give m (.done a))
  intro a held' s₂ hdone s₃ h₃ hinv₃
  obtain ⟨hheld, hfree₃, hQ⟩ := hdone s₃ h₃ hinv₃
  exact ⟨held, hheld, hfree₃, hQ⟩

end

/-- Every task holds what it holds for a valid rest of its call. -/
structure World.Sound (P : Protocol μ σ) (Q : ρ → σ → Prop) (w : World τ μ ε σ ρ) (s : σ) :
    Prop where
  inv : P.inv s
  free : ∀ m, w.holder m = none → P.free m s
  tasks : ∀ t, ∃ held, (w.code t).Valid P (fun r held s => held = [] ∧ Q r s) held s ∧
    w.Holds t held

section
variable [DecidableEq τ] [DecidableEq μ] {P : Protocol μ σ} {Q : ρ → σ → Prop}
  {w w' : World τ μ ε σ ρ} {s s' : σ}

omit [DecidableEq μ] in
theorem World.Sound.go (h : w.Sound P Q s) {t : τ} {c : Code μ ε σ ρ}
    (hinv : P.inv s') (hfree : ∀ m, w'.holder m = none → P.free m s')
    (hcode : w'.code = (w.go t c).code)
    (ht : ∃ held, c.Valid P (fun r held s => held = [] ∧ Q r s) held s' ∧ w'.Holds t held)
    (hothers : ∀ u held, u ≠ t → w.Holds u held → P.rely held s s' ∧ w'.Holds u held) :
    w'.Sound P Q s' := by
  refine ⟨hinv, hfree, ?_⟩
  intro u
  rw [hcode]
  by_cases hut : u = t
  · rw [hut, World.go_self]
    exact ht
  · obtain ⟨held, hvalid, hheld⟩ := h.tasks u
    obtain ⟨hrely, hheld'⟩ := hothers u held hut hheld
    exact ⟨held, by rw [World.go_of_ne _ _ hut]; exact hvalid.stable hrely, hheld'⟩

theorem Move.sound (hmove : Move w w') (hs : w.shared = .ok s) (hs' : w'.shared = .ok s')
    (h : w.Sound P Q s) : w'.Sound P Q s' := by
  cases hmove with
  | take s₁ hs₁ t m next hcode hfree =>
    obtain rfl : s = s' := Except.ok.inj (hs.symm.trans hs')
    obtain ⟨held, hvalid, hheld⟩ := h.tasks t
    rw [hcode] at hvalid
    have hnext := hvalid s (P.refl _ _) h.inv (h.free m hfree)
    refine h.go h.inv ?_ rfl ⟨m :: held, hnext, (hheld.take hfree).congr rfl⟩ ?_
    · intro n hn
      by_cases hnm : n = m
      · rw [hnm]
        exact h.free m hfree
      · exact h.free n ((w.hand_of_ne _ hnm).symm.trans hn)
    · intro u held' hut hheld'
      refine ⟨P.refl _ _, (hheld'.others ?_ ?_).congr rfl⟩
      · simp [hfree]
      · simpa using Ne.symm hut
  | give s₁ hs₁ t m next hcode =>
    obtain rfl : s = s' := Except.ok.inj (hs.symm.trans hs')
    obtain ⟨held, hvalid, hheld⟩ := h.tasks t
    rw [hcode] at hvalid
    obtain ⟨rest, rfl, hfree, hnext⟩ := hvalid s (P.refl _ _) h.inv
    have hholder : w.holder m = some t := (hheld.mem m).mpr (List.mem_cons_self ..)
    refine h.go h.inv ?_ rfl ⟨rest, hnext, hheld.give.congr rfl⟩ ?_
    · intro n hn
      by_cases hnm : n = m
      · rw [hnm]
        exact hfree
      · exact h.free n ((w.hand_of_ne _ hnm).symm.trans hn)
    · intro u held' hut hheld'
      refine ⟨P.refl _ _, (hheld'.others ?_ ?_).congr rfl⟩
      · simpa [hholder] using Ne.symm hut
      · simp
  | access s₁ hs₁ t p next hcode s₂ a hp =>
    obtain rfl : s = s₁ := Except.ok.inj (hs.symm.trans hs₁)
    obtain rfl : s₂ = s' := Except.ok.inj hs'
    obtain ⟨held, hvalid, hheld⟩ := h.tasks t
    rw [hcode] at hvalid
    obtain ⟨hkeeps, hnext⟩ := hvalid s (P.refl _ _) h.inv s₂ a hp
    refine h.go hkeeps.inv ?_ rfl ⟨held, hnext, hheld.congr rfl⟩ ?_
    · intro n (hn : w.holder n = none)
      refine hkeeps.free n ?_ (h.free n hn)
      rw [← hheld.mem n, hn]
      simp
    · intro u held' hut hheld'
      refine ⟨hkeeps.rely held' ?_, hheld'.congr rfl⟩
      intro n hn hmem
      have hu := (hheld'.mem n).mpr hn
      have ht := (hheld.mem n).mpr hmem
      exact hut (Option.some.inj (hu.symm.trans ht))
  | fault s₁ hs₁ t p next hcode e hp => exact absurd hs' (by simp)

theorem Move.shared_ok (hmove : Move w w') : ∃ s, w.shared = .ok s := by
  cases hmove with
  | take s hs | give s hs | access s hs | fault s hs => exact ⟨s, hs⟩

variable {calls : Code μ ε σ ρ → Prop} {s₀ : σ} {r₀ : ρ}

/-- **Every call keeps its promise.** -/
theorem Reachable.sound (hinv : P.inv s₀) (hfree : ∀ m, P.free m s₀)
    (hr₀ : ∀ s, P.rely [] s₀ s → P.inv s → Q r₀ s)
    (hcalls : ∀ c, calls c → ∀ s, P.inv s → c.Valid P (fun r held s => held = [] ∧ Q r s) [] s)
    (h : Reachable calls s₀ r₀ w) : ∀ s, w.shared = .ok s → w.Sound P Q s := by
  induction h with
  | start =>
    intro s hs
    obtain rfl : s₀ = s := Except.ok.inj hs
    refine ⟨hinv, fun m _ => hfree m, ?_⟩
    intro t
    exact ⟨[], fun s' hs' hinv' => ⟨rfl, hr₀ s' hs' hinv'⟩, .nil, by simp [World.start]⟩
  | step _ hstep ih =>
    intro s' hs'
    cases hstep with
    | move hmove =>
      obtain ⟨s, hs⟩ := hmove.shared_ok
      exact hmove.sound hs hs' (ih s hs)
    | call t r hdone c hcall =>
      have h := ih s' hs'
      obtain ⟨held, hvalid, hheld⟩ := h.tasks t
      rw [hdone] at hvalid
      obtain ⟨rfl, -⟩ := hvalid s' (P.refl _ _) h.inv
      refine h.go h.inv h.free rfl ⟨[], hcalls c hcall s' h.inv, hheld.congr rfl⟩ ?_
      intro u held' _ hheld'
      exact ⟨P.refl _ _, hheld'.congr rfl⟩

omit [DecidableEq τ] [DecidableEq μ] in
theorem World.Sound.result (h : w.Sound P Q s) {t : τ} {r : ρ} (hdone : w.code t = .done r) :
    Q r s := by
  obtain ⟨held, hvalid, -⟩ := h.tasks t
  rw [hdone] at hvalid
  exact (hvalid s (P.refl _ _) h.inv).2

end

end Locks
