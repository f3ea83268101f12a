import Mathlib.Data.List.Basic
import Mathlib.Logic.Basic

/-!
# Runs that can fail

Rules for `Except` programs: what a `bind` that succeeded did, what a step preserves along a fold
(`foldlM_invariant`), and the simulation of a fold that can fail by a total one, as long as the
total one stays inside a bound (`foldlM_sim`).
-/

universe u v w

namespace Runs

variable {ε : Type u} {α β : Type v}

@[simp] theorem ok_bind (a : α) (f : α → Except ε β) : (Except.ok a >>= f) = f a := rfl

@[simp] theorem error_bind (e : ε) (f : α → Except ε β) : (Except.error e >>= f) = Except.error e :=
  rfl

theorem bind_eq_ok {x : Except ε α} {f : α → Except ε β} {b : β} :
    (x >>= f) = .ok b ↔ ∃ a, x = .ok a ∧ f a = .ok b := by
  cases x with
  | error e => simp
  | ok a => simp

theorem toOption_eq_some {x : Except ε α} {a : α} : x.toOption = some a ↔ x = .ok a := by
  cases x with
  | error e => simp [Except.toOption]
  | ok b => simp [Except.toOption]

section Fold
variable {σ : Type v} {τ : Type w} {ι : Type w} {f : σ → ι → Except ε σ}

@[simp] theorem foldlM_nil (s : σ) : List.foldlM f s [] = .ok s := rfl

theorem foldlM_append_ok {s s' : σ} {l l' : List ι} (h : List.foldlM f s l = .ok s') :
    List.foldlM f s (l ++ l') = List.foldlM f s' l' := by
  rw [List.foldlM_append, h, ok_bind]

/-- A run of a concatenation passes through the state between its parts. -/
theorem foldlM_append_eq_ok {s t : σ} {l l' : List ι} :
    List.foldlM f s (l ++ l') = .ok t ↔
      ∃ s', List.foldlM f s l = .ok s' ∧ List.foldlM f s' l' = .ok t := by
  rw [List.foldlM_append, bind_eq_ok]

/-- What each successful step of a run preserves holds after the run. -/
theorem foldlM_invariant (I : σ → Prop) {l : List ι} {s s' : σ}
    (hstep : ∀ a ∈ l, ∀ s s', I s → f s a = .ok s' → I s') (hs : I s)
    (h : List.foldlM f s l = .ok s') : I s' := by
  induction l generalizing s with
  | nil =>
    rw [foldlM_nil, Except.ok.injEq] at h
    exact h ▸ hs
  | cons a l ih =>
    rw [List.foldlM_cons, bind_eq_ok] at h
    obtain ⟨s1, h1, h2⟩ := h
    exact ih (fun b hb => hstep b (List.mem_cons_of_mem _ hb)) (hstep a (by simp) s s1 hs h1) h2

/-- If each step that keeps the total run inside the bound succeeds and keeps the relation, so does
a run that stays inside it. A bound that holds after a step held before. -/
theorem foldlM_sim {R : σ → τ → Prop} {g : τ → ι → τ} {B : τ → Prop}
    (hstep : ∀ s t a, R s t → B (g t a) → ∃ s', f s a = .ok s' ∧ R s' (g t a))
    (hback : ∀ t a, B (g t a) → B t) :
    ∀ (l : List ι) {s : σ} {t : τ}, R s t → B (l.foldl g t) →
      ∃ s', List.foldlM f s l = .ok s' ∧ R s' (l.foldl g t) := by
  have hbound : ∀ (l : List ι) (t : τ), B (l.foldl g t) → B t := by
    intro l
    induction l with
    | nil => intro t h; exact h
    | cons a l ih => intro t h; exact hback t a (ih _ h)
  intro l
  induction l with
  | nil =>
    intro s t hR _
    exact ⟨s, rfl, hR⟩
  | cons a l ih =>
    intro s t hR hb
    obtain ⟨s1, h1, hR1⟩ := hstep s t a hR (hbound l _ hb)
    obtain ⟨s', h2, hR2⟩ := ih hR1 hb
    exact ⟨s', by rw [List.foldlM_cons, h1, ok_bind, h2], hR2⟩

end Fold

end Runs
