import Mathlib.Data.List.Basic

/-!
# Runs of a transition system, state by state

`Trace step s l t`: the steps lead from `s` through the states `l` to `t`, `s` being the first of
them. A property of the states of a run is exact under a condition on them when an invariant makes
the two the same and is kept by the steps of the states that meet the condition (`Trace.forall_iff`).
-/

universe u

/-- A run, with the states it has left behind. -/
inductive Trace {σ : Type u} (step : σ → σ → Prop) (s : σ) : List σ → σ → Prop where
  | refl : Trace step s [] s
  | tail {l : List σ} {t u : σ} : Trace step s l t → step t u → Trace step s (l ++ [t]) u

namespace Trace

variable {σ : Type u} {step : σ → σ → Prop} {s t u : σ} {l l' : List σ}

theorem trans (h : Trace step s l t) (h' : Trace step t l' u) : Trace step s (l ++ l') u := by
  induction h' with
  | refl => rwa [List.append_nil]
  | tail _ hstep ih =>
    rw [← List.append_assoc]
    exact ih.tail hstep

theorem head (hstep : step s t) (h : Trace step t l u) : Trace step s (s :: l) u :=
  (refl.tail hstep : Trace step s ([] ++ [s]) t).trans h

/-- A run of one system is one of another when the states it passes step alike there. -/
theorem imp {step' : σ → σ → Prop} (h : Trace step s l t)
    (hstep : ∀ x ∈ l, ∀ u, step x u → step' x u) : Trace step' s l t := by
  induction h with
  | refl => exact .refl
  | @tail l t u _ htu ih =>
    have hrun := ih fun x hx => hstep x (List.mem_append_left _ hx)
    exact hrun.tail (hstep t (by simp) u htu)

/-- What the steps of the good states keep holds in every state of a run through good states. -/
theorem invariant {I Q : σ → Prop} (hs : I s) (hstep : ∀ t u, I t → Q t → step t u → I u)
    (h : Trace step s l t) (hgood : ∀ x ∈ l, Q x) : ∀ x ∈ l ++ [t], I x := by
  induction h with
  | refl => simpa using hs
  | @tail l t u _ htu ih =>
    have hI := ih fun x hx => hgood x (List.mem_append_left _ hx)
    intro x hx
    rcases List.mem_append.mp hx with hx | hx
    · exact hI x hx
    · rw [List.mem_singleton.mp hx]
      exact hstep t u (hI t (by simp)) (hgood t (by simp)) htu

/-- **The exact condition of a property of runs.** -/
theorem forall_iff {I P Q : σ → Prop} (hs : I s) (hstep : ∀ t u, I t → Q t → step t u → I u)
    (hiff : ∀ t, I t → (P t ↔ Q t)) (h : Trace step s l t) :
    (∀ x ∈ l ++ [t], P x) ↔ ∀ x ∈ l ++ [t], Q x := by
  constructor
  · intro hP
    induction h with
    | refl => simpa using (hiff s hs).mp (hP s (by simp))
    | @tail l t u hrun htu ih =>
      have hgood := ih fun x hx => hP x (List.mem_append_left _ hx)
      have hI := invariant hs hstep (hrun.tail htu) hgood u (by simp)
      intro x hx
      rcases List.mem_append.mp hx with hx | hx
      · exact hgood x hx
      · rw [List.mem_singleton.mp hx]
        exact (hiff u hI).mp (hP u (by simp))
  · intro hQ x hx
    have hI := invariant hs hstep h fun y hy => hQ y (List.mem_append_left _ hy)
    exact (hiff x (hI x hx)).mpr (hQ x hx)

end Trace
