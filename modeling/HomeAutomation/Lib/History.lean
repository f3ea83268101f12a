import Mathlib.Data.List.Basic

/-!
# Laws about the past of each entry of a log

`AtEvery R log`: every entry of the log stands in the relation `R` to what lies before it. A log
grows at its end, so a law holds of a longer log when it held before and holds of the new entries.
-/

universe u

namespace History

variable {α : Type u}

def AtEvery (R : List α → α → Prop) (log : List α) : Prop :=
  ∀ past x later, log = past ++ x :: later → R past x

variable {R : List α → α → Prop}

@[simp] theorem atEvery_nil : AtEvery R [] := by
  intro past x later h
  exact absurd h (by simp)

theorem atEvery_cons {x : α} {log : List α} :
    AtEvery R (x :: log) ↔ R [] x ∧ AtEvery (fun past => R (x :: past)) log := by
  constructor
  · intro h
    refine ⟨h [] x log rfl, ?_⟩
    intro past y later hlog
    exact h (x :: past) y later (by rw [hlog, List.cons_append])
  · rintro ⟨hx, h⟩ past y later hlog
    cases past with
    | nil =>
      rw [List.nil_append, List.cons.injEq] at hlog
      exact hlog.1 ▸ hx
    | cons z past =>
      rw [List.cons_append, List.cons.injEq] at hlog
      obtain ⟨rfl, hlog⟩ := hlog
      exact h past y later hlog

/-- A law of a longer log is the law of the old one and of the new entries. -/
theorem atEvery_append {log new : List α} :
    AtEvery R (log ++ new) ↔ AtEvery R log ∧ AtEvery (fun past => R (log ++ past)) new := by
  induction log generalizing R with
  | nil => simp
  | cons x log ih =>
    rw [List.cons_append, atEvery_cons, atEvery_cons, ih, and_assoc]
    rfl

theorem atEvery_singleton {log : List α} {x : α} :
    AtEvery R (log ++ [x]) ↔ AtEvery R log ∧ R log x := by
  rw [atEvery_append, atEvery_cons]
  simp

/-- A law that puts up with entries of some kind holds of a log of these. -/
theorem atEvery_of_forall {log : List α} (h : ∀ past, ∀ x ∈ log, R past x) : AtEvery R log := by
  intro past x later hlog
  exact h past x (by simp [hlog])

end History
