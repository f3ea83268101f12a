import Mathlib.Order.Basic
import Mathlib.Data.List.Basic

/-!
# Patterns with a wildcard for one element and a wildcard for the rest

A pattern is a list in which `one` stands for any single element and `rest` for all elements from
its position on, at least one. `Matches` walks pattern and list together; `matches_iff` says by
positions when it succeeds.
-/

universe u

namespace Wildcard

variable {α : Type u} (one rest : α)

/-- Position `i` of the pattern admits position `i` of the list. -/
def Admits (p l : List α) (i : Nat) : Prop := p[i]? = l[i]? ∨ p[i]? = some one

/-- Pattern and list are walked in lockstep; `rest` ends the walk. -/
def Matches : List α → List α → Prop
  | [], [] => True
  | [], _ :: _ => False
  | _ :: _, [] => False
  | a :: p, x :: l => a = rest ∨ (a = x ∨ a = one) ∧ Matches p l

theorem admits_cons_zero {a x : α} {p l : List α} :
    Admits one (a :: p) (x :: l) 0 ↔ a = x ∨ a = one := by
  simp [Admits]

theorem admits_cons_succ {a x : α} {p l : List α} {i : Nat} :
    Admits one (a :: p) (x :: l) (i + 1) ↔ Admits one p l i := by
  simp [Admits]

/-- The pattern admits the list position by position. -/
def Pointwise (p l : List α) : Prop :=
  p.length = l.length ∧ ∀ i < p.length, Admits one p l i

/-- A `rest` inside both lists, with everything before it admitted. -/
def Rest (p l : List α) : Prop :=
  ∃ i < min p.length l.length, p[i]? = some rest ∧ ∀ j < i, Admits one p l j

theorem pointwise_cons {a x : α} {p l : List α} :
    Pointwise one (a :: p) (x :: l) ↔ (a = x ∨ a = one) ∧ Pointwise one p l := by
  constructor
  · rintro ⟨hlen, hall⟩
    refine ⟨(admits_cons_zero one).mp (hall 0 (by simp)), by simpa using hlen, ?_⟩
    intro i hi
    exact (admits_cons_succ one).mp (hall (i + 1) (by simpa using hi))
  · rintro ⟨ha, hlen, hall⟩
    refine ⟨by simpa using hlen, ?_⟩
    intro i hi
    cases i with
    | zero => exact (admits_cons_zero one).mpr ha
    | succ i => exact (admits_cons_succ one).mpr (hall i (by simpa using hi))

theorem rest_cons {a x : α} {p l : List α} :
    Rest one rest (a :: p) (x :: l) ↔ a = rest ∨ (a = x ∨ a = one) ∧ Rest one rest p l := by
  constructor
  · rintro ⟨i, hi, hrest, hall⟩
    cases i with
    | zero => exact Or.inl (by simpa using hrest)
    | succ i =>
      refine Or.inr ⟨(admits_cons_zero one).mp (hall 0 (by omega)), i, ?_, by simpa using hrest, ?_⟩
      · simp only [List.length_cons] at hi
        omega
      · intro j hj
        exact (admits_cons_succ one).mp (hall (j + 1) (by omega))
  · rintro (rfl | ⟨ha, i, hi, hrest, hall⟩)
    · exact ⟨0, by simp, by simp, fun j hj => absurd hj (by omega)⟩
    · refine ⟨i + 1, ?_, by simpa using hrest, ?_⟩
      · simp only [List.length_cons]
        omega
      · intro j hj
        cases j with
        | zero => exact (admits_cons_zero one).mpr ha
        | succ j => exact (admits_cons_succ one).mpr (hall j (by omega))

/-- **What a pattern matches.** Lists of its own length that it admits everywhere, and lists it
admits up to a `rest` that stands inside both. -/
theorem matches_iff (p l : List α) :
    Matches one rest p l ↔ Pointwise one p l ∨ Rest one rest p l := by
  induction p generalizing l with
  | nil => cases l <;> simp [Matches, Pointwise, Rest]
  | cons a p ih =>
    cases l with
    | nil => simp [Matches, Pointwise, Rest]
    | cons x l =>
      rw [Matches, pointwise_cons, rest_cons, ih]
      tauto

theorem matches_literal {p l : List α} (hone : one ∉ p) (hrest : rest ∉ p) :
    Matches one rest p l ↔ p = l := by
  induction p generalizing l with
  | nil => cases l <;> simp [Matches]
  | cons a p ih =>
    simp only [List.mem_cons, not_or] at hone hrest
    cases l with
    | nil => simp [Matches]
    | cons x l =>
      rw [Matches, ih hone.2 hrest.2, List.cons.injEq]
      have ha : a ≠ rest := fun e => hrest.1 e.symm
      have hb : a ≠ one := fun e => hone.1 e.symm
      simp [ha, hb]

/-- A pattern without wildcards but for a `rest` at its end matches the longer lists that start with
it. -/
theorem matches_literal_rest {p l : List α} (hone : one ∉ p) (hrest : rest ∉ p) :
    Matches one rest (p ++ [rest]) l ↔ ∃ m, m ≠ [] ∧ l = p ++ m := by
  induction p generalizing l with
  | nil => cases l <;> simp [Matches]
  | cons a p ih =>
    simp only [List.mem_cons, not_or] at hone hrest
    cases l with
    | nil => simp [Matches]
    | cons x l =>
      have ha : a ≠ rest := fun e => hrest.1 e.symm
      have hb : a ≠ one := fun e => hone.1 e.symm
      rw [List.cons_append, Matches, ih hone.2 hrest.2]
      constructor
      · rintro (h | ⟨h, m, hm, rfl⟩)
        · exact absurd h ha
        · exact ⟨m, hm, by rw [h.resolve_right hb, List.cons_append]⟩
      · rintro ⟨m, hm, h⟩
        rw [List.cons_append, List.cons.injEq] at h
        exact Or.inr ⟨Or.inl h.1.symm, m, hm, h.2⟩

/-- What pattern and list start with alike does not decide, unless a `rest` is in it. -/
theorem matches_append_left (a p l : List α) :
    Matches one rest (a ++ p) (a ++ l) ↔ rest ∈ a ∨ Matches one rest p l := by
  induction a with
  | nil => simp
  | cons x a ih =>
    rw [List.cons_append, List.cons_append, Matches, ih, List.mem_cons]
    tauto

/-- Where the front of a pattern holds no wildcards, the list starts with as much of it. -/
theorem takeWhile_length_le {q : α → Bool} (hone : q one = false) (hrest : q rest = false)
    {p l : List α} (h : Matches one rest p l) :
    (p.takeWhile q).length ≤ (l.takeWhile q).length := by
  induction p generalizing l with
  | nil => simp
  | cons a p ih =>
    cases l with
    | nil => exact absurd h id
    | cons x l =>
      cases ha : q a with
      | false => simp [ha]
      | true =>
        have hne : a ≠ rest := fun e => by rw [e, hrest] at ha; exact absurd ha (by simp)
        have hne' : a ≠ one := fun e => by rw [e, hone] at ha; exact absurd ha (by simp)
        obtain ⟨hx, htail⟩ := h.resolve_left hne
        obtain rfl : a = x := hx.resolve_right hne'
        rw [List.takeWhile_cons_of_pos ha, List.takeWhile_cons_of_pos ha, List.length_cons,
          List.length_cons]
        exact Nat.succ_le_succ (ih htail)

end Wildcard
