import Mathlib.Data.List.Basic
import Mathlib.Logic.Function.Basic
import Mathlib.Tactic.Common

/-!
# Replicas fed by a totally ordered broadcast

Any number of replicas, each a partial map from fields to values. A message writes some fields. Its
sender hands it to the broadcast and, in a later step of its own, writes it to its replica; the
broadcast puts the messages in one order (`log`), and each replica handles that order from the
front, its own messages included.

A local write can come late, after newer messages of the order have been handled. `Timely` says
that it rolls no field back. In a run whose local writes are timely every replica agrees with the
order once nothing is in flight (`Reachable.converged`). What carries it, field by field, is
`Invariant`: the value of a replica is the last one of the part of the order it has handled, or one
that a message of its own wrote which is still to be handled.
-/

universe u v w x

namespace Broadcast

variable {ι : Type u} {M : Type v} {F : Type w} {V : Type x} (writes : M → F → Option V)

/-- The last value that the messages give to a field. -/
def lastWrite (f : F) (l : List M) : Option V := (l.filterMap fun m => writes m f).getLast?

/-- A replica after a message. -/
def apply (m : M) (r : F → Option V) : F → Option V := fun f => (writes m f).or (r f)

theorem apply_of_some {m : M} {f : F} {v : V} (h : writes m f = some v) (r : F → Option V) :
    apply writes m r f = some v := by
  rw [apply, h, Option.some_or]

theorem apply_of_none {m : M} {f : F} (h : writes m f = none) (r : F → Option V) :
    apply writes m r f = r f := by
  rw [apply, h, Option.none_or]

theorem lastWrite_append_some {m : M} {f : F} {v : V} (h : writes m f = some v) (l : List M) :
    lastWrite writes f (l ++ [m]) = some v := by
  simp [lastWrite, h]

theorem lastWrite_append_none (l l' : List M) {f : F} (h : ∀ m ∈ l', writes m f = none) :
    lastWrite writes f (l ++ l') = lastWrite writes f l := by
  have hnil : l'.filterMap (fun m => writes m f) = [] := List.filterMap_eq_nil_iff.mpr h
  rw [lastWrite, List.filterMap_append, hnil, List.append_nil, lastWrite]

/-! ## The system -/

/-- The replicas, the messages each sender has still to write locally, the messages not yet ordered,
the order, and how much of it each replica has handled. -/
structure Config (ι : Type u) (M : Type v) (F : Type w) (V : Type x) where
  replica : ι → F → Option V
  unwritten : ι → List M
  sent : List M
  log : List M
  handled : ι → Nat

variable [DecidableEq ι] [DecidableEq M]

/-- If the replica has handled `m`, its last values of the fields of `m` are those of `m`. -/
def Timely (C : Config ι M F V) (d : ι) (m : M) : Prop :=
  m ∈ C.log.take (C.handled d) → ∀ f, writes m f ≠ none →
    lastWrite writes f (C.log.take (C.handled d)) = writes m f

inductive Step : Config ι M F V → Config ι M F V → Prop where
  | send (C : Config ι M F V) (d : ι) (m : M) :
      Step C { C with
        sent := C.sent ++ [m]
        unwritten := Function.update C.unwritten d (C.unwritten d ++ [m]) }
  | order (C : Config ι M F V) (m : M) (hm : m ∈ C.sent) :
      Step C { C with sent := C.sent.erase m, log := C.log ++ [m] }
  | deliver (C : Config ι M F V) (d : ι) (m : M) (hm : C.log[C.handled d]? = some m) :
      Step C { C with
        replica := Function.update C.replica d (apply writes m (C.replica d))
        handled := Function.update C.handled d (C.handled d + 1) }
  | write (C : Config ι M F V) (d : ι) (m : M) (hm : m ∈ C.unwritten d)
      (htimely : Timely writes C d m) :
      Step C { C with
        replica := Function.update C.replica d (apply writes m (C.replica d))
        unwritten := Function.update C.unwritten d ((C.unwritten d).erase m) }

/-- Nothing ordered, sent or waiting. -/
structure Config.Start (C : Config ι M F V) : Prop where
  unwritten : ∀ d, C.unwritten d = []
  sent : C.sent = []
  log : C.log = []
  handled : ∀ d, C.handled d = 0

/-- Every message is ordered, and handled by every replica. -/
structure Config.Quiescent (C : Config ι M F V) : Prop where
  sent : C.sent = []
  handled : ∀ d, C.handled d = C.log.length

inductive Reachable : Config ι M F V → Prop where
  | start {C : Config ι M F V} : C.Start → Reachable C
  | step {C D : Config ι M F V} : Reachable C → Step writes C D → Reachable D

/-! ## The invariant -/

/-- Where a value of a replica comes from: the last write of the handled part of the order, if that
part writes the field, or a message still to be handled. -/
def Accounted (C : Config ι M F V) (d : ι) (f : F) : Prop :=
  ((∃ m ∈ C.log.take (C.handled d), writes m f ≠ none) →
    C.replica d f = lastWrite writes f (C.log.take (C.handled d))) ∨
  ∃ m ∈ C.sent ++ C.log.drop (C.handled d), writes m f ≠ none ∧ C.replica d f = writes m f

structure Invariant (C : Config ι M F V) : Prop where
  handled_le : ∀ d, C.handled d ≤ C.log.length
  unwritten_sent : ∀ d, ∀ m ∈ C.unwritten d, m ∈ C.sent ++ C.log
  accounted : ∀ d f, Accounted writes C d f

variable {writes}

omit [DecidableEq ι] [DecidableEq M] in
theorem Invariant.start {C : Config ι M F V} (h : C.Start) : Invariant writes C := by
  refine ⟨?_, ?_, ?_⟩
  · intro d
    rw [h.handled d]
    exact Nat.zero_le _
  · intro d m hm
    rw [h.unwritten d] at hm
    exact absurd hm (List.not_mem_nil)
  · intro d f
    left
    rintro ⟨m, hm, _⟩
    rw [h.log] at hm
    exact absurd hm (by simp)

omit [DecidableEq M] in
theorem Invariant.send {C : Config ι M F V} (h : Invariant writes C) (d : ι) (m : M) :
    Invariant writes { C with
      sent := C.sent ++ [m]
      unwritten := Function.update C.unwritten d (C.unwritten d ++ [m]) } := by
  have hgrow : ∀ {l : List M} {m'}, m' ∈ C.sent ++ l → m' ∈ (C.sent ++ [m]) ++ l := by
    intro l m' hm'
    rcases List.mem_append.mp hm' with hs | hl
    · exact List.mem_append_left _ (List.mem_append_left _ hs)
    · exact List.mem_append_right _ hl
  refine ⟨h.handled_le, ?_, ?_⟩
  · intro e m' hm'
    by_cases he : e = d
    · subst he
      simp only [Function.update_self, List.mem_append, List.mem_singleton] at hm'
      rcases hm' with hold | rfl
      · exact hgrow (h.unwritten_sent e m' hold)
      · exact List.mem_append_left _ (by simp)
    · simp only [Function.update_of_ne he] at hm'
      exact hgrow (h.unwritten_sent e m' hm')
  · intro e f
    refine (h.accounted e f).imp id ?_
    rintro ⟨m', hm', hw⟩
    exact ⟨m', hgrow hm', hw⟩

omit [DecidableEq ι] in
theorem Invariant.order {C : Config ι M F V} (h : Invariant writes C) {m : M} (hm : m ∈ C.sent) :
    Invariant writes { C with sent := C.sent.erase m, log := C.log ++ [m] } := by
  have hmove : ∀ {m'}, m' ∈ C.sent → m' ∈ C.sent.erase m ∨ m' = m := by
    intro m' hm'
    by_cases he : m' = m
    · exact Or.inr he
    · exact Or.inl ((List.mem_erase_of_ne he).mpr hm')
  refine ⟨?_, ?_, ?_⟩
  · intro d
    have hle := h.handled_le d
    simp only [List.length_append, List.length_singleton]
    omega
  · intro d m' hm'
    rcases List.mem_append.mp (h.unwritten_sent d m' hm') with hs | hl
    · rcases hmove hs with he | rfl
      · exact List.mem_append_left _ he
      · exact List.mem_append_right _ (by simp)
    · exact List.mem_append_right _ (List.mem_append_left _ hl)
  · intro d f
    have htake : (C.log ++ [m]).take (C.handled d) = C.log.take (C.handled d) :=
      List.take_append_of_le_length (h.handled_le d)
    have hdrop : (C.log ++ [m]).drop (C.handled d) = C.log.drop (C.handled d) ++ [m] :=
      List.drop_append_of_le_length (h.handled_le d)
    unfold Accounted
    simp only [htake, hdrop]
    refine (h.accounted d f).imp id ?_
    rintro ⟨m', hm', hw⟩
    refine ⟨m', ?_, hw⟩
    rcases List.mem_append.mp hm' with hs | hl
    · rcases hmove hs with he | rfl
      · exact List.mem_append_left _ he
      · exact List.mem_append_right _ (by simp)
    · exact List.mem_append_right _ (List.mem_append_left _ hl)

omit [DecidableEq M] in
/-- The next message of the order overrides the fields it writes. -/
theorem Invariant.deliver {C : Config ι M F V} (h : Invariant writes C) {d : ι} {m : M}
    (hm : C.log[C.handled d]? = some m) :
    Invariant writes { C with
      replica := Function.update C.replica d (apply writes m (C.replica d))
      handled := Function.update C.handled d (C.handled d + 1) } := by
  have hlt : C.handled d < C.log.length := (List.getElem?_eq_some_iff.mp hm).1
  refine ⟨?_, h.unwritten_sent, ?_⟩
  · intro e
    by_cases he : e = d
    · subst he
      simp only [Function.update_self]
      omega
    · simpa [he] using h.handled_le e
  · intro e f
    unfold Accounted
    by_cases he : e = d
    · subst he
      simp only [Function.update_self]
      have htake : C.log.take (C.handled e + 1) = C.log.take (C.handled e) ++ [m] := by
        rw [List.take_add_one, hm]
        rfl
      have hdrop : C.log.drop (C.handled e) = m :: C.log.drop (C.handled e + 1) := by
        rw [List.drop_eq_getElem_cons hlt, (List.getElem?_eq_some_iff.mp hm).2]
      rw [htake]
      cases hw : writes m f with
      | some v =>
        left
        intro _
        rw [apply_of_some writes hw, lastWrite_append_some writes hw]
      | none =>
        have hlast := lastWrite_append_none writes (C.log.take (C.handled e)) [m] (f := f)
          (by simpa using hw)
        rw [apply_of_none writes hw, hlast]
        rcases h.accounted e f with hold | ⟨m', hm', hw', hv⟩
        · left
          rintro ⟨m', hm', hw'⟩
          apply hold
          rcases List.mem_append.mp hm' with hin | hin
          · exact ⟨m', hin, hw'⟩
          · rw [List.mem_singleton.mp hin] at hw'
            exact absurd hw hw'
        · right
          refine ⟨m', ?_, hw', hv⟩
          rw [hdrop] at hm'
          rcases List.mem_append.mp hm' with hin | hin
          · exact List.mem_append_left _ hin
          · rcases List.mem_cons.mp hin with rfl | hin
            · exact absurd hw hw'
            · exact List.mem_append_right _ hin
    · simpa [he, Accounted] using h.accounted e f

/-- A local write of an unhandled message is accounted for by it; one of a handled message repeats
what the handled part of the order says, the write being timely. -/
theorem Invariant.write {C : Config ι M F V} (h : Invariant writes C) {d : ι} {m : M}
    (hm : m ∈ C.unwritten d) (htimely : Timely writes C d m) :
    Invariant writes { C with
      replica := Function.update C.replica d (apply writes m (C.replica d))
      unwritten := Function.update C.unwritten d ((C.unwritten d).erase m) } := by
  refine ⟨h.handled_le, ?_, ?_⟩
  · intro e m' hm'
    by_cases he : e = d
    · subst he
      simp only [Function.update_self] at hm'
      exact h.unwritten_sent e m' (List.mem_of_mem_erase hm')
    · simp only [Function.update_of_ne he] at hm'
      exact h.unwritten_sent e m' hm'
  · intro e f
    unfold Accounted
    by_cases he : e = d
    · subst he
      simp only [Function.update_self]
      cases hw : writes m f with
      | none =>
        rw [apply_of_none writes hw]
        exact h.accounted e f
      | some v =>
        rw [apply_of_some writes hw]
        have hwhere : m ∈ C.log.take (C.handled e) ∨ m ∈ C.sent ++ C.log.drop (C.handled e) := by
          rcases List.mem_append.mp (h.unwritten_sent e m hm) with hs | hl
          · exact Or.inr (List.mem_append_left _ hs)
          · rw [← List.take_append_drop (C.handled e) C.log] at hl
            rcases List.mem_append.mp hl with ht | hd
            · exact Or.inl ht
            · exact Or.inr (List.mem_append_right _ hd)
        rcases hwhere with ht | hin
        · left
          intro _
          rw [htimely ht f (by rw [hw]; exact Option.some_ne_none v), hw]
        · right
          exact ⟨m, hin, by rw [hw]; exact Option.some_ne_none v, hw.symm⟩
    · simpa [he, Accounted] using h.accounted e f

theorem Invariant.step {C D : Config ι M F V} (h : Invariant writes C) (hstep : Step writes C D) :
    Invariant writes D := by
  cases hstep with
  | send d m => exact h.send d m
  | order m hm => exact h.order hm
  | deliver d m hm => exact h.deliver hm
  | write d m hm htimely => exact h.write hm htimely

theorem Reachable.invariant {C : Config ι M F V} (h : Reachable writes C) : Invariant writes C := by
  induction h with
  | start hstart => exact Invariant.start hstart
  | step _ hstep ih => exact ih.step hstep

/-- **Replicas converge to the order** in runs of timely writes. -/
theorem Reachable.converged {C : Config ι M F V} (h : Reachable writes C) (hq : C.Quiescent) (d : ι)
    (f : F) (hf : ∃ m ∈ C.log, writes m f ≠ none) : C.replica d f = lastWrite writes f C.log := by
  have hall : C.log.length ≤ C.handled d := Nat.le_of_eq (hq.handled d).symm
  have htake : C.log.take (C.handled d) = C.log := List.take_of_length_le hall
  have hdrop : C.log.drop (C.handled d) = [] := List.drop_of_length_le hall
  have hacc := h.invariant.accounted d f
  unfold Accounted at hacc
  rw [htake, hdrop, hq.sent] at hacc
  rcases hacc with hlast | ⟨m, hm, _⟩
  · exact hlast hf
  · exact absurd hm (by simp)

end Broadcast
