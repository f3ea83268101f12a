import Mathlib.Algebra.Group.Nat.Defs
import Mathlib.Data.List.Basic
import Mathlib.Logic.Function.Basic

/-!
# Arrays at the start of an address space

An address space of `2 ^ w` cells is a function of its addresses, which wrap around. `Holds m l`:
the list `l` stands in the cells from address 0 on. A write inside the list is `List.set`; what the
other cells hold is left open.
-/

universe u

namespace Cells

variable {w : Nat} {α : Type u}

/-- The list stands in the cells from 0 on, and leaves some cell free. -/
structure Holds (m : BitVec w → α) (l : List α) : Prop where
  fits : l.length < 2 ^ w
  cell : ∀ i, ∀ hi : i < l.length, m (BitVec.ofNat w i) = l[i]

theorem ofNat_inj {i j : Nat} (hi : i < 2 ^ w) (hj : j < 2 ^ w)
    (h : BitVec.ofNat w i = BitVec.ofNat w j) : i = j := by
  have hnat := congrArg BitVec.toNat h
  rwa [BitVec.toNat_ofNat, BitVec.toNat_ofNat, Nat.mod_eq_of_lt hi, Nat.mod_eq_of_lt hj] at hnat

theorem ofNat_succ_sub_one (n : Nat) : BitVec.ofNat w (n + 1) - 1 = BitVec.ofNat w n := by
  rw [BitVec.ofNat_add]
  exact BitVec.add_sub_cancel _ _

namespace Holds
variable {m : BitVec w → α} {l : List α}

theorem getD (h : Holds m l) {i : Nat} (hi : i < l.length) (d : α) :
    m (BitVec.ofNat w i) = l.getD i d := by
  rw [h.cell i hi, List.getD_eq_getElem?_getD, List.getElem?_eq_getElem hi]
  rfl

theorem set (h : Holds m l) {i : Nat} (hi : i < l.length) (a : α) :
    Holds (Function.update m (BitVec.ofNat w i) a) (l.set i a) := by
  refine ⟨by simpa using h.fits, ?_⟩
  intro k hk
  rw [List.length_set] at hk
  rw [List.getElem_set]
  by_cases hik : i = k
  · subst hik
    simp
  · have hne : BitVec.ofNat w k ≠ BitVec.ofNat w i := fun e =>
      hik (ofNat_inj (Nat.lt_trans hk h.fits) (Nat.lt_trans hi h.fits) e).symm
    rw [Function.update_of_ne hne, if_neg hik, h.cell k hk]

theorem take (h : Holds m l) (n : Nat) : Holds m (l.take n) := by
  refine ⟨Nat.lt_of_le_of_lt (List.length_take_le' n l) h.fits, ?_⟩
  intro i hi
  rw [List.getElem_take]
  exact h.cell i _

end Holds

end Cells
