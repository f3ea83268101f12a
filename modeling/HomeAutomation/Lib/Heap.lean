import Mathlib.Data.Multiset.MapFold
import Mathlib.Algebra.Order.Group.Multiset
import Mathlib.Logic.Function.Basic
import Mathlib.Tactic.Abel

/-!
# Programs on a heap, and what they own

A heap of blocks behind pointers (`0` is the null pointer), with programs that allocate, read, write
and free them; any access to a pointer without a block ends the program. Addresses are not used
again, so a dangling pointer stays one. A footprint is the multiset of the blocks that a piece of a
program owns: `Owns h F` says that the heap consists of exactly the blocks of `F`, and `Spec F prog Q`
that `prog`, owning `F`, ends without a fault and owns what `Q` says, whatever else is on the heap.
Nothing leaks and nothing is freed twice in a program with such a specification. `Fails prog` says
that `prog` faults whatever is on the heap.
-/

namespace HeapLogic

structure Heap (α : Type) where
  cells : Nat → Option α
  next : Nat
  null : 0 < next
  allocated : ∀ p a, cells p = some a → p ≠ 0 ∧ p < next

/-- The blocks that a program owns. -/
abbrev Footprint (α : Type) := Multiset (Nat × α)

/-- A program on the heap that can fault. -/
abbrev Prog (α ε ρ : Type) := StateT (Heap α) (Except ε) ρ

section
variable {α ε ρ ρ' : Type}

/-- The heap without blocks. -/
def Heap.empty (α : Type) : Heap α where
  cells _ := none
  next := 1
  null := Nat.one_pos
  allocated _ _ h := absurd h (by simp)

/-- The heap with another content of the block at `p`, or without it. -/
def Heap.set (h : Heap α) (p : Nat) (a : Option α) (hp : p ≠ 0 ∧ p < h.next) : Heap α where
  cells := Function.update h.cells p a
  next := h.next
  null := h.null
  allocated q b hq := by
    by_cases hqp : q = p
    · exact hqp ▸ hp
    · rw [Function.update_of_ne hqp] at hq
      exact h.allocated q b hq

/-- The heap with a new block. -/
def Heap.push (h : Heap α) (a : α) : Heap α where
  cells := Function.update h.cells h.next (some a)
  next := h.next + 1
  null := Nat.succ_pos _
  allocated q b hq := by
    by_cases hqp : q = h.next
    · exact ⟨by have := h.null; omega, by omega⟩
    · rw [Function.update_of_ne hqp] at hq
      obtain ⟨hne, hlt⟩ := h.allocated q b hq
      exact ⟨hne, by omega⟩

/-! ## Programs -/

/-- `malloc` and the first write; it does not fail. -/
def alloc (a : α) : Prog α ε Nat := fun h => .ok (h.next, h.push a)

variable (bad : Nat → ε)

def load (p : Nat) : Prog α ε α := fun h =>
  match h.cells p with
  | none => .error (bad p)
  | some a => .ok (a, h)

def store (p : Nat) (a : α) : Prog α ε Unit := fun h =>
  match hp : h.cells p with
  | none => .error (bad p)
  | some b => .ok ((), h.set p (some a) (h.allocated p b hp))

def release (p : Nat) : Prog α ε Unit := fun h =>
  match hp : h.cells p with
  | none => .error (bad p)
  | some b => .ok ((), h.set p none (h.allocated p b hp))

/-! ## Ownership -/

/-- The heap consists of the blocks of `F`. -/
structure Owns (h : Heap α) (F : Footprint α) : Prop where
  nodup : (F.map Prod.fst).Nodup
  mem : ∀ p a, h.cells p = some a ↔ (p, a) ∈ F

theorem owns_empty : Owns (Heap.empty α) 0 :=
  ⟨by simp, fun p a => by simp [Heap.empty]⟩

variable {h : Heap α} {F G : Footprint α} {p : Nat} {a b : α}

theorem mem_behind {c : Nat × α} (hc : c ∈ F) : c ∈ G + F := Multiset.mem_add.mpr (Or.inr hc)

theorem mem_front {c : Nat × α} : c ∈ {c} + F := by simp

theorem Owns.notMem (hown : Owns h ((p, a) ::ₘ F)) : ∀ b, (p, b) ∉ F := by
  intro b hb
  have hnodup := hown.nodup
  rw [Multiset.map_cons, Multiset.nodup_cons] at hnodup
  exact hnodup.1 (Multiset.mem_map.mpr ⟨(p, b), hb, rfl⟩)

theorem Owns.push (hown : Owns h F) (a : α) : Owns (h.push a) ((h.next, a) ::ₘ F) := by
  have hnew : ∀ b, (h.next, b) ∉ F := by
    intro b hb
    have hlt := (h.allocated _ _ ((hown.mem _ b).mpr hb)).2
    omega
  refine ⟨?_, ?_⟩
  · rw [Multiset.map_cons, Multiset.nodup_cons]
    refine ⟨?_, hown.nodup⟩
    intro hmem
    obtain ⟨⟨q, b⟩, hb, hq⟩ := Multiset.mem_map.mp hmem
    obtain rfl : q = h.next := hq
    exact hnew b hb
  · intro q b
    rw [Multiset.mem_cons, Prod.mk.injEq]
    by_cases hq : q = h.next
    · subst hq
      simp only [Heap.push, Function.update_self, Option.some.injEq, true_and]
      exact ⟨fun e => Or.inl e.symm, fun e => e.elim Eq.symm fun hb => absurd hb (hnew b)⟩
    · simp only [Heap.push, Function.update_of_ne hq, hq, false_and, false_or]
      exact hown.mem q b

theorem Owns.set (hown : Owns h ((p, a) ::ₘ F)) (b : α) (hp : p ≠ 0 ∧ p < h.next) :
    Owns (h.set p (some b) hp) ((p, b) ::ₘ F) := by
  refine ⟨by simpa using hown.nodup, ?_⟩
  intro q c
  have hmem := hown.mem q c
  rw [Multiset.mem_cons, Prod.mk.injEq] at hmem ⊢
  by_cases hq : q = p
  · subst hq
    simp only [Heap.set, Function.update_self, Option.some.injEq, true_and]
    exact ⟨fun e => Or.inl e.symm, fun e => e.elim Eq.symm fun hc => absurd hc (hown.notMem c)⟩
  · simp only [Heap.set, Function.update_of_ne hq, hq, false_and, false_or] at hmem ⊢
    exact hmem

theorem Owns.unset (hown : Owns h ((p, a) ::ₘ F)) (hp : p ≠ 0 ∧ p < h.next) :
    Owns (h.set p none hp) F := by
  have hnodup := hown.nodup
  rw [Multiset.map_cons, Multiset.nodup_cons] at hnodup
  refine ⟨hnodup.2, ?_⟩
  intro q c
  have hmem := hown.mem q c
  rw [Multiset.mem_cons, Prod.mk.injEq] at hmem
  by_cases hq : q = p
  · subst hq
    simp only [Heap.set, Function.update_self]
    exact ⟨fun e => absurd e (by simp), fun hc => absurd hc (hown.notMem c)⟩
  · simp only [Heap.set, Function.update_of_ne hq, hq, false_and, false_or] at hmem ⊢
    exact hmem

/-- The number of blocks on the heap. -/
def Heap.size (h : Heap α) : Nat :=
  ((List.range h.next).filter fun p => (h.cells p).isSome).length

theorem Owns.size_eq (hown : Owns h F) : h.size = F.card := by
  have hnodup : ((List.range h.next).filter fun p => (h.cells p).isSome).Nodup :=
    List.nodup_range.filter _
  have hmem : ∀ p, p ∈ (List.range h.next).filter (fun p => (h.cells p).isSome) ↔
      p ∈ F.map Prod.fst := by
    intro p
    rw [List.mem_filter, List.mem_range, Option.isSome_iff_exists, Multiset.mem_map]
    constructor
    · rintro ⟨_, a, ha⟩
      exact ⟨(p, a), (hown.mem p a).mp ha, rfl⟩
    · rintro ⟨⟨q, a⟩, ha, rfl⟩
      have hcell := (hown.mem q a).mpr ha
      exact ⟨(h.allocated q a hcell).2, a, hcell⟩
  have hsame : (((List.range h.next).filter fun p => (h.cells p).isSome : List Nat) :
      Multiset Nat) = F.map Prod.fst :=
    (Multiset.Nodup.ext (Multiset.coe_nodup.mpr hnodup) hown.nodup).mpr fun p => by
      rw [Multiset.mem_coe]
      exact hmem p
  rw [Heap.size, ← Multiset.coe_card, hsame, Multiset.card_map]

/-! ## Specifications -/

/-- Owning `F`, the program ends without a fault and owns what `Q` says of its result; the rest of
the heap is left alone. -/
def Spec (F : Footprint α) (prog : Prog α ε ρ) (Q : ρ → Footprint α → Prop) : Prop :=
  ∀ h G, Owns h (F + G) → ∃ r h' F', prog.run h = .ok (r, h') ∧ Q r F' ∧ Owns h' (F' + G)

variable {Q : ρ → Footprint α → Prop} {prog : Prog α ε ρ}

theorem Spec.pure {r : ρ} (hQ : Q r F) : Spec F (Pure.pure r : Prog α ε ρ) Q :=
  fun h _ hown => ⟨r, h, F, rfl, hQ, hown⟩

theorem Spec.bind {k : ρ → Prog α ε ρ'} {R : ρ' → Footprint α → Prop} (hprog : Spec F prog Q)
    (hk : ∀ r F', Q r F' → Spec F' (k r) R) : Spec F (prog >>= k) R := by
  intro h G hown
  obtain ⟨r, h₁, F₁, hrun, hQ, hown₁⟩ := hprog h G hown
  obtain ⟨r', h', F', hrun', hR, hown'⟩ := hk r F₁ hQ h₁ G hown₁
  refine ⟨r', h', F', ?_, hR, hown'⟩
  rw [StateT.run_bind, hrun]
  exact hrun'

theorem Spec.mono {R : ρ → Footprint α → Prop} (hprog : Spec F prog Q)
    (hQ : ∀ r F', Q r F' → R r F') : Spec F prog R := by
  intro h G hown
  obtain ⟨r, h', F', hrun, hQ', hown'⟩ := hprog h G hown
  exact ⟨r, h', F', hrun, hQ r F' hQ', hown'⟩

theorem Spec.frame (hprog : Spec F prog Q) (G : Footprint α) :
    Spec (F + G) prog fun r F' => ∃ F₁, Q r F₁ ∧ F' = F₁ + G := by
  intro h K hown
  rw [add_assoc] at hown
  obtain ⟨r, h', F', hrun, hQ, hown'⟩ := hprog h (G + K) hown
  exact ⟨r, h', F' + G, hrun, ⟨F', hQ, rfl⟩, by rwa [add_assoc]⟩

theorem Spec.seq {F₀ G : Footprint α} {k : ρ → Prog α ε ρ'} {R : ρ' → Footprint α → Prop}
    (hprog : Spec F prog Q) (hF : F₀ = F + G)
    (hk : ∀ r F', Q r F' → Spec (F' + G) (k r) R) : Spec F₀ (prog >>= k) R := by
  rw [hF]
  refine (hprog.frame G).bind ?_
  rintro r _ ⟨F', hQ, rfl⟩
  exact hk r F' hQ

theorem Spec.alloc : Spec F (alloc a : Prog α ε Nat) fun p F' => p ≠ 0 ∧ F' = {(p, a)} + F := by
  intro h G hown
  have hnull := h.null
  refine ⟨h.next, h.push a, {(h.next, a)} + F, rfl, ⟨by omega, rfl⟩, ?_⟩
  rw [add_assoc, Multiset.singleton_add]
  exact hown.push a

theorem Spec.load (hmem : (p, a) ∈ F) :
    Spec F (load bad p) fun r F' => r = a ∧ F' = F := by
  intro h G hown
  have hp : h.cells p = some a := (hown.mem p a).mpr (Multiset.mem_add.mpr (Or.inl hmem))
  refine ⟨a, h, F, ?_, ⟨rfl, rfl⟩, hown⟩
  change HeapLogic.load bad p h = _
  rw [HeapLogic.load, hp]

theorem Spec.store (hF : F = {(p, a)} + G) (b : α) :
    Spec F (store bad p b) fun _ F' => F' = {(p, b)} + G := by
  intro h K hown
  rw [hF, add_assoc, Multiset.singleton_add] at hown
  have hp : h.cells p = some a := (hown.mem p a).mpr (Multiset.mem_cons_self _ _)
  refine ⟨(), h.set p (some b) (h.allocated p a hp), {(p, b)} + G, ?_, rfl, ?_⟩
  · change HeapLogic.store bad p b h = _
    rw [HeapLogic.store]
    split
    · next hnone => exact absurd (hp.symm.trans hnone) (by simp)
    · rfl
  · rw [add_assoc, Multiset.singleton_add]
    exact hown.set b _

theorem Spec.release (hF : F = {(p, a)} + G) :
    Spec F (release bad p) fun _ F' => F' = G := by
  intro h K hown
  rw [hF, add_assoc, Multiset.singleton_add] at hown
  have hp : h.cells p = some a := (hown.mem p a).mpr (Multiset.mem_cons_self _ _)
  refine ⟨(), h.set p none (h.allocated p a hp), G, ?_, rfl, hown.unset _⟩
  change HeapLogic.release bad p h = _
  rw [HeapLogic.release]
  split
  · next hnone => exact absurd (hp.symm.trans hnone) (by simp)
  · rfl

/-! ## Programs that fault -/

/-- The program faults, whatever is on the heap. -/
def Fails (prog : Prog α ε ρ) : Prop := ∀ h, ∃ e, prog.run h = .error e

theorem Fails.bind (hprog : Fails prog) (k : ρ → Prog α ε ρ') : Fails (prog >>= k) := by
  intro h
  obtain ⟨e, hrun⟩ := hprog h
  refine ⟨e, ?_⟩
  rw [StateT.run_bind, hrun]
  rfl

/-- What follows a program faults, for every result that it can have. -/
theorem Fails.after {P : ρ → Prop} {k : ρ → Prog α ε ρ'}
    (hprog : ∀ h r h', prog.run h = .ok (r, h') → P r) (hk : ∀ r, P r → Fails (k r)) :
    Fails (prog >>= k) := by
  intro h
  rcases hrun : prog.run h with e | ⟨r, h'⟩
  · refine ⟨e, ?_⟩
    rw [StateT.run_bind, hrun]
    rfl
  · obtain ⟨e, hrest⟩ := hk r (hprog h r h' hrun) h'
    refine ⟨e, ?_⟩
    rw [StateT.run_bind, hrun]
    exact hrest

theorem Fails.later {k : ρ → Prog α ε ρ'} (hk : ∀ r, Fails (k r)) : Fails (prog >>= k) :=
  Fails.after (P := fun _ => True) (fun _ _ _ _ => trivial) fun r _ => hk r

end

end HeapLogic
