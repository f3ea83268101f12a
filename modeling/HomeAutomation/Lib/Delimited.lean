import Mathlib.Data.List.DropRight

/-!
# Cutting lists at delimiters, searching and trimming them

`cut p l` is the part of `l` before its first element satisfying `p`, with what follows that
element (`none` when there is no such element): one step of a tokenizer whose cursor becomes null
at the end. `find pat l` is where the pattern `pat` first stands in `l`. `trim p l` is `l` without
its longest leading and trailing runs of `p`.
-/

universe u

namespace Delimited

variable {α : Type u} (p : α → Bool)

/-! ## Cutting -/

def cut (l : List α) : List α × Option (List α) :=
  (l.takeWhile (fun x => !p x),
    match l.dropWhile (fun x => !p x) with
    | [] => none
    | _ :: r => some r)

@[simp] theorem cut_nil : cut p [] = ([], none) := rfl

theorem cut_cons (x : α) (l : List α) :
    cut p (x :: l) = if p x then ([], some l) else (x :: (cut p l).1, (cut p l).2) := by
  cases h : p x <;> simp [cut, h]

/-- A list without delimiter is one piece, and the cursor becomes null. -/
theorem cut_of_forall {l : List α} (h : ∀ x ∈ l, p x = false) : cut p l = (l, none) := by
  induction l with
  | nil => rfl
  | cons x l ih =>
    rw [cut_cons, h x (by simp), ih (fun y hy => h y (by simp [hy]))]
    simp

theorem cut_append_cons {a b : List α} {d : α} (h : ∀ x ∈ a, p x = false) (hd : p d = true) :
    cut p (a ++ d :: b) = (a, some b) := by
  induction a with
  | nil => simp [cut_cons, hd]
  | cons x a ih =>
    rw [List.cons_append, cut_cons, h x (by simp), ih (fun y hy => h y (by simp [hy]))]
    simp

/-- What a cut finds: the whole list, or the piece before the first delimiter and the rest. -/
theorem cut_cases (l : List α) :
    (∀ x ∈ (cut p l).1, p x = false) ∧
      ((cut p l).2 = none ∧ l = (cut p l).1 ∨
        ∃ d r, p d = true ∧ (cut p l).2 = some r ∧ l = (cut p l).1 ++ d :: r) := by
  induction l with
  | nil => simp
  | cons x l ih =>
    obtain ⟨hfree, hrest⟩ := ih
    rw [cut_cons]
    cases hx : p x with
    | true => exact ⟨by simp, Or.inr ⟨x, l, hx, by simp, by simp⟩⟩
    | false =>
      refine ⟨?_, ?_⟩
      · intro y hy
        rcases List.mem_cons.mp (by simpa using hy) with h | h
        · exact h ▸ hx
        · exact hfree y h
      · rcases hrest with ⟨hnone, hl⟩ | ⟨d, r, hd, hr, hl⟩
        · left
          exact ⟨by simpa using hnone, by simpa using hl⟩
        · right
          exact ⟨d, r, hd, by simpa using hr, by simpa using hl⟩

theorem mem_of_mem_cut {l : List α} {x : α} (h : x ∈ (cut p l).1) : x ∈ l ∧ p x = false := by
  obtain ⟨hfree, ⟨_, hl⟩ | ⟨d, r, _, _, hl⟩⟩ := cut_cases p l
  · rw [hl]
    exact ⟨h, hfree x h⟩
  · rw [hl]
    exact ⟨List.mem_append_left _ h, hfree x h⟩

theorem mem_of_mem_rest {l r : List α} (h : (cut p l).2 = some r) {x : α} (hx : x ∈ r) : x ∈ l := by
  obtain ⟨_, ⟨hnone, _⟩ | ⟨d, r', _, hr, hl⟩⟩ := cut_cases p l
  · exact absurd (hnone.symm.trans h) (by simp)
  · obtain rfl : r' = r := Option.some.inj (hr.symm.trans h)
    rw [hl]
    exact List.mem_append_right _ (List.mem_cons_of_mem _ hx)

theorem cut_length {l r : List α} (h : (cut p l).2 = some r) :
    (cut p l).1.length + r.length + 1 = l.length := by
  rcases (cut_cases p l).2 with ⟨hnone, _⟩ | ⟨d, r', _, hr, hl⟩
  · rw [h] at hnone
    exact absurd hnone (by simp)
  · rw [h, Option.some.injEq] at hr
    subst hr
    have hlen := congrArg List.length hl
    simp only [List.length_append, List.length_cons] at hlen
    omega

/-- The pieces of a list are the piece a cut finds and the pieces of what follows. -/
theorem splitOnP_cut (l : List α) :
    l.splitOnP p = (cut p l).1 :: (match (cut p l).2 with
      | none => []
      | some r => r.splitOnP p) := by
  induction l with
  | nil => rfl
  | cons x l ih =>
    rw [List.splitOnP_cons_eq_if_modifyHead, cut_cons, ih]
    split_ifs
    · rw [← ih]
    · rfl

/-- Where two lists meet, the last piece of one and the first piece of the other become one. -/
theorem splitOnP_append {a b : List α} {A B : List (List α)} {x y : List α}
    (ha : a.splitOnP p = A ++ [x]) (hb : b.splitOnP p = y :: B) :
    (a ++ b).splitOnP p = A ++ (x ++ y) :: B := by
  induction a generalizing A x with
  | nil =>
    rw [List.splitOnP_nil] at ha
    cases A with
    | nil =>
      obtain rfl : [] = x := by simpa using ha
      exact hb
    | cons z A => exact absurd ha (by simp)
  | cons c a ih =>
    rw [List.splitOnP_cons_eq_if_modifyHead] at ha
    rw [List.cons_append, List.splitOnP_cons_eq_if_modifyHead]
    split_ifs at ha ⊢
    · cases A with
      | nil => exact absurd (List.cons.inj ha).2 (List.splitOnP_ne_nil p a)
      | cons z A =>
        rw [List.cons_append, List.cons.injEq] at ha
        rw [ih ha.2, List.cons_append, ← ha.1]
    · obtain ⟨z, Z, hZ⟩ := List.exists_cons_of_ne_nil (List.splitOnP_ne_nil p a)
      rw [hZ, List.modifyHead_cons] at ha
      cases A with
      | nil =>
        rw [List.nil_append, List.cons.injEq] at ha
        rw [ih (A := []) (x := z) (by rw [hZ, ha.2]; rfl), ← ha.1]
        rfl
      | cons w A =>
        rw [List.cons_append, List.cons.injEq] at ha
        rw [ih (A := z :: A) (by rw [hZ, ha.2]; rfl), ← ha.1]
        rfl

theorem mem_of_mem_splitOnP {l piece : List α} (h : piece ∈ l.splitOnP p) {x : α}
    (hx : x ∈ piece) : x ∈ l := by
  induction l generalizing piece with
  | nil =>
    rw [List.splitOnP_nil, List.mem_singleton] at h
    rwa [h] at hx
  | cons y l ih =>
    rw [List.splitOnP_cons_eq_if_modifyHead] at h
    split_ifs at h
    · rcases List.mem_cons.mp h with rfl | h
      · exact absurd hx List.not_mem_nil
      · exact List.mem_cons_of_mem _ (ih h hx)
    · obtain ⟨a, as, has⟩ := List.exists_cons_of_ne_nil (List.splitOnP_ne_nil p l)
      rw [has, List.modifyHead_cons, List.mem_cons] at h
      rcases h with rfl | h
      · rcases List.mem_cons.mp hx with rfl | hx
        · exact List.mem_cons_self
        · exact List.mem_cons_of_mem _ (ih (has ▸ List.mem_cons_self) hx)
      · exact List.mem_cons_of_mem _ (ih (has ▸ List.mem_cons_of_mem _ h) hx)

theorem nil_cons_ne_modifyHead {x : α} {P Q : List (List α)} :
    [] :: P ≠ Q.modifyHead (List.cons x) := by
  cases Q <;> simp

/-- The pieces determine the list when there is one delimiter. -/
theorem splitOnP_inj {l l' : List α} (hone : ∀ x ∈ l, ∀ y ∈ l', p x = true → p y = true → x = y)
    (h : l.splitOnP p = l'.splitOnP p) : l = l' := by
  induction l generalizing l' with
  | nil =>
    cases l' with
    | nil => rfl
    | cons y l' =>
      rw [List.splitOnP_nil, List.splitOnP_cons_eq_if_modifyHead] at h
      have hne := List.splitOnP_ne_nil p l'
      split_ifs at h
      · exact absurd (List.cons.inj h).2.symm hne
      · exact absurd h nil_cons_ne_modifyHead
  | cons x l ih =>
    cases l' with
    | nil =>
      rw [List.splitOnP_nil, List.splitOnP_cons_eq_if_modifyHead] at h
      have hne := List.splitOnP_ne_nil p l
      split_ifs at h
      · exact absurd (List.cons.inj h).2 hne
      · exact absurd h.symm nil_cons_ne_modifyHead
    | cons y l' =>
      have hih : l.splitOnP p = l'.splitOnP p → l = l' :=
        ih fun a ha b hb => hone a (by simp [ha]) b (by simp [hb])
      have hne := List.splitOnP_ne_nil p l
      have hne' := List.splitOnP_ne_nil p l'
      rw [List.splitOnP_cons_eq_if_modifyHead, List.splitOnP_cons_eq_if_modifyHead] at h
      split_ifs at h with hx hy hy
      · rw [hone x (by simp) y (by simp) hx hy, hih (List.cons.inj h).2]
      · exact absurd h nil_cons_ne_modifyHead
      · exact absurd h.symm nil_cons_ne_modifyHead
      · cases hl : l.splitOnP p with
        | nil => exact absurd hl hne
        | cons a as =>
          cases hl' : l'.splitOnP p with
          | nil => exact absurd hl' hne'
          | cons b bs =>
            rw [hl, hl', List.modifyHead_cons, List.modifyHead_cons, List.cons.injEq,
              List.cons.injEq] at h
            obtain ⟨⟨rfl, rfl⟩, rfl⟩ := h
            rw [hih (by rw [hl, hl'])]

/-! ## Searching -/

section
variable [DecidableEq α]

/-- Where `pat` first stands in a list. -/
def find (pat : List α) : List α → Option Nat
  | [] => if pat <+: [] then some 0 else none
  | x :: l => if pat <+: x :: l then some 0 else (find pat l).map (· + 1)

variable {pat : List α}

theorem find_front {l : List α} (h : pat <+: l) : find pat l = some 0 := by
  cases l <;> simp [find, h]

theorem find_cons {x : α} {l : List α} (h : ¬ pat <+: x :: l) :
    find pat (x :: l) = (find pat l).map (· + 1) := by
  simp [find, h]

theorem prefix_of_find {l : List α} {i : Nat} (h : find pat l = some i) : pat <+: l.drop i := by
  induction l generalizing i with
  | nil =>
    by_cases hp : pat <+: []
    · rw [find_front hp, Option.some.injEq] at h
      simpa [← h] using hp
    · simp [find, hp] at h
  | cons x l ih =>
    by_cases hp : pat <+: x :: l
    · rw [find_front hp, Option.some.injEq] at h
      simpa [← h] using hp
    · rw [find_cons hp, Option.map_eq_some_iff] at h
      obtain ⟨j, hj, rfl⟩ := h
      exact ih hj

theorem find_length {l : List α} {i : Nat} (hpat : pat ≠ []) (h : find pat l = some i) :
    i + pat.length ≤ l.length := by
  have hle := (prefix_of_find h).length_le
  have hpos := List.length_pos_iff.2 hpat
  rw [List.length_drop] at hle
  omega

/-- What is found in a list is found in its extensions, at the same place. -/
theorem find_append {l : List α} {i : Nat} (hpat : pat ≠ []) (h : find pat l = some i)
    (r : List α) : find pat (l ++ r) = some i := by
  induction l generalizing i with
  | nil =>
    have hle := find_length hpat h
    have hpos := List.length_pos_iff.2 hpat
    simp only [List.length_nil] at hle
    omega
  | cons x l ih =>
    by_cases hp : pat <+: x :: l
    · rw [find_front hp] at h
      rw [find_front (hp.trans (List.prefix_append _ r)), h]
    · rw [find_cons hp, Option.map_eq_some_iff] at h
      obtain ⟨j, hj, rfl⟩ := h
      have hle := find_length hpat hj
      have hp' : ¬ pat <+: x :: (l ++ r) := by
        intro hpr
        refine hp (List.prefix_of_prefix_length_le hpr (List.prefix_append (x :: l) r) ?_)
        rw [List.length_cons]
        omega
      rw [List.cons_append, find_cons hp', ih hj]
      rfl

theorem exists_find {l : List α} (h : pat <:+: l) : ∃ i, find pat l = some i := by
  induction l with
  | nil =>
    obtain rfl := List.eq_nil_of_infix_nil h
    exact ⟨0, rfl⟩
  | cons x l ih =>
    by_cases hp : pat <+: x :: l
    · exact ⟨0, find_front hp⟩
    · rcases List.infix_cons_iff.mp h with hfront | hbehind
      · exact absurd hfront hp
      · obtain ⟨i, hi⟩ := ih hbehind
        exact ⟨i + 1, by rw [find_cons hp, hi, Option.map_some]⟩

theorem not_infix_take_find {l : List α} {i : Nat} (hpat : pat ≠ []) (h : find pat l = some i) :
    ¬ pat <:+: l.take i := by
  intro hin
  obtain ⟨k, hk⟩ := exists_find hin
  have hle := find_length hpat hk
  have hpos := List.length_pos_iff.2 hpat
  have hfirst := find_append hpat hk (l.drop i)
  rw [List.take_append_drop, h, Option.some.injEq] at hfirst
  rw [List.length_take] at hle
  omega

/-- A search passes over what does not hold the head of the pattern. -/
theorem find_append_of_notMem {c : α} {p a : List α} (h : c ∉ a) (r : List α) :
    find (c :: p) (a ++ r) = (find (c :: p) r).map (· + a.length) := by
  induction a with
  | nil => simp
  | cons x a ih =>
    have hx : ¬ c :: p <+: x :: (a ++ r) := by
      rw [List.cons_prefix_cons]
      exact fun hp => h (by simp [hp.1])
    rw [List.cons_append, find_cons hx, ih (fun hc => h (by simp [hc])), Option.map_map]
    rfl

theorem find_of_notMem {c : α} {p l : List α} (h : c ∉ l) : find (c :: p) l = none := by
  have hl := find_append_of_notMem (p := p) h []
  rw [List.append_nil] at hl
  rw [hl]
  simp [find]

/-- A piece that does not hold the head of the pattern ends where the pattern stands. -/
theorem find_piece {c : α} {p a : List α} (h : c ∉ a) (r : List α) :
    find (c :: p) (a ++ (c :: p ++ r)) = some a.length := by
  rw [find_append_of_notMem h, find_front (List.prefix_append _ r)]
  simp

end

/-! ## Trimming -/

def trim (l : List α) : List α := (l.dropWhile p).rdropWhile p

theorem trim_of_ends {l : List α} (hhead : ∀ x, l.head? = some x → p x = false)
    (hlast : ∀ x, l.getLast? = some x → p x = false) : trim p l = l := by
  have hdrop : l.dropWhile p = l := by
    cases l with
    | nil => rfl
    | cons x l => simp [hhead x rfl]
  rw [trim, hdrop, List.rdropWhile_eq_self_iff]
  intro hl
  simp [hlast _ (List.getLast?_eq_some_getLast hl)]

theorem trim_head {l : List α} {x : α} (h : (trim p l).head? = some x) : p x = false := by
  obtain ⟨s, hs⟩ := List.rdropWhile_prefix (p := p) (l := l.dropWhile p)
  have hx : (l.dropWhile p).head? = some x := by
    rw [← hs, List.head?_append]
    change ((trim p l).head?).or _ = _
    rw [h]
    rfl
  have := List.head?_dropWhile_not p l
  rw [hx] at this
  simpa using this

theorem trim_last {l : List α} {x : α} (h : (trim p l).getLast? = some x) : p x = false := by
  have hne : trim p l ≠ [] := fun e => by simp [e] at h
  rw [List.getLast?_eq_some_getLast hne, Option.some.injEq] at h
  have := List.rdropWhile_last_not (p := p) (l := l.dropWhile p) hne
  change ¬ p ((trim p l).getLast hne) = true at this
  rw [h] at this
  simpa using this

theorem trim_trim (l : List α) : trim p (trim p l) = trim p l :=
  trim_of_ends p (fun _ => trim_head p) (fun _ => trim_last p)

theorem mem_of_mem_trim {l : List α} {x : α} (h : x ∈ trim p l) : x ∈ l :=
  (List.dropWhile_suffix _).subset ((List.rdropWhile_prefix p _).subset h)

theorem mem_trim {l : List α} {x : α} (hx : x ∈ l) (hp : p x = false) : x ∈ trim p l := by
  have hfront : x ∈ l.dropWhile p := by
    rw [← List.takeWhile_append_dropWhile (p := p) (l := l), List.mem_append] at hx
    rcases hx with htake | hdrop
    · exact absurd (List.mem_takeWhile_imp htake) (by simp [hp])
    · exact hdrop
  rw [trim, List.rdropWhile, List.mem_reverse]
  have hback : x ∈ (l.dropWhile p).reverse := List.mem_reverse.mpr hfront
  rw [← List.takeWhile_append_dropWhile (p := p) (l := (l.dropWhile p).reverse),
    List.mem_append] at hback
  rcases hback with htake | hdrop
  · exact absurd (List.mem_takeWhile_imp htake) (by simp [hp])
  · exact hdrop

/-- Nothing is left exactly of a list that satisfies `p` throughout. -/
theorem trim_eq_nil_iff {l : List α} : trim p l = [] ↔ ∀ x ∈ l, p x = true := by
  constructor
  · intro hnil x hx
    by_contra hp
    have hmem := mem_trim p hx (by simpa using hp)
    rw [hnil] at hmem
    exact List.not_mem_nil hmem
  · intro hall
    by_contra hne
    obtain ⟨x, t, hx⟩ := List.exists_cons_of_ne_nil hne
    have hhead := trim_head p (l := l) (x := x) (by rw [hx]; rfl)
    have hmem : x ∈ trim p l := by
      rw [hx]
      exact List.mem_cons_self
    rw [hall x (mem_of_mem_trim p hmem)] at hhead
    exact absurd hhead (by simp)

end Delimited
