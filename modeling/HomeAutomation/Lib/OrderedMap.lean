import Mathlib.Data.List.Forall2
import Mathlib.Data.List.Nodup
import Mathlib.Data.List.Perm.Subperm
import Mathlib.Data.List.Dedup
import Mathlib.Tactic.Ring
import Mathlib.Tactic.SplitIfs

/-!
# Insertion-ordered finite maps

A finite map that remembers in which order its keys came first: an association list whose keys are
distinct, the distinctness being a field. `alter k f` rewrites the value of `k` in place or appends
it, `alterAll` runs a list of such updates.

* `lookup_alterAll`: after a run the value of `k` is the fold of the updates of `k`, in run order.
* `keys_alterAll`: the keys are the old keys followed by the new ones in first-use order.
-/

universe u v w

/-- An association list with distinct keys, in first-insertion order. -/
structure OrderedMap (κ : Type u) (ν : Type v) where
  entries : List (κ × ν)
  nodup : (entries.map Prod.fst).Nodup

namespace OrderedMap

variable {κ : Type u} {ν : Type v} {σ : Type w}

/-! ## Association lists -/

theorem eraseDups_of_nodup [BEq κ] [LawfulBEq κ] {ks : List κ} (h : ks.Nodup) : ks.eraseDups = ks := by
  induction ks with
  | nil => rfl
  | cons a ks ih =>
    rw [List.nodup_cons] at h
    have hne : ∀ b ∈ ks, (!b == a) = true := by
      intro b hb
      have hba : b ≠ a := fun e => h.1 (e ▸ hb)
      simpa using hba
    rw [List.eraseDups_cons, List.filter_eq_self.mpr hne, ih h.2]

theorem length_eraseDups_le [BEq κ] [LawfulBEq κ] (ks : List κ) : ks.eraseDups.length ≤ ks.length := by
  induction hn : ks.length using Nat.strong_induction_on generalizing ks with
  | _ n ih =>
    subst hn
    rcases ks with _ | ⟨a, ks⟩
    · exact le_refl _
    · have hfilter := List.length_filter_le (fun b => !b == a) ks
      have hlt : (ks.filter fun b => !b == a).length < (a :: ks).length := by
        rw [List.length_cons]
        omega
      have hle := ih _ hlt _ rfl
      rw [List.eraseDups_cons, List.length_cons, List.length_cons]
      omega

section Entries
variable [DecidableEq κ]

/-- The value of `k`, found from the front. -/
def lookupEntries (k : κ) : List (κ × ν) → Option ν
  | [] => none
  | (a, b) :: l => if a = k then some b else lookupEntries k l

/-- Rewrite the value of `k` in place, or append `k`. -/
def alterEntries (k : κ) (f : Option ν → ν) : List (κ × ν) → List (κ × ν)
  | [] => [(k, f none)]
  | (a, b) :: l => if a = k then (a, f (some b)) :: l else (a, b) :: alterEntries k f l

theorem lookupEntries_eq_none {k : κ} {l : List (κ × ν)} :
    lookupEntries k l = none ↔ k ∉ l.map Prod.fst := by
  induction l with
  | nil => simp [lookupEntries]
  | cons p l ih =>
    obtain ⟨a, b⟩ := p
    by_cases h : a = k
    · simp [lookupEntries, h]
    · have hk : ¬ k = a := fun e => h e.symm
      simp [lookupEntries, h, hk, ih]

theorem lookupEntries_mem {k : κ} {b : ν} {l : List (κ × ν)} (h : lookupEntries k l = some b) :
    (k, b) ∈ l := by
  induction l with
  | nil => simp [lookupEntries] at h
  | cons p l ih =>
    obtain ⟨a, c⟩ := p
    rw [lookupEntries] at h
    split_ifs at h with ha
    · cases h
      simp [ha]
    · exact List.mem_cons_of_mem _ (ih h)

theorem lookupEntries_of_mem {k : κ} {b : ν} {l : List (κ × ν)} (hl : (l.map Prod.fst).Nodup)
    (h : (k, b) ∈ l) : lookupEntries k l = some b := by
  induction l with
  | nil => simp at h
  | cons p l ih =>
    obtain ⟨a, c⟩ := p
    rw [List.map_cons, List.nodup_cons] at hl
    rcases List.mem_cons.mp h with h | h
    · cases h
      simp [lookupEntries]
    · have hk : k ∈ l.map Prod.fst := List.mem_map.mpr ⟨(k, b), h, rfl⟩
      have ha : a ≠ k := fun e => hl.1 (e ▸ hk)
      rw [lookupEntries, if_neg ha, ih hl.2 h]

theorem keys_alterEntries (k : κ) (f : Option ν → ν) (l : List (κ × ν)) :
    (alterEntries k f l).map Prod.fst =
      if k ∈ l.map Prod.fst then l.map Prod.fst else l.map Prod.fst ++ [k] := by
  induction l with
  | nil => simp [alterEntries]
  | cons p l ih =>
    obtain ⟨a, b⟩ := p
    by_cases h : a = k
    · simp [alterEntries, h]
    · have hk : ¬ k = a := fun e => h e.symm
      rw [alterEntries, if_neg h, List.map_cons, ih]
      by_cases hm : k ∈ l.map Prod.fst
      · rw [if_pos hm, if_pos (by simp only [List.map_cons, List.mem_cons]; exact Or.inr hm)]
        rfl
      · rw [if_neg hm, if_neg (by simp only [List.map_cons, List.mem_cons]; tauto)]
        rfl

theorem lookup_alterEntries (k j : κ) (f : Option ν → ν) (l : List (κ × ν)) :
    lookupEntries j (alterEntries k f l) =
      if j = k then some (f (lookupEntries k l)) else lookupEntries j l := by
  induction l with
  | nil =>
    by_cases h : j = k
    · simp [alterEntries, lookupEntries, h]
    · have hk : ¬ k = j := fun e => h e.symm
      simp [alterEntries, lookupEntries, h, hk]
  | cons p l ih =>
    obtain ⟨a, b⟩ := p
    by_cases ha : a = k
    · subst ha
      by_cases h : j = a
      · simp [alterEntries, lookupEntries, h]
      · have hk : ¬ a = j := fun e => h e.symm
        simp [alterEntries, lookupEntries, h, hk]
    · rw [alterEntries, if_neg ha, lookupEntries, ih, lookupEntries, if_neg ha, lookupEntries]
      by_cases haj : a = j
      · have hjk : ¬ j = k := fun e => ha (haj.trans e)
        rw [if_pos haj, if_neg hjk, if_pos haj]
      · rw [if_neg haj, if_neg haj]

theorem alterEntries_const_lookup (k : κ) (f : Option ν → ν) (l : List (κ × ν)) :
    alterEntries k (fun _ => f (lookupEntries k l)) l = alterEntries k f l := by
  induction l with
  | nil => rfl
  | cons p l ih =>
    obtain ⟨a, b⟩ := p
    by_cases h : a = k
    · simp [alterEntries, lookupEntries, h]
    · simp [alterEntries, lookupEntries, h, ih]

theorem alterEntries_of_notMem {k : κ} {l : List (κ × ν)} (f : Option ν → ν)
    (h : k ∉ l.map Prod.fst) : alterEntries k f l = l ++ [(k, f none)] := by
  induction l with
  | nil => rfl
  | cons p l ih =>
    obtain ⟨a, b⟩ := p
    simp only [List.map_cons, List.mem_cons, not_or] at h
    rw [alterEntries, if_neg (fun e => h.1 e.symm), ih h.2]
    rfl

theorem nodup_alterEntries (k : κ) (f : Option ν → ν) {l : List (κ × ν)}
    (h : (l.map Prod.fst).Nodup) : ((alterEntries k f l).map Prod.fst).Nodup := by
  rw [keys_alterEntries]
  split_ifs with hk
  · exact h
  · exact List.nodup_append.mpr ⟨h, List.nodup_singleton k, by
      intro a ha b hb e
      rw [List.mem_singleton] at hb
      exact hk (hb ▸ e ▸ ha)⟩

end Entries

/-! ## Maps -/

/-- The map without entries. -/
def empty : OrderedMap κ ν := ⟨[], List.nodup_nil⟩

/-- The keys, in first-insertion order. -/
def keys (m : OrderedMap κ ν) : List κ := m.entries.map Prod.fst

def size (m : OrderedMap κ ν) : Nat := m.entries.length

@[simp] theorem entries_empty : (empty : OrderedMap κ ν).entries = [] := rfl
@[simp] theorem keys_empty : (empty : OrderedMap κ ν).keys = [] := rfl
@[simp] theorem size_empty : (empty : OrderedMap κ ν).size = 0 := rfl
@[simp] theorem length_keys (m : OrderedMap κ ν) : m.keys.length = m.size := by simp [keys, size]

@[ext] theorem ext {m n : OrderedMap κ ν} (h : m.entries = n.entries) : m = n := by
  cases m; cases n
  simpa using h

variable [DecidableEq κ]

def lookup (m : OrderedMap κ ν) (k : κ) : Option ν := lookupEntries k m.entries

/-- `alter k f` gives `k` the value `f old`, `old` being `none` for a new key. -/
def alter (m : OrderedMap κ ν) (k : κ) (f : Option ν → ν) : OrderedMap κ ν :=
  ⟨alterEntries k f m.entries, nodup_alterEntries k f m.nodup⟩

/-- One `alter` for each pair of the list, `f` combining the pair's second part and the old value. -/
def alterAll (f : σ → Option ν → ν) (m : OrderedMap κ ν) (l : List (κ × σ)) : OrderedMap κ ν :=
  l.foldl (fun m p => m.alter p.1 (f p.2)) m

/-- The entries whose key satisfies `p`. -/
def filterKeys (m : OrderedMap κ ν) (p : κ → Bool) : OrderedMap κ ν :=
  ⟨m.entries.filter (fun e => p e.1),
    m.nodup.sublist (List.Sublist.map Prod.fst List.filter_sublist)⟩

omit [DecidableEq κ] in
theorem keys_filterKeys (m : OrderedMap κ ν) (p : κ → Bool) :
    (m.filterKeys p).keys = m.keys.filter p := by
  rw [keys, keys, List.filter_map]
  rfl

@[simp] theorem lookup_empty (k : κ) : (empty : OrderedMap κ ν).lookup k = none := rfl

@[simp] theorem alterAll_nil (f : σ → Option ν → ν) (m : OrderedMap κ ν) : m.alterAll f [] = m := rfl

theorem alterAll_cons (f : σ → Option ν → ν) (m : OrderedMap κ ν) (p : κ × σ) (l : List (κ × σ)) :
    m.alterAll f (p :: l) = (m.alter p.1 (f p.2)).alterAll f l := rfl

theorem alterAll_append (f : σ → Option ν → ν) (m : OrderedMap κ ν) (l l' : List (κ × σ)) :
    m.alterAll f (l ++ l') = (m.alterAll f l).alterAll f l' := List.foldl_append

theorem lookup_eq_none {m : OrderedMap κ ν} {k : κ} : m.lookup k = none ↔ k ∉ m.keys :=
  lookupEntries_eq_none

theorem lookup_eq_some {m : OrderedMap κ ν} {k : κ} {b : ν} :
    m.lookup k = some b ↔ (k, b) ∈ m.entries :=
  ⟨lookupEntries_mem, lookupEntries_of_mem m.nodup⟩

theorem entries_eq_map_keys {m : OrderedMap κ ν} (g : κ → ν)
    (h : ∀ k ∈ m.keys, m.lookup k = some (g k)) : m.entries = m.keys.map fun k => (k, g k) := by
  rw [keys, List.map_map]
  refine (List.map_id m.entries).symm.trans (List.map_congr_left ?_)
  intro e he
  have hlookup : m.lookup e.1 = some e.2 := lookup_eq_some.mpr he
  rw [h e.1 (List.mem_map.mpr ⟨e, he, rfl⟩), Option.some.injEq] at hlookup
  show e = (e.1, g e.1)
  rw [hlookup]

theorem lookup_alter (m : OrderedMap κ ν) (k j : κ) (f : Option ν → ν) :
    (m.alter k f).lookup j = if j = k then some (f (m.lookup k)) else m.lookup j :=
  lookup_alterEntries k j f m.entries

theorem keys_alter (m : OrderedMap κ ν) (k : κ) (f : Option ν → ν) :
    (m.alter k f).keys = if k ∈ m.keys then m.keys else m.keys ++ [k] :=
  keys_alterEntries k f m.entries

theorem mem_keys_alter {m : OrderedMap κ ν} {k j : κ} {f : Option ν → ν} :
    j ∈ (m.alter k f).keys ↔ j ∈ m.keys ∨ j = k := by
  rw [keys_alter]
  split_ifs with h
  · exact ⟨Or.inl, fun hj => hj.elim id (fun e => e ▸ h)⟩
  · simp

theorem alter_const_lookup (m : OrderedMap κ ν) (k : κ) (f : Option ν → ν) :
    (m.alter k fun _ => f (m.lookup k)) = m.alter k f := by
  ext1
  exact alterEntries_const_lookup k f m.entries

theorem size_alter (m : OrderedMap κ ν) (k : κ) (f : Option ν → ν) :
    (m.alter k f).size = if k ∈ m.keys then m.size else m.size + 1 := by
  rw [← length_keys, keys_alter]
  split_ifs <;> simp

theorem size_le_alter (m : OrderedMap κ ν) (k : κ) (f : Option ν → ν) :
    m.size ≤ (m.alter k f).size := by
  rw [size_alter]
  split_ifs <;> omega

omit [DecidableEq κ] in
theorem size_le_of_keys {m : OrderedMap κ ν} {l : List κ} (h : ∀ k ∈ m.keys, k ∈ l) :
    m.size ≤ l.length := by
  rw [← length_keys]
  exact (m.nodup.subperm h).length_le

/-! ## Runs of updates -/

theorem lookup_alterAll (f : σ → Option ν → ν) (m : OrderedMap κ ν) (l : List (κ × σ)) (k : κ) :
    (m.alterAll f l).lookup k =
      ((l.filter (fun p => p.1 = k)).map Prod.snd).foldl (fun d s => some (f s d)) (m.lookup k) := by
  induction l generalizing m with
  | nil => rfl
  | cons p l ih =>
    rw [alterAll_cons, ih, lookup_alter]
    by_cases h : p.1 = k
    · simp [h]
    · have hk : ¬ k = p.1 := fun e => h e.symm
      simp [h, hk]

/-- The keys after a run: the old ones, then the new ones in the order of their first use. -/
theorem keys_alterAll [BEq κ] [LawfulBEq κ] (f : σ → Option ν → ν) (m : OrderedMap κ ν)
    (l : List (κ × σ)) :
    (m.alterAll f l).keys = (m.keys ++ l.map Prod.fst).eraseDups := by
  induction l generalizing m with
  | nil =>
    rw [List.map_nil, List.append_nil]
    exact (eraseDups_of_nodup m.nodup).symm
  | cons p l ih =>
    rw [alterAll_cons, ih, keys_alter]
    by_cases h : p.1 ∈ m.keys
    · rw [if_pos h, List.map_cons, List.eraseDups_append, List.eraseDups_append]
      congr 2
      simp [List.removeAll, h]
    · rw [if_neg h]
      simp

theorem size_le_alterAll (f : σ → Option ν → ν) (m : OrderedMap κ ν) (l : List (κ × σ)) :
    m.size ≤ (m.alterAll f l).size := by
  induction l generalizing m with
  | nil => exact le_refl _
  | cons p l ih => exact le_trans (size_le_alter m p.1 (f p.2)) (ih _)

theorem mem_keys_alterAll {f : σ → Option ν → ν} {m : OrderedMap κ ν} {l : List (κ × σ)} {k : κ} :
    k ∈ (m.alterAll f l).keys ↔ k ∈ m.keys ∨ k ∈ l.map Prod.fst := by
  rw [keys_alterAll, List.mem_eraseDups, List.mem_append]

/-! ## Last writer wins -/

/-- The values the pairs of `l` give to `k`, in order. -/
def valuesOf (k : κ) (l : List (κ × σ)) : List σ := (l.filter (fun p => p.1 = k)).map Prod.snd

theorem valuesOf_append (k : κ) (l l' : List (κ × σ)) :
    valuesOf k (l ++ l') = valuesOf k l ++ valuesOf k l' := by
  simp [valuesOf]

theorem valuesOf_eq_nil {k : κ} {l : List (κ × σ)} : valuesOf k l = [] ↔ k ∉ l.map Prod.fst := by
  simp only [valuesOf, List.map_eq_nil_iff, List.filter_eq_nil_iff, decide_eq_true_eq, List.mem_map,
    not_exists, not_and]

/-- Overwriting runs: the last value given to `k` stands, else the old one. -/
theorem lookup_overwrite (m : OrderedMap κ ν) (l : List (κ × ν)) (k : κ) :
    (m.alterAll (fun s _ => s) l).lookup k = ((valuesOf k l).getLast?).or (m.lookup k) := by
  rw [lookup_alterAll]
  show (valuesOf k l).foldl (fun _ s => some s) (m.lookup k) = _
  generalize valuesOf k l = vs
  generalize m.lookup k = d
  induction vs generalizing d with
  | nil => simp
  | cons v vs ih =>
    rw [List.foldl_cons, ih, List.getLast?_cons]
    cases vs.getLast? <;> rfl

/-! ## Related maps -/

section Rel
variable {μ : Type w}

/-- Two maps with the same keys in the same order, and related values. -/
def Rel (R : ν → μ → Prop) (m : OrderedMap κ ν) (n : OrderedMap κ μ) : Prop :=
  List.Forall₂ (fun p q => p.1 = q.1 ∧ R p.2 q.2) m.entries n.entries

variable {R : ν → μ → Prop} {m : OrderedMap κ ν} {n : OrderedMap κ μ}

omit [DecidableEq κ] in
theorem Rel.empty : Rel R (OrderedMap.empty : OrderedMap κ ν) OrderedMap.empty := List.Forall₂.nil

omit [DecidableEq κ] in
theorem Rel.keys_eq (h : Rel R m n) : m.keys = n.keys := by
  unfold Rel at h
  unfold keys
  generalize m.entries = l at h ⊢
  generalize n.entries = l' at h ⊢
  induction h with
  | nil => rfl
  | cons hpq _ ih => rw [List.map_cons, List.map_cons, ih, hpq.1]

omit [DecidableEq κ] in
theorem Rel.size_eq (h : Rel R m n) : m.size = n.size := by
  rw [← length_keys, h.keys_eq, length_keys]

omit [DecidableEq κ] in
theorem Rel.getElem? (h : Rel R m n) (i : Nat) :
    (m.entries[i]? = none ∧ n.entries[i]? = none) ∨
      ∃ p q, m.entries[i]? = some p ∧ n.entries[i]? = some q ∧ p.1 = q.1 ∧ R p.2 q.2 := by
  unfold Rel at h
  generalize m.entries = l at h ⊢
  generalize n.entries = l' at h ⊢
  induction h generalizing i with
  | nil => exact Or.inl ⟨rfl, rfl⟩
  | @cons p q l l' hpq _ ih =>
    cases i with
    | zero => exact Or.inr ⟨p, q, rfl, rfl, hpq⟩
    | succ i => exact ih i

theorem Rel.lookup (h : Rel R m n) (k : κ) :
    (m.lookup k = none ∧ n.lookup k = none) ∨
      ∃ a b, m.lookup k = some a ∧ n.lookup k = some b ∧ R a b := by
  unfold Rel at h
  unfold OrderedMap.lookup
  generalize m.entries = l at h ⊢
  generalize n.entries = l' at h ⊢
  induction h with
  | nil => exact Or.inl ⟨rfl, rfl⟩
  | @cons p q l l' hpq _ ih =>
    obtain ⟨a, b⟩ := p
    obtain ⟨a', b'⟩ := q
    obtain ⟨hkey, hval⟩ := hpq
    simp only at hkey
    subst hkey
    by_cases hk : a = k
    · right
      exact ⟨b, b', by simp [lookupEntries, hk], by simp [lookupEntries, hk], hval⟩
    · simpa [lookupEntries, hk] using ih

theorem Rel.alter (h : Rel R m n) (k : κ) {f : Option ν → ν} {g : Option μ → μ}
    (hnone : R (f none) (g none)) (hsome : ∀ a b, R a b → m.lookup k = some a → n.lookup k = some b →
      R (f (some a)) (g (some b))) : Rel R (m.alter k f) (n.alter k g) := by
  unfold Rel at h ⊢
  unfold OrderedMap.lookup at hsome
  unfold OrderedMap.alter
  simp only
  generalize m.entries = l at h hsome ⊢
  generalize n.entries = l' at h hsome ⊢
  induction h with
  | nil => exact List.Forall₂.cons ⟨rfl, hnone⟩ List.Forall₂.nil
  | @cons p q l l' hpq hrest ih =>
    obtain ⟨a, b⟩ := p
    obtain ⟨a', b'⟩ := q
    obtain ⟨hkey, hval⟩ := hpq
    simp only at hkey
    subst hkey
    by_cases hk : a = k
    · simp only [alterEntries, hk, if_true]
      refine List.Forall₂.cons ⟨rfl, hsome b b' hval ?_ ?_⟩ hrest
      · simp [lookupEntries, hk]
      · simp [lookupEntries, hk]
    · simp only [alterEntries, hk, if_false]
      refine List.Forall₂.cons ⟨rfl, hval⟩ (ih ?_)
      intro c c' hc h1 h2
      refine hsome c c' hc ?_ ?_
      · simpa [lookupEntries, hk] using h1
      · simpa [lookupEntries, hk] using h2

end Rel

/-! ## Growing maps -/

section Grow
variable {R : ν → ν → Prop}

/-- The entries of one list in front of another, their values related. -/
inductive EntriesGrow (R : ν → ν → Prop) : List (κ × ν) → List (κ × ν) → Prop where
  | nil (l : List (κ × ν)) : EntriesGrow R [] l
  | cons (k : κ) {a b : ν} {l l' : List (κ × ν)} (hab : R a b) (h : EntriesGrow R l l') :
      EntriesGrow R ((k, a) :: l) ((k, b) :: l')

/-- Every entry of `m` keeps its place in `n`, with a related value; new entries stand behind. -/
def Grows (R : ν → ν → Prop) (m n : OrderedMap κ ν) : Prop := EntriesGrow R m.entries n.entries

omit [DecidableEq κ] in
theorem EntriesGrow.refl (hR : ∀ a, R a a) : ∀ l : List (κ × ν), EntriesGrow R l l
  | [] => .nil []
  | (k, a) :: l => .cons k (hR a) (EntriesGrow.refl hR l)

omit [DecidableEq κ] in
theorem EntriesGrow.trans (hR : ∀ a b c, R a b → R b c → R a c) {l l' l'' : List (κ × ν)}
    (h : EntriesGrow R l l') (h' : EntriesGrow R l' l'') : EntriesGrow R l l'' := by
  induction h generalizing l'' with
  | nil _ => exact .nil _
  | cons k hab _ ih =>
    cases h' with
    | cons _ hbc hrest => exact .cons k (hR _ _ _ hab hbc) (ih hrest)

omit [DecidableEq κ] in
theorem EntriesGrow.filter (p : κ → Bool) {l l' : List (κ × ν)} (h : EntriesGrow R l l') :
    EntriesGrow R (l.filter fun e => p e.1) (l'.filter fun e => p e.1) := by
  induction h with
  | nil _ => exact .nil _
  | cons k hab _ ih =>
    cases hp : p k with
    | true =>
      simp only [List.filter_cons, hp, if_true]
      exact .cons k hab ih
    | false =>
      simp only [List.filter_cons, hp, Bool.false_eq_true, if_false]
      exact ih

omit [DecidableEq κ] in
theorem EntriesGrow.getElem? {l l' : List (κ × ν)} (h : EntriesGrow R l l') {i : Nat} {k : κ} {a : ν}
    (hi : l[i]? = some (k, a)) : ∃ b, l'[i]? = some (k, b) ∧ R a b := by
  induction h generalizing i with
  | nil _ => exact absurd hi (by simp)
  | cons j hab _ ih =>
    rcases i with _ | i
    · obtain ⟨rfl, rfl⟩ := Prod.mk.inj (Option.some.inj hi)
      exact ⟨_, rfl, hab⟩
    · exact ih hi

theorem entriesGrow_alterEntries (hR : ∀ a, R a a) (k : κ) {f : Option ν → ν}
    (hf : ∀ a, R a (f (some a))) : ∀ l : List (κ × ν), EntriesGrow R l (alterEntries k f l)
  | [] => .nil _
  | (j, a) :: l => by
    by_cases hj : j = k
    · rw [alterEntries, if_pos hj]
      exact .cons j (hf a) (EntriesGrow.refl hR l)
    · rw [alterEntries, if_neg hj]
      exact .cons j (hR a) (entriesGrow_alterEntries hR k hf l)

theorem grows_alter (hR : ∀ a, R a a) (m : OrderedMap κ ν) (k : κ) {f : Option ν → ν}
    (hf : ∀ a, R a (f (some a))) : Grows R m (m.alter k f) :=
  entriesGrow_alterEntries hR k hf m.entries

theorem grows_alterAll (hR : ∀ a, R a a) (htrans : ∀ a b c, R a b → R b c → R a c)
    {f : σ → Option ν → ν} (hf : ∀ s a, R a (f s (some a))) (m : OrderedMap κ ν)
    (l : List (κ × σ)) : Grows R m (m.alterAll f l) := by
  induction l generalizing m with
  | nil => exact EntriesGrow.refl hR m.entries
  | cons p l ih =>
    exact EntriesGrow.trans htrans (grows_alter hR m p.1 (hf p.2)) (ih (m.alter p.1 (f p.2)))

end Grow

end OrderedMap
