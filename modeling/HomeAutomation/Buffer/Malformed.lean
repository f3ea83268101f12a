import HomeAutomation.Buffer.Capacity
import HomeAutomation.Buffer.RoundTrip

/-!
# A malformed segment among well-formed ones

A segment without a value costs nothing. Behind an empty key the loop breaks, so the rest of the
payload is lost; and a segment without a colon runs, over its comma, into the key of the next one.
-/

namespace HomeAutomation

/-- A segment that is not `key:value`. -/
inductive Malformed where
  | empty
  | emptyKey (value : CString)
  | word (text : CString)
  | emptyValue (key : CString)

namespace Malformed

def text : Malformed → CString
  | .empty => []
  | .emptyKey value => ':' :: value
  | .word text => text
  | .emptyValue key => key ++ [':']

/-- The part that is not empty. -/
def part : Malformed → CString
  | .empty => []
  | .emptyKey value => value
  | .word text => text
  | .emptyValue key => key

/-- What is to be stored for the segment. -/
def stored (s : Malformed) : List (CString × CString) :=
  if s.part = [] then [] else [(noKey, s.part)]

/-- The part is as the shape says: not empty, within its segment, and without the colon that would
make it a key and a value. -/
def Shaped (s : Malformed) : Prop :=
  ',' ∉ s.part ∧ nul ∉ s.part ∧
    match s with
    | .empty => True
    | .emptyKey value => value ≠ []
    | .word text => text ≠ [] ∧ ':' ∉ text
    | .emptyValue key => key ≠ [] ∧ ':' ∉ key

end Malformed

/-- A pair that can stand next to a malformed segment. -/
structure Plain (p : CString × CString) : Prop extends Encodable p where
  commaKey : ',' ∉ p.1

/-- The payload with the segment `s` between the pairs `A` and the pairs `B`. -/
def payloadAround (A : List (CString × CString)) (s : Malformed) (B : List (CString × CString)) :
    CString :=
  joined (A.map segment ++ s.text :: B.map segment)

/-- What is to be stored for it. -/
def storedAround (A : List (CString × CString)) (s : Malformed) (B : List (CString × CString)) :
    List (CString × CString) :=
  trimKeys A ++ s.stored ++ trimKeys B

/-- The put returns, and the fields of the topic have the last values that `assigned` gives, and the
clock. -/
def StoresFields (b : Buffer) (topic data : List Char) (now : BitVec 32)
    (assigned : List (CString × CString)) : Prop :=
  ∃ b' fields, mqttBufferPut b topic data now = .ok b' ∧
    storeEntry b' (cstr topic) = .ok (some fields) ∧
    (∀ k, trim k ≠ timestampKey →
      contentAt fields k = .ok (OrderedMap.valuesOf (trim k) assigned).getLast?) ∧
    contentAt fields timestampKey = .ok (some (decimal now.toNat))

/-- What the loop leaves of the segment and the pairs behind it is what it should. -/
def Harmless (A : List (CString × CString)) (s : Malformed) (B : List (CString × CString)) : Prop :=
  match s with
  | .empty => B = []
  | .word _ => B = []
  | .emptyValue _ => True
  | .emptyKey _ => ∀ k, trim k ≠ timestampKey →
      (OrderedMap.valuesOf (trim k) (storedAround A s B)).getLast? =
        (OrderedMap.valuesOf (trim k) (trimKeys A)).getLast?

/-! ## Reading a payload with a malformed segment -/

section
variable {A B : List (CString × CString)} {k v w : CString} {q : CString × CString}

theorem payloadAssignments_word_cons (hw : ':' ∉ w) (hq : Plain q) (hB : ∀ p ∈ B, Encodable p) :
    payloadAssignments (joined (w :: (q :: B).map segment)) =
      (trim (w ++ ',' :: q.1), q.2) :: trimKeys B := by
  have hkey : ':' ∉ w ++ ',' :: q.1 := by
    rw [List.mem_append, List.mem_cons]
    rintro (h | h | h)
    · exact hw h
    · exact absurd h (by decide)
    · exact hq.colon h
  have hne : w ++ ',' :: q.1 ≠ [] := by simp
  rw [List.map_cons, joined_cons_cons]
  cases B with
  | nil =>
    have htext : w ++ ',' :: joined (segment q :: [].map segment) =
        (w ++ ',' :: q.1) ++ ':' :: q.2 := by
      rw [List.map_nil, joined_singleton, segment]
      simp
    rw [htext, payloadAssignments_last hne hkey hq.value hq.comma]
    rfl
  | cons r B =>
    have htext : w ++ ',' :: joined (segment q :: (r :: B).map segment) =
        (w ++ ',' :: q.1) ++ ':' :: (q.2 ++ ',' :: joined ((r :: B).map segment)) := by
      rw [List.map_cons, joined_cons_cons, segment]
      simp
    rw [htext, payloadAssignments_segment hne hkey hq.value hq.comma,
      payloadAssignments_joined (by simp) hB]

theorem payloadAssignments_word (hne : w ≠ []) (hw : ':' ∉ w) :
    payloadAssignments w = [(noKey, w)] := by
  have hnext : nextAssignment (some w) = some ((noKey, w), none) := by
    simp [nextAssignment, strsep_of_notMem hw, isSet, hne]
  rw [payloadAssignments, assignments_step hnext, assignments_none]
  rfl

theorem payloadAssignments_emptyKey (rest : CString) : payloadAssignments (':' :: rest) = [] := by
  have hnext : nextAssignment (some (':' :: rest)) = none := by
    have hsep : strsep [':'] (some (':' :: rest)) = (some [], some rest) :=
      strsep_append rest (List.not_mem_nil)
    simp [nextAssignment, hsep, isSet]
  rw [payloadAssignments, assignments_break hnext]
  rfl

theorem payloadAssignments_emptyValue (hne : k ≠ []) (hk : ':' ∉ k) (rest : CString) :
    payloadAssignments (k ++ ':' :: ',' :: rest) = (noKey, k) :: payloadAssignments rest := by
  have hcomma : strsep [','] (some (',' :: rest)) = (some [], some rest) :=
    strsep_append rest (List.not_mem_nil)
  have hnext : nextAssignment (some (k ++ ':' :: ',' :: rest)) = some ((noKey, k), some rest) := by
    simp [nextAssignment, strsep_append _ hk, hcomma, isSet, hne]
  rw [payloadAssignments, assignments_step hnext]
  rfl

theorem payloadAssignments_emptyValue_last (hne : k ≠ []) (hk : ':' ∉ k) :
    payloadAssignments (k ++ [':']) = [(noKey, k)] := by
  have hcomma : strsep [','] (some []) = (some [], none) := rfl
  have hnext : nextAssignment (some (k ++ [':'])) = some ((noKey, k), none) := by
    simp [nextAssignment, strsep_append _ hk, hcomma, isSet, hne]
  rw [payloadAssignments, assignments_step hnext, assignments_none]
  rfl

end

/-! ## What is stored on a fresh topic -/

/-- A put on a fresh topic stores `assigned` exactly when its fields fit and the payload's own
assignments have the same last values. -/
theorem storesFields_iff {b : Buffer} {s : Store} (h : BufferHolds b s) (hfits : s.Fits)
    {topic : List Char} (data : List Char) (now : BitVec 32)
    (hfresh : s.lookup (trim (cstr topic)) = none) (htopics : s.size < 16)
    (assigned : List (CString × CString)) :
    StoresFields b topic data now assigned ↔
      (overwrite none (putAssignments (cstr data) now)).size ≤ 16 ∧
        ∀ k, trim k ≠ timestampKey →
          (OrderedMap.valuesOf (trim k) (payloadAssignments (cstr data))).getLast? =
            (OrderedMap.valuesOf (trim k) assigned).getLast? := by
  constructor
  · rintro ⟨b', fields, hput, hentry, hvalues, -⟩
    obtain ⟨hb', hfits'⟩ := mqttBufferPut_ok h hfits hput
    have hlookup : (s.put (cstr topic) (cstr data) now).lookup (trim (cstr topic)) =
        some (overwrite none (putAssignments (cstr data) now)) := by
      rw [Store.put, OrderedMap.lookup_alter, if_pos rfl, hfresh]
    refine ⟨hfits'.fields _ _ hlookup, ?_⟩
    intro k hk
    rcases storeEntry_holds hb' (cstr topic) with ⟨_, hnone⟩ | ⟨fields', f, hentry', hsome, hf⟩
    · rw [hlookup] at hnone
      exact absurd hnone (Option.some_ne_none _)
    · rw [hentry, Except.ok.injEq, Option.some.injEq] at hentry'
      rw [hlookup, Option.some.injEq] at hsome
      subst hentry' hsome
      have hread := hvalues k hk
      rw [hf.contentAt_eq, lookup_overwrite_put _ _ hk, Except.ok.injEq] at hread
      exact hread
  · rintro ⟨hsize, hlast⟩
    obtain ⟨b', fields, hput, hentry, hf⟩ := mqttBufferPut_fresh h hfits data now hfresh htopics hsize
    refine ⟨b', fields, hput, hentry, ?_, ?_⟩
    · intro k hk
      rw [hf.contentAt_eq, lookup_overwrite_put _ _ hk, hlast k hk]
    · rw [hf.contentAt_eq, trim_timestampKey, lookup_overwrite_stamp]

/-! ## The malformed segment -/

/-- What the loop reads of the segment and the pairs behind it. -/
def Malformed.readBefore (s : Malformed) (B : List (CString × CString)) : List (CString × CString) :=
  match s, B with
  | .emptyKey _, _ => []
  | .emptyValue key, B => (noKey, key) :: trimKeys B
  | s, [] => s.stored
  | s, q :: B => (trim (s.part ++ ',' :: q.1), q.2) :: trimKeys B

section
variable {A B : List (CString × CString)} {s : Malformed}

theorem nul_notMem_payloadAround (hA : ∀ p ∈ A, Plain p) (hs : s.Shaped) (hB : ∀ p ∈ B, Plain p) :
    nul ∉ payloadAround A s B := by
  refine nul_notMem_joined ?_
  intro t ht
  rw [List.mem_append, List.mem_cons, List.mem_map, List.mem_map] at ht
  rcases ht with ⟨p, hp, rfl⟩ | rfl | ⟨p, hp, rfl⟩
  · exact (hA p hp).nul_segment
  · have hpart := hs.2.1
    have hcolon : nul ≠ ':' := by decide
    cases s <;> simp_all [Malformed.text, Malformed.part]
  · exact (hB p hp).nul_segment

theorem comma_notMem_storedAround (hA : ∀ p ∈ A, Plain p) (hB : ∀ p ∈ B, Plain p) :
    ∀ k ∈ (storedAround A s B).map Prod.fst, ',' ∉ k := by
  have htrimmed : ∀ l : List (CString × CString), (∀ p ∈ l, Plain p) →
      ∀ k ∈ (trimKeys l).map Prod.fst, ',' ∉ k := by
    intro l hl k hk hcomma
    rw [trimKeys, List.map_map, List.mem_map] at hk
    obtain ⟨p, hp, rfl⟩ := hk
    exact (hl p hp).commaKey (Delimited.mem_of_mem_trim isspace hcomma)
  intro k hk
  rw [storedAround, List.map_append, List.map_append, List.mem_append, List.mem_append] at hk
  rcases hk with (hk | hk) | hk
  · exact htrimmed A hA k hk
  · rw [Malformed.stored] at hk
    split_ifs at hk
    · exact absurd hk (List.not_mem_nil)
    · rw [List.map_singleton, List.mem_singleton] at hk
      rw [hk]
      show ',' ∉ noKey
      decide
  · exact htrimmed B hB k hk

/-- A key with a comma in it is not one that is to be stored. -/
theorem not_same_values (hA : ∀ p ∈ A, Plain p) (hB : ∀ p ∈ B, Plain p) {w v : CString}
    {q : CString} {l : List (CString × CString)} :
    ¬ ∀ k, trim k ≠ timestampKey →
      (OrderedMap.valuesOf (trim k) (trimKeys A ++ (trim (w ++ ',' :: q), v) :: l)).getLast? =
        (OrderedMap.valuesOf (trim k) (storedAround A s B)).getLast? := by
  intro h
  have hcomma : ',' ∈ trim (w ++ ',' :: q) := Delimited.mem_trim isspace (by simp) (by decide)
  have hstamp : trim (w ++ ',' :: q) ≠ timestampKey := by
    intro heq
    rw [heq] at hcomma
    exact absurd hcomma (by decide)
  have hnone : OrderedMap.valuesOf (trim (w ++ ',' :: q)) (storedAround A s B) = [] := by
    rw [OrderedMap.valuesOf_eq_nil]
    exact fun hmem => comma_notMem_storedAround hA hB _ hmem hcomma
  have hsome : OrderedMap.valuesOf (trim (w ++ ',' :: q))
      (trimKeys A ++ (trim (w ++ ',' :: q), v) :: l) ≠ [] := by
    rw [Ne, OrderedMap.valuesOf_eq_nil]
    simp
  have hlast := h (w ++ ',' :: q) hstamp
  rw [hnone, List.getLast?_nil, List.getLast?_eq_none_iff] at hlast
  exact hsome hlast

theorem payloadAssignments_around (hA : ∀ p ∈ A, Plain p) (hs : s.Shaped) (hB : ∀ p ∈ B, Plain p) :
    payloadAssignments (payloadAround A s B) = trimKeys A ++ s.readBefore B := by
  have hencB : ∀ p ∈ B, Encodable p := fun p hp => (hB p hp).toEncodable
  rw [payloadAround, payloadAssignments_front A (fun p hp => (hA p hp).toEncodable)]
  congr 1
  cases s with
  | empty =>
    cases B with
    | nil =>
      rw [Malformed.text, List.map_nil, joined_singleton, payloadAssignments_nil]
      rfl
    | cons q B =>
      exact payloadAssignments_word_cons (List.not_mem_nil) (hB q (by simp))
        fun p hp => hencB p (by simp [hp])
  | word w =>
    obtain ⟨hne, hcolon⟩ := hs.2.2
    cases B with
    | nil =>
      rw [Malformed.text, List.map_nil, joined_singleton, payloadAssignments_word hne hcolon]
      simp [Malformed.readBefore, Malformed.stored, Malformed.part, hne]
    | cons q B =>
      exact payloadAssignments_word_cons hcolon (hB q (by simp)) fun p hp => hencB p (by simp [hp])
  | emptyValue key =>
    obtain ⟨hne, hcolon⟩ := hs.2.2
    rw [Malformed.text, Malformed.readBefore]
    cases B with
    | nil =>
      rw [List.map_nil, joined_singleton, payloadAssignments_emptyValue_last hne hcolon]
      rfl
    | cons q B =>
      rw [List.map_cons, joined_cons_cons, List.append_assoc, List.singleton_append,
        payloadAssignments_emptyValue hne hcolon, ← List.map_cons,
        payloadAssignments_joined (by simp) hencB]
  | emptyKey v =>
    have htext : ∃ rest, joined (Malformed.text (.emptyKey v) :: B.map segment) = ':' :: rest := by
      cases B with
      | nil => exact ⟨v, joined_singleton _⟩
      | cons q B => exact ⟨_, joined_cons_cons _ _ _⟩
    obtain ⟨rest, hrest⟩ := htext
    rw [hrest, payloadAssignments_emptyKey, Malformed.readBefore]

/-- When the loop reads nothing else than what is to be stored, the fields fit. -/
theorem size_around {l : List (CString × CString)} (now : BitVec 32)
    (hread : payloadAssignments (payloadAround A s B) = l) (hsub : ∀ p ∈ l, p ∈ storedAround A s B)
    (hkeys : (storedKeys (storedAround A s B)).length ≤ 15) :
    (overwrite none (putAssignments (payloadAround A s B) now)).size ≤ 16 := by
  refine size_overwrite_put _ now ?_ hkeys
  intro k hk
  rw [hread] at hk
  obtain ⟨p, hp, rfl⟩ := List.mem_map.mp hk
  exact mem_storedKeys (List.mem_map_of_mem (hsub p hp))

end

/-- **When a malformed segment hides nothing.** A segment without a value always; an empty one and a
word at the end of the payload; one with an empty key if it and the pairs behind it say nothing new. -/
theorem storesFields_around_iff (puts : List Put) (b : Buffer)
    (hrun : mqttBufferPutAll Buffer.boot puts = .ok b) (topic : List Char)
    (hfresh : trim (cstr topic) ∉ topicsOf puts) (hroom : (topicsOf puts).length < 16)
    (A B : List (CString × CString)) (s : Malformed) (hA : ∀ p ∈ A, Plain p) (hs : s.Shaped)
    (hB : ∀ p ∈ B, Plain p) (hkeys : (storedKeys (storedAround A s B)).length ≤ 15)
    (now : BitVec 32) :
    StoresFields b topic (payloadAround A s B) now (storedAround A s B) ↔ Harmless A s B := by
  obtain ⟨hb, hfits⟩ := mqttBufferPutAll_ok BufferHolds.boot Store.fits_empty hrun
  rw [← Store.keys_putAll, ← OrderedMap.lookup_eq_none] at hfresh
  rw [← Store.keys_putAll, OrderedMap.length_keys] at hroom
  have hread := payloadAssignments_around hA hs hB
  rw [storesFields_iff hb hfits _ now hfresh hroom,
    cstr_of_notMem (nul_notMem_payloadAround hA hs hB)]
  have hwhole : trimKeys A ++ s.readBefore B = storedAround A s B →
      (overwrite none (putAssignments (payloadAround A s B) now)).size ≤ 16 ∧
        ∀ k, trim k ≠ timestampKey →
          (OrderedMap.valuesOf (trim k) (payloadAssignments (payloadAround A s B))).getLast? =
            (OrderedMap.valuesOf (trim k) (storedAround A s B)).getLast? := fun heq =>
    ⟨size_around now (hread.trans heq) (fun p hp => hp) hkeys, fun k _ => by rw [hread, heq]⟩
  cases s with
  | empty =>
    cases B with
    | nil =>
      refine iff_of_true (hwhole ?_) rfl
      simp [storedAround, Malformed.readBefore, trimKeys]
    | cons q B =>
      refine iff_of_false ?_ (List.cons_ne_nil q B)
      rintro ⟨-, hsame⟩
      rw [hread] at hsame
      exact not_same_values hA hB hsame
  | word w =>
    cases B with
    | nil =>
      refine iff_of_true (hwhole ?_) rfl
      simp [storedAround, Malformed.readBefore, trimKeys]
    | cons q B =>
      refine iff_of_false ?_ (List.cons_ne_nil q B)
      rintro ⟨-, hsame⟩
      rw [hread] at hsame
      exact not_same_values hA hB hsame
  | emptyValue key =>
    refine iff_of_true (hwhole ?_) trivial
    simp [storedAround, Malformed.readBefore, Malformed.stored, Malformed.part, hs.2.2.1]
  | emptyKey v =>
    rw [Malformed.readBefore, List.append_nil] at hread
    constructor
    · intro h k hk
      rw [← h.2 k hk, hread]
    · intro h
      refine ⟨size_around now hread (fun p hp => by simp [storedAround, hp]) hkeys, fun k hk => ?_⟩
      rw [hread, h k hk]

/-- After a word nothing follows. -/
theorem word_last_stored :
    StoresFields Buffer.boot "room".toList "state:on,fan".toList 7
      [("state".toList, "on".toList), (noKey, "fan".toList)] :=
  (storesFields_around_iff [] Buffer.boot rfl "room".toList (by decide +kernel) (by decide +kernel)
    [("state".toList, "on".toList)] [] (.word "fan".toList)
    (by simpa using ⟨by decide +kernel, by decide +kernel⟩)
    ⟨by decide +kernel, by decide +kernel, by decide +kernel⟩ (by simp) (by decide +kernel) 7).mpr rfl

/-- `a:1,,b:2` stores `2` under `,b`. -/
theorem empty_segment_hides :
    ¬ StoresFields Buffer.boot "room".toList
      (payloadAround [("a".toList, "1".toList)] .empty [("b".toList, "2".toList)]) 7
      (storedAround [("a".toList, "1".toList)] .empty [("b".toList, "2".toList)]) := by
  rw [storesFields_iff BufferHolds.boot Store.fits_empty _ 7 (by decide +kernel) (by decide +kernel)]
  rintro ⟨-, hsame⟩
  exact absurd (hsame "b".toList (by decide +kernel)) (by decide +kernel)

end HomeAutomation
