import HomeAutomation.Lib.Sections
import HomeAutomation.Buffer.Display
import HomeAutomation.Buffer.Snapshot

/-!
# The tasks that use the store

The tasks of the program call `mqttBuffer_put`, `mqttBuffer_getMatching` and `mqttBuffer_dispalyAll`
at any time. Between `xSemaphoreTake` and `xSemaphoreGive` a call makes its accesses to the store one
at a time: it reads an entry, appends one, puts one field, copies one entry. The steps of the tasks
interleave freely. The calls are atomic all the same (`buffer_calls_atomic`): what the
tasks leave and what they are given is that of the calls one after another, as they took the mutex.

`mqttBuffer_put` displays the store at its end in a second critical section; it is a call of its own
here. The store is initialized (`Buffer/Initialize.lean` is about the calls that do that).
-/

namespace HomeAutomation

open Sections

/-- The store that the tasks share, or the fault that ended it. -/
abbrev SharedMap := Except Fault TopicMap

/-- A critical section of the buffer that returns an `α`. -/
abbrev BufferSection (α : Type) := Section SharedMap (Except Fault α)

/-- An access that only reads. -/
def look {α : Type} (f : TopicMap → Except Fault α) : BufferSection α :=
  .attempt fun m => (f m).map fun a => (m, a)

/-- An access that writes. -/
def change (f : TopicMap → Except Fault TopicMap) : BufferSection Unit :=
  .attempt fun m => (f m).map fun m' => (m', ())

theorem performs_look {α : Type} (f : TopicMap → Except Fault α) :
    (look f).Performs fun m => (f m).map fun a => (m, a) := Section.performs_attempt _

theorem performs_change (f : TopicMap → Except Fault TopicMap) :
    (change f).Performs fun m => (f m).map fun m' => (m', ()) := Section.performs_attempt _

/-! ## `flatmap_put` in steps -/

/-- The loop of `flatmap_get`, an entry at a time. -/
def getSteps (key : CString) : (n pos : Nat) → BufferSection (Option Nat)
  | 0, _ => .done (.ok none)
  | n + 1, pos => (look fun m => m.entries.read pos).andThen fun entry =>
      if entry.key = (trimWhitespace key).string then .done (.ok (some pos))
      else getSteps key n (pos + 1)

/-- `if(*destination == nullptr)`: a new map of fields. -/
def newFields (destination : Option FieldMap) : Except Fault (Option FieldMap) :=
  match destination with
  | none => (flatmapInit (MapInfo.fresh 16)).map some
  | some fields => .ok (some fields)

/-- `flatmap_put((MapInfo*)(*destination), &newEntry)`. -/
def putField (key value : CString) (destination : Option FieldMap) :
    Except Fault (Option FieldMap) :=
  match destination with
  | none => .error .nullDeref
  | some fields => (flatmapPut assignContentChild fields key (some value)).map some

/-- An access to the content of the candidate in slot `pos`, through `destination`. -/
def destinationStep (pos : Nat) (f : Option FieldMap → Except Fault (Option FieldMap)) :
    BufferSection Unit :=
  change fun m => flatmapAssign (fun (_ : Unit) => f) m pos ()

/-- The loop of `assignContent`, a field at a time. -/
def assignSteps (pos : Nat) (cursor : Option CString) : BufferSection Unit :=
  match _h : nextAssignment cursor with
  | none => .done (.ok ())
  | some (a, cursor') =>
    (destinationStep pos (putField a.1 a.2)).andThen fun _ => assignSteps pos cursor'
termination_by cursorSize cursor
decreasing_by exact cursorSize_nextAssignment _h

/-- `assignContent` on the candidate in slot `pos`, when `millis()` is `now`. -/
def assignContentSteps (now : BitVec 32) (pos : Nat) (source : CString) : BufferSection Unit :=
  (destinationStep pos newFields).andThen fun _ =>
  (assignSteps pos (some source)).andThen fun _ =>
  destinationStep pos (putField timestampKey (decimal now.toNat))

/-- `flatmap_put(&mapInfo, &newData)`. -/
def putSteps (topic data : List Char) (now : BitVec 32) : BufferSection Unit :=
  (look fun m => .ok m.entriesLen).andThen fun entriesLen =>
  (getSteps (cstr topic) entriesLen 0).andThen fun candidate =>
  match candidate with
  | some pos => assignContentSteps now pos (cstr data)
  | none =>
    (change fun m => .ok (flatmapGrow m)).andThen fun _ =>
    (look fun m => .ok m.entriesLen).andThen fun pos =>
    (change fun m => flatmapAppend m (cstr topic)).andThen fun _ =>
    assignContentSteps now pos (cstr data)

/-- `for(index = 0; index < flatmap_getEntryCount(map); index++)`, an entry at a time; `n` indices
are to go. -/
def forSteps {σ : Type} (body : σ → Entry FieldMap → Except Fault σ) :
    (n index : Nat) → σ → BufferSection σ
  | 0, _, s => .done (.ok s)
  | n + 1, index, s => (look fun m => do
      match ← flatmapGetByIndex m index with
      | none => .error .nullDeref
      | some entry => body s entry).andThen fun s => forSteps body n (index + 1) s

/-- A round of the loop of `mqttBuffer_getMatching`. -/
def copyEntry (filter : CString) (mapCopy : TopicMap) (entry : Entry FieldMap) :
    Except Fault TopicMap :=
  if 0 < matchTopic filter entry.key then
    flatmapPut assignContentCopy mapCopy entry.key entry.content
  else .ok mapCopy

/-- The critical section of `mqttBuffer_getMatching`; the copy is the caller's. -/
def getMatchingSteps (filter : CString) : BufferSection TopicMap :=
  (look fun _ => flatmapInit (MapInfo.fresh 16)).andThen fun mapCopy =>
  (look fun m => .ok m.entriesLen).andThen fun entriesLen =>
  forSteps (copyEntry filter) entriesLen 0 mapCopy

/-- The critical section of `mqttBuffer_dispalyAll`. -/
def dispalyAllSteps : BufferSection CString :=
  (look fun m => .ok m.entriesLen).andThen fun entriesLen =>
  forSteps displayTopic entriesLen 0 (ruleLine ++ ['\n'])

/-! ## Calls -/

inductive BufferCall where
  | put (p : Put)
  | getMatching (filter : CString)
  | dispalyAll

inductive BufferReply where
  | stored
  | copied (mapCopy : TopicMap)
  | displayed (text : CString)

/-- What a call does between taking the mutex and giving it. -/
def BufferCall.steps : BufferCall → BufferSection BufferReply
  | .put p => (putSteps p.topic p.data p.now).andThen fun _ => .done (.ok .stored)
  | .getMatching filter => (getMatchingSteps filter).andThen fun copy => .done (.ok (.copied copy))
  | .dispalyAll => dispalyAllSteps.andThen fun text => .done (.ok (.displayed text))

/-- What the call does when nothing else runs. -/
def BufferCall.alone (b : Buffer) : BufferCall → Except Fault (Buffer × BufferReply)
  | .put p => (mqttBufferPut b p.topic p.data p.now).map fun b => (b, .stored)
  | .getMatching filter => (mqttBufferGetMatching b filter).map fun r => (r.1, .copied r.2)
  | .dispalyAll => (mqttBufferDispalyAll b).map fun r => (r.1, .displayed r.2)

/-! ## The steps do what the functions do -/

section
variable {γ σ : Type}

theorem Block.lt_of_read {α : Type} {b : Block α} {i : Nat} {a : α} (h : b.read i = .ok a) :
    i < b.slots.length := by
  by_contra hlt
  rw [Block.read, List.getElem?_eq_none (by omega)] at h
  exact absurd h (by simp)

theorem Block.write_eq_ok {α : Type} {b b' : Block α} {i : Nat} {a : α}
    (h : b.write i a = .ok b') : b'.read i = .ok a ∧ ∀ c, b'.write i c = b.write i c := by
  have hlt : i < b.slots.length := by
    by_contra hlt
    rw [Block.write, if_neg hlt] at h
    exact absurd h (by simp)
  rw [Block.write, if_pos hlt, Except.ok.injEq] at h
  subst h
  refine ⟨?_, ?_⟩
  · simp only [Block.read, List.getElem?_set_self hlt]
  · intro c
    simp only [Block.write, List.length_set, hlt, if_true, List.set_set]

theorem flatmapAssign_congr {τ : Type} {f : σ → Option γ → Except Fault (Option γ)} {s : σ}
    {g : τ → Option γ → Except Fault (Option γ)} {t : τ} (h : ∀ c, f s c = g t c) {m : MapInfo γ}
    {pos : Nat} : flatmapAssign f m pos s = flatmapAssign g m pos t := by
  simp only [flatmapAssign, h]

theorem flatmapAssign_seq {τ : Type} (f : σ → Option γ → Except Fault (Option γ)) (s : σ)
    (g : τ → Option γ → Except Fault (Option γ)) (t : τ) (m : MapInfo γ) (pos : Nat) :
    (flatmapAssign f m pos s >>= fun m => flatmapAssign g m pos t) =
      flatmapAssign (fun (_ : Unit) c => f s c >>= g t) m pos () := by
  unfold flatmapAssign
  rcases hread : m.entries.read pos with e | candidate
  · rfl
  · simp only [Runs.ok_bind]
    rcases f s candidate.content with e | content
    · rfl
    · obtain ⟨b, hwrite, _⟩ := Block.write_ok ({ candidate with content := content } : Entry γ)
        (Block.lt_of_read hread)
      obtain ⟨hread', hwrite'⟩ := Block.write_eq_ok hwrite
      simp only [Runs.ok_bind, hwrite, hread', hwrite']

end

theorem performs_getSteps (key : CString) (n pos : Nat) :
    (getSteps key n pos).Performs fun m => (flatmapGetFrom m key n pos).map fun r => (m, r) := by
  induction n generalizing pos with
  | zero => exact Section.performs_done none
  | succ n ih =>
    refine ((performs_look fun m => m.entries.read pos).andThen
      (q := fun entry m => if entry.key = (trimWhitespace key).string then .ok (m, some pos)
        else (flatmapGetFrom m key n (pos + 1)).map fun r => (m, r)) ?_).congr ?_
    · intro entry
      by_cases hkey : entry.key = (trimWhitespace key).string
      · simp only [if_pos hkey]
        exact Section.performs_done _
      · simp only [if_neg hkey]
        exact ih (pos + 1)
    · intro m
      rw [flatmapGetFrom]
      rcases m.entries.read pos with e | entry
      · rfl
      · by_cases hkey : entry.key = (trimWhitespace key).string
        · simp only [Except.map, Runs.ok_bind, if_pos hkey]
        · simp only [Except.map, Runs.ok_bind, if_neg hkey]

theorem performs_seq {sec : BufferSection Unit} {f : TopicMap → Except Fault TopicMap}
    (h : sec.Performs fun m => (f m).map fun m' => (m', ())) {sec' : BufferSection Unit}
    {g : TopicMap → Except Fault TopicMap}
    (h' : sec'.Performs fun m => (g m).map fun m' => (m', ())) :
    (sec.andThen fun _ => sec').Performs fun m => (f m >>= g).map fun m' => (m', ()) := by
  refine (h.andThen fun _ => h').congr ?_
  intro m
  rcases f m with e | m'
  · rfl
  · rfl

theorem performs_destinationStep (pos : Nat)
    (f : Option FieldMap → Except Fault (Option FieldMap)) :
    (destinationStep pos f).Performs fun m =>
      (flatmapAssign (fun (_ : Unit) => f) m pos ()).map fun m' => (m', ()) :=
  performs_change _

theorem assignSteps_break {pos : Nat} {cursor : Option CString} (h : nextAssignment cursor = none) :
    assignSteps pos cursor = .done (.ok ()) := by
  rw [assignSteps]
  split
  · rfl
  · next h' => exact absurd (h.symm.trans h') (by simp)

theorem assignSteps_step {pos : Nat} {cursor cursor' : Option CString} {a : CString × CString}
    (h : nextAssignment cursor = some (a, cursor')) :
    assignSteps pos cursor =
      (destinationStep pos (putField a.1 a.2)).andThen fun _ => assignSteps pos cursor' := by
  rw [assignSteps]
  split
  · next h' => exact absurd (h.symm.trans h') (by simp)
  · next h' =>
    rw [h, Option.some.injEq, Prod.mk.injEq] at h'
    obtain ⟨rfl, rfl⟩ := h'
    rfl

theorem performs_assignSteps (pos : Nat) :
    ∀ cursor, (assignSteps pos cursor).Performs fun m =>
      ((assignments cursor).foldlM
        (fun m a => flatmapAssign (fun (_ : Unit) => putField a.1 a.2) m pos ()) m).map
          fun m' => (m', ()) := by
  intro cursor
  induction hn : cursorSize cursor using Nat.strong_induction_on generalizing cursor with
  | _ n ih =>
    rcases hnext : nextAssignment cursor with _ | ⟨a, cursor'⟩
    · rw [assignSteps_break hnext, assignments_break hnext]
      exact Section.performs_done ()
    · rw [assignSteps_step hnext, assignments_step hnext]
      have hrest := ih _ (hn ▸ cursorSize_nextAssignment hnext) cursor' rfl
      exact performs_seq (performs_destinationStep pos _) hrest

theorem flatmapAssign_puts (l : List (CString × CString))
    (f : Option FieldMap → Except Fault (Option FieldMap)) (m : TopicMap) (pos : Nat) :
    (flatmapAssign (fun (_ : Unit) => f) m pos () >>= fun m => l.foldlM
        (fun m a => flatmapAssign (fun (_ : Unit) => putField a.1 a.2) m pos ()) m) =
      flatmapAssign (fun (_ : Unit) c => f c >>= fun c' => l.foldlM
        (fun c a => putField a.1 a.2 c) c') m pos () := by
  induction l generalizing f with
  | nil =>
    have hid : ∀ x : Except Fault (Option FieldMap), (x >>= fun c => .ok c) = x := by
      intro x
      cases x <;> rfl
    have hid' : ∀ x : Except Fault TopicMap, (x >>= fun c => .ok c) = x := by
      intro x
      cases x <;> rfl
    simp only [Runs.foldlM_nil, hid, hid']
  | cons a l ih =>
    simp only [List.foldlM_cons]
    rw [← bind_assoc, flatmapAssign_seq, ih]
    simp only [bind_assoc]

theorem foldlM_putField (cursor : Option CString) (fields : FieldMap) :
    (assignments cursor).foldlM (fun c a => putField a.1 a.2 c) (some fields) =
      (assignContentLoop fields cursor).map some := by
  induction hn : cursorSize cursor using Nat.strong_induction_on generalizing cursor fields with
  | _ n ih =>
    rcases hnext : nextAssignment cursor with _ | ⟨a, cursor'⟩
    · rw [assignments_break hnext, assignContentLoop_break hnext]
      rfl
    · rw [assignments_step hnext, assignContentLoop_step hnext, List.foldlM_cons, putField]
      rcases flatmapPut assignContentChild fields a.1 (some a.2) with e | fields'
      · rfl
      · exact ih _ (hn ▸ cursorSize_nextAssignment hnext) cursor' fields' rfl

theorem assignContent_eq (now : BitVec 32) (source : CString) (destination : Option FieldMap) :
    assignContent now source destination =
      ((newFields destination >>= fun c =>
        (assignments (some source)).foldlM (fun c a => putField a.1 a.2 c) c) >>=
          putField timestampKey (decimal now.toNat)) := by
  have hfields : ∀ fields : FieldMap,
      (assignContentLoop fields (some source) >>= fun fields =>
        flatmapPut assignContentChild fields timestampKey (some (decimal now.toNat)) >>=
          fun fields => .ok (some fields)) =
      ((assignments (some source)).foldlM (fun c a => putField a.1 a.2 c) (some fields) >>=
        putField timestampKey (decimal now.toNat)) := by
    intro fields
    rw [foldlM_putField]
    rcases assignContentLoop fields (some source) with e | fields'
    · rfl
    · rfl
  unfold assignContent newFields
  rcases destination with _ | fields
  · rcases flatmapInit (MapInfo.fresh 16 : FieldMap) with e | fields
    · rfl
    · exact hfields fields
  · exact hfields fields

/-- **`assignContent` in steps.** -/
theorem performs_assignContentSteps (now : BitVec 32) (pos : Nat) (source : CString) :
    (assignContentSteps now pos source).Performs fun m =>
      (flatmapAssign (assignContent now) m pos source).map fun m' => (m', ()) := by
  refine (performs_seq (performs_destinationStep pos newFields)
    (performs_seq (performs_assignSteps pos (some source))
      (performs_destinationStep pos _))).congr ?_
  intro m
  rw [← bind_assoc, flatmapAssign_puts, flatmapAssign_seq]
  exact congrArg _ (flatmapAssign_congr fun c => (assignContent_eq now source c).symm)

/-- **`flatmap_put` in steps.** -/
theorem performs_putSteps (topic data : List Char) (now : BitVec 32) :
    (putSteps topic data now).Performs fun m =>
      (flatmapPut (assignContent now) m (cstr topic) (cstr data)).map fun m' => (m', ()) := by
  have hnew : ((change fun m => .ok (flatmapGrow m)).andThen fun _ =>
      (look fun m => .ok m.entriesLen).andThen fun pos =>
      (change fun m => flatmapAppend m (cstr topic)).andThen fun _ =>
      assignContentSteps now pos (cstr data)).Performs fun m =>
        (flatmapAppend (flatmapGrow m) (cstr topic) >>= fun grown =>
          flatmapAssign (assignContent now) grown (flatmapGrow m).entriesLen (cstr data)).map
            fun m' => (m', ()) := by
    refine ((performs_change _).andThen fun _ => (performs_look _).andThen fun pos =>
      performs_seq (performs_change _) (performs_assignContentSteps now pos (cstr data))).congr ?_
    intro m
    rfl
  refine ((performs_look _).andThen fun entriesLen =>
    (performs_getSteps (cstr topic) entriesLen 0).andThen (q := fun candidate m =>
      (match candidate with
        | some pos => flatmapAssign (assignContent now) m pos (cstr data)
        | none => flatmapAppend (flatmapGrow m) (cstr topic) >>= fun grown =>
          flatmapAssign (assignContent now) grown (flatmapGrow m).entriesLen (cstr data)).map
            fun m' => (m', ())) ?_).congr ?_
  · rintro (_ | pos)
    · exact hnew
    · exact performs_assignContentSteps now pos (cstr data)
  · intro m
    have hlen : (flatmapGrow m).entriesLen = m.entriesLen := by
      unfold flatmapGrow
      split_ifs <;> rfl
    simp only [Except.map, Runs.ok_bind, flatmapPut, flatmapGet]
    rcases flatmapGetFrom m (cstr topic) m.entriesLen 0 with e | _ | pos
    · rfl
    · simp only [Runs.ok_bind, hlen]
    · rfl

theorem performs_forSteps {σ : Type} (body : σ → Entry FieldMap → Except Fault σ) (n index : Nat)
    (s : σ) :
    (forSteps body n index s).Performs fun m =>
      (forEntriesFrom m body n index s).map fun s => (m, s) := by
  induction n generalizing index s with
  | zero => exact Section.performs_done s
  | succ n ih =>
    refine ((performs_look _).andThen fun s => ih (index + 1) s).congr ?_
    intro m
    rw [forEntriesFrom]
    rcases flatmapGetByIndex m index with e | _ | entry
    · rfl
    · rfl
    · simp only [Runs.ok_bind]
      rcases body s entry with e | s'
      · rfl
      · rfl

theorem performs_forEntries {σ : Type} (body : σ → Entry FieldMap → Except Fault σ) (s : σ) :
    ((look fun m => .ok m.entriesLen).andThen fun entriesLen =>
      forSteps body entriesLen 0 s).Performs fun m =>
        (forEntries m body s).map fun s => (m, s) := by
  refine ((performs_look _).andThen fun n => performs_forSteps body n 0 s).congr ?_
  intro m
  rfl

theorem performs_reply {α : Type} {sec : BufferSection α} {p : TopicMap → Except Fault (TopicMap × α)}
    (h : sec.Performs p) (reply : α → BufferReply) :
    (sec.andThen fun a => .done (.ok (reply a))).Performs fun m =>
      (p m).map fun r => (r.1, reply r.2) := by
  refine (h.andThen fun a => Section.performs_done (reply a)).congr ?_
  intro m
  rcases p m with e | r
  · rfl
  · rfl

/-- **The steps of a call do what the call does alone.** -/
theorem performs_steps (c : BufferCall) :
    c.steps.Performs fun m => (c.alone ⟨true, m⟩).map fun r => (r.1.mapInfo, r.2) := by
  have hinit : ∀ m, initializeBuffer ⟨true, m⟩ = .ok ⟨true, m⟩ := fun _ => rfl
  rcases c with p | filter | _
  · refine (performs_reply (performs_putSteps p.topic p.data p.now) fun _ => .stored).congr ?_
    intro m
    simp only [BufferCall.alone, mqttBufferPut, hinit, Runs.ok_bind]
    rcases flatmapPut (assignContent p.now) m (cstr p.topic) (cstr p.data) with e | m'
    · rfl
    · rfl
  · have hcopy : (getMatchingSteps filter).Performs fun m =>
        (flatmapInit (MapInfo.fresh 16) >>= forEntries m (copyEntry filter)).map
          fun copy => (m, copy) := by
      refine ((performs_look fun _ => flatmapInit (MapInfo.fresh 16)).andThen fun mapCopy =>
        performs_forEntries (copyEntry filter) mapCopy).congr ?_
      intro m
      rcases (flatmapInit (MapInfo.fresh 16) : Except Fault TopicMap) with e | copy
      · rfl
      · rfl
    refine (performs_reply hcopy .copied).congr ?_
    intro m
    simp only [BufferCall.alone, mqttBufferGetMatching, hinit, Runs.ok_bind]
    rcases (flatmapInit (MapInfo.fresh 16) : Except Fault TopicMap) with e | copy
    · rfl
    · simp only [Runs.ok_bind]
      change _ = Except.map _ (Except.map _ (forEntries m (copyEntry filter) copy >>= _))
      rcases forEntries m (copyEntry filter) copy with e | copy'
      · rfl
      · rfl
  · refine (performs_reply (performs_forEntries displayTopic _) .displayed).congr ?_
    intro m
    simp only [BufferCall.alone, mqttBufferDispalyAll, displayMap, hinit, Runs.ok_bind]
    rcases forEntries m displayTopic (ruleLine ++ ['\n']) with e | text
    · rfl
    · rfl

/-! ## Calls are atomic -/

section
variable {τ : Type}

/-- The tasks and the store. -/
abbrev BufferWorld (τ : Type) := World τ BufferCall SharedMap (Except Fault BufferReply)

theorem alone_initialized {b : Buffer} {c : BufferCall} {r : Buffer × BufferReply}
    (h : c.alone b = .ok r) : r.1.initialized = true := by
  have hmap : ∀ {α : Type} {x : Except Fault α} {f : α → Buffer × BufferReply},
      x.map f = .ok r → ∃ a, x = .ok a ∧ f a = r := by
    intro α x f hx
    rcases x with e | a
    · exact absurd hx (by simp [Except.map])
    · exact ⟨a, rfl, Except.ok.inj hx⟩
  rcases c with p | filter | _
  · obtain ⟨b', hput, rfl⟩ := hmap h
    simp only [mqttBufferPut, Runs.bind_eq_ok, Except.ok.injEq] at hput
    obtain ⟨b₁, hinit, m, _, rfl⟩ := hput
    exact (initializeBuffer_initialized hinit : b₁.initialized = true)
  · obtain ⟨⟨b', copy⟩, hget, rfl⟩ := hmap h
    exact initializeBuffer_initialized (mqttBufferGetMatching_initializes hget)
  · obtain ⟨⟨b', text⟩, hshow, rfl⟩ := hmap h
    simp only [mqttBufferDispalyAll, Runs.bind_eq_ok, Except.ok.injEq, Prod.mk.injEq] at hshow
    obtain ⟨b₁, hinit, _, _, rfl, _⟩ := hshow
    exact initializeBuffer_initialized hinit

/-- The store after calls one after another. -/
def callAll (b : Buffer) (calls : List BufferCall) : Except Fault Buffer :=
  calls.foldlM (fun b c => (c.alone b).map Prod.fst) b

theorem callAll_concat (b : Buffer) (calls : List BufferCall) (c : BufferCall) :
    callAll b (calls ++ [c]) = callAll b calls >>= fun b => (c.alone b).map Prod.fst := by
  rw [callAll, List.foldlM_append]
  congr 1
  funext b
  rw [List.foldlM_cons]
  rcases (c.alone b).map Prod.fst with e | b'
  · rfl
  · rfl

theorem callAll_initialized {b b' : Buffer} {calls : List BufferCall} (hb : b.initialized = true)
    (h : callAll b calls = .ok b') : b'.initialized = true := by
  refine Runs.foldlM_invariant (fun b => b.initialized = true) ?_ hb h
  intro c _ b₁ b₂ _ hcall
  rcases hc : c.alone b₁ with e | r
  · rw [hc] at hcall
    exact absurd hcall (by simp [Except.map])
  · rw [hc] at hcall
    obtain rfl : r.1 = b₂ := Except.ok.inj hcall
    exact alone_initialized hc

theorem run_steps {b : Buffer} (hb : b.initialized = true) (c : BufferCall) :
    c.steps.run (.ok b.mapInfo) =
      (((c.alone b).map Prod.fst).map Buffer.mapInfo, (c.alone b).map Prod.snd) := by
  obtain ⟨initialized, m⟩ := b
  obtain rfl : initialized = true := hb
  rw [(performs_steps c).1 m]
  beta_reduce
  rcases c.alone ⟨true, m⟩ with e | r
  · rfl
  · rfl

theorem after_steps (m : TopicMap) (entered : List (τ × BufferCall)) :
    after BufferCall.steps (.ok m) entered =
      (callAll ⟨true, m⟩ (entered.map Prod.snd)).map Buffer.mapInfo := by
  induction entered using List.reverseRecOn with
  | nil => rfl
  | append_singleton entered e ih =>
    rw [after_concat, ih, List.map_append, List.map_singleton, callAll_concat]
    rcases hrun : callAll ⟨true, m⟩ (entered.map Prod.snd) with fault | b
    · exact (performs_steps e.2).2 fault
    · exact congrArg Prod.fst (run_steps (callAll_initialized rfl hrun) e.2)

variable [DecidableEq τ]

/-- The store after `flatmap_init(&mapInfo)`. -/
def emptyTopics : TopicMap := ⟨⟨128, List.replicate 16 none, rfl⟩, 16, 0⟩

theorem emptyTopics_init : flatmapInit (MapInfo.fresh 16) = .ok emptyTopics := rfl

/-- **Calls of the buffer are atomic** once it is initialized: whatever the tasks interleave, while
the mutex is free the store is that of the calls one after another in the order in which they took
it, and each call returned what it returns after the calls before it. -/
theorem buffer_calls_atomic {m₀ : TopicMap} {w : BufferWorld τ}
    (h : Reachable BufferCall.steps (.ok m₀) w) :
    (w.owner = none →
      w.shared = (callAll ⟨true, m₀⟩ (w.entered.map Prod.snd)).map Buffer.mapInfo) ∧
    ∀ t c n reply, w.phase t = .left c n reply →
      ∃ past later, w.entered = past ++ (t, c) :: later ∧ past.length = n ∧
        ∀ b, callAll ⟨true, m₀⟩ (past.map Prod.snd) = .ok b → reply = (c.alone b).map Prod.snd := by
  have hsound := h.sound
  refine ⟨?_, ?_⟩
  · intro hfree
    rw [hsound.free hfree, after_steps]
  · intro t c n reply hleft
    obtain ⟨past, later, hentered, hn, hreply⟩ := hsound.left t c n reply hleft
    refine ⟨past, later, hentered, hn, ?_⟩
    intro b hb
    rw [hreply, after_steps, hb]
    exact congrArg Prod.snd (run_steps (callAll_initialized rfl hb) c)

/-- One task waits while the other puts, and finds what it put. -/
theorem buffer_calls_atomic_two : ∃ w : BufferWorld Bool, w.owner = none ∧
    w.entered = [(false, .put ⟨"heating".toList, "state:1".toList, 7⟩),
      (true, .getMatching "heating".toList)] ∧
    w.shared = (callAll ⟨true, emptyTopics⟩ (w.entered.map Prod.snd)).map Buffer.mapInfo := by
  have hstart : Reachable BufferCall.steps (.ok emptyTopics)
    (World.start Bool BufferCall (Except Fault BufferReply) (.ok emptyTopics)) := .start
  have hcalled := (hstart.step (.call _ false
    (.put ⟨"heating".toList, "state:1".toList, 7⟩) trivial)).step
      (.call _ true (.getMatching "heating".toList) trivial)
  have hput := (hcalled.step (.enter _ false _ rfl rfl)).trans (steps_finish (World.go_self ..))
  have hread := (hput.step (.enter _ true _ rfl rfl)).trans (steps_finish (World.go_self ..))
  exact ⟨_, rfl, rfl, (buffer_calls_atomic hread).1 rfl⟩

end

end HomeAutomation
