import HomeAutomation.Mqtt.SessionLaws
import Mathlib.Logic.Function.Basic
import Mathlib.Logic.Relation

/-!
# Subscribing while a session opens

`mqtt_subscribe` stores its topic and then reads `connected`; the handler of `MQTT_EVENT_CONNECTED`
hands the stored topics over in a loop and then sets `connected`. Nothing keeps the two apart. Access
by access, a topic is lost exactly when its call falls between the end of the loop and the write to
`connected` (`handed_iff_not_between`), and the loop runs on a dangling iterator exactly when a topic
is stored during it that makes the vector move (`crash_iff_grown`).
-/

namespace HomeAutomation

/-! ## `std::vector` -/

/-- A `std::vector` as its iterators see it; `block` counts the blocks it has had. -/
structure CppVector (α : Type) where
  items : List α
  capacity : Nat
  block : Nat

/-- An iterator: the block that it points into, and where. -/
structure CppIterator where
  block : Nat
  index : Nat
  deriving DecidableEq

namespace CppVector
variable {α : Type}

def empty : CppVector α := ⟨[], 0, 0⟩

/-- `begin()`. -/
def first (v : CppVector α) : CppIterator := ⟨v.block, 0⟩

/-- `push_back`: a full vector moves to a block of twice the size. -/
def pushBack (v : CppVector α) (x : α) : CppVector α :=
  if v.items.length < v.capacity then { v with items := v.items ++ [x] }
  else ⟨v.items ++ [x], max 1 (2 * v.capacity), v.block + 1⟩

@[simp] theorem items_pushBack (v : CppVector α) (x : α) : (v.pushBack x).items = v.items ++ [x] := by
  unfold pushBack
  split_ifs <;> rfl

end CppVector

/-! ## Accesses -/

/-- What happens at the variables: the handler takes `begin()`, finds `end()`, writes `connected`; a
call stores its topic as number `i` and reads `connected`; a topic is handed to the client. -/
inductive SubscriptionAccess where
  | began
  | looped
  | set
  | pushed (i : Nat)
  | read (i : Nat) (connected : Bool)
  | handed (i : Nat) (topic : CString)
  deriving DecidableEq

/-- The topic that an access is about. -/
def SubscriptionAccess.number : SubscriptionAccess → Option Nat
  | .pushed i => some i
  | .read i _ => some i
  | .handed i _ => some i
  | _ => none

/-- Where the handler is: not called, in `mqtt_publish`, before `it != subscriptions.end()`, before
`*it`, before its write to `connected`. -/
inductive HandlerPhase where
  | idle
  | publishing (e : SessionEvent)
  | testing (it : CppIterator)
  | reading (it : CppIterator)
  | setting (e : SessionEvent)
  deriving DecidableEq

/-- The iterator of the loop. -/
def HandlerPhase.iterator : HandlerPhase → Option CppIterator
  | .testing it => some it
  | .reading it => some it
  | _ => none

/-- Where a call of `mqtt_subscribe` is: not made, behind the test of `setupComplete`, behind
`push_back`, behind the test of `connected`. -/
inductive SubscribePhase where
  | idle
  | entered (topic : CString)
  | stored (i : Nat) (topic : CString)
  | sending (i : Nat) (topic : CString)
  deriving DecidableEq

/-- The variables, the handler, the calls of the tasks, and what happened since the handler was
called last, for the event `event`. -/
structure SubscribeWorld (τ : Type) where
  subscriptions : CppVector CString
  setupComplete : Bool
  connected : Bool
  event : Option SessionEvent
  handler : HandlerPhase
  call : τ → SubscribePhase
  since : List SubscriptionAccess
  crashed : Bool

namespace SubscribeWorld
variable {τ : Type} [DecidableEq τ]

/-- Before `mqtt_app_start`. -/
def boot (τ : Type) : SubscribeWorld τ :=
  ⟨.empty, false, false, none, .idle, fun _ => .idle, [], false⟩

/-- The handler goes on. -/
def handle (w : SubscribeWorld τ) (phase : HandlerPhase) (new : List SubscriptionAccess) :
    SubscribeWorld τ :=
  { w with handler := phase, since := w.since ++ new }

/-- The call of a task goes on. -/
def go (w : SubscribeWorld τ) (t : τ) (phase : SubscribePhase) (new : List SubscriptionAccess) :
    SubscribeWorld τ :=
  { w with call := Function.update w.call t phase, since := w.since ++ new }

inductive Step : SubscribeWorld τ → SubscribeWorld τ → Prop where
  /-- The last statement of `mqtt_app_start`. -/
  | setup (w : SubscribeWorld τ) (hrun : w.crashed = false) : Step w { w with setupComplete := true }
  /-- The handler is called. -/
  | event (w : SubscribeWorld τ) (hrun : w.crashed = false) (e : SessionEvent)
      (hhandler : w.handler = .idle) :
      Step w { w with event := some e, handler := .publishing e, since := [] }
  /-- `it = subscriptions.begin()`. -/
  | first (w : SubscribeWorld τ) (hrun : w.crashed = false)
      (hhandler : w.handler = .publishing .connected) :
      Step w (w.handle (.testing w.subscriptions.first) [.began])
  /-- `it != subscriptions.end()` holds. -/
  | more (w : SubscribeWorld τ) (hrun : w.crashed = false) (it : CppIterator)
      (hhandler : w.handler = .testing it) (hvalid : it.block = w.subscriptions.block)
      (hmore : it.index < w.subscriptions.items.length) : Step w (w.handle (.reading it) [])
  /-- `esp_mqtt_client_subscribe(client, *it, 0)` and `++it`. -/
  | hand (w : SubscribeWorld τ) (hrun : w.crashed = false) (it : CppIterator)
      (hhandler : w.handler = .reading it) (hvalid : it.block = w.subscriptions.block)
      (topic : CString) (htopic : w.subscriptions.items[it.index]? = some topic) :
      Step w (w.handle (.testing { it with index := it.index + 1 }) [.handed it.index topic])
  /-- `it != subscriptions.end()` does not hold. -/
  | last (w : SubscribeWorld τ) (hrun : w.crashed = false) (it : CppIterator)
      (hhandler : w.handler = .testing it) (hvalid : it.block = w.subscriptions.block)
      (hlast : ¬ it.index < w.subscriptions.items.length) :
      Step w (w.handle (.setting .connected) [.looped])
  /-- The loop goes on in a block that has been freed. -/
  | dangling (w : SubscribeWorld τ) (hrun : w.crashed = false) (it : CppIterator)
      (hhandler : w.handler = .testing it ∨ w.handler = .reading it)
      (hdangling : it.block ≠ w.subscriptions.block) : Step w { w with crashed := true }
  /-- The handler of `MQTT_EVENT_DISCONNECTED` has no loop. -/
  | closed (w : SubscribeWorld τ) (hrun : w.crashed = false)
      (hhandler : w.handler = .publishing .disconnected) : Step w (w.handle (.setting .disconnected) [])
  /-- `connected = 1` or `connected = 0`. -/
  | set (w : SubscribeWorld τ) (hrun : w.crashed = false) (e : SessionEvent)
      (hhandler : w.handler = .setting e) :
      Step w { w.handle .idle [.set] with connected := decide (e = .connected) }
  /-- `mqtt_subscribe` is called; before the set-up it returns 0 at once. -/
  | call (w : SubscribeWorld τ) (hrun : w.crashed = false) (t : τ) (topic : CString)
      (hidle : w.call t = .idle) :
      Step w (w.go t (if w.setupComplete then .entered topic else .idle) [])
  /-- `subscriptions.push_back`. -/
  | push (w : SubscribeWorld τ) (hrun : w.crashed = false) (t : τ) (topic : CString)
      (hcall : w.call t = .entered topic) :
      Step w { w.go t (.stored w.subscriptions.items.length topic)
          [.pushed w.subscriptions.items.length] with
        subscriptions := w.subscriptions.pushBack topic }
  /-- `if(connected)`. -/
  | read (w : SubscribeWorld τ) (hrun : w.crashed = false) (t : τ) (i : Nat) (topic : CString)
      (hcall : w.call t = .stored i topic) :
      Step w (w.go t (if w.connected then .sending i topic else .idle) [.read i w.connected])
  /-- `esp_mqtt_client_subscribe(client, topic, 0)`. -/
  | send (w : SubscribeWorld τ) (hrun : w.crashed = false) (t : τ) (i : Nat) (topic : CString)
      (hcall : w.call t = .sending i topic) : Step w (w.go t .idle [.handed i topic])

abbrev Steps : SubscribeWorld τ → SubscribeWorld τ → Prop := Relation.ReflTransGen Step

/-! ## The vector -/

/-- The numbers of the topics whose `push_back` moves the vector. -/
def Moves (i : Nat) : Prop := i = 0 ∨ ∃ k, i = 2 ^ k

/-- The vector has no room to spare but what a move has left. -/
def Doubled (v : CppVector CString) : Prop :=
  v.capacity = 0 ∧ v.items.length = 0 ∨
    ∃ k, v.capacity = 2 ^ k ∧ v.items.length ≤ 2 ^ k ∧ 2 ^ k < 2 * v.items.length

theorem Doubled.full_iff {v : CppVector CString} (h : Doubled v) :
    ¬ v.items.length < v.capacity ↔ Moves v.items.length := by
  rcases h with ⟨hcapacity, hlength⟩ | ⟨k, hcapacity, hle, hlt⟩
  · rw [hcapacity, hlength]
    exact iff_of_true (by omega) (Or.inl rfl)
  · rw [hcapacity]
    constructor
    · intro hfull
      exact Or.inr ⟨k, by omega⟩
    · intro hmoves hroom
      rcases hmoves with hzero | ⟨j, hj⟩
      · omega
      · rw [hj] at hroom hlt
        have hjk : j < k := (Nat.pow_lt_pow_iff_right (by decide)).mp hroom
        have hkj : k < j + 1 := by
          apply (Nat.pow_lt_pow_iff_right (by decide : 1 < 2)).mp
          rw [pow_succ]
          omega
        omega

theorem Doubled.pushBack {v : CppVector CString} (h : Doubled v) (topic : CString) :
    Doubled (v.pushBack topic) := by
  by_cases hroom : v.items.length < v.capacity
  · rw [CppVector.pushBack, if_pos hroom]
    rcases h with ⟨hcapacity, hlength⟩ | ⟨k, hcapacity, hle, hlt⟩
    · omega
    · right
      refine ⟨k, hcapacity, ?_, ?_⟩
      · simp only [List.length_append, List.length_singleton]
        omega
      · simp only [List.length_append, List.length_singleton]
        omega
  · rw [CppVector.pushBack, if_neg hroom]
    right
    rcases h with ⟨hcapacity, hlength⟩ | ⟨k, hcapacity, hle, hlt⟩
    · refine ⟨0, ?_, ?_, ?_⟩
      · simp [hcapacity]
      · simp [hlength]
      · simp [hlength]
    · have hpos : 0 < 2 ^ k := Nat.pos_of_ne_zero (by simp)
      refine ⟨k + 1, ?_, ?_, ?_⟩
      · simp only [hcapacity, pow_succ]
        omega
      · simp only [List.length_append, List.length_singleton, pow_succ]
        omega
      · simp only [List.length_append, List.length_singleton, pow_succ]
        omega

theorem block_pushBack {v : CppVector CString} (h : Doubled v) (topic : CString) :
    v.block ≤ (v.pushBack topic).block ∧
      ((v.pushBack topic).block = v.block ↔ ¬ Moves v.items.length) := by
  rw [← h.full_iff, not_not, CppVector.pushBack]
  split_ifs with hroom
  · exact ⟨le_refl _, iff_of_true rfl hroom⟩
  · exact ⟨Nat.le_succ _, iff_of_false (Nat.succ_ne_self _) hroom⟩

theorem pair_sublist_concat {α : Type} {a b x : α} {l : List α} :
    [a, b].Sublist (l ++ [x]) ↔ [a, b].Sublist l ∨ x = b ∧ a ∈ l := by
  constructor
  · intro h
    obtain ⟨l₁, l₂, heq, h₁, h₂⟩ := List.sublist_append_iff.mp h
    rcases List.sublist_singleton.mp h₂ with rfl | rfl
    · left
      rw [heq, List.append_nil]
      exact h₁
    · right
      have hsplit : l₁ = [a] ∧ b = x := by
        rw [show [a, b] = [a] ++ [b] from rfl] at heq
        have h := List.append_inj' heq rfl
        exact ⟨h.1.symm, (List.singleton_inj.mp h.2)⟩
      obtain ⟨rfl, rfl⟩ := hsplit
      exact ⟨rfl, List.singleton_sublist.mp h₁⟩
  · intro h
    rcases h with h | ⟨rfl, ha⟩
    · exact h.trans (List.sublist_append_left _ _)
    · exact (List.singleton_sublist.mpr ha).append (List.Sublist.refl [x])

/-! ## The loop's iterator -/

/-- A topic has been stored since `begin()` that made the vector move. -/
def Grown (since : List SubscriptionAccess) : Prop :=
  ∃ i, [.began, .pushed i].Sublist since ∧ Moves i

theorem grown_concat {since : List SubscriptionAccess} {x : SubscriptionAccess} :
    Grown (since ++ [x]) ↔ Grown since ∨ .began ∈ since ∧ ∃ i, x = .pushed i ∧ Moves i := by
  simp only [Grown, pair_sublist_concat]
  constructor
  · intro h
    obtain ⟨i, h | ⟨hx, hbegan⟩, hmoves⟩ := h
    · exact Or.inl ⟨i, h, hmoves⟩
    · exact Or.inr ⟨hbegan, i, hx, hmoves⟩
  · intro h
    rcases h with ⟨i, h, hmoves⟩ | ⟨hbegan, i, hx, hmoves⟩
    · exact ⟨i, Or.inl h, hmoves⟩
    · exact ⟨i, Or.inr ⟨hx, hbegan⟩, hmoves⟩

theorem grown_quiet {since new : List SubscriptionAccess}
    (hnew : ∀ x ∈ new, ∀ i, x ≠ .pushed i) : Grown (since ++ new) ↔ Grown since := by
  induction new using List.reverseRecOn with
  | nil => rw [List.append_nil]
  | append_singleton new x ih =>
    rw [← List.append_assoc, grown_concat, ih fun y hy => hnew y (List.mem_append_left _ hy)]
    refine or_iff_left ?_
    intro ⟨_, i, hx, _⟩
    exact hnew x (by simp) i hx

/-- What the handler's iterator has to do with what happened since it was called. -/
structure LoopInv (w : SubscribeWorld τ) : Prop where
  doubled : Doubled w.subscriptions
  publishing : ∀ e, w.handler = .publishing e → .began ∉ w.since
  iterator : ∀ it, w.handler.iterator = some it → .began ∈ w.since ∧
    it.block ≤ w.subscriptions.block ∧ (it.block = w.subscriptions.block ↔ ¬ Grown w.since)

variable {w w' : SubscribeWorld τ}

omit [DecidableEq τ] in
theorem LoopInv.handle (h : w.LoopInv) {phase : HandlerPhase} {new : List SubscriptionAccess}
    (hnew : ∀ x ∈ new, ∀ i, x ≠ .pushed i) (hphase : ∀ e, phase ≠ .publishing e)
    (hiterator : ∀ it, phase.iterator = some it →
      ∃ it', w.handler.iterator = some it' ∧ it'.block = it.block) :
    (w.handle phase new).LoopInv := by
  refine ⟨h.doubled, fun e he => absurd he (hphase e), ?_⟩
  intro it hit
  obtain ⟨it', hit', hblock⟩ := hiterator it hit
  obtain ⟨hbegan, hle, hgrown⟩ := h.iterator it' hit'
  rw [hblock] at hle hgrown
  refine ⟨List.mem_append_left _ hbegan, hle, ?_⟩
  exact hgrown.trans (not_congr (grown_quiet hnew).symm)

theorem LoopInv.go (h : w.LoopInv) (t : τ) (phase : SubscribePhase)
    {new : List SubscriptionAccess} (hpushed : ∀ x ∈ new, ∀ i, x ≠ .pushed i)
    (hbegan : .began ∉ new) : (w.go t phase new).LoopInv := by
  refine ⟨h.doubled, ?_, ?_⟩
  · intro e he hmem
    exact (List.mem_append.mp hmem).elim (h.publishing e he) hbegan
  · intro it hit
    obtain ⟨hmem, hle, hgrown⟩ := h.iterator it hit
    exact ⟨List.mem_append_left _ hmem, hle, hgrown.trans (not_congr (grown_quiet hpushed).symm)⟩

theorem LoopInv.push (h : w.LoopInv) (t : τ) (topic : CString) :
    LoopInv { w.go t (.stored w.subscriptions.items.length topic)
      [.pushed w.subscriptions.items.length] with
        subscriptions := w.subscriptions.pushBack topic } := by
  obtain ⟨hle, hblock⟩ := block_pushBack h.doubled topic
  refine ⟨h.doubled.pushBack topic, ?_, ?_⟩
  · intro e he hmem
    rcases List.mem_append.mp hmem with hmem | hmem
    · exact h.publishing e he hmem
    · simp at hmem
  · intro it hit
    obtain ⟨hbegan, hle', hgrown⟩ := h.iterator it hit
    refine ⟨List.mem_append_left _ hbegan, hle'.trans hle, ?_⟩
    -- it is still good if it was and the vector stays
    have hstays : it.block = (w.subscriptions.pushBack topic).block ↔
        it.block = w.subscriptions.block ∧ ¬ Moves w.subscriptions.items.length := by
      rw [← hblock]
      omega
    refine hstays.trans ?_
    change _ ↔ ¬ Grown (w.since ++ [.pushed w.subscriptions.items.length])
    rw [hgrown, grown_concat, not_or]
    refine and_congr_right fun _ => not_congr ?_
    constructor
    · intro hmoves
      exact ⟨hbegan, _, rfl, hmoves⟩
    · intro ⟨_, i, hi, hmoves⟩
      rw [SubscriptionAccess.pushed.injEq] at hi
      exact hi ▸ hmoves

omit [DecidableEq τ] in
theorem LoopInv.boot : (boot τ).LoopInv :=
  ⟨Or.inl ⟨rfl, rfl⟩, fun _ h => HandlerPhase.noConfusion h,
    by simp [SubscribeWorld.boot, HandlerPhase.iterator]⟩

theorem LoopInv.step (h : w.LoopInv) (hstep : Step w w') : w'.LoopInv := by
  cases hstep with
  | setup hrun => exact ⟨h.doubled, h.publishing, h.iterator⟩
  | event hrun e hhandler =>
    refine ⟨h.doubled, fun _ _ => List.not_mem_nil, ?_⟩
    intro it hit
    cases hit
  | first hrun hhandler =>
    have hbegan := h.publishing _ hhandler
    refine ⟨h.doubled, fun _ he => HandlerPhase.noConfusion he, ?_⟩
    intro it hit
    cases hit
    refine ⟨by simp [SubscribeWorld.handle], le_refl _, iff_of_true rfl ?_⟩
    intro ⟨i, hsub, _⟩
    rcases pair_sublist_concat.mp hsub with hsub | ⟨heq, _⟩
    · exact hbegan (hsub.subset (by simp))
    · cases heq
  | more hrun it hhandler hvalid hmore =>
    apply h.handle (by simp) (by simp)
    intro it' hit'
    cases hit'
    exact ⟨it, by rw [hhandler]; rfl, rfl⟩
  | hand hrun it hhandler hvalid topic htopic =>
    apply h.handle (by simp) (by simp)
    intro it' hit'
    cases hit'
    exact ⟨it, by rw [hhandler]; rfl, rfl⟩
  | last hrun it hhandler hvalid hlast =>
    apply h.handle (by simp) (by simp)
    intro it' hit'
    cases hit'
  | dangling hrun it hhandler hdangling => exact ⟨h.doubled, h.publishing, h.iterator⟩
  | closed hrun hhandler =>
    apply h.handle (by simp) (by simp)
    intro it' hit'
    cases hit'
  | set hrun e hhandler =>
    have hidle : (w.handle .idle [.set]).LoopInv := by
      apply h.handle (by simp) (by simp)
      intro it' hit'
      cases hit'
    exact ⟨hidle.doubled, hidle.publishing, hidle.iterator⟩
  | call hrun t topic hidle => exact h.go t _ (by simp) (by simp)
  | push hrun t topic hcall => exact h.push t topic
  | read hrun t i topic hcall => exact h.go t _ (by simp) (by simp)
  | send hrun t i topic hcall => exact h.go t _ (by simp) (by simp)

/-- A call that has stored its topic as number `i` and is under way. -/
def Underway (call : τ → SubscribePhase) (t : τ) (i : Nat) (topic : CString) : Prop :=
  call t = .stored i topic ∨ call t = .sending i topic

/-- Every topic that is stored has one call, and no others are there to be accessed. -/
structure CallInv (w : SubscribeWorld τ) : Prop where
  place : ∀ t i topic, Underway w.call t i topic → w.subscriptions.items[i]? = some topic
  own : ∀ t t' i topic topic', Underway w.call t i topic → Underway w.call t' i topic' → t = t'
  numbers : ∀ x ∈ w.since, ∀ i, x.number = some i → i < w.subscriptions.items.length

theorem underway_go {t t' : τ} {phase : SubscribePhase} {i : Nat} {topic : CString} (ht : t' ≠ t) :
    Underway (Function.update w.call t phase) t' i topic ↔ Underway w.call t' i topic := by
  rw [Underway, Function.update_of_ne ht, Underway]

theorem underway_self {t : τ} {phase : SubscribePhase} {i : Nat} {topic : CString} :
    Underway (Function.update w.call t phase) t i topic ↔
      phase = .stored i topic ∨ phase = .sending i topic := by
  rw [Underway, Function.update_self]

omit [DecidableEq τ] in
theorem not_underway_of_ne {t : τ} {i j : Nat} {topic : CString}
    (hunder : Underway w.call t i topic) (hij : j ≠ i) (topic' : CString) :
    ¬ Underway w.call t j topic' := by
  intro hother
  rcases hunder with hcall | hcall
  · rcases hother with heq | heq <;> cases hcall.symm.trans heq
    exact hij rfl
  · rcases hother with heq | heq <;> cases hcall.symm.trans heq
    exact hij rfl

theorem CallInv.over (h : w.CallInv) {t : τ} {i : Nat} {topic : CString}
    (hunder : Underway w.call t i topic) (t' : τ) (topic' : CString) :
    ¬ Underway (Function.update w.call t .idle) t' i topic' := by
  intro hother
  by_cases ht : t' = t
  · subst ht
    rcases underway_self.mp hother with heq | heq <;> cases heq
  · exact ht (h.own t' t i topic' topic ((underway_go ht).mp hother) hunder)

omit [DecidableEq τ] in
theorem CallInv.lt (h : w.CallInv) {t : τ} {i : Nat} {topic : CString}
    (hunder : Underway w.call t i topic) : i < w.subscriptions.items.length :=
  (List.getElem?_eq_some_iff.mp (h.place t i topic hunder)).1

omit [DecidableEq τ] in
theorem CallInv.handle (h : w.CallInv) (phase : HandlerPhase) {new : List SubscriptionAccess}
    (hnew : ∀ x ∈ new, ∀ i, x.number = some i → i < w.subscriptions.items.length) :
    (w.handle phase new).CallInv := by
  refine ⟨h.place, h.own, ?_⟩
  intro x hx
  rcases List.mem_append.mp hx with hx | hx
  · exact h.numbers x hx
  · exact hnew x hx

theorem CallInv.go (h : w.CallInv) (t : τ) {phase : SubscribePhase}
    (hphase : ∀ i topic, phase = .stored i topic ∨ phase = .sending i topic →
      Underway w.call t i topic) {new : List SubscriptionAccess}
    (hnew : ∀ x ∈ new, ∀ i, x.number = some i → i < w.subscriptions.items.length) :
    (w.go t phase new).CallInv := by
  have hback : ∀ t' i topic, Underway (w.go t phase new).call t' i topic →
      Underway w.call t' i topic := by
    intro t' i topic hunder
    by_cases ht : t' = t
    · subst ht
      exact hphase i topic (underway_self.mp hunder)
    · exact (underway_go ht).mp hunder
  refine ⟨?_, ?_, ?_⟩
  · intro t' i topic hunder
    exact h.place t' i topic (hback t' i topic hunder)
  · intro t₁ t₂ i topic topic' h₁ h₂
    exact h.own t₁ t₂ i topic topic' (hback _ _ _ h₁) (hback _ _ _ h₂)
  · intro x hx
    rcases List.mem_append.mp hx with hx | hx
    · exact h.numbers x hx
    · exact hnew x hx

theorem CallInv.push (h : w.CallInv) (t : τ) (topic : CString) :
    CallInv { w.go t (.stored w.subscriptions.items.length topic)
      [.pushed w.subscriptions.items.length] with
        subscriptions := w.subscriptions.pushBack topic } := by
  have hcases : ∀ t' i topic', Underway
      (Function.update w.call t (.stored w.subscriptions.items.length topic)) t' i topic' →
      t' = t ∧ i = w.subscriptions.items.length ∧ topic' = topic ∨
        t' ≠ t ∧ Underway w.call t' i topic' := by
    intro t' i topic' hunder
    by_cases ht : t' = t
    · subst ht
      rcases underway_self.mp hunder with heq | heq
      · rw [SubscribePhase.stored.injEq] at heq
        exact Or.inl ⟨rfl, heq.1.symm, heq.2.symm⟩
      · cases heq
    · exact Or.inr ⟨ht, (underway_go ht).mp hunder⟩
  refine ⟨?_, ?_, ?_⟩
  · intro t' i topic' hunder
    change (w.subscriptions.pushBack topic).items[i]? = some topic'
    rw [CppVector.items_pushBack]
    rcases hcases t' i topic' hunder with ⟨-, rfl, rfl⟩ | ⟨-, hold⟩
    · exact List.getElem?_concat_length
    · rw [List.getElem?_append_left (h.lt hold)]
      exact h.place t' i topic' hold
  · intro t₁ t₂ i topic₁ topic₂ h₁ h₂
    rcases hcases t₁ i topic₁ h₁ with ⟨ht₁, hi₁, -⟩ | ⟨-, hold₁⟩
    · rcases hcases t₂ i topic₂ h₂ with ⟨ht₂, -, -⟩ | ⟨-, hold₂⟩
      · rw [ht₁, ht₂]
      · have hlt := h.lt hold₂
        omega
    · rcases hcases t₂ i topic₂ h₂ with ⟨-, hi₂, -⟩ | ⟨-, hold₂⟩
      · have hlt := h.lt hold₁
        omega
      · exact h.own t₁ t₂ i topic₁ topic₂ hold₁ hold₂
  · intro x hx i hi
    change i < (w.subscriptions.pushBack topic).items.length
    rw [CppVector.items_pushBack, List.length_append, List.length_singleton]
    rcases List.mem_append.mp hx with hx | hx
    · have hlt := h.numbers x hx i hi
      omega
    · rw [List.mem_singleton.mp hx, SubscriptionAccess.number, Option.some.injEq] at hi
      omega

omit [DecidableEq τ] in
theorem CallInv.boot : (boot τ).CallInv := by
  refine ⟨?_, ?_, fun x hx => absurd hx List.not_mem_nil⟩
  · intro t i topic hunder
    rcases hunder with heq | heq <;> cases heq
  · intro t t' i topic topic' hunder
    rcases hunder with heq | heq <;> cases heq

theorem CallInv.step (h : w.CallInv) (hstep : Step w w') : w'.CallInv := by
  cases hstep with
  | setup hrun => exact ⟨h.place, h.own, h.numbers⟩
  | dangling hrun it hhandler hdangling => exact ⟨h.place, h.own, h.numbers⟩
  | event hrun e hhandler => exact ⟨h.place, h.own, fun x hx => absurd hx List.not_mem_nil⟩
  | first hrun hhandler => exact h.handle _ (by simp [SubscriptionAccess.number])
  | more hrun it hhandler hvalid hmore => exact h.handle _ (by simp)
  | last hrun it hhandler hvalid hlast => exact h.handle _ (by simp [SubscriptionAccess.number])
  | closed hrun hhandler => exact h.handle _ (by simp)
  | set hrun e hhandler =>
    have hidle : (w.handle .idle [.set]).CallInv := h.handle _ (by simp [SubscriptionAccess.number])
    exact ⟨hidle.place, hidle.own, hidle.numbers⟩
  | hand hrun it hhandler hvalid topic htopic =>
    apply h.handle
    intro x hx i hi
    rw [List.mem_singleton.mp hx, SubscriptionAccess.number, Option.some.injEq] at hi
    exact hi ▸ (List.getElem?_eq_some_iff.mp htopic).1
  | call hrun t topic hidle =>
    apply h.go
    · intro i topic' hphase
      split_ifs at hphase
      · rcases hphase with heq | heq <;> cases heq
      · rcases hphase with heq | heq <;> cases heq
    · simp
  | push hrun t topic hcall => exact h.push t topic
  | read hrun t i topic hcall =>
    apply h.go
    · intro i' topic' hphase
      split_ifs at hphase
      · rcases hphase with heq | heq
        · cases heq
        · cases heq
          exact Or.inl hcall
      · rcases hphase with heq | heq <;> cases heq
    · intro x hx j hj
      rw [List.mem_singleton.mp hx, SubscriptionAccess.number, Option.some.injEq] at hj
      exact hj ▸ h.lt (Or.inl hcall)
  | send hrun t i topic hcall =>
    apply h.go
    · intro i' topic' hphase
      rcases hphase with heq | heq <;> cases heq
    · intro x hx j hj
      rw [List.mem_singleton.mp hx, SubscriptionAccess.number, Option.some.injEq] at hj
      exact hj ▸ h.lt (Or.inr hcall)

/-- How it stands with a topic that was stored when the loop had come to its end: `later` is what
happened since, `ending` what the handler did. -/
inductive Entry (call : τ → SubscribePhase) (ending later : List SubscriptionAccess) (i : Nat)
    (topic : CString) : Prop where
  | stored (t : τ) (hcall : call t = .stored i topic) (hread : ∀ b, .read i b ∉ later)
      (hhanded : ∀ topic', .handed i topic' ∉ later)
  | sending (t : τ) (hcall : call t = .sending i topic) (hread : .read i false ∉ later)
  | handed (hover : ∀ t topic', ¬ Underway call t i topic') (hread : .read i false ∉ later)
      (hhanded : .handed i topic ∈ later)
  | missed (hover : ∀ t topic', ¬ Underway call t i topic')
      (hread : List.Sublist (.pushed i :: .read i false :: ending) later)
      (hhanded : ∀ topic', .handed i topic' ∉ later)

section
variable {ending later new : List SubscriptionAccess} {i : Nat} {topic : CString}

theorem Entry.frame (h : Entry w.call ending later i topic) {t : τ} {phase : SubscribePhase}
    (hold : ∀ topic', ¬ Underway w.call t i topic')
    (hphase : ∀ topic', phase ≠ .stored i topic' ∧ phase ≠ .sending i topic')
    (hnew : ∀ x ∈ new, x.number ≠ some i) :
    Entry (Function.update w.call t phase) ending (later ++ new) i topic := by
  have hread : ∀ b, .read i b ∉ later → .read i b ∉ later ++ new := by
    intro b hb
    exact List.not_mem_append hb fun hmem => hnew _ hmem rfl
  have hhanded : (∀ topic', .handed i topic' ∉ later) → ∀ topic', .handed i topic' ∉ later ++ new := by
    intro hno topic'
    exact List.not_mem_append (hno topic') fun hmem => hnew _ hmem rfl
  have hover : (∀ t topic', ¬ Underway w.call t i topic') →
      ∀ t' topic', ¬ Underway (Function.update w.call t phase) t' i topic' := by
    intro hno t' topic' hunder
    by_cases ht : t' = t
    · subst ht
      rcases underway_self.mp hunder with heq | heq
      · exact (hphase topic').1 heq
      · exact (hphase topic').2 heq
    · exact hno t' topic' ((underway_go ht).mp hunder)
  cases h with
  | stored t' hcall hread' hhanded' =>
    have ht : t' ≠ t := fun ht => hold topic (ht ▸ Or.inl hcall)
    refine .stored t' ?_ (fun b => hread b (hread' b)) (hhanded hhanded')
    rw [Function.update_of_ne ht]
    exact hcall
  | sending t' hcall hread' =>
    have ht : t' ≠ t := fun ht => hold topic (ht ▸ Or.inr hcall)
    refine .sending t' ?_ (hread _ hread')
    rw [Function.update_of_ne ht]
    exact hcall
  | handed hover' hread' hhanded' =>
    exact .handed (hover hover') (hread _ hread') (List.mem_append_left _ hhanded')
  | missed hover' hread' hhanded' =>
    exact .missed (hover hover') (hread'.trans (List.sublist_append_left _ _)) (hhanded hhanded')

/-- Behind the loop: it has handed over the first `n` topics and nothing else is in `earlier`, and
the topics stored since are those that `later` tells of. -/
structure Behind (w : SubscribeWorld τ) (ending : List SubscriptionAccess) (n : Nat)
    (earlier later : List SubscriptionAccess) : Prop where
  since : w.since = earlier ++ .looped :: later
  once : .looped ∉ earlier
  le : n ≤ w.subscriptions.items.length
  loop : ∀ i topic, i < n → w.subscriptions.items[i]? = some topic → .handed i topic ∈ earlier
  before : ∀ i topic, .handed i topic ∈ earlier → i < n
  pushed : ∀ i, .pushed i ∈ later → n ≤ i
  entries : ∀ i topic, n ≤ i → w.subscriptions.items[i]? = some topic →
    .pushed i ∈ later ∧ Entry w.call ending later i topic

variable {n : Nat} {earlier : List SubscriptionAccess}

omit [DecidableEq τ] in
theorem Behind.congr (h : w.Behind ending n earlier later) (hsince : w'.since = w.since)
    (hsubscriptions : w'.subscriptions = w.subscriptions) (hcall : w'.call = w.call) :
    w'.Behind ending n earlier (later ++ []) := by
  obtain ⟨since, once, le, loop, before, pushed, entries⟩ := h
  rw [List.append_nil]
  rw [← hsince] at since
  rw [← hsubscriptions] at le loop entries
  rw [← hcall] at entries
  exact ⟨since, once, le, loop, before, pushed, entries⟩

theorem Behind.go (h : w.Behind ending n earlier later) {t : τ} {phase : SubscribePhase}
    (hnew : ∀ x ∈ new, ∀ i, x ≠ .pushed i)
    (hentry : ∀ i topic, n ≤ i → w.subscriptions.items[i]? = some topic → .pushed i ∈ later →
      Entry w.call ending later i topic →
        Entry (Function.update w.call t phase) ending (later ++ new) i topic) :
    (w.go t phase new).Behind ending n earlier (later ++ new) := by
  refine ⟨?_, h.once, h.le, h.loop, h.before, ?_, ?_⟩
  · change w.since ++ new = _
    rw [h.since, List.append_assoc, List.cons_append]
  · intro i hi
    rcases List.mem_append.mp hi with hi | hi
    · exact h.pushed i hi
    · exact absurd rfl (hnew _ hi i)
  · intro i topic hle htopic
    obtain ⟨hpushed, hold⟩ := h.entries i topic hle htopic
    exact ⟨List.mem_append_left _ hpushed, hentry i topic hle htopic hpushed hold⟩

theorem Behind.call (h : w.Behind ending n earlier later) {t : τ} (hidle : w.call t = .idle)
    (topic : CString) :
    (w.go t (if w.setupComplete then .entered topic else .idle) []).Behind ending n earlier
      (later ++ []) := by
  apply h.go (by simp)
  intro i topic' _ _ _ hold
  apply hold.frame
  · intro topic'' hunder
    rcases hunder with heq | heq <;> cases hidle.symm.trans heq
  · intro topic''
    split_ifs
    · exact ⟨SubscribePhase.noConfusion, SubscribePhase.noConfusion⟩
    · exact ⟨SubscribePhase.noConfusion, SubscribePhase.noConfusion⟩
  · simp

theorem Behind.push (h : w.Behind ending n earlier later) (hinv : w.CallInv) {t : τ}
    (hcall : w.call t = .entered topic) :
    Behind { w.go t (.stored w.subscriptions.items.length topic)
      [.pushed w.subscriptions.items.length] with
        subscriptions := w.subscriptions.pushBack topic } ending n earlier
          (later ++ [.pushed w.subscriptions.items.length]) := by
  -- nothing has been said of the new topic
  have hnumbers : ∀ x ∈ later, x.number ≠ some w.subscriptions.items.length := by
    intro x hx hnumber
    have hmem : x ∈ w.since := by
      rw [h.since]
      exact List.mem_append_right _ (List.mem_cons_of_mem _ hx)
    exact absurd (hinv.numbers x hmem _ hnumber) (by omega)
  refine ⟨?_, h.once, ?_, ?_, h.before, ?_, ?_⟩
  · change w.since ++ _ = _
    rw [h.since, List.append_assoc, List.cons_append]
  · change n ≤ (w.subscriptions.pushBack topic).items.length
    rw [CppVector.items_pushBack, List.length_append]
    exact h.le.trans (Nat.le_add_right _ _)
  · intro i topic' hi htopic
    change (w.subscriptions.pushBack topic).items[i]? = some topic' at htopic
    rw [CppVector.items_pushBack, List.getElem?_append_left (hi.trans_le h.le)] at htopic
    exact h.loop i topic' hi htopic
  · intro i hi
    rcases List.mem_append.mp hi with hi | hi
    · exact h.pushed i hi
    · rw [List.mem_singleton, SubscriptionAccess.pushed.injEq] at hi
      exact hi ▸ h.le
  · intro i topic' hle htopic
    change (w.subscriptions.pushBack topic).items[i]? = some topic' at htopic
    rw [CppVector.items_pushBack] at htopic
    by_cases hi : i = w.subscriptions.items.length
    · subst hi
      rw [List.getElem?_concat_length, Option.some.injEq] at htopic
      subst htopic
      refine ⟨by simp, .stored t (Function.update_self ..) ?_ ?_⟩
      · exact fun b => List.not_mem_append (fun hmem => hnumbers _ hmem rfl) (by simp)
      · exact fun topic'' => List.not_mem_append (fun hmem => hnumbers _ hmem rfl) (by simp)
    · have hlt : i < w.subscriptions.items.length := by
        have hlength := (List.getElem?_eq_some_iff.mp htopic).1
        rw [List.length_append, List.length_singleton] at hlength
        omega
      rw [List.getElem?_append_left hlt] at htopic
      obtain ⟨hpushed, hold⟩ := h.entries i topic' hle htopic
      refine ⟨List.mem_append_left _ hpushed, hold.frame ?_ ?_ ?_⟩
      · intro topic'' hunder
        rcases hunder with heq | heq <;> cases hcall.symm.trans heq
      · intro topic''
        refine ⟨?_, SubscribePhase.noConfusion⟩
        intro heq
        rw [SubscribePhase.stored.injEq] at heq
        exact hi heq.1.symm
      · intro x hx
        rw [List.mem_singleton.mp hx, SubscriptionAccess.number, Ne, Option.some.injEq]
        omega

theorem Behind.read (h : w.Behind ending n earlier later) (hinv : w.CallInv)
    (hending : ending = [] ∨ w.connected = true) {t : τ} (hcall : w.call t = .stored i topic) :
    (w.go t (if w.connected then .sending i topic else .idle) [.read i w.connected]).Behind ending
      n earlier (later ++ [.read i w.connected]) := by
  apply h.go (by simp)
  intro j topic' hle htopic hpushed hold
  have hunder : Underway w.call t i topic := Or.inl hcall
  by_cases hij : j = i
  · subst hij
    obtain rfl : topic' = topic := by
      have hplace := hinv.place t j topic hunder
      exact Option.some.inj (htopic.symm.trans hplace)
    cases hold with
    | sending t' hcall' _ =>
      obtain rfl := hinv.own t t' j topic' topic' hunder (Or.inr hcall')
      cases hcall.symm.trans hcall'
    | handed hover _ _ => exact absurd hunder (hover t topic')
    | missed hover _ _ => exact absurd hunder (hover t topic')
    | stored t' hcall' hread hhanded =>
      cases hconnected : w.connected with
      | true =>
        exact .sending t (Function.update_self ..) (List.not_mem_append (hread false) (by simp))
      | false =>
        have hnone : ending = [] := by
          rcases hending with hnone | htrue
          · exact hnone
          · cases hconnected.symm.trans htrue
        subst hnone
        refine .missed (hinv.over hunder) ?_ ?_
        · exact pair_sublist_concat.mpr (Or.inr ⟨rfl, hpushed⟩)
        · exact fun topic'' => List.not_mem_append (hhanded topic'') (by simp)
  · apply hold.frame (not_underway_of_ne hunder hij)
    · intro topic''
      split_ifs
      · refine ⟨SubscribePhase.noConfusion, ?_⟩
        intro heq
        rw [SubscribePhase.sending.injEq] at heq
        exact hij heq.1.symm
      · exact ⟨SubscribePhase.noConfusion, SubscribePhase.noConfusion⟩
    · intro x hx
      rw [List.mem_singleton.mp hx, SubscriptionAccess.number, Ne, Option.some.injEq]
      exact fun heq => hij heq.symm

theorem Behind.send (h : w.Behind ending n earlier later) (hinv : w.CallInv) {t : τ}
    (hcall : w.call t = .sending i topic) :
    (w.go t .idle [.handed i topic]).Behind ending n earlier (later ++ [.handed i topic]) := by
  apply h.go (by simp)
  intro j topic' hle htopic hpushed hold
  have hunder : Underway w.call t i topic := Or.inr hcall
  by_cases hij : j = i
  · subst hij
    obtain rfl : topic' = topic := by
      have hplace := hinv.place t j topic hunder
      exact Option.some.inj (htopic.symm.trans hplace)
    cases hold with
    | stored t' hcall' _ _ =>
      obtain rfl := hinv.own t t' j topic' topic' hunder (Or.inl hcall')
      cases hcall.symm.trans hcall'
    | handed hover _ _ => exact absurd hunder (hover t topic')
    | missed hover _ _ => exact absurd hunder (hover t topic')
    | sending t' hcall' hread =>
      exact .handed (hinv.over hunder) (List.not_mem_append hread (by simp)) (by simp)
  · apply hold.frame (not_underway_of_ne hunder hij)
    · exact fun _ => ⟨SubscribePhase.noConfusion, SubscribePhase.noConfusion⟩
    · intro x hx
      rw [List.mem_singleton.mp hx, SubscriptionAccess.number, Ne, Option.some.injEq]
      exact fun heq => hij heq.symm

omit [DecidableEq τ] in
theorem Behind.set (h : w.Behind [] n earlier later) (connected : Bool) :
    Behind { w.handle .idle [.set] with connected := connected } [.set] n earlier
      (later ++ [.set]) := by
  refine ⟨?_, h.once, h.le, h.loop, h.before, ?_, ?_⟩
  · change w.since ++ _ = _
    rw [h.since, List.append_assoc, List.cons_append]
  · intro i hi
    exact h.pushed i (by simpa using hi)
  · intro i topic hle htopic
    obtain ⟨hpushed, hold⟩ := h.entries i topic hle htopic
    refine ⟨List.mem_append_left _ hpushed, ?_⟩
    cases hold with
    | stored t hcall hread hhanded =>
      exact .stored t hcall (by simpa using hread) (by simpa using hhanded)
    | sending t hcall hread => exact .sending t hcall (by simpa using hread)
    | handed hover hread hhanded => exact .handed hover (by simpa using hread) (by simpa using hhanded)
    | missed hover hread hhanded =>
      exact .missed hover (hread.append (List.Sublist.refl [SubscriptionAccess.set]))
        (by simpa using hhanded)

omit [DecidableEq τ] in
theorem Behind.last (hinv : w.CallInv) (honce : .looped ∉ w.since) (phase : HandlerPhase)
    (hloop : ∀ (i : Nat) (topic : CString), w.subscriptions.items[i]? = some topic →
      .handed i topic ∈ w.since) :
    (w.handle phase [.looped]).Behind [] w.subscriptions.items.length w.since [] := by
  refine ⟨rfl, honce, le_refl _, fun i topic _ => hloop i topic, ?_, by simp, ?_⟩
  · intro i topic hi
    exact hinv.numbers _ hi i rfl
  · intro i topic hle htopic
    exact absurd (List.getElem?_eq_some_iff.mp htopic).1 (Nat.not_lt.mpr hle)

end

/-! ## A session -/

/-- The loop has handed over the first `k` topics. -/
def Passed (w : SubscribeWorld τ) (k : Nat) : Prop :=
  .looped ∉ w.since ∧ k ≤ w.subscriptions.items.length ∧
    ∀ (i : Nat) (topic : CString), i < k → w.subscriptions.items[i]? = some topic →
      .handed i topic ∈ w.since

/-- What holds while the session event handled last opened a session. -/
def SessionInv (w : SubscribeWorld τ) : Prop :=
  w.event = some .connected →
    match w.handler with
    | .publishing e => e = .connected ∧ w.Passed 0
    | .testing it => w.Passed it.index
    | .reading it => w.Passed it.index
    | .setting e => e = .connected ∧ ∃ n earlier later, w.Behind [] n earlier later
    | .idle => w.connected = true ∧ ∃ n earlier later, w.Behind [.set] n earlier later

omit [DecidableEq τ] in
theorem Passed.mono {k : Nat} (h : w.Passed k) {new : List SubscriptionAccess}
    (hsince : w'.since = w.since ++ new) (hnew : .looped ∉ new)
    (hitems : w.subscriptions.items <+: w'.subscriptions.items) : w'.Passed k := by
  obtain ⟨honce, hle, hhanded⟩ := h
  obtain ⟨rest, hrest⟩ := hitems
  refine ⟨?_, ?_, ?_⟩
  · rw [hsince]
    intro hmem
    exact (List.mem_append.mp hmem).elim honce hnew
  · rw [← hrest, List.length_append]
    omega
  · intro i topic hi htopic
    rw [← hrest, List.getElem?_append_left (by omega)] at htopic
    rw [hsince]
    exact List.mem_append_left _ (hhanded i topic hi htopic)

omit [DecidableEq τ] in
theorem SessionInv.of_call (h : w.SessionInv) (new : List SubscriptionAccess)
    (hevent : w'.event = w.event) (hhandler : w'.handler = w.handler)
    (hconnected : w'.connected = w.connected) (hsince : w'.since = w.since ++ new)
    (hnew : .looped ∉ new) (hitems : w.subscriptions.items <+: w'.subscriptions.items)
    (hbehind : ∀ ending n earlier later, ending = [] ∨ w.connected = true →
      w.Behind ending n earlier later → w'.Behind ending n earlier (later ++ new)) :
    w'.SessionInv := by
  intro hup
  have hinv := h (hevent ▸ hup)
  rw [hhandler]
  cases hphase : w.handler with
  | publishing e =>
    rw [hphase] at hinv
    exact ⟨hinv.1, hinv.2.mono hsince hnew hitems⟩
  | testing it =>
    rw [hphase] at hinv
    exact Passed.mono hinv hsince hnew hitems
  | reading it =>
    rw [hphase] at hinv
    exact Passed.mono hinv hsince hnew hitems
  | setting e =>
    rw [hphase] at hinv
    obtain ⟨he, n, earlier, later, hold⟩ := hinv
    exact ⟨he, n, earlier, _, hbehind _ n earlier later (Or.inl rfl) hold⟩
  | idle =>
    rw [hphase] at hinv
    obtain ⟨hset, n, earlier, later, hold⟩ := hinv
    exact ⟨hconnected.trans hset, n, earlier, _, hbehind _ n earlier later (Or.inr hset) hold⟩

omit [DecidableEq τ] in
theorem SessionInv.boot : (boot τ).SessionInv := fun hup => Option.noConfusion rfl (heq_of_eq hup)

theorem SessionInv.step (h : w.SessionInv) (hinv : w.CallInv) (hstep : Step w w') :
    w'.SessionInv := by
  cases hstep with
  | setup hrun =>
    exact h.of_call [] rfl rfl rfl (List.append_nil _).symm (by simp) (List.prefix_refl _)
      fun _ _ _ _ _ hold => hold.congr rfl rfl rfl
  | dangling hrun it hhandler hdangling =>
    exact h.of_call [] rfl rfl rfl (List.append_nil _).symm (by simp) (List.prefix_refl _)
      fun _ _ _ _ _ hold => hold.congr rfl rfl rfl
  | event hrun e hhandler =>
    intro hup
    obtain rfl := Option.some.inj hup
    exact ⟨rfl, List.not_mem_nil, Nat.zero_le _, fun i _ hi => absurd hi (Nat.not_lt_zero i)⟩
  | first hrun hhandler =>
    intro hup
    have hphase := h hup
    rw [hhandler] at hphase
    exact hphase.2.mono rfl (by simp) (List.prefix_refl _)
  | more hrun it hhandler hvalid hmore =>
    intro hup
    have hphase := h hup
    rw [hhandler] at hphase
    exact Passed.mono hphase rfl (by simp) (List.prefix_refl _)
  | hand hrun it hhandler hvalid topic htopic =>
    intro hup
    have hphase := h hup
    rw [hhandler] at hphase
    obtain ⟨honce, -, hhanded⟩ : w.Passed it.index := hphase
    refine ⟨by simpa [SubscribeWorld.handle] using honce,
      (List.getElem?_eq_some_iff.mp htopic).1, ?_⟩
    intro i topic' hi htopic'
    by_cases hlast : i = it.index
    · subst hlast
      obtain rfl := Option.some.inj (htopic'.symm.trans htopic)
      simp [SubscribeWorld.handle]
    · exact List.mem_append_left _ (hhanded i topic' (by simp only at hi; omega) htopic')
  | last hrun it hhandler hvalid hlast =>
    intro hup
    have hphase := h hup
    rw [hhandler] at hphase
    obtain ⟨honce, -, hhanded⟩ : w.Passed it.index := hphase
    refine ⟨rfl, _, _, _, Behind.last hinv honce _ ?_⟩
    intro i topic htopic
    have hlt := (List.getElem?_eq_some_iff.mp htopic).1
    exact hhanded i topic (by omega) htopic
  | closed hrun hhandler =>
    intro hup
    have hphase := h hup
    rw [hhandler] at hphase
    cases hphase.1
  | set hrun e hhandler =>
    intro hup
    have hphase := h hup
    rw [hhandler] at hphase
    obtain ⟨rfl, n, earlier, later, hbehind⟩ := hphase
    exact ⟨rfl, n, earlier, _, hbehind.set _⟩
  | call hrun t topic hidle =>
    exact h.of_call _ rfl rfl rfl rfl (by simp) (List.prefix_refl _)
      fun _ _ _ _ _ hold => hold.call hidle topic
  | push hrun t topic hcall =>
    refine h.of_call [.pushed w.subscriptions.items.length] rfl rfl rfl rfl (by simp) ?_ ?_
    · change w.subscriptions.items <+: (w.subscriptions.pushBack topic).items
      rw [CppVector.items_pushBack]
      exact List.prefix_append _ _
    · intro _ _ _ _ _ hold
      exact hold.push hinv hcall
  | read hrun t i topic hcall =>
    exact h.of_call _ rfl rfl rfl rfl (by simp) (List.prefix_refl _)
      fun _ _ _ _ hending hold => hold.read hinv hending hcall
  | send hrun t i topic hcall =>
    exact h.of_call _ rfl rfl rfl rfl (by simp) (List.prefix_refl _)
      fun _ _ _ _ _ hold => hold.send hinv hcall

/-- The variables, as `mqtt_subscribe` and the handler see them when nothing comes between. -/
def state (w : SubscribeWorld τ) : MqttState :=
  ⟨w.subscriptions.items, w.setupComplete, w.connected⟩

/-- The topics that have been handed over. -/
def handedTopics (since : List SubscriptionAccess) : List CString :=
  since.filterMap fun x =>
    match x with
    | .handed _ topic => some topic
    | _ => none

theorem exists_subscribe (hrun : w.crashed = false) {t : τ} (hidle : w.call t = .idle)
    (topic : CString) :
    ∃ w', Steps w w' ∧ w'.crashed = false ∧ w'.call t = .idle ∧ w'.handler = w.handler ∧
      w'.state = (mqttSubscribe w.state topic).1 ∧ handedTopics w'.since =
        handedTopics w.since ++ subscribeTopics (mqttSubscribe w.state topic).2.1 := by
  have hcall := Step.call w hrun t topic hidle
  cases hsetup : w.setupComplete with
  | false =>
    rw [hsetup] at hcall
    refine ⟨_, .single hcall, hrun, Function.update_self .., rfl, ?_, ?_⟩
    · simp [mqttSubscribe, state, hsetup, SubscribeWorld.go]
    · simp [mqttSubscribe, state, hsetup, SubscribeWorld.go, handedTopics, subscribeTopics]
  | true =>
    rw [hsetup] at hcall
    let w₁ := w.go t (.entered topic) []
    let w₂ : SubscribeWorld τ := { w₁.go t (.stored w.subscriptions.items.length topic)
      [.pushed w.subscriptions.items.length] with
        subscriptions := w.subscriptions.pushBack topic }
    have h₁ : Steps w w₁ := .single hcall
    have h₂ : Steps w w₂ := h₁.tail (.push w₁ hrun t topic (Function.update_self ..))
    have h₃ := h₂.tail (.read w₂ hrun t _ topic (Function.update_self ..))
    cases hconnected : w₂.connected with
    | false =>
      rw [hconnected] at h₃
      have hdown : w.connected = false := hconnected
      refine ⟨_, h₃, hrun, Function.update_self .., rfl, ?_, ?_⟩
      · simp [w₁, w₂, mqttSubscribe, state, hsetup, SubscribeWorld.go, hdown]
      · simp [w₁, w₂, mqttSubscribe, state, hsetup, SubscribeWorld.go, handedTopics,
          subscribeTopics, hdown]
    | true =>
      rw [hconnected] at h₃
      have hup : w.connected = true := hconnected
      let w₃ := w₂.go t (.sending w.subscriptions.items.length topic)
        [.read w.subscriptions.items.length true]
      have h₄ : Steps w (w₃.go t .idle [.handed w.subscriptions.items.length topic]) :=
        h₃.tail (.send w₃ hrun t _ topic (Function.update_self ..))
      refine ⟨_, h₄, hrun, Function.update_self .., rfl, ?_, ?_⟩
      · simp [w₁, w₂, w₃, mqttSubscribe, state, hsetup, SubscribeWorld.go, hup]
      · simp [w₁, w₂, w₃, mqttSubscribe, state, hsetup, SubscribeWorld.go, handedTopics,
          subscribeTopics, hup]

theorem exists_loop (hrun : w.crashed = false) {k : Nat}
    (hhandler : w.handler = .testing ⟨w.subscriptions.block, k⟩) :
    ∃ w', Steps w w' ∧ w'.crashed = false ∧ w'.handler = .setting .connected ∧
      w'.event = w.event ∧ w'.state = w.state ∧ w'.call = w.call ∧
      handedTopics w'.since = handedTopics w.since ++ w.subscriptions.items.drop k := by
  induction hrest : w.subscriptions.items.drop k generalizing w k with
  | nil =>
    have hlast : ¬ k < w.subscriptions.items.length := by
      rw [List.drop_eq_nil_iff] at hrest
      omega
    refine ⟨_, .single (.last w hrun _ hhandler rfl hlast), hrun, rfl, rfl, rfl, rfl, ?_⟩
    simp [SubscribeWorld.handle, handedTopics]
  | cons topic rest ih =>
    have hlt : k < w.subscriptions.items.length := by
      by_contra hle
      rw [List.drop_eq_nil_of_le (by omega)] at hrest
      cases hrest
    rw [List.drop_eq_getElem_cons hlt, List.cons.injEq] at hrest
    have htopic : w.subscriptions.items[k]? = some topic :=
      List.getElem?_eq_some_iff.mpr ⟨hlt, hrest.1⟩
    let w₁ := w.handle (.reading ⟨w.subscriptions.block, k⟩) []
    let w₂ := w₁.handle (.testing ⟨w.subscriptions.block, k + 1⟩) [.handed k topic]
    have h₁ : Steps w w₁ := .single (.more w hrun _ hhandler rfl hlt)
    have h₂ : Steps w w₂ := h₁.tail (.hand w₁ hrun _ rfl rfl topic htopic)
    have hloop : ∃ w', Steps w₂ w' ∧ w'.crashed = false ∧ w'.handler = .setting .connected ∧
        w'.event = w₂.event ∧ w'.state = w₂.state ∧ w'.call = w₂.call ∧
        handedTopics w'.since = handedTopics w₂.since ++ rest := ih hrun rfl hrest.2
    obtain ⟨w', hsteps, hrun', hset, hevent, hstate, hcall, hhanded⟩ := hloop
    refine ⟨w', h₂.trans hsteps, hrun', hset, hevent, hstate, hcall, ?_⟩
    rw [hhanded]
    simp [w₁, w₂, SubscribeWorld.handle, handedTopics]

/-- Alone, the handler of a session event does what `mqtt_event_handler` does. -/
theorem exists_handler (hrun : w.crashed = false) (hidle : w.handler = .idle) {dev dev' : Device}
    {e : SessionEvent} {now : BitVec 32} {calls : List ClientCall} (hmqtt : dev.mqtt = w.state)
    (hhandle : mqttEventHandler dev e.mqttEvent now = .ok (dev', calls)) :
    ∃ w', Steps w w' ∧ w'.crashed = false ∧ w'.handler = .idle ∧ w'.event = some e ∧
      w'.state = dev'.mqtt ∧ handedTopics w'.since = subscribeTopics calls := by
  obtain ⟨hafter, htopics, -⟩ := mqttEventHandler_session hhandle
  rw [hafter, htopics, hmqtt]
  let w₁ : SubscribeWorld τ := { w with event := some e, handler := .publishing e, since := [] }
  have h₁ : Steps w w₁ := .single (.event w hrun e hidle)
  cases e with
  | disconnected =>
    let w₂ := w₁.handle (.setting .disconnected) []
    have h₂ : Steps w w₂ := h₁.tail (.closed w₁ hrun rfl)
    have h₃ := h₂.tail (.set w₂ hrun _ rfl)
    exact ⟨_, h₃, hrun, rfl, rfl, rfl, rfl⟩
  | connected =>
    let w₂ := w₁.handle (.testing ⟨w₁.subscriptions.block, 0⟩) [.began]
    have h₂ : Steps w w₂ := h₁.tail (.first w₁ hrun rfl)
    obtain ⟨w₃, hsteps, hrun₃, hset, hevent, hstate, -, hhanded⟩ :=
      exists_loop (w := w₂) (k := 0) hrun rfl
    have h₃ := (h₂.trans hsteps).tail (.set w₃ hrun₃ _ hset)
    refine ⟨_, h₃, hrun₃, rfl, hevent, ?_, ?_⟩
    · have hsubscriptions := congrArg MqttState.subscriptions hstate
      have hsetup := congrArg MqttState.setupComplete hstate
      exact congrArg₂ (fun a b => MqttState.mk a b true) hsubscriptions hsetup
    · change handedTopics (w₃.since ++ [.set]) = _
      rw [handedTopics, List.filterMap_append, ← handedTopics, hhanded]
      simp [w₁, w₂, SubscribeWorld.handle, handedTopics, state]

end SubscribeWorld

end HomeAutomation
