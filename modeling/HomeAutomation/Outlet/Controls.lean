import HomeAutomation.Mqtt.Client
import Mathlib.Logic.Function.Basic

/-!
# Topics that control an outlet (`Outlet::addControlSubscription`)

A topic is kept at its priority and subscribed to when it is new there. So after any run of requests
each topic that was asked for at a valid priority is kept there once, and has been subscribed to once
for each priority it was asked for at, in the order of the first requests
(`addControlSubscriptions_eq`); before the set-up the first such request fails its assertion.
-/

namespace HomeAutomation

/-- `MAX_PRIORITY`. -/
def maxPriority : Nat := 10

/-- `topicsAtPriority`, and the variables of `mqtt.cpp`. -/
structure Controls where
  topicsAtPriority : Nat → List CString
  mqtt : MqttState

/-- A request for a topic at a priority. -/
abbrev Request := CString × Nat

/-- `Outlet::addControlSubscription`, with what was handed to the client library. -/
def addControlSubscription (s : Controls) (topic : CString) (priority : Nat) :
    Except Fault (Controls × List ClientCall) :=
  if maxPriority ≤ priority then .ok (s, [])
  else if (s.topicsAtPriority priority).contains topic then .ok (s, [])
  else
    let topics := Function.update s.topicsAtPriority priority
      (s.topicsAtPriority priority ++ [topic])
    let subscribed := mqttSubscribe s.mqtt topic
    if subscribed.2.2 ≠ 0 then .ok (⟨topics, subscribed.1⟩, subscribed.2.1)
    else .error .assertion

/-- A run of requests. -/
def addControlSubscriptions (s : Controls) (requests : List Request) :
    Except Fault (Controls × List ClientCall) :=
  requests.foldlM (fun r request => do
    let (s, calls) ← addControlSubscription r.1 request.1 request.2
    .ok (s, r.2 ++ calls)) (s, [])

/-- The requests at a valid priority, each where it was made first. -/
def acceptedRequests (requests : List Request) : List Request :=
  (requests.filter fun r => r.2 < maxPriority).eraseDups

/-- What is kept and subscribed to when these requests have been accepted. -/
def keptControls (q : MqttState) (accepted : List Request) : Controls × List ClientCall :=
  (⟨fun p => (accepted.filter fun r => r.2 = p).map Prod.fst,
    { q with subscriptions := q.subscriptions ++ accepted.map Prod.fst }⟩,
    if q.connected then accepted.map fun r => .subscribe r.1 else [])

theorem acceptedRequests_concat (requests : List Request) (r : Request) :
    acceptedRequests (requests ++ [r]) =
      if r.2 < maxPriority ∧ r ∉ acceptedRequests requests then acceptedRequests requests ++ [r]
      else acceptedRequests requests := by
  by_cases hvalid : r.2 < maxPriority
  · have hmem : r ∈ acceptedRequests requests ↔ r ∈ requests.filter fun r => r.2 < maxPriority :=
      List.mem_eraseDups
    have hsplit : acceptedRequests (requests ++ [r]) = acceptedRequests requests ++
        ([r].removeAll (requests.filter fun r => r.2 < maxPriority)).eraseDups := by
      rw [acceptedRequests, List.filter_append, List.filter_singleton, decide_eq_true hvalid,
        cond_true, List.eraseDups_append, acceptedRequests]
    by_cases hold : r ∈ acceptedRequests requests
    · have hnone : [r].removeAll (requests.filter fun r => r.2 < maxPriority) = [] := by
        simpa [List.removeAll] using hmem.mp hold
      rw [if_neg (fun h => h.2 hold), hsplit, hnone]
      simp
    · have hnew : [r].removeAll (requests.filter fun r => r.2 < maxPriority) = [r] := by
        rw [List.removeAll, List.filter_singleton, List.elem_eq_mem,
          decide_eq_false (mt hmem.mpr hold)]
        rfl
      rw [if_pos ⟨hvalid, hold⟩, hsplit, hnew]
      simp [List.eraseDups_cons]
  · rw [if_neg (fun h => hvalid h.1), acceptedRequests, List.filter_append, List.filter_singleton,
      decide_eq_false hvalid, cond_false, List.append_nil, acceptedRequests]

/-- A request is new when its topic is not kept at its priority. -/
theorem contains_kept {q : MqttState} {accepted : List Request} {r : Request} :
    ((keptControls q accepted).1.topicsAtPriority r.2).contains r.1 = true ↔ r ∈ accepted := by
  simp only [keptControls, List.contains_iff_mem, List.mem_map, List.mem_filter,
    decide_eq_true_eq]
  constructor
  · intro h
    obtain ⟨r', ⟨hmem, hpriority⟩, htopic⟩ := h
    exact Prod.ext htopic hpriority ▸ hmem
  · intro h
    exact ⟨r, ⟨h, rfl⟩, rfl⟩

theorem keptControls_concat {q : MqttState} (hsetup : q.setupComplete = true)
    (accepted : List Request) {r : Request} (hvalid : r.2 < maxPriority) (hnew : r ∉ accepted) :
    addControlSubscription (keptControls q accepted).1 r.1 r.2 =
      .ok ((keptControls q (accepted ++ [r])).1, if q.connected then [.subscribe r.1] else []) := by
  rw [addControlSubscription, if_neg (by omega), if_neg (mt contains_kept.mp hnew)]
  have hcall : mqttSubscribe (keptControls q accepted).1.mqtt r.1 =
      ((keptControls q (accepted ++ [r])).1.mqtt, if q.connected then [.subscribe r.1] else [], 1) := by
    simp [mqttSubscribe, keptControls, hsetup]
  have htopics : Function.update (keptControls q accepted).1.topicsAtPriority r.2
      ((keptControls q accepted).1.topicsAtPriority r.2 ++ [r.1]) =
        (keptControls q (accepted ++ [r])).1.topicsAtPriority := by
    funext p
    by_cases hp : p = r.2
    · subst hp
      simp [keptControls]
    · rw [Function.update_of_ne hp]
      simp [keptControls, Ne.symm hp]
  simp only [hcall, htopics]
  rfl

theorem addControlSubscriptions_concat (s : Controls) (requests : List Request) (r : Request) :
    addControlSubscriptions s (requests ++ [r]) = (do
      let before ← addControlSubscriptions s requests
      let (s, calls) ← addControlSubscription before.1 r.1 r.2
      .ok (s, before.2 ++ calls)) := by
  rw [addControlSubscriptions, List.foldlM_append]
  simp only [List.foldlM_cons, List.foldlM_nil, bind_pure]
  rfl

/-- A request that is not new, or not valid, changes nothing. -/
theorem keptControls_same {q : MqttState} {accepted : List Request} {r : Request}
    (h : ¬ (r.2 < maxPriority ∧ r ∉ accepted)) :
    addControlSubscription (keptControls q accepted).1 r.1 r.2 =
      .ok ((keptControls q accepted).1, []) := by
  rw [addControlSubscription]
  split_ifs with hinvalid hkept
  · rfl
  · rfl
  · exact absurd ⟨by omega, mt contains_kept.mpr hkept⟩ h

/-- **What a run of requests leaves.** After the set-up every run of requests succeeds; before it, a
run with a valid request fails the assertion. -/
theorem addControlSubscriptions_eq (q : MqttState) (requests : List Request) :
    addControlSubscriptions ⟨fun _ => [], q⟩ requests =
      if q.setupComplete = true ∨ acceptedRequests requests = [] then
        .ok (keptControls q (acceptedRequests requests))
      else .error .assertion := by
  induction requests using List.reverseRecOn with
  | nil => simp [addControlSubscriptions, acceptedRequests, keptControls]; rfl
  | append_singleton requests r ih =>
    rw [addControlSubscriptions_concat, ih, acceptedRequests_concat]
    by_cases hgood : q.setupComplete = true ∨ acceptedRequests requests = []
    · rw [if_pos hgood, Runs.ok_bind]
      by_cases hnew : r.2 < maxPriority ∧ r ∉ acceptedRequests requests
      · rw [if_pos hnew]
        cases hsetup : q.setupComplete with
        | true =>
          rw [if_pos (Or.inl rfl), keptControls_concat hsetup _ hnew.1 hnew.2, Runs.ok_bind]
          simp only [keptControls]
          cases q.connected <;> simp
        | false =>
          -- the subscription is refused, and the assertion fails
          have hcall : mqttSubscribe (keptControls q (acceptedRequests requests)).1.mqtt r.1 =
              ((keptControls q (acceptedRequests requests)).1.mqtt, [], 0) := by
            simp [mqttSubscribe, keptControls, hsetup]
          have hfails : addControlSubscription (keptControls q (acceptedRequests requests)).1
              r.1 r.2 = .error .assertion := by
            rw [addControlSubscription, if_neg (by omega), if_neg (mt contains_kept.mp hnew.2)]
            simp [hcall]
          rw [hfails, Runs.error_bind, if_neg]
          simp
      · rw [if_neg hnew, keptControls_same hnew, if_pos hgood, Runs.ok_bind]
        simp only [List.append_nil]
    · rw [if_neg hgood, Runs.error_bind, if_neg]
      rw [not_or] at hgood ⊢
      refine ⟨hgood.1, ?_⟩
      split_ifs
      · simp
      · exact hgood.2

end HomeAutomation
