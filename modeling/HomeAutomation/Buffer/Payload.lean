import HomeAutomation.Buffer.Store

/-!
# The payload format

A payload is a comma separated list of `key:value` segments. What the tokenizer of `assignContent`
reads off a well-formed segment.
-/

namespace HomeAutomation

/-- The field in which the devices publish what is on and what is off. -/
def stateKey : CString := "state".toList

theorem isSet_some {s : CString} (h : s ≠ []) : isSet (some s) = true := by
  simpa [isSet] using h

theorem assignments_none : assignments none = [] := assignments_break rfl

section
variable {k v : CString} (hk : k ≠ []) (hcolon : ':' ∉ k) (hv : v ≠ []) (hcomma : ',' ∉ v)
include hk hcolon hv hcomma

theorem nextAssignment_segment (rest : CString) :
    nextAssignment (some (k ++ ':' :: (v ++ ',' :: rest))) = some ((k, v), some rest) := by
  simp only [nextAssignment, strsep_append _ hcolon, strsep_append rest hcomma, isSet_some hk,
    isSet_some hv, if_true, Bool.not_true, Bool.false_and, Bool.and_false, Bool.false_eq_true,
    if_false, Option.getD_some]

theorem nextAssignment_last :
    nextAssignment (some (k ++ ':' :: v)) = some ((k, v), none) := by
  simp only [nextAssignment, strsep_append _ hcolon, strsep_of_notMem hcomma, isSet_some hk,
    isSet_some hv, if_true, Bool.not_true, Bool.false_and, Bool.and_false, Bool.false_eq_true,
    if_false, Option.getD_some]

/-- A well-formed segment in front assigns its value to its key. -/
theorem payloadAssignments_segment (rest : CString) :
    payloadAssignments (k ++ ':' :: (v ++ ',' :: rest)) = (trim k, v) :: payloadAssignments rest := by
  rw [payloadAssignments, assignments_step (nextAssignment_segment hk hcolon hv hcomma rest)]
  rfl

theorem payloadAssignments_last : payloadAssignments (k ++ ':' :: v) = [(trim k, v)] := by
  rw [payloadAssignments, assignments_step (nextAssignment_last hk hcolon hv hcomma),
    assignments_none]
  rfl

end

end HomeAutomation
