import HomeAutomation.CString

/-!
# Topic filters (`mqttHelpers.cpp`)

`matchTopic` walks a filter and a topic level by level, two `strsep` cursors in lockstep.
-/

namespace HomeAutomation

/-- The level separators `matchTopic` gives to `strsep`. -/
def levelSeparators : List Char := ['/', '\n']

/-- The loop of `matchTopic` on its two cursors. -/
def matchTopicLoop (matchCpy topicCpy : Option CString) : Nat :=
  match _htoken : (strsep levelSeparators matchCpy).1, (strsep levelSeparators topicCpy).1 with
  | none, none => 1
  | none, some _ => 0
  | some _, none => 0
  | some tokenMatch, some tokenTopic =>
    if tokenMatch = ['#'] then 1
    else if tokenMatch ≠ tokenTopic ∧ tokenMatch ≠ ['+'] then 0
    else matchTopicLoop (strsep levelSeparators matchCpy).2 (strsep levelSeparators topicCpy).2
termination_by cursorSize matchCpy
decreasing_by exact cursorSize_of_token _htoken

def matchTopic (filter topic : CString) : Nat := matchTopicLoop (some filter) (some topic)

theorem matchTopicLoop_le_one (matchCpy topicCpy : Option CString) :
    matchTopicLoop matchCpy topicCpy ≤ 1 := by
  induction hn : cursorSize matchCpy using Nat.strong_induction_on generalizing matchCpy topicCpy with
  | _ n ih =>
    rw [matchTopicLoop]
    split
    · exact le_refl _
    · exact Nat.zero_le _
    · exact Nat.zero_le _
    · rename_i htoken _
      split_ifs
      · exact le_refl _
      · exact Nat.zero_le _
      · exact ih _ (hn ▸ cursorSize_of_token htoken) _ _ rfl

theorem matchTopic_pos {filter topic : CString} :
    0 < matchTopic filter topic ↔ matchTopic filter topic = 1 := by
  have hle := matchTopicLoop_le_one (some filter) (some topic)
  unfold matchTopic
  omega

theorem matchTopicLoop_self (cursor : Option CString) : matchTopicLoop cursor cursor = 1 := by
  induction hn : cursorSize cursor using Nat.strong_induction_on generalizing cursor with
  | _ n ih =>
    rw [matchTopicLoop]
    cases cursor with
    | none => rfl
    | some s =>
      have hlt := cursorSize_strsep levelSeparators s
      simp only [strsep_some_fst]
      split_ifs with hhash hdiff
      · rfl
      · exact absurd rfl hdiff.1
      · exact ih _ (hn ▸ hlt) _ rfl

theorem matchTopic_self (topic : CString) : matchTopic topic topic = 1 :=
  matchTopicLoop_self (some topic)

end HomeAutomation
