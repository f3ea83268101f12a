import HomeAutomation.Lib.Wildcard
import HomeAutomation.Mqtt.MatchTopic

/-!
# What a topic filter selects

The two cursors of `matchTopic` read the levels of filter and topic in lockstep. On the lists of
levels this is the matching of a pattern in which `+` stands for one level and `#` for the rest.
-/

namespace HomeAutomation

/-- The levels of a topic or a filter: the pieces between the separators, empty ones included. -/
def levels (s : CString) : List CString := s.splitOnP levelSeparators.contains

/-- The levels a `strsep` cursor has still to give. -/
def cursorLevels : Option CString → List CString
  | none => []
  | some s => levels s

theorem cursorLevels_some (s : CString) :
    cursorLevels (some s) =
      (Delimited.cut levelSeparators.contains s).1 ::
        cursorLevels (strsep levelSeparators (some s)).2 := by
  show levels s = _
  rw [levels, Delimited.splitOnP_cut, strsep_some_snd]
  cases (Delimited.cut levelSeparators.contains s).2 <;> rfl

/-- The loop decides wildcard matching on the levels its cursors have left. -/
theorem matchTopicLoop_matches (matchCpy topicCpy : Option CString) :
    matchTopicLoop matchCpy topicCpy = 1 ↔
      Wildcard.Matches ['+'] ['#'] (cursorLevels matchCpy) (cursorLevels topicCpy) := by
  induction hn : cursorSize matchCpy using Nat.strong_induction_on generalizing matchCpy topicCpy with
  | _ n ih =>
    rw [matchTopicLoop]
    cases matchCpy with
    | none =>
      cases topicCpy with
      | none => simp [cursorLevels, Wildcard.Matches]
      | some t =>
        rw [cursorLevels_some t]
        simp [strsep_some_fst, cursorLevels, Wildcard.Matches]
    | some f =>
      cases topicCpy with
      | none =>
        rw [cursorLevels_some f]
        simp [strsep_some_fst, cursorLevels, Wildcard.Matches]
      | some t =>
        have hlt := cursorSize_strsep levelSeparators f
        rw [cursorLevels_some f, cursorLevels_some t, Wildcard.Matches,
          ← ih _ (hn ▸ hlt) _ _ rfl]
        simp only [strsep_some_fst]
        split_ifs with hhash hdiff
        · simp [hhash]
        · simp [hhash, hdiff]
        · have hadmits : (Delimited.cut levelSeparators.contains f).1 =
              (Delimited.cut levelSeparators.contains t).1 ∨
                (Delimited.cut levelSeparators.contains f).1 = ['+'] := by
            tauto
          simp [hhash, hadmits]

theorem matchTopic_matches (filter topic : CString) :
    matchTopic filter topic = 1 ↔
      Wildcard.Matches ['+'] ['#'] (levels filter) (levels topic) :=
  matchTopicLoop_matches (some filter) (some topic)

/-- **Level-wise matching.** A filter selects the topics with as many levels that it agrees with
on every level, `+` agreeing with any, and the topics it agrees with up to a level `#` that both
have. -/
theorem matchTopic_levelwise (filter topic : CString) :
    matchTopic filter topic = 1 ↔
      ((levels filter).length = (levels topic).length ∧
          ∀ i < (levels filter).length,
            (levels filter)[i]? = (levels topic)[i]? ∨ (levels filter)[i]? = some ['+']) ∨
        ∃ i < min (levels filter).length (levels topic).length,
          (levels filter)[i]? = some ['#'] ∧
            ∀ j < i, (levels filter)[j]? = (levels topic)[j]? ∨ (levels filter)[j]? = some ['+'] := by
  rw [matchTopic_matches, Wildcard.matches_iff]
  rfl

/-! ## Filters without wildcards -/

theorem levels_inj {s t : CString} (hs : '\n' ∉ s) (ht : '\n' ∉ t) (h : levels s = levels t) :
    s = t := by
  refine Delimited.splitOnP_inj _ ?_ h
  have hslash : ∀ {l : CString}, '\n' ∉ l → ∀ x ∈ l, levelSeparators.contains x = true → x = '/' := by
    intro l hl x hx hsep
    simp only [levelSeparators, List.contains_cons, List.contains_nil, Bool.or_false,
      Bool.or_eq_true, beq_iff_eq] at hsep
    rcases hsep with rfl | rfl
    · rfl
    · exact absurd hx hl
  intro x hx y hy hpx hpy
  rw [hslash hs x hx hpx, hslash ht y hy hpy]

theorem matchTopic_literal {filter topic : CString} (hplus : ['+'] ∉ levels filter)
    (hhash : ['#'] ∉ levels filter) (hfilter : '\n' ∉ filter) (htopic : '\n' ∉ topic) :
    0 < matchTopic filter topic ↔ filter = topic := by
  rw [matchTopic_pos, matchTopic_matches, Wildcard.matches_literal _ _ hplus hhash]
  exact ⟨levels_inj hfilter htopic, fun h => by rw [h]⟩

end HomeAutomation
