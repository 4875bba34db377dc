import SourceAtlas.Proofs.PatternMatches

/-!
# The characters of a group

What a group of a pattern captures is made of the characters that the pattern inside the group
passes over.  So a group around an identifier captures nothing but identifier characters, wherever
in the pattern the group stands.
-/

namespace SourceAtlas
namespace Pattern

open Text

/-- Whether a pattern passes over characters of a class only. -/
def Within (accepts : Char → Bool) : Pattern → Prop
  | nothing | lineStart | wordEdge => True
  | one own | run own | shortRun own => ∀ c, own c = true → accepts c = true
  | followedBy first second | either first second => first.Within accepts ∧ second.Within accepts
  | rounds body | group _ body => body.Within accepts

/-- Whether the groups of a number hold characters of a class only. -/
def GroupsWithin (index : Nat) (accepts : Char → Bool) : Pattern → Prop
  | nothing | one _ | run _ | shortRun _ | lineStart | wordEdge => True
  | followedBy first second | either first second =>
      first.GroupsWithin index accepts ∧ second.GroupsWithin index accepts
  | rounds body => body.GroupsWithin index accepts
  | group number body =>
      (number = index → body.Within accepts) ∧ body.GroupsWithin index accepts

theorem GroupsWithin.of_notMem {pattern : Pattern} {index : Nat} (accepts : Char → Bool)
    (absent : index ∉ pattern.groups) : pattern.GroupsWithin index accepts := by
  induction pattern with
  | nothing | one | run | shortRun | lineStart | wordEdge => trivial
  | followedBy first second firstWithin secondWithin
  | either first second firstWithin secondWithin =>
      rw [groups, List.mem_append, not_or] at absent
      exact ⟨firstWithin absent.1, secondWithin absent.2⟩
  | rounds body bodyWithin => exact bodyWithin absent
  | group number body bodyWithin =>
      rw [groups, List.mem_cons, not_or] at absent
      exact ⟨fun same => absurd same.symm absent.1, bodyWithin absent.2⟩

section Leads

variable {accepts : Char → Bool} {index : Nat} {progress reached : Progress} {text : Text}

theorem Leads.exists_passes_within {pattern : Pattern} (leads : pattern.Leads progress reached)
    (within : pattern.Within accepts) :
    ∃ stretch, progress.place.Passes stretch reached.place ∧ ∀ c ∈ stretch, accepts c = true := by
  induction pattern generalizing progress reached with
  | nothing =>
      obtain rfl := leads
      exact ⟨[], .nothing _, by simp⟩
  | one own =>
      obtain ⟨c, later, accepted, passes, rfl⟩ := leads
      exact ⟨[c], passes, by simpa using within c accepted⟩
  | run own | shortRun own =>
      obtain ⟨stretch, later, all, passes, rfl⟩ := leads
      exact ⟨stretch, passes, fun c member => within c (all c member)⟩
  | lineStart | wordEdge =>
      obtain ⟨-, rfl⟩ := leads
      exact ⟨[], .nothing _, by simp⟩
  | followedBy first second firstPasses secondPasses =>
      obtain ⟨middle, leads, leadsOn⟩ := leads
      obtain ⟨stretch, passes, all⟩ := firstPasses leads within.1
      obtain ⟨further, passesOn, others⟩ := secondPasses leadsOn within.2
      exact ⟨stretch ++ further, passes.append passesOn, List.forall_mem_append.mpr ⟨all, others⟩⟩
  | either first second firstPasses secondPasses =>
      rcases leads with leads | leads
      · exact firstPasses leads within.1
      · exact secondPasses leads within.2
  | rounds body bodyPasses =>
      induction leads with
      | refl => exact ⟨[], .nothing _, by simp⟩
      | tail _ round ih =>
          obtain ⟨stretch, passes, all⟩ := ih
          obtain ⟨further, passesOn, others⟩ := bodyPasses round within
          exact ⟨stretch ++ further, passes.append passesOn,
            List.forall_mem_append.mpr ⟨all, others⟩⟩
  | group number body bodyPasses =>
      obtain ⟨inner, leads, rfl⟩ := leads
      obtain ⟨stretch, passes, all⟩ := bodyPasses leads within
      exact ⟨stretch, passes, all⟩

/-- Whether all captures under a number are made of characters of a class. -/
def CapturesWithin (index : Nat) (accepts : Char → Bool) (captures : List Capture) : Prop :=
  ∀ capture ∈ captures, capture.index = index → ∀ c ∈ capture.text, accepts c = true

theorem Leads.capturesWithin {pattern : Pattern} (leads : pattern.Leads progress reached)
    (within : pattern.GroupsWithin index accepts) (inside : progress.place.IsIn text)
    (known : CapturesWithin index accepts progress.captures) :
    CapturesWithin index accepts reached.captures := by
  induction pattern generalizing progress reached with
  | nothing =>
      obtain rfl := leads
      exact known
  | one own =>
      obtain ⟨c, later, -, -, rfl⟩ := leads
      exact known
  | run own | shortRun own =>
      obtain ⟨stretch, later, -, -, rfl⟩ := leads
      exact known
  | lineStart | wordEdge =>
      obtain ⟨-, rfl⟩ := leads
      exact known
  | followedBy first second firstKeeps secondKeeps =>
      obtain ⟨middle, leads, leadsOn⟩ := leads
      obtain ⟨stretch, passes⟩ := leads.exists_passes
      have between := firstKeeps leads within.1 inside known
      exact secondKeeps leadsOn within.2 (inside.pass passes) between
  | either first second firstKeeps secondKeeps =>
      rcases leads with leads | leads
      · exact firstKeeps leads within.1 inside known
      · exact secondKeeps leads within.2 inside known
  | rounds body bodyKeeps =>
      -- The place stays in the text round after round.
      have both : reached.place.IsIn text ∧ CapturesWithin index accepts reached.captures := by
        induction leads with
        | refl => exact ⟨inside, known⟩
        | tail _ round ih =>
            obtain ⟨stretch, passes⟩ := round.exists_passes
            exact ⟨ih.1.pass passes, bodyKeeps round within ih.1 ih.2⟩
      exact both.2
  | group number body bodyKeeps =>
      obtain ⟨inner, leads, rfl⟩ := leads
      refine List.forall_mem_cons.mpr ⟨?_, bodyKeeps leads within.2 inside known⟩
      intro same c member
      obtain ⟨stretch, passes, all⟩ := leads.exists_passes_within (within.1 same)
      have taken : c ∈ progress.place.rest.take
          (progress.place.remaining - inner.place.remaining) := member
      rw [passes.take_eq inside.remaining_eq] at taken
      exact all c taken

end Leads

/-- A match gives characters of the class for a group that holds no others. -/
theorem text_within_of_mem_matchesIn {pattern : Pattern} {text : Text} {found : Match} {index : Nat}
    {accepts : Char → Bool} (member : found ∈ pattern.matchesIn text)
    (within : pattern.GroupsWithin index accepts) : ∀ c ∈ found.text index, accepts c = true := by
  obtain ⟨place, reached, inside, leads, rfl⟩ := exists_leads_of_mem_matchesIn member
  have captures := leads.capturesWithin within inside (by simp [CapturesWithin])
  intro c listed
  rw [Match.text, Match.capture?] at listed
  split at listed
  case h_1 capture chosen =>
    have same : capture.index = index := by simpa using List.find?_some chosen
    exact captures capture (List.mem_of_find?_eq_some chosen) same c listed
  case h_2 => exact absurd listed List.not_mem_nil

end Pattern
end SourceAtlas
