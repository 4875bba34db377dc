import Mathlib.Logic.Relation
import SourceAtlas.Pattern.Match
import SourceAtlas.Proofs.ByteOffsets

/-!
# What a match stands for

The search for a match is written with continuations and tries one place after another.  What
it can find is said here by a relation between the place where a pattern begins and a place
that it reaches.  Every answer of the search is related in this way to where the search began,
so facts about matches follow from the relation, case by case over patterns.
-/

namespace SourceAtlas

open Text

namespace Place

/-- Whether a stretch of text leads from one place to another. -/
inductive Passes : Place → Text → Place → Prop
  | nothing (place : Place) : Passes place [] place
  | next {place later : Place} {c : Char} {rest stretch : Text} (ahead : place.rest = c :: rest)
      (passes : Passes (place.advance c rest) stretch later) : Passes place (c :: stretch) later

namespace Passes

variable {place middle later : Place} {stretch further : Text}

theorem append (first : place.Passes stretch middle) (second : middle.Passes further later) :
    place.Passes (stretch ++ further) later := by
  induction first with
  | nothing => exact second
  | next ahead _ ih => exact .next ahead (ih second)

theorem single {c : Char} {rest : Text} (ahead : place.rest = c :: rest) :
    place.Passes [c] (place.advance c rest) :=
  .next ahead (.nothing _)

theorem rest_eq (passes : place.Passes stretch later) : place.rest = stretch ++ later.rest := by
  induction passes with
  | nothing => rfl
  | next ahead _ ih =>
      rw [ahead, List.cons_append]
      exact congrArg _ ih

theorem offset_eq (passes : place.Passes stretch later) :
    later.offset = place.offset + byteLength stretch := by
  induction passes with
  | nothing => rfl
  | next ahead _ ih =>
      rw [ih, byteLength_cons, ← Nat.add_assoc]
      rfl

theorem before_eq (passes : place.Passes stretch later) :
    later.before = stretch.getLast?.or place.before := by
  induction passes with
  | nothing => rfl
  | @next place later c rest stretch ahead _ ih =>
      rw [ih, List.getLast?_cons]
      cases stretch.getLast? <;> rfl

theorem remaining_eq (passes : place.Passes stretch later)
    (counted : place.remaining = place.rest.length) : later.remaining = later.rest.length := by
  induction passes with
  | nothing => exact counted
  | next ahead _ ih =>
      apply ih
      show _ - 1 = _
      rw [counted, ahead, List.length_cons, Nat.add_sub_cancel]
      rfl

/-- What a group that is opened at one place and closed at the other stands for. -/
theorem take_eq (passes : place.Passes stretch later)
    (counted : place.remaining = place.rest.length) :
    place.rest.take (place.remaining - later.remaining) = stretch := by
  rw [passes.remaining_eq counted, counted, passes.rest_eq, List.length_append,
    Nat.add_sub_cancel, List.take_left]

end Passes

/-- Whether a place lies in a text. -/
def IsIn (place : Place) (text : Text) : Prop :=
  ∃ passed, (Place.start text).Passes passed place

theorem isIn_start (text : Text) : (Place.start text).IsIn text :=
  ⟨[], .nothing _⟩

section IsIn

variable {place later : Place} {text stretch : Text}

theorem IsIn.pass (inside : place.IsIn text) (passes : place.Passes stretch later) :
    later.IsIn text := by
  obtain ⟨passed, fromStart⟩ := inside
  exact ⟨passed ++ stretch, fromStart.append passes⟩

theorem IsIn.remaining_eq (inside : place.IsIn text) : place.remaining = place.rest.length := by
  obtain ⟨passed, fromStart⟩ := inside
  exact fromStart.remaining_eq rfl

/-- A place divides its text, and knows how far it is from the beginning and what stands
before it. -/
theorem IsIn.exists_split (inside : place.IsIn text) :
    ∃ passed, text = passed ++ place.rest ∧ place.offset = byteLength passed ∧
      place.before = passed.getLast? := by
  obtain ⟨passed, fromStart⟩ := inside
  refine ⟨passed, fromStart.rest_eq, ?_, ?_⟩
  · rw [fromStart.offset_eq]
    exact Nat.zero_add _
  · rw [fromStart.before_eq]
    exact Option.or_none

end IsIn

/-- A run stops behind characters of its class. -/
theorem mem_runStops {accepts : Char → Bool} {found : List Place} {place stop : Place}
    {rest : Text} (ahead : place.rest = rest) (member : stop ∈ runStops accepts found place rest) :
    stop ∈ found ∨
      ∃ stretch, (∀ c ∈ stretch, accepts c = true) ∧ place.Passes stretch stop := by
  induction rest generalizing found place with
  | nil =>
      rcases List.mem_cons.mp member with rfl | earlier
      · exact Or.inr ⟨[], by simp, .nothing _⟩
      · exact Or.inl earlier
  | cons c rest ih =>
      rw [runStops] at member
      split at member
      case isTrue accepted =>
        rcases ih rfl member with known | ⟨stretch, all, passes⟩
        · rcases List.mem_cons.mp known with rfl | earlier
          · exact Or.inr ⟨[], by simp, .nothing _⟩
          · exact Or.inl earlier
        · refine Or.inr ⟨c :: stretch, ?_, .next ahead passes⟩
          exact List.forall_mem_cons.mpr ⟨accepted, all⟩
      case isFalse =>
        rcases List.mem_cons.mp member with rfl | earlier
        · exact Or.inr ⟨[], by simp, .nothing _⟩
        · exact Or.inl earlier

end Place

namespace Progress

/-- Whether only captures of the given groups were added on the way from one place to
another. -/
def AddsOnly (progress : Progress) (indices : List Nat) (reached : Progress) : Prop :=
  ∃ added, reached.captures = added ++ progress.captures ∧
    ∀ capture ∈ added, capture.index ∈ indices

variable {progress middle reached : Progress} {indices further : List Nat}

theorem AddsOnly.same (captures : reached.captures = progress.captures) :
    progress.AddsOnly indices reached :=
  ⟨[], captures, by simp⟩

theorem AddsOnly.mono (adds : progress.AddsOnly indices reached) (more : indices ⊆ further) :
    progress.AddsOnly further reached := by
  obtain ⟨added, captures, own⟩ := adds
  exact ⟨added, captures, fun capture member => more (own capture member)⟩

theorem AddsOnly.trans (first : progress.AddsOnly indices middle)
    (second : middle.AddsOnly indices reached) : progress.AddsOnly indices reached := by
  obtain ⟨earlier, captures, own⟩ := first
  obtain ⟨later, capturesOn, ownOn⟩ := second
  refine ⟨later ++ earlier, by rw [capturesOn, captures, List.append_assoc], ?_⟩
  exact List.forall_mem_append.mpr ⟨ownOn, own⟩

end Progress

namespace Pattern

/-- What a pattern may reach from where it begins. -/
def Leads : Pattern → Progress → Progress → Prop
  | nothing, progress, reached => reached = progress
  | one accepts, progress, reached =>
      ∃ c later, accepts c = true ∧ progress.place.Passes [c] later ∧
        reached = progress.moveTo later
  | run accepts, progress, reached | shortRun accepts, progress, reached =>
      ∃ stretch later, (∀ c ∈ stretch, accepts c = true) ∧
        progress.place.Passes stretch later ∧ reached = progress.moveTo later
  | lineStart, progress, reached => progress.place.atLineStart = true ∧ reached = progress
  | wordEdge, progress, reached => progress.place.atWordEdge = true ∧ reached = progress
  | followedBy first second, progress, reached =>
      ∃ middle, first.Leads progress middle ∧ second.Leads middle reached
  | either first second, progress, reached =>
      first.Leads progress reached ∨ second.Leads progress reached
  | rounds body, progress, reached => Relation.ReflTransGen body.Leads progress reached
  | group index body, progress, reached =>
      ∃ inner, body.Leads progress inner ∧ reached = inner.close index progress.place

/-- The numbers of the groups of a pattern. -/
def groups : Pattern → List Nat
  | nothing | one _ | run _ | shortRun _ | lineStart | wordEdge => []
  | followedBy first second | either first second => first.groups ++ second.groups
  | rounds body => body.groups
  | group index body => index :: body.groups

section Search

variable {next : Continuation} {progress answer : Progress}

theorem leads_of_reachShortRun {accepts : Char → Bool} {rest : Text}
    (ahead : progress.place.rest = rest)
    (found : reachShortRun accepts next progress rest = some answer) :
    ∃ reached, (shortRun accepts).Leads progress reached ∧ next reached = some answer := by
  induction rest generalizing progress with
  | nil => exact ⟨progress, ⟨[], progress.place, by simp, .nothing _, rfl⟩, found⟩
  | cons c rest ih =>
      rw [reachShortRun] at found
      split at found
      case h_1 other here =>
        rw [found] at here
        exact ⟨progress, ⟨[], progress.place, by simp, .nothing _, rfl⟩, here⟩
      case h_2 =>
        rw [Option.ite_none_right_eq_some] at found
        obtain ⟨reached, ⟨stretch, later, all, passes, rfl⟩, goesOn⟩ := ih rfl found.2
        refine ⟨_, ⟨c :: stretch, later, ?_, .next ahead passes, rfl⟩, goesOn⟩
        exact List.forall_mem_cons.mpr ⟨found.1, all⟩

/-- Rounds lead on if a single round does. -/
theorem leads_of_reachRounds {body : Pattern}
    (sound : ∀ {next : Continuation} {progress answer : Progress},
      body.reach next progress = some answer →
        ∃ reached, body.Leads progress reached ∧ next reached = some answer)
    {fuel : Nat} (found : reachRounds body.reach next fuel progress = some answer) :
    ∃ reached, (rounds body).Leads progress reached ∧ next reached = some answer := by
  induction fuel generalizing progress with
  | zero => exact ⟨progress, .refl, found⟩
  | succ fuel ih =>
      rw [reachRounds, Option.or_eq_some_iff] at found
      rcases found with again | ⟨-, here⟩
      · obtain ⟨reached, round, goesOn⟩ := sound again
        rw [Option.ite_none_right_eq_some] at goesOn
        obtain ⟨last, others, accepted⟩ := ih goesOn.2
        exact ⟨last, .head round others, accepted⟩
      · exact ⟨progress, .refl, here⟩

/-- An answer of the search is an answer of the continuation at a place that the pattern
reaches. -/
theorem leads_of_reach (pattern : Pattern) (found : pattern.reach next progress = some answer) :
    ∃ reached, pattern.Leads progress reached ∧ next reached = some answer := by
  induction pattern generalizing next progress answer with
  | nothing => exact ⟨progress, rfl, found⟩
  | one accepts =>
      rw [reach] at found
      split at found
      case h_1 => exact absurd found (by simp)
      case h_2 c rest ahead =>
        rw [Option.ite_none_right_eq_some] at found
        exact ⟨_, ⟨c, _, found.1, .single ahead, rfl⟩, found.2⟩
  | run accepts =>
      rw [reach] at found
      obtain ⟨stop, member, goesOn⟩ := List.exists_of_findSome?_eq_some found
      rcases Place.mem_runStops rfl member with nowhere | ⟨stretch, all, passes⟩
      · exact absurd nowhere List.not_mem_nil
      · exact ⟨_, ⟨stretch, stop, all, passes, rfl⟩, goesOn⟩
  | shortRun accepts => exact leads_of_reachShortRun rfl found
  | lineStart =>
      rw [reach, Option.ite_none_right_eq_some] at found
      exact ⟨progress, ⟨found.1, rfl⟩, found.2⟩
  | wordEdge =>
      rw [reach, Option.ite_none_right_eq_some] at found
      exact ⟨progress, ⟨found.1, rfl⟩, found.2⟩
  | followedBy first second firstSound secondSound =>
      obtain ⟨middle, leads, goesOn⟩ := firstSound found
      obtain ⟨reached, leadsOn, accepted⟩ := secondSound goesOn
      exact ⟨reached, ⟨middle, leads, leadsOn⟩, accepted⟩
  | either first second firstSound secondSound =>
      rw [reach] at found
      split at found
      case h_1 other here =>
        rw [found] at here
        obtain ⟨reached, leads, accepted⟩ := firstSound here
        exact ⟨reached, Or.inl leads, accepted⟩
      case h_2 =>
        obtain ⟨reached, leads, accepted⟩ := secondSound found
        exact ⟨reached, Or.inr leads, accepted⟩
  | rounds body sound =>
      rw [reach] at found
      exact leads_of_reachRounds sound found
  | group index body sound =>
      obtain ⟨inner, leads, accepted⟩ := sound found
      exact ⟨_, ⟨inner, leads, rfl⟩, accepted⟩

end Search

section Leads

variable {progress reached : Progress}

/-- A pattern passes over a stretch of text. -/
theorem Leads.exists_passes {pattern : Pattern} (leads : pattern.Leads progress reached) :
    ∃ stretch, progress.place.Passes stretch reached.place := by
  induction pattern generalizing progress reached with
  | nothing =>
      obtain rfl := leads
      exact ⟨[], .nothing _⟩
  | one accepts =>
      obtain ⟨c, later, -, passes, rfl⟩ := leads
      exact ⟨[c], passes⟩
  | run accepts | shortRun accepts =>
      obtain ⟨stretch, later, -, passes, rfl⟩ := leads
      exact ⟨stretch, passes⟩
  | lineStart | wordEdge =>
      obtain ⟨-, rfl⟩ := leads
      exact ⟨[], .nothing _⟩
  | followedBy first second firstPasses secondPasses =>
      obtain ⟨middle, leads, leadsOn⟩ := leads
      obtain ⟨stretch, passes⟩ := firstPasses leads
      obtain ⟨further, passesOn⟩ := secondPasses leadsOn
      exact ⟨stretch ++ further, passes.append passesOn⟩
  | either first second firstPasses secondPasses =>
      rcases leads with leads | leads
      · exact firstPasses leads
      · exact secondPasses leads
  | rounds body bodyPasses =>
      induction leads with
      | refl => exact ⟨[], .nothing _⟩
      | tail _ round ih =>
          obtain ⟨stretch, passes⟩ := ih
          obtain ⟨further, passesOn⟩ := bodyPasses round
          exact ⟨stretch ++ further, passes.append passesOn⟩
  | group index body bodyPasses =>
      obtain ⟨inner, leads, rfl⟩ := leads
      obtain ⟨stretch, passes⟩ := bodyPasses leads
      exact ⟨stretch, passes⟩

/-- A pattern adds captures of its own groups only. -/
theorem Leads.addsOnly {pattern : Pattern} (leads : pattern.Leads progress reached) :
    progress.AddsOnly pattern.groups reached := by
  induction pattern generalizing progress reached with
  | nothing =>
      obtain rfl := leads
      exact .same rfl
  | one accepts =>
      obtain ⟨c, later, -, -, rfl⟩ := leads
      exact .same rfl
  | run accepts | shortRun accepts =>
      obtain ⟨stretch, later, -, -, rfl⟩ := leads
      exact .same rfl
  | lineStart | wordEdge =>
      obtain ⟨-, rfl⟩ := leads
      exact .same rfl
  | followedBy first second firstAdds secondAdds =>
      obtain ⟨middle, leads, leadsOn⟩ := leads
      exact ((firstAdds leads).mono (List.subset_append_left _ _)).trans
        ((secondAdds leadsOn).mono (List.subset_append_right _ _))
  | either first second firstAdds secondAdds =>
      rcases leads with leads | leads
      · exact (firstAdds leads).mono (List.subset_append_left _ _)
      · exact (secondAdds leads).mono (List.subset_append_right _ _)
  | rounds body bodyAdds =>
      induction leads with
      | refl => exact .same rfl
      | tail _ round ih => exact ih.trans (bodyAdds round)
  | group index body bodyAdds =>
      obtain ⟨inner, leads, rfl⟩ := leads
      obtain ⟨added, captures, own⟩ := (bodyAdds leads).mono (List.subset_cons_self index _)
      refine ⟨_ :: added, congrArg _ captures, ?_⟩
      exact List.forall_mem_cons.mpr ⟨List.mem_cons_self, own⟩

/-- A group that a pattern does not have stays as it was. -/
theorem Leads.find?_captures {pattern : Pattern} (leads : pattern.Leads progress reached)
    {index : Nat} (foreign : index ∉ pattern.groups) :
    reached.captures.find? (·.index == index) = progress.captures.find? (·.index == index) := by
  obtain ⟨added, captures, own⟩ := leads.addsOnly
  have unrelated : added.find? (·.index == index) = none := by
    rw [List.find?_eq_none]
    intro capture member same
    rw [beq_iff_eq] at same
    exact foreign (same ▸ own capture member)
  rw [captures, List.find?_append, unrelated, Option.none_or]

end Leads

section Matches

variable {pattern : Pattern} {text : Text} {found : Match}

theorem exists_leads_of_matchAt? {place : Place} (matched : pattern.matchAt? place = some found) :
    ∃ reached, pattern.Leads ⟨place, []⟩ reached ∧
      found = ⟨place.offset, reached.place.offset, reached.captures⟩ := by
  obtain ⟨answer, searched, rfl⟩ := Option.map_eq_some_iff.mp matched
  obtain ⟨reached, leads, accepted⟩ := leads_of_reach pattern searched
  obtain rfl := Option.some.inj accepted
  exact ⟨reached, leads, rfl⟩

/-- A match begins at a place of the text, where the search was resumed or behind it. -/
theorem exists_place_of_mem_matchesFrom {resume : Nat} {place : Place} {rest : Text}
    (inside : place.IsIn text) (ahead : place.rest = rest)
    (member : found ∈ pattern.matchesFrom resume place rest) :
    ∃ begun : Place, begun.IsIn text ∧ resume ≤ begun.offset ∧
      pattern.matchAt? begun = some found := by
  induction rest generalizing resume place with
  | nil =>
      rw [matchesFrom, ← ahead] at member
      split at member
      case isTrue => exact absurd member List.not_mem_nil
      case isFalse notBefore =>
        exact ⟨place, inside, Nat.le_of_not_lt notBefore, Option.mem_toList.mp member⟩
  | cons c rest ih =>
      have further : (place.advance c rest).IsIn text := inside.pass (.single ahead)
      rw [matchesFrom, ← ahead] at member
      split at member
      case isTrue => exact ih further rfl member
      case isFalse notBefore =>
        split at member
        case h_1 => exact ih further rfl member
        case h_2 first matched =>
          rcases List.mem_cons.mp member with rfl | later
          · exact ⟨place, inside, Nat.le_of_not_lt notBefore, matched⟩
          · obtain ⟨begun, known, behind, alsoMatched⟩ := ih further rfl later
            obtain ⟨reached, leads, rfl⟩ := exists_leads_of_matchAt? matched
            obtain ⟨stretch, passes⟩ := leads.exists_passes
            have forward := passes.offset_eq
            refine ⟨begun, known, ?_, alsoMatched⟩
            simp only at behind forward
            omega

/-- What a match in a text stands for. -/
theorem exists_leads_of_mem_matchesIn (member : found ∈ pattern.matchesIn text) :
    ∃ (place : Place) (reached : Progress), place.IsIn text ∧
      pattern.Leads ⟨place, []⟩ reached ∧
      found = ⟨place.offset, reached.place.offset, reached.captures⟩ := by
  obtain ⟨place, inside, -, matched⟩ :=
    exists_place_of_mem_matchesFrom (Place.isIn_start text) rfl member
  obtain ⟨reached, leads, spelled⟩ := exists_leads_of_matchAt? matched
  exact ⟨place, reached, inside, leads, spelled⟩

theorem matchesFrom_pairwise {resume : Nat} {place : Place} {rest : Text}
    (inside : place.IsIn text) (ahead : place.rest = rest) :
    (pattern.matchesFrom resume place rest).Pairwise fun first second =>
      first.stop ≤ second.start := by
  induction rest generalizing resume place with
  | nil =>
      rw [matchesFrom]
      split
      · exact List.Pairwise.nil
      · cases pattern.matchAt? { place with rest := [] } with
        | none => exact List.Pairwise.nil
        | some only => exact List.pairwise_singleton _ only
  | cons c rest ih =>
      have further : (place.advance c rest).IsIn text := inside.pass (.single ahead)
      rw [matchesFrom]
      split
      · exact ih further rfl
      · split
        · exact ih further rfl
        · refine List.pairwise_cons.mpr ⟨?_, ih further rfl⟩
          intro later member
          obtain ⟨begun, -, behind, matched⟩ := exists_place_of_mem_matchesFrom further rfl member
          obtain ⟨reached, -, rfl⟩ := exists_leads_of_matchAt? matched
          exact behind

/-- The matches in a text do not overlap. -/
theorem matchesIn_pairwise (pattern : Pattern) (text : Text) :
    (pattern.matchesIn text).Pairwise fun first second => first.stop ≤ second.start :=
  matchesFrom_pairwise (Place.isIn_start text) rfl

end Matches

end Pattern
end SourceAtlas
