import SourceAtlas.Proofs.PatternMatches

/-!
# The match that is preferred

The search for a match goes over the stretches that fit in order of preference.  Where the most
preferred stretch of every part of a pattern can be continued, the search never turns back, and
the match is made up of these stretches.
-/

namespace SourceAtlas

open Text

namespace Place

theorem exists_passes {place : Place} (stretch rest : Text)
    (ahead : place.rest = stretch ++ rest) :
    ∃ later, place.Passes stretch later ∧ later.rest = rest := by
  induction stretch generalizing place with
  | nil => exact ⟨place, .nothing _, ahead⟩
  | cons c stretch ih =>
      obtain ⟨later, passes, behind⟩ := @ih (place.advance c (stretch ++ rest)) rfl
      exact ⟨later, .next ahead passes, behind⟩

/-- The longest run stands first. -/
theorem head?_runStops {accepts : Char → Bool} {place later : Place} {stretch : Text}
    (passes : place.Passes stretch later) (all : ∀ c ∈ stretch, accepts c = true)
    (ends : ∀ c ∈ later.rest.head?, accepts c = false) (found : List Place) :
    (runStops accepts found place place.rest).head? = some later := by
  induction passes generalizing found with
  | nothing place =>
      cases rest : place.rest with
      | nil => rfl
      | cons c behind =>
          have refused : accepts c = false := ends c (by rw [rest]; rfl)
          simp [runStops, refused]
  | @next place later c behind stretch ahead passes ih =>
      obtain ⟨accepted, others⟩ := List.forall_mem_cons.mp all
      rw [ahead, runStops, if_pos accepted]
      exact ih others ends _

end Place

namespace Pattern

theorem except_of_notMem {sign : String} {c : Char} {stretch : Text} (spelled : sign.toList = [c])
    (absent : c ∉ stretch) : ∀ d ∈ stretch, except sign d = true := by
  intro d member
  have differs : d ≠ c := fun same => absent (same ▸ member)
  simpa [except, among, spelled] using differs

/-- Whether a pattern that begins at one place tries another one first, so that the search ends
there if it can be continued from there. -/
def Prefers (pattern : Pattern) (progress reached : Progress) : Prop :=
  ∀ (next : Continuation) (answer : Progress), next reached = some answer →
    pattern.reach next progress = some answer

section Prefers

variable {progress middle reached : Progress} {later : Place} {stretch : Text}
  {accepts : Char → Bool}

theorem prefers_lineStart (begins : progress.place.atLineStart = true) :
    lineStart.Prefers progress progress := by
  intro next answer goesOn
  rw [reach, if_pos begins, goesOn]

theorem prefers_one {c : Char} {rest : Text} (ahead : progress.place.rest = c :: rest)
    (accepted : accepts c = true) :
    (one accepts).Prefers progress (progress.moveTo (progress.place.advance c rest)) := by
  intro next answer goesOn
  rw [reach, ahead]
  simp only [accepted, if_true, goesOn]

theorem prefers_run (passes : progress.place.Passes stretch later)
    (all : ∀ c ∈ stretch, accepts c = true) (ends : ∀ c ∈ later.rest.head?, accepts c = false) :
    (run accepts).Prefers progress (progress.moveTo later) := by
  intro next answer goesOn
  have first := Place.head?_runStops passes all ends []
  rw [reach]
  cases stops : progress.place.runStops accepts [] progress.place.rest with
  | nil => simp [stops] at first
  | cons stop others =>
      obtain rfl : stop = later := by simpa [stops] using first
      rw [List.findSome?_cons, goesOn]

theorem Prefers.followedBy {first second : Pattern} (begins : first.Prefers progress middle)
    (ends : second.Prefers middle reached) :
    (followedBy first second).Prefers progress reached := by
  intro next answer goesOn
  exact begins _ _ (ends next answer goesOn)

theorem Prefers.either_left {first : Pattern} (prefers : first.Prefers progress reached)
    (second : Pattern) : (either first second).Prefers progress reached := by
  intro next answer goesOn
  rw [reach, prefers next answer goesOn]

theorem reach_eq_none {pattern : Pattern} {next : Continuation}
    (nowhere : ∀ reached, ¬pattern.Leads progress reached) :
    pattern.reach next progress = none := by
  rw [Option.eq_none_iff_forall_not_mem]
  intro answer found
  obtain ⟨reached, leads, -⟩ := leads_of_reach pattern found
  exact nowhere reached leads

/-- The second of two patterns comes up where the first one fits nowhere. -/
theorem Prefers.either_right {first second : Pattern} (prefers : second.Prefers progress reached)
    (nowhere : ∀ reached, ¬first.Leads progress reached) :
    (either first second).Prefers progress reached := by
  intro next answer goesOn
  rw [reach, reach_eq_none nowhere]
  exact prefers next answer goesOn

theorem leads_anyOf {α : Type} {branch : α → Pattern} {choices : List α}
    (leads : (anyOf (choices.map branch)).Leads progress reached) :
    ∃ choice ∈ choices, (branch choice).Leads progress reached := by
  induction choices with
  | nil =>
      obtain ⟨c, later, refused, -⟩ := leads
      cases refused
  | cons choice choices ih =>
      cases choices with
      | nil => exact ⟨choice, List.mem_cons_self, leads⟩
      | cons following choices =>
          rcases leads with here | further
          · exact ⟨choice, List.mem_cons_self, here⟩
          · obtain ⟨chosen, member, leads⟩ := ih further
            exact ⟨chosen, List.mem_cons_of_mem _ member, leads⟩

/-- A branch comes up where all others fit nowhere. -/
theorem Prefers.anyOf {α : Type} {branch : α → Pattern} {choices : List α} {chosen : α}
    (prefers : (branch chosen).Prefers progress reached) (member : chosen ∈ choices)
    (nowhere : ∀ other ∈ choices, other ≠ chosen →
      ∀ reached, ¬(branch other).Leads progress reached) :
    (anyOf (choices.map branch)).Prefers progress reached := by
  induction choices with
  | nil => exact absurd member List.not_mem_nil
  | cons choice choices ih =>
      obtain ⟨here, others⟩ := List.forall_mem_cons.mp nowhere
      cases choices with
      | nil =>
          obtain rfl := List.mem_singleton.mp member
          exact prefers
      | cons following choices =>
          by_cases same : choice = chosen
          · subst same
            exact prefers.either_left _
          · have later := (List.mem_cons.mp member).resolve_left (Ne.symm same)
            exact (ih later others).either_right (here same)

/-- What fits nowhere is left out. -/
theorem prefers_maybe_of_nowhere {parts : List Pattern}
    (nowhere : ∀ reached, ¬(sequence parts).Leads progress reached) :
    (maybe parts).Prefers progress progress := by
  have skipped : nothing.Prefers progress progress := fun next answer goesOn => goesOn
  exact skipped.either_right nowhere

theorem Prefers.group {body : Pattern} (prefers : body.Prefers progress reached) (index : Nat) :
    (group index body).Prefers progress (reached.close index progress.place) := by
  intro next answer goesOn
  rw [reach, prefers _ answer goesOn]

theorem prefers_someOf (passes : progress.place.Passes stretch later) (notEmpty : stretch ≠ [])
    (all : ∀ c ∈ stretch, accepts c = true) (ends : ∀ c ∈ later.rest.head?, accepts c = false) :
    (someOf accepts).Prefers progress (progress.moveTo later) := by
  cases passes with
  | nothing => exact absurd rfl notEmpty
  | next ahead passes =>
      obtain ⟨accepted, others⟩ := List.forall_mem_cons.mp all
      exact (prefers_one ahead accepted).followedBy (prefers_run passes others ends)

theorem prefers_letters {letters : List Char} (passes : progress.place.Passes letters later) :
    (sequence (letters.map fun letter => one (· == letter))).Prefers progress
      (progress.moveTo later) := by
  induction letters generalizing progress with
  | nil =>
      cases passes
      exact fun next answer goesOn => goesOn
  | cons letter letters ih =>
      cases passes with
      | next ahead passes =>
          have here : (one (· == letter)).Prefers progress _ :=
            prefers_one ahead (beq_self_eq_true letter)
          cases letters with
          | nil =>
              cases passes
              exact here
          | cons following letters => exact here.followedBy (ih passes)

theorem prefers_literal {text : String} (passes : progress.place.Passes text.toList later) :
    (literal text).Prefers progress (progress.moveTo later) :=
  prefers_letters passes

end Prefers

section Ahead

variable {place : Place} (captures : List Capture) {accepts : Char → Bool}

theorem exists_prefers_literal {text : String} {stretch : Text} (spelled : text.toList = stretch)
    (rest : Text) (ahead : place.rest = stretch ++ rest) :
    ∃ later, place.Passes stretch later ∧ later.rest = rest ∧
      (literal text).Prefers ⟨place, captures⟩ ⟨later, captures⟩ := by
  obtain ⟨later, passes, behind⟩ := Place.exists_passes stretch rest ahead
  subst spelled
  exact ⟨later, passes, behind, prefers_literal passes⟩

theorem exists_prefers_one {c : Char} {rest : Text} (ahead : place.rest = c :: rest)
    (accepted : accepts c = true) :
    ∃ later, place.Passes [c] later ∧ later.rest = rest ∧
      (one accepts).Prefers ⟨place, captures⟩ ⟨later, captures⟩ :=
  ⟨_, .single ahead, rfl, prefers_one ahead accepted⟩

theorem exists_prefers_run (stretch rest : Text) (ahead : place.rest = stretch ++ rest)
    (all : ∀ c ∈ stretch, accepts c = true) (ends : ∀ c ∈ rest.head?, accepts c = false) :
    ∃ later, place.Passes stretch later ∧ later.rest = rest ∧
      (run accepts).Prefers ⟨place, captures⟩ ⟨later, captures⟩ := by
  obtain ⟨later, passes, rfl⟩ := Place.exists_passes stretch rest ahead
  exact ⟨later, passes, rfl, prefers_run passes all ends⟩

theorem exists_prefers_someOf (stretch rest : Text) (ahead : place.rest = stretch ++ rest)
    (notEmpty : stretch ≠ []) (all : ∀ c ∈ stretch, accepts c = true)
    (ends : ∀ c ∈ rest.head?, accepts c = false) :
    ∃ later, place.Passes stretch later ∧ later.rest = rest ∧
      (someOf accepts).Prefers ⟨place, captures⟩ ⟨later, captures⟩ := by
  obtain ⟨later, passes, rfl⟩ := Place.exists_passes stretch rest ahead
  exact ⟨later, passes, rfl, prefers_someOf passes notEmpty all ends⟩

theorem exists_prefers_gap {rest : Text} (ahead : place.rest = ' ' :: rest)
    (ends : ∀ c ∈ rest.head?, isBlank c = false) :
    ∃ later, place.Passes [' '] later ∧ later.rest = rest ∧
      gap.Prefers ⟨place, captures⟩ ⟨later, captures⟩ :=
  exists_prefers_someOf captures [' '] rest ahead (List.cons_ne_nil _ _) (by simp [isBlank]) ends

variable {captures} in
/-- A group around a pattern captures the stretch that the pattern prefers. -/
theorem exists_prefers_group {body : Pattern} {later : Place} {stretch text : Text}
    (inside : place.IsIn text) (passes : place.Passes stretch later)
    (prefers : body.Prefers ⟨place, captures⟩ ⟨later, captures⟩) (index : Nat) :
    ∃ capture : Capture, capture.index = index ∧ capture.text = stretch ∧
      (group index body).Prefers ⟨place, captures⟩ ⟨later, capture :: captures⟩ :=
  ⟨⟨index, place.offset, later.offset, place.rest, place.remaining - later.remaining⟩, rfl,
    passes.take_eq inside.remaining_eq, prefers.group index⟩

end Ahead

section Matches

variable {pattern : Pattern}

theorem matchAt?_of_prefers {place : Place} {reached : Progress}
    (prefers : pattern.Prefers ⟨place, []⟩ reached) :
    pattern.matchAt? place = some ⟨place.offset, reached.place.offset, reached.captures⟩ := by
  rw [matchAt?, prefers some reached rfl, Option.map_some]

/-- Whether a pattern fits nowhere at the end of a text. -/
def NeedsText (pattern : Pattern) : Prop :=
  ∀ place : Place, place.rest = [] → pattern.matchAt? place = none

theorem matchesFrom_of_stop (needsText : pattern.NeedsText) {resume : Nat} {place : Place}
    {rest : Text} (reaches : place.offset + byteLength rest = resume) :
    pattern.matchesFrom resume place rest = [] := by
  induction rest generalizing place with
  | nil =>
      rw [matchesFrom, needsText _ rfl]
      simp
  | cons c rest ih =>
      rw [byteLength_cons] at reaches
      have before : place.offset < resume := by
        have := c.utf8Size_pos
        omega
      rw [matchesFrom, if_pos before]
      apply ih
      rw [← reaches, ← Nat.add_assoc]
      rfl

/-- A text that is one match from its beginning to its end has no other. -/
theorem matchesIn_of_whole (needsText : pattern.NeedsText) {text : Text} {found : Match}
    (matched : pattern.matchAt? (Place.start text) = some found)
    (whole : found.stop = byteLength text) : pattern.matchesIn text = [found] := by
  cases text with
  | nil => rw [needsText _ rfl] at matched; cases matched
  | cons c rest =>
      have here :
          pattern.matchAt? { Place.start (c :: rest) with rest := c :: rest } = some found :=
        matched
      rw [matchesIn, matchesFrom, if_neg (Nat.not_lt_zero _)]
      simp only [here]
      rw [matchesFrom_of_stop needsText]
      rw [whole, byteLength_cons]
      show 0 + c.utf8Size + _ = _
      omega

theorem matchesIn_eq_nil {text : Text}
    (nowhere : ∀ place reached, place.IsIn text → ¬pattern.Leads ⟨place, []⟩ reached) :
    pattern.matchesIn text = [] := by
  rw [List.eq_nil_iff_forall_not_mem]
  intro found member
  obtain ⟨place, reached, inside, leads, -⟩ := exists_leads_of_mem_matchesIn member
  exact nowhere place reached inside leads

end Matches

end Pattern
end SourceAtlas
