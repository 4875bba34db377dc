import SourceAtlas.Proofs.QuotedNames
import SourceAtlas.Proofs.UseNames

/-!
# Texts read from left to right

The search for matches passes over a character where no match begins and over a whole match where
one does.  A scan of a text is put together from scans of its stretches, and both the matches in the
text and what is left without them are read off it.
-/

namespace SourceAtlas

open Text

namespace Text

/-- Whether a text begins nowhere inside a stretch, whatever follows the stretch. -/
def Avoids (needle stretch : Text) : Prop :=
  ∀ front back rest, stretch = front ++ back → back ≠ [] → ¬needle <+: back ++ rest

variable {needle stretch further : Text}

theorem Avoids.append (first : Avoids needle stretch) (second : Avoids needle further) :
    Avoids needle (stretch ++ further) := by
  intro front back rest split notEmpty
  rcases List.append_eq_append_iff.mp split with ⟨middle, rfl, behind⟩ | ⟨middle, rfl, rfl⟩
  · exact second middle back rest behind notEmpty
  · cases middle with
    | nil => exact second [] further rest rfl (by simpa using notEmpty)
    | cons c middle =>
        rw [List.append_assoc]
        exact first front (c :: middle) (further ++ rest) rfl (List.cons_ne_nil _ _)

theorem avoids_of_notMem {c : Char} {others : Text} (absent : c ∉ stretch) :
    Avoids (c :: others) stretch := by
  rintro front back rest rfl notEmpty begins
  cases back with
  | nil => exact notEmpty rfl
  | cons d back =>
      obtain rfl : c = d := (List.cons_prefix_cons.mp begins).1
      exact absent (by simp)

theorem Avoids.tail {c : Char} (avoids : Avoids needle (c :: stretch)) : Avoids needle stretch := by
  rintro front back rest rfl
  exact avoids (c :: front) back rest rfl

theorem Avoids.flatMap {α : Type} {items : List α} {textOf : α → Text}
    (each : ∀ item ∈ items, Avoids needle (textOf item)) :
    Avoids needle (items.flatMap textOf) := by
  induction items with
  | nil =>
      rintro front back rest split notEmpty
      exact absurd (List.append_eq_nil_iff.mp split.symm).2 notEmpty
  | cons item items ih =>
      obtain ⟨here, others⟩ := List.forall_mem_cons.mp each
      exact here.append (ih others)

theorem splitAtFrom?_of_avoids (avoids : Avoids needle stretch) (passed rest : Text) :
    splitAtFrom? needle passed (stretch ++ rest) =
      splitAtFrom? needle (stretch.reverse ++ passed) rest := by
  induction stretch generalizing passed with
  | nil => rfl
  | cons c stretch ih =>
      have elsewhere : needle.isPrefixOf (c :: (stretch ++ rest)) = false := by
        rw [Bool.eq_false_iff, Ne, List.isPrefixOf_iff_prefix]
        exact avoids [] (c :: stretch) rest rfl (List.cons_ne_nil _ _)
      rw [List.cons_append, splitAtFrom?, elsewhere, if_neg Bool.false_ne_true, ih avoids.tail]
      simp

/-- A text that begins nowhere before is found where it stands. -/
theorem splitAtFirst?_append (avoids : Avoids needle stretch) (notEmpty : needle ≠ [])
    (rest : Text) :
    splitAtFirst? needle (stretch ++ (needle ++ rest)) = some (stretch, rest) := by
  rw [splitAtFirst?, splitAtFrom?_of_avoids avoids]
  cases needle with
  | nil => exact absurd rfl notEmpty
  | cons c needle =>
      have here : (c :: needle).isPrefixOf (c :: (needle ++ rest)) = true := by
        rw [List.isPrefixOf_iff_prefix]
        exact List.prefix_append (c :: needle) rest
      rw [List.cons_append, splitAtFrom?, here, if_pos rfl]
      simp

theorem splitAtFirst?_eq_none (avoids : Avoids needle stretch) (notEmpty : needle ≠ []) :
    splitAtFirst? needle stretch = none := by
  have searched := splitAtFrom?_of_avoids avoids [] []
  rw [List.append_nil] at searched
  rw [splitAtFirst?, searched, splitAtFrom?]
  simp [notEmpty]

theorem splitAtFirst?_of_not_isInfix (absent : ¬needle <:+: stretch) :
    splitAtFirst? needle stretch = none := by
  rw [Option.eq_none_iff_forall_not_mem]
  rintro ⟨before, behind⟩ split
  refine absent ⟨before, behind, ?_⟩
  rw [splitAtFirst?_eq_append split, List.append_assoc]

theorem Avoids.not_isInfix_append (avoids : Avoids needle stretch) (absent : ¬needle <:+: further) :
    ¬needle <:+: stretch ++ further := by
  rintro ⟨before, behind, split⟩
  rw [List.append_assoc] at split
  rcases List.append_eq_append_iff.mp split.symm with ⟨middle, -, later⟩ | ⟨middle, rfl, begins⟩
  · exact absent ⟨middle, behind, by rw [later, List.append_assoc]⟩
  · cases middle with
    | nil => exact absent ⟨[], behind, begins⟩
    | cons c middle =>
        exact avoids before (c :: middle) further rfl (List.cons_ne_nil _ _) ⟨behind, begins⟩

end Text

namespace Place

theorem atLineStart_of_before {place : Place} {c : Char} (before : place.before = some c) :
    place.atLineStart = (c == '\n') := by
  rw [atLineStart, before]
  rfl

end Place

namespace Pattern

variable {pattern : Pattern} {place middle later : Place} {stretch text : Text}
  {found further : List Match} {kept remains : Text}

/-- Whether the search goes from one place to another, with the matches it takes and the characters
it passes over between them. -/
inductive Scans (pattern : Pattern) : Place → List Match → Text → Place → Prop
  | done (place : Place) : Scans pattern place [] [] place
  | skip {place later : Place} {c : Char} {rest kept : Text} {found : List Match}
      (ahead : place.rest = c :: rest) (unmatched : pattern.matchAt? place = none)
      (scans : Scans pattern (place.advance c rest) found kept later) :
      Scans pattern place found (c :: kept) later
  | take {place middle later : Place} {stretch kept : Text} {first : Match} {found : List Match}
      (passes : place.Passes stretch middle) (notEmpty : stretch ≠ [])
      (matched : pattern.matchAt? place = some first) (stops : first.stop = middle.offset)
      (scans : Scans pattern middle found kept later) :
      Scans pattern place (first :: found) kept later

namespace Scans

theorem append (first : pattern.Scans place found kept middle)
    (second : pattern.Scans middle further remains later) :
    pattern.Scans place (found ++ further) (kept ++ remains) later := by
  induction first with
  | done => exact second
  | skip ahead unmatched _ ih => exact .skip ahead unmatched (ih second)
  | take passes notEmpty matched stops _ ih =>
      exact .take passes notEmpty matched stops (ih second)

theorem matchesFrom_eq (scans : pattern.Scans place found kept later) :
    pattern.matchesFrom 0 place place.rest =
      found ++ pattern.matchesFrom 0 later later.rest := by
  induction scans with
  | done => rfl
  | skip ahead unmatched _ ih => exact (matchesFrom_of_unmatched ahead unmatched).trans ih
  | take passes notEmpty matched stops _ ih =>
      rw [matchesFrom_of_matched passes notEmpty matched stops, ih, List.cons_append]

theorem le_start (scans : pattern.Scans place found kept later) :
    ∀ taken ∈ found, place.offset ≤ taken.start := by
  induction scans with
  | done => exact List.forall_mem_nil _
  | skip ahead _ _ ih =>
      exact fun taken member => Nat.le_trans (Nat.le_add_right _ _) (ih taken member)
  | @take place middle later stretch kept first found passes _ matched _ _ ih =>
      have forward := passes.offset_eq
      refine List.forall_mem_cons.mpr ⟨?_, fun taken member => ?_⟩
      · obtain ⟨reached, -, rfl⟩ := exists_leads_of_matchAt? matched
        exact Nat.le_refl _
      · have behind := ih taken member
        omega

end Scans

/-! ## Places where a match would begin -/

theorem mem_matchesFrom_or_inside {resume : Nat} {first : Match}
    (passes : place.Passes stretch later) (resumed : resume ≤ later.offset)
    (matched : pattern.matchAt? later = some first) :
    first ∈ pattern.matchesFrom resume place place.rest ∨
      ∃ other ∈ pattern.matchesFrom resume place place.rest,
        other.start < later.offset ∧ later.offset < other.stop := by
  induction passes generalizing resume with
  | nothing place =>
      refine .inl ?_
      cases ahead : place.rest with
      | nil =>
          have here : { place with rest := [] } = place := by rw [← ahead]
          rw [matchesFrom, if_neg (Nat.not_lt_of_le resumed), here, matched]
          exact List.mem_cons_self
      | cons c rest =>
          have here : { place with rest := c :: rest } = place := by rw [← ahead]
          rw [matchesFrom, if_neg (Nat.not_lt_of_le resumed), here]
          simp only [matched]
          exact List.mem_cons_self
  | @next place later c rest stretch ahead passes ih =>
      have here : { place with rest := c :: rest } = place := by rw [← ahead]
      have forward : place.offset < later.offset := by
        have reached := passes.offset_eq
        have size := c.utf8Size_pos
        simp only [Place.advance] at reached
        omega
      rw [ahead, matchesFrom, here]
      split
      case isTrue => exact ih resumed matched
      case isFalse =>
        split
        case h_1 => exact ih resumed matched
        case h_2 other alsoMatched =>
          by_cases ended : other.stop ≤ later.offset
          · rcases ih ended matched with member | ⟨further, member, around⟩
            · exact .inl (List.mem_cons_of_mem _ member)
            · exact .inr ⟨further, List.mem_cons_of_mem _ member, around⟩
          · obtain ⟨reached, -, rfl⟩ := exists_leads_of_matchAt? alsoMatched
            exact .inr ⟨_, List.mem_cons_self, forward, Nat.lt_of_not_le ended⟩

/-- Where a pattern fits, a match begins, or the place lies inside a match that began before. -/
theorem mem_matchesIn_or_inside {first : Match} (inside : place.IsIn text)
    (matched : pattern.matchAt? place = some first) :
    first ∈ pattern.matchesIn text ∨
      ∃ other ∈ pattern.matchesIn text, other.start < place.offset ∧ place.offset < other.stop := by
  obtain ⟨passed, passes⟩ := inside
  exact mem_matchesFrom_or_inside passes (Nat.zero_le _) matched

/-- Of two matches in a text, one ends before the other begins. -/
theorem matchesIn_apart {first second : Match} (known : first ∈ pattern.matchesIn text)
    (alsoKnown : second ∈ pattern.matchesIn text) (differ : first ≠ second) :
    first.stop ≤ second.start ∨ second.stop ≤ first.start := by
  have pairwise : (pattern.matchesIn text).Pairwise fun first second =>
      first.stop ≤ second.start ∨ second.stop ≤ first.start :=
    (matchesIn_pairwise pattern text).imp .inl
  have symmetric : Std.Symm fun first second : Match =>
      first.stop ≤ second.start ∨ second.stop ≤ first.start :=
    ⟨fun _ _ => Or.symm⟩
  exact pairwise.forall known alsoKnown differ

/-! ## What is left without the matches -/

section Erase

variable {first : Match} {offset : Nat}

/-- A match that ends before a text takes nothing from it. -/
theorem eraseStretches_of_stop_le (ended : first.stop ≤ offset) (text : Text) :
    eraseStretches (first :: found) offset text = eraseStretches found offset text := by
  induction text generalizing offset with
  | nil => rfl
  | cons c rest ih =>
      have outside : (first.start ≤ offset && offset < first.stop) = false := by
        simp only [Bool.and_eq_false_iff, decide_eq_false_iff_not]
        omega
      unfold eraseStretches
      rw [List.any_cons, ih (Nat.le_trans ended (Nat.le_add_right _ _))]
      simp only [outside, Bool.false_or]

theorem eraseStretches_of_inside (passes : place.Passes stretch later)
    (begun : first.start ≤ place.offset) (lasts : later.offset ≤ first.stop) :
    eraseStretches (first :: found) place.offset place.rest =
      eraseStretches (first :: found) later.offset later.rest := by
  induction passes with
  | nothing => rfl
  | @next place later c rest stretch ahead passes ih =>
      have forward := passes.offset_eq
      have size := c.utf8Size_pos
      simp only [Place.advance] at forward
      have inside : (first.start ≤ place.offset && place.offset < first.stop) = true := by
        simp only [Bool.and_eq_true, decide_eq_true_eq]
        omega
      rw [ahead, eraseStretches, List.any_cons, inside]
      exact ih (Nat.le_trans begun (Nat.le_add_right _ _)) lasts

theorem Scans.eraseStretches_eq (scans : pattern.Scans place found kept later)
    (atEnd : later.rest = []) : eraseStretches found place.offset place.rest = kept := by
  induction scans with
  | done place =>
      rw [atEnd]
      rfl
  | @skip place later c rest kept found ahead _ scans ih =>
      have outside : (found.any fun taken => taken.start ≤ place.offset &&
          place.offset < taken.stop) = false := by
        rw [List.any_eq_false]
        intro taken member inside
        have behind := scans.le_start taken member
        have size := c.utf8Size_pos
        simp only [Place.advance, Bool.and_eq_true, decide_eq_true_eq] at behind inside
        omega
      rw [ahead, eraseStretches]
      simp only [outside, Bool.false_eq_true, if_false]
      exact congrArg _ (ih atEnd)
  | @take place middle later stretch kept first found passes _ matched stops _ ih =>
      obtain ⟨reached, -, rfl⟩ := exists_leads_of_matchAt? matched
      rw [eraseStretches_of_inside passes (Nat.le_refl _) (Nat.le_of_eq stops.symm),
        eraseStretches_of_stop_le (Nat.le_of_eq stops), ih atEnd]

end Erase

/-- A scan of a whole text takes the matches in it. -/
theorem Scans.matchesIn_eq (scans : pattern.Scans (Place.start text) found kept later)
    (atEnd : later.rest = []) (needsText : pattern.NeedsText) : pattern.matchesIn text = found := by
  have searched := scans.matchesFrom_eq
  have here : { later with rest := [] } = later := by rw [← atEnd]
  rwa [atEnd, matchesFrom, if_neg (Nat.not_lt_zero _), here, needsText later atEnd,
    Option.toList_none, List.append_nil] at searched

theorem Scans.erase_eq (scans : pattern.Scans (Place.start text) found kept later)
    (atEnd : later.rest = []) (needsText : pattern.NeedsText) : pattern.erase text = kept := by
  rw [erase, scans.matchesIn_eq atEnd needsText]
  exact scans.eraseStretches_eq atEnd

/-! ## Stretches without a match -/

/-- Whether every match of a pattern begins with one of some texts. -/
def OpensWith (pattern : Pattern) (openings : List Text) : Prop :=
  ∀ place found, pattern.matchAt? place = some found → ∃ opening ∈ openings, opening <+: place.rest

theorem OpensWith.needsText {openings : List Text} (opens : pattern.OpensWith openings)
    (notEmpty : [] ∉ openings) : pattern.NeedsText := by
  intro place atEnd
  rw [Option.eq_none_iff_forall_not_mem]
  intro found matched
  obtain ⟨opening, member, begins⟩ := opens place found matched
  rw [atEnd, List.prefix_nil] at begins
  exact notEmpty (begins ▸ member)

/-- Nothing is taken from a stretch in which no text begins that a match begins with. -/
theorem scans_of_avoids {openings : List Text} (opens : pattern.OpensWith openings)
    (passes : place.Passes stretch later) (avoids : ∀ opening ∈ openings, Avoids opening stretch) :
    pattern.Scans place [] stretch later := by
  induction passes with
  | nothing place => exact .done place
  | @next place later c rest stretch ahead passes ih =>
      refine .skip ahead ?_ (ih fun opening member => (avoids opening member).tail)
      rw [Option.eq_none_iff_forall_not_mem]
      intro found matched
      obtain ⟨opening, member, begins⟩ := opens place found matched
      rw [(Place.Passes.next ahead passes).rest_eq] at begins
      exact avoids opening member [] (c :: stretch) later.rest rfl (List.cons_ne_nil _ _) begins

/-- Nothing is taken from a stretch at none of whose characters a match begins. -/
theorem scans_of_unmatched (passes : place.Passes stretch later)
    (unmatched : ∀ front back middle, stretch = front ++ back → back ≠ [] →
      place.Passes front middle → pattern.matchAt? middle = none) :
    pattern.Scans place [] stretch later := by
  induction passes with
  | nothing place => exact .done place
  | @next place later c rest stretch ahead passes ih =>
      have here := unmatched [] (c :: stretch) place rfl (List.cons_ne_nil _ _) (.nothing place)
      refine .skip ahead here (ih ?_)
      rintro front back middle rfl notEmpty overFront
      exact unmatched (c :: front) back middle rfl notEmpty (.next ahead overFront)

/-- Whether every match of a pattern begins where a line begins. -/
def BeginsLines (pattern : Pattern) : Prop :=
  ∀ place found, pattern.matchAt? place = some found → place.atLineStart = true

section Lines

variable {line rest : Text} {c : Char}

theorem matchAt?_of_inLine
    (begins : pattern.BeginsLines) (before : place.before = some c) (inLine : c ≠ '\n') :
    pattern.matchAt? place = none := by
  rw [Option.eq_none_iff_forall_not_mem]
  intro found matched
  have started := begins place found matched
  rw [Place.atLineStart_of_before before, beq_iff_eq] at started
  exact inLine started

/-- Nothing is taken from the rest of a line, if matches begin with lines. -/
theorem exists_scans_restOfLine (begins : pattern.BeginsLines)
    (before : place.before = some c) (inLine : c ≠ '\n') (ahead : place.rest = line ++ '\n' :: rest)
    (unbroken : '\n' ∉ line) :
    ∃ later, pattern.Scans place [] (line ++ ['\n']) later ∧
      place.Passes (line ++ ['\n']) later ∧ later.rest = rest ∧ later.atLineStart = true := by
  have unmatched := matchAt?_of_inLine begins before inLine
  induction line generalizing place c with
  | nil =>
      exact ⟨place.advance '\n' rest, .skip ahead unmatched (.done _), .single ahead, rfl, rfl⟩
  | cons d line ih =>
      rw [List.mem_cons, not_or] at unbroken
      let next := place.advance d (line ++ '\n' :: rest)
      have unmatchedNext := @matchAt?_of_inLine pattern next d begins rfl (Ne.symm unbroken.1)
      obtain ⟨later, scans, passes, behind, started⟩ :=
        @ih next d rfl (Ne.symm unbroken.1) rfl unbroken.2 unmatchedNext
      exact ⟨later, .skip ahead unmatched scans, .next ahead passes, behind, started⟩

/-- Nothing is taken from a line at whose beginning no match begins. -/
theorem exists_scans_line (begins : pattern.BeginsLines)
    (unmatched : pattern.matchAt? place = none) (ahead : place.rest = line ++ '\n' :: rest)
    (unbroken : '\n' ∉ line) :
    ∃ later, pattern.Scans place [] (line ++ ['\n']) later ∧
      place.Passes (line ++ ['\n']) later ∧ later.rest = rest ∧ later.atLineStart = true := by
  cases line with
  | nil =>
      exact ⟨place.advance '\n' rest, .skip ahead unmatched (.done _), .single ahead, rfl, rfl⟩
  | cons d line =>
      rw [List.mem_cons, not_or] at unbroken
      obtain ⟨later, scans, passes, behind, started⟩ :=
        @exists_scans_restOfLine pattern (place.advance d (line ++ '\n' :: rest)) line rest d begins
          rfl (Ne.symm unbroken.1) rfl unbroken.2
      exact ⟨later, .skip ahead unmatched scans, .next ahead passes, behind, started⟩

end Lines

/-! ## The shortest stretch -/

theorem reachShortRun_of_first {accepts : Char → Bool} {next : Continuation}
    {progress answer : Progress} (passes : progress.place.Passes stretch later)
    (all : ∀ c ∈ stretch, accepts c = true)
    (refused : ∀ front back middle, stretch = front ++ back → back ≠ [] →
      progress.place.Passes front middle → next (progress.moveTo middle) = none)
    (goesOn : next (progress.moveTo later) = some answer) :
    reachShortRun accepts next progress progress.place.rest = some answer := by
  obtain ⟨place, captures⟩ := progress
  simp only at passes refused goesOn ⊢
  induction passes with
  | nothing place =>
      change next ⟨place, captures⟩ = some answer at goesOn
      cases place.rest with
      | nil => exact goesOn
      | cons c rest => rw [reachShortRun, goesOn]
  | @next place later c rest stretch ahead passes ih =>
      have here : next ⟨place, captures⟩ = none :=
        refused [] (c :: stretch) place rfl (List.cons_ne_nil _ _) (.nothing place)
      rw [ahead, reachShortRun, here]
      simp only [all c List.mem_cons_self, if_true]
      refine ih (fun d member => all d (List.mem_cons_of_mem _ member)) ?_ goesOn
      rintro front back middle rfl notEmpty overFront
      exact refused (c :: front) back middle rfl notEmpty (.next ahead overFront)

theorem not_leads_literal_of_avoids {word : String} {front back rest : Text}
    (ahead : place.rest = stretch ++ rest) (avoids : Avoids word.toList stretch)
    (split : stretch = front ++ back) (notEmpty : back ≠ []) (passes : place.Passes front middle)
    (captures : List Capture) (reached : Progress) :
    ¬(literal word).Leads ⟨middle, captures⟩ reached := by
  intro leads
  obtain ⟨later, overWord, -⟩ := leads_literal leads
  have remaining : middle.rest = back ++ rest := by
    apply @List.append_cancel_left _ front
    rw [← passes.rest_eq, ahead, split, List.append_assoc]
  have begins : word.toList <+: middle.rest := by
    rw [overWord.rest_eq]
    exact List.prefix_append _ _
  exact avoids front back rest split notEmpty (remaining ▸ begins)

/-- A group that ends as soon as possible takes the stretch up to the first place where it can be
closed. -/
theorem exists_prefers_shortest {accepts : Char → Bool} {closing : Pattern} {ended : Place}
    (inside : place.IsIn text) (passes : place.Passes stretch later)
    (all : ∀ c ∈ stretch, accepts c = true)
    (unclosed : ∀ front back middle, stretch = front ++ back → back ≠ [] →
      place.Passes front middle → ∀ captures reached, ¬closing.Leads ⟨middle, captures⟩ reached)
    (closes : ∀ captures, closing.Prefers ⟨later, captures⟩ ⟨ended, captures⟩)
    (index : Nat) (captures : List Capture) :
    ∃ capture : Capture, capture.index = index ∧ capture.text = stretch ∧
      (followedBy (group index (shortRun accepts)) closing).Prefers ⟨place, captures⟩
        ⟨ended, capture :: captures⟩ := by
  refine ⟨⟨index, place.offset, later.offset, place.rest, place.remaining - later.remaining⟩, rfl,
    passes.take_eq inside.remaining_eq, fun next answer goesOn => ?_⟩
  refine @reachShortRun_of_first later stretch accepts _ ⟨place, captures⟩ answer passes all ?_
    (closes _ next answer goesOn)
  intro front back middle split notEmpty overFront
  exact reach_eq_none (unclosed front back middle split notEmpty overFront _)

/-! ## Stretches of any text -/

theorem scans_of_prefers {captures : List Capture} (passes : place.Passes stretch later)
    (notEmpty : stretch ≠ []) (prefers : pattern.Prefers ⟨place, []⟩ ⟨later, captures⟩) :
    pattern.Scans place [⟨place.offset, later.offset, captures⟩] [] later :=
  .take passes notEmpty (matchAt?_of_prefers prefers) rfl (.done later)

section Reads

variable {α β : Type} {ready : Place → Prop} {read : Match → α} {results others : List α}

/-- Whether a stretch is scanned in one way wherever it stands behind a ready place: what is read
off its matches and which characters are passed over between them. -/
def Reads (pattern : Pattern) (ready : Place → Prop) (read : Match → α) (stretch : Text)
    (results : List α) (kept : Text) : Prop :=
  ∀ (text : Text) (place : Place) (rest : Text), place.IsIn text → ready place →
    place.rest = stretch ++ rest →
    ∃ (later : Place) (found : List Match), place.Passes stretch later ∧ later.rest = rest ∧
      ready later ∧ pattern.Scans place found kept later ∧ found.map read = results

namespace Reads

theorem nothing (pattern : Pattern) (ready : Place → Prop) (read : Match → α) :
    pattern.Reads ready read [] [] [] :=
  fun _ place _ _ isReady ahead => ⟨place, [], .nothing _, ahead, isReady, .done _, rfl⟩

theorem append (first : pattern.Reads ready read stretch results kept) {following : Text}
    (second : pattern.Reads ready read following others remains) :
    pattern.Reads ready read (stretch ++ following) (results ++ others) (kept ++ remains) := by
  intro text place rest inside isReady ahead
  rw [List.append_assoc] at ahead
  obtain ⟨middle, found, passes, ahead, isReady, scans, rfl⟩ :=
    first text place _ inside isReady ahead
  obtain ⟨later, further, passesOn, behind, isReady, scansOn, rfl⟩ :=
    second text middle rest (inside.pass passes) isReady ahead
  exact ⟨later, found ++ further, passes.append passesOn, behind, isReady, scans.append scansOn,
    List.map_append⟩

theorem flatMap {items : List β} {textOf keptOf : β → Text} {resultsOf : β → List α}
    (each : ∀ item ∈ items, pattern.Reads ready read (textOf item) (resultsOf item) (keptOf item)) :
    pattern.Reads ready read (items.flatMap textOf) (items.flatMap resultsOf)
      (items.flatMap keptOf) := by
  induction items with
  | nil => exact nothing pattern ready read
  | cons item items ih =>
      obtain ⟨here, others⟩ := List.forall_mem_cons.mp each
      exact here.append (ih others)

theorem of_avoids {openings : List Text} (opens : pattern.OpensWith openings)
    (avoids : ∀ opening ∈ openings, Avoids opening stretch) (read : Match → α) :
    pattern.Reads (fun _ => True) read stretch [] stretch := by
  intro text place rest _ _ ahead
  obtain ⟨later, passes, behind⟩ := Place.exists_passes stretch rest ahead
  exact ⟨later, [], passes, behind, trivial, scans_of_avoids opens passes avoids, rfl⟩

section Lines

variable {line : Text} {result : α} (begins : pattern.BeginsLines)

include begins

theorem of_unmatchedLine (unbroken : '\n' ∉ line)
    (unmatched : ∀ (place : Place) (rest : Text), place.rest = line ++ '\n' :: rest →
      pattern.matchAt? place = none) (read : Match → α) :
    pattern.Reads (·.atLineStart = true) read (line ++ ['\n']) [] (line ++ ['\n']) := by
  intro text place rest _ _ ahead
  rw [List.append_assoc] at ahead
  obtain ⟨later, scans, passes, behind, started⟩ :=
    exists_scans_line begins (unmatched place rest ahead) ahead unbroken
  exact ⟨later, [], passes, behind, started, scans, rfl⟩

/-- A match up to the end of a line is taken where the line begins. -/
theorem of_matchedLine (notEmpty : stretch ≠ []) (inLine : stretch.getLast notEmpty ≠ '\n')
    (matched : ∀ (text : Text) (place : Place) (rest : Text), place.IsIn text →
      place.atLineStart = true → place.rest = stretch ++ '\n' :: rest →
      ∃ (later : Place) (captures : List Capture), place.Passes stretch later ∧
        pattern.Prefers ⟨place, []⟩ ⟨later, captures⟩ ∧
        read ⟨place.offset, later.offset, captures⟩ = result) :
    pattern.Reads (·.atLineStart = true) read (stretch ++ ['\n']) [result] ['\n'] := by
  intro text place rest inside started ahead
  rw [List.append_assoc] at ahead
  obtain ⟨middle, captures, passes, prefers, rfl⟩ := matched text place rest inside started ahead
  have behind : middle.rest = [] ++ '\n' :: rest :=
    List.append_cancel_left (passes.rest_eq.symm.trans ahead)
  have before : middle.before = some (stretch.getLast notEmpty) := by
    rw [passes.before_eq, List.getLast?_eq_some_getLast notEmpty, Option.some_or]
  obtain ⟨later, scans, passesOn, behind, started⟩ :=
    exists_scans_restOfLine begins before inLine behind List.not_mem_nil
  exact ⟨later, _, passes.append passesOn, behind, started,
    (scans_of_prefers passes notEmpty prefers).append scans, rfl⟩

end Lines

theorem exists_scans (reads : pattern.Reads ready read text results kept)
    (isReady : ready (Place.start text)) :
    ∃ (later : Place) (found : List Match), later.rest = [] ∧
      pattern.Scans (Place.start text) found kept later ∧ found.map read = results := by
  obtain ⟨later, found, -, atEnd, -, scans, taken⟩ :=
    reads text (Place.start text) [] (Place.isIn_start text) isReady (List.append_nil text).symm
  exact ⟨later, found, atEnd, scans, taken⟩

theorem map_matchesIn (reads : pattern.Reads ready read text results kept)
    (isReady : ready (Place.start text)) (needsText : pattern.NeedsText) :
    (pattern.matchesIn text).map read = results := by
  obtain ⟨later, found, atEnd, scans, taken⟩ := reads.exists_scans isReady
  rw [scans.matchesIn_eq atEnd needsText, taken]

theorem erase_eq (reads : pattern.Reads ready read text results kept)
    (isReady : ready (Place.start text)) (needsText : pattern.NeedsText) :
    pattern.erase text = kept := by
  obtain ⟨later, found, atEnd, scans, -⟩ := reads.exists_scans isReady
  exact scans.erase_eq atEnd needsText

end Reads

end Reads

end Pattern
end SourceAtlas
