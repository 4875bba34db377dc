import SourceAtlas.Proofs.QuotedNames

/-!
# Lists of offered names

A module lists the names that it offers, and may extend the list later on.  Of these lists only the
first one is read, so the names of the others are exported only if the first one has them too, or
if they are declared publicly.
-/

namespace SourceAtlas

open Text

namespace Place

variable {text stretch : Text} {place other later : Place}

theorem Passes.unique (passes : place.Passes stretch later)
    (alsoPasses : place.Passes stretch other) : later = other := by
  induction passes with
  | nothing =>
      cases alsoPasses
      rfl
  | next ahead passes ih =>
      cases alsoPasses with
      | next alsoAhead alsoPasses =>
          obtain rfl := (List.cons.inj (ahead.symm.trans alsoAhead)).2
          exact ih alsoPasses

/-- A place of a text is known by how much of the text follows. -/
theorem IsIn.eq_of_length (inside : place.IsIn text) (alsoInside : other.IsIn text)
    (same : place.rest.length = other.rest.length) : place = other := by
  obtain ⟨passed, passes⟩ := inside
  obtain ⟨alsoPassed, alsoPasses⟩ := alsoInside
  have split := passes.rest_eq.symm.trans alsoPasses.rest_eq
  obtain rfl := (List.append_inj' split same).1
  exact passes.unique alsoPasses

end Place

namespace Pattern

variable {pattern : Pattern} {text rest : Text} {place : Place}

/-- Whether a match is the first one at the places of a text with at most `limit` characters behind
them, or none if there is no match at these places. -/
def IsLeftmost (pattern : Pattern) (text : Text) (limit : Nat) : Option Match → Prop
  | none => ∀ other : Place, other.IsIn text → other.rest.length ≤ limit →
      pattern.matchAt? other = none
  | some found => ∃ begun : Place, begun.IsIn text ∧ pattern.matchAt? begun = some found ∧
      ∀ other : Place, other.IsIn text → other.rest.length ≤ limit →
        begun.rest.length < other.rest.length → pattern.matchAt? other = none

theorem isLeftmost_of_matched {found : Match} (inside : place.IsIn text)
    (matched : pattern.matchAt? place = some found) :
    pattern.IsLeftmost text place.rest.length (some found) :=
  ⟨place, inside, matched, fun _ _ behind before => absurd behind (Nat.not_le_of_lt before)⟩

theorem IsLeftmost.succ {limit : Nat} {result : Option Match}
    (leftmost : pattern.IsLeftmost text limit result)
    (unmatched : ∀ other : Place, other.IsIn text → other.rest.length = limit + 1 →
      pattern.matchAt? other = none) : pattern.IsLeftmost text (limit + 1) result := by
  cases result with
  | none =>
      intro other inside behind
      rcases Nat.le_or_eq_of_le_succ behind with further | here
      · exact leftmost other inside further
      · exact unmatched other inside here
  | some found =>
      obtain ⟨begun, beginsInside, matched, first⟩ := leftmost
      refine ⟨begun, beginsInside, matched, fun other inside behind before => ?_⟩
      rcases Nat.le_or_eq_of_le_succ behind with further | here
      · exact first other inside further before
      · exact unmatched other inside here

theorem isLeftmost_firstMatchFrom? (inside : place.IsIn text) (ahead : place.rest = rest) :
    pattern.IsLeftmost text rest.length (pattern.firstMatchFrom? place rest) := by
  induction rest generalizing place with
  | nil =>
      have here : { place with rest := [] } = place := by rw [← ahead]
      rw [firstMatchFrom?, here, ← ahead]
      cases matched : pattern.matchAt? place with
      | none =>
          intro other alsoInside behind
          rw [ahead] at behind
          rwa [alsoInside.eq_of_length inside (by rw [ahead, Nat.le_zero.mp behind]; rfl)]
      | some found => exact isLeftmost_of_matched inside matched
  | cons c rest ih =>
      have here : { place with rest := c :: rest } = place := by rw [← ahead]
      rw [firstMatchFrom?, here]
      cases matched : pattern.matchAt? place with
      | none =>
          apply (ih (inside.pass (.single ahead)) rfl).succ
          intro other alsoInside same
          rwa [alsoInside.eq_of_length inside (by rw [same, ahead]; rfl)]
      | some found =>
          rw [← ahead]
          exact isLeftmost_of_matched inside matched

theorem isLeftmost_firstMatch? (pattern : Pattern) (text : Text) :
    pattern.IsLeftmost text text.length (pattern.firstMatch? text) :=
  isLeftmost_firstMatchFrom? (Place.isIn_start text) rfl

end Pattern

namespace Python

open Pattern

/-! ## Lists in a text -/

def offerMark : Text :=
  ['_', '_', 'a', 'l', 'l', '_', '_']

/-- A list of offered names together with the text around it.  It begins a line, and a sign tells
whether it extends an earlier list. -/
structure OfferedList where
  before : Text
  gap : Text
  sign : Text
  margin : Text
  opening : Char
  list : Text
  closing : Char
  after : Text
  begins : before.getLast? = none ∨ before.getLast? = some '\n'
  gapBlank : ∀ c ∈ gap, isBlank c = true
  signed : sign = [] ∨ sign = ['+']
  marginBlank : ∀ c ∈ margin, isBlank c = true
  opens : among "[(" opening = true
  unclosed : ∀ c ∈ list, except "])" c = true
  closes : among "])" closing = true

namespace OfferedList

def assigned (offered : OfferedList) : Text :=
  offered.margin ++ offered.opening :: (offered.list ++ offered.closing :: offered.after)

def tail (offered : OfferedList) : Text :=
  offerMark ++ (offered.gap ++ (offered.sign ++ '=' :: offered.assigned))

def source (offered : OfferedList) : Text :=
  offered.before ++ offered.tail

theorem exists_place (offered : OfferedList) :
    ∃ place : Place, place.IsIn offered.source ∧ place.rest = offered.tail ∧
      place.atLineStart = true := by
  obtain ⟨place, passes, ahead⟩ := Place.exists_passes offered.before offered.tail
    (show (Place.start offered.source).rest = _ from rfl)
  refine ⟨place, ⟨_, passes⟩, ahead, ?_⟩
  rw [Place.atLineStart, passes.before_eq]
  rcases offered.begins with nothing | newline
  · rw [nothing]
    rfl
  · rw [newline]
    rfl

theorem exists_prefers_sign (offered : OfferedList) {place : Place}
    (ahead : place.rest = offered.sign ++ '=' :: offered.assigned) :
    ∃ later, place.Passes offered.sign later ∧ later.rest = '=' :: offered.assigned ∧
      (maybe ["+"]).Prefers ⟨place, []⟩ ⟨later, []⟩ := by
  rcases offered.signed with sign | sign
  · rw [sign] at ahead ⊢
    refine ⟨place, .nothing place, ahead, prefers_maybe_of_nowhere fun reached leads => ?_⟩
    obtain ⟨behind, overPlus, -⟩ := leads_literal leads
    cases ahead.symm.trans overPlus.rest_eq
  · rw [sign] at ahead ⊢
    obtain ⟨later, overPlus, ahead, prefersPlus⟩ :=
      exists_prefers_literal [] (by decide : "+".toList = ['+']) _ ahead
    exact ⟨later, overPlus, ahead, prefersPlus.either_left _⟩

/-- At the beginning of a list the pattern matches it, and takes what stands between the
brackets. -/
theorem exists_matchAt? (offered : OfferedList) {text : Text} {place : Place}
    (inside : place.IsIn text) (ahead : place.rest = offered.tail)
    (begins : place.atLineStart = true) :
    ∃ found, offeredNames.matchAt? place = some found ∧ found.text 1 = offered.list := by
  have markSpelled : "__all__".toList = offerMark := by decide
  have equalsSpelled : "=".toList = ['='] := by decide
  have solidSign : ∀ c ∈ (offered.sign ++ '=' :: offered.assigned).head?, isBlank c = false := by
    rcases offered.signed with nothing | plus
    · simp [nothing, isBlank]
    · simp [plus, isBlank]
  have solidOpening : isBlank offered.opening = false := by
    have opens := offered.opens
    simp [among] at opens
    rcases opens with bracket | bracket <;> rw [bracket] <;> decide
  have closed : except "])" offered.closing = false := by
    rw [except, offered.closes]
    rfl
  obtain ⟨marked, overMark, ahead, prefersMark⟩ := exists_prefers_literal [] markSpelled _ ahead
  obtain ⟨gapped, overGap, ahead, prefersGap⟩ :=
    exists_prefers_run [] offered.gap _ ahead offered.gapBlank solidSign
  obtain ⟨signed, overSign, ahead, prefersSign⟩ := offered.exists_prefers_sign ahead
  obtain ⟨equated, overEquals, ahead, prefersEquals⟩ :=
    exists_prefers_literal [] equalsSpelled offered.assigned ahead
  obtain ⟨opened, overMargin, ahead, prefersMargin⟩ :=
    exists_prefers_run [] offered.margin _ ahead offered.marginBlank (by simpa using solidOpening)
  obtain ⟨begun, overOpening, ahead, prefersOpening⟩ := exists_prefers_one [] ahead offered.opens
  obtain ⟨ended, overList, ahead, prefersList⟩ :=
    exists_prefers_run [] offered.list _ ahead offered.unclosed (by simpa using closed)
  have begunInside : begun.IsIn text := (((((inside.pass overMark).pass overGap).pass
    overSign).pass overEquals).pass overMargin).pass overOpening
  obtain ⟨taken, index, listed, prefersTaken⟩ :=
    exists_prefers_group begunInside overList prefersList 1
  obtain ⟨closed, overClosing, ahead, prefersClosing⟩ :=
    exists_prefers_one [taken] ahead offered.closes
  have matched : offeredNames.matchAt? place = _ :=
    matchAt?_of_prefers <| (prefers_lineStart begins).followedBy <| prefersMark.followedBy <|
      prefersGap.followedBy <| prefersSign.followedBy <| prefersEquals.followedBy <|
      prefersMargin.followedBy <| prefersOpening.followedBy <|
      prefersTaken.followedBy prefersClosing
  refine ⟨_, matched, ?_⟩
  simp [Match.text, Match.capture?, index, listed]

/-- A match stands for a list that begins where it begins. -/
theorem exists_of_matchAt? {text : Text} {place : Place} {found : Match} (inside : place.IsIn text)
    (matched : offeredNames.matchAt? place = some found) :
    ∃ offered : OfferedList, offered.source = text ∧ offered.tail = place.rest ∧
      offered.list = found.text 1 := by
  have markSpelled : "__all__".toList = offerMark := by decide
  have equalsSpelled : "=".toList = ['='] := by decide
  have plusSpelled : "+".toList = ['+'] := by decide
  obtain ⟨reached, ⟨_, ⟨begins, rfl⟩, _, mark, _, ⟨gap, gapped, gapBlank, overGap, rfl⟩, middle,
    plus, _, equals, _, ⟨margin, opened, marginBlank, overMargin, rfl⟩, _,
    ⟨opening, begun, opens, overOpening, rfl⟩, _,
    ⟨_, ⟨list, ended, unclosed, overList, rfl⟩, rfl⟩, closing, later, closes, overClosing, rfl⟩,
    rfl⟩ := exists_leads_of_matchAt? matched
  obtain ⟨marked, overMark, rfl⟩ := leads_literal mark
  obtain ⟨sign, signed, signEq, overSign, rfl⟩ : ∃ sign signed, (sign = [] ∨ sign = ['+']) ∧
      gapped.Passes sign signed ∧ middle = Progress.moveTo ⟨gapped, []⟩ signed := by
    rcases plus with plus | nothing
    · obtain ⟨signed, overPlus, rfl⟩ := leads_literal plus
      exact ⟨['+'], signed, .inr rfl, plusSpelled ▸ overPlus, rfl⟩
    · exact ⟨[], gapped, .inl rfl, .nothing gapped, nothing⟩
  obtain ⟨equated, overEquals, rfl⟩ := leads_literal equals
  rw [markSpelled] at overMark
  rw [equalsSpelled] at overEquals
  obtain ⟨before, split, -, lastBefore⟩ := inside.exists_split
  have begunInside : begun.IsIn text := (((((inside.pass overMark).pass overGap).pass
    overSign).pass overEquals).pass overMargin).pass overOpening
  rw [Place.atLineStart, lastBefore] at begins
  have ahead : place.rest = offerMark ++ (gap ++ (sign ++ '=' ::
      (margin ++ opening :: (list ++ closing :: later.rest)))) :=
    overMark.rest_eq.trans <| congrArg _ <| overGap.rest_eq.trans <| congrArg _ <|
      overSign.rest_eq.trans <| congrArg _ <| overEquals.rest_eq.trans <| congrArg _ <|
      overMargin.rest_eq.trans <| congrArg _ <| overOpening.rest_eq.trans <| congrArg _ <|
      overList.rest_eq.trans <| congrArg _ overClosing.rest_eq
  refine ⟨⟨before, gap, sign, margin, opening, list, closing, later.rest, ?_, gapBlank, signEq,
    marginBlank, opens, unclosed, closes⟩, ?_, ?_, ?_⟩
  · simpa using begins
  · rw [split, ahead]
    rfl
  · exact ahead.symm
  · exact (overList.take_eq begunInside.remaining_eq).symm

theorem length_source (offered : OfferedList) :
    offered.before.length + offered.tail.length = offered.source.length := by
  rw [source, List.length_append]

/-- Whether a text has the list, and none that begins before it. -/
structure IsFirstIn (offered : OfferedList) (text : Text) : Prop where
  source_eq : offered.source = text
  least : ∀ other : OfferedList, other.source = text →
    offered.before.length ≤ other.before.length

variable {text : Text} {found : Match}

theorem firstMatch?_ne_none (offered : OfferedList) :
    offeredNames.firstMatch? offered.source ≠ none := by
  intro nothing
  have leftmost := isLeftmost_firstMatch? offeredNames offered.source
  rw [nothing] at leftmost
  obtain ⟨place, inside, ahead, begins⟩ := offered.exists_place
  obtain ⟨found, matched, -⟩ := offered.exists_matchAt? inside ahead begins
  have length := offered.length_source
  rw [leftmost place inside (by rw [ahead]; omega)] at matched
  cases matched

/-- The leftmost match stands for the first list. -/
theorem exists_isFirstIn (searched : offeredNames.firstMatch? text = some found) :
    ∃ first : OfferedList, first.IsFirstIn text ∧ first.list = found.text 1 := by
  have leftmost := isLeftmost_firstMatch? offeredNames text
  rw [searched] at leftmost
  obtain ⟨begun, begunInside, matched, unmatched⟩ := leftmost
  obtain ⟨first, rfl, sameTail, list⟩ := exists_of_matchAt? begunInside matched
  refine ⟨first, ⟨rfl, fun other same => ?_⟩, list⟩
  by_contra earlier
  obtain ⟨place, inside, ahead, begins⟩ := other.exists_place
  rw [same] at inside
  obtain ⟨otherFound, otherMatched, -⟩ := other.exists_matchAt? inside ahead begins
  have length := first.length_source
  have otherLength := other.length_source
  rw [same] at otherLength
  rw [unmatched place inside (by rw [ahead]; omega) (by rw [ahead, ← sameTail]; omega)]
    at otherMatched
  cases otherMatched

theorem exists_first {offered : OfferedList} (same : offered.source = text) :
    ∃ first : OfferedList, first.IsFirstIn text := by
  have known := offered.firstMatch?_ne_none
  rw [same] at known
  obtain ⟨found, searched⟩ := Option.ne_none_iff_exists'.mp known
  obtain ⟨first, isFirst, -⟩ := exists_isFirstIn searched
  exact ⟨first, isFirst⟩

theorem IsFirstIn.list_eq {first second : OfferedList} (isFirst : first.IsFirstIn text)
    (alsoFirst : second.IsFirstIn text) : first.list = second.list := by
  obtain ⟨rfl, least⟩ := isFirst
  obtain ⟨same, alsoLeast⟩ := alsoFirst
  obtain ⟨place, inside, ahead, begins⟩ := first.exists_place
  obtain ⟨other, otherInside, otherAhead, -⟩ := second.exists_place
  rw [same] at otherInside
  have sameLength : place.rest.length = other.rest.length := by
    have length := first.length_source
    have otherLength := second.length_source
    have before := least second same
    have after := alsoLeast first rfl
    rw [same] at otherLength
    rw [ahead, otherAhead]
    omega
  obtain rfl := inside.eq_of_length otherInside sameLength
  obtain ⟨found, matched, list⟩ := first.exists_matchAt? inside ahead begins
  obtain ⟨otherFound, otherMatched, otherList⟩ := second.exists_matchAt? inside otherAhead begins
  obtain rfl := Option.some.inj (matched.symm.trans otherMatched)
  exact list.symm.trans otherList

theorem IsFirstIn.exists_match {first : OfferedList} (isFirst : first.IsFirstIn text) :
    ∃ found, offeredNames.firstMatch? text = some found ∧ found.text 1 = first.list := by
  have known := first.firstMatch?_ne_none
  rw [isFirst.source_eq] at known
  obtain ⟨found, searched⟩ := Option.ne_none_iff_exists'.mp known
  obtain ⟨other, alsoFirst, list⟩ := exists_isFirstIn searched
  exact ⟨found, searched, list.symm.trans (alsoFirst.list_eq isFirst)⟩

end OfferedList

/-! ## Exported names -/

/-- Whether a header without indentation declares a public name. -/
def DeclaresPublicly (source : Text) (name : String) : Prop :=
  ∃ header ∈ classHeader.matchesIn source ++ functionHeader.matchesIn source,
    header.text 1 = [] ∧ header.name 2 = name ∧ isPublic name = true

instance (source : Text) (name : String) : Decidable (DeclaresPublicly source name) :=
  inferInstanceAs (Decidable (∃ _ ∈ _, _))

/-- The public names among the classes and functions without indentation. -/
def publicNames (classes : List ClassBlock) (functions : List FunctionBlock) : List String :=
  let declared := classes.map (fun block => (block.name, block.topLevel)) ++
    functions.map fun block => (block.name, block.topLevel)
  (declared.filter fun block => block.2 && isPublic block.1).map (·.1)

theorem mem_publicNames_iff {source : Text} {name : String} :
    name ∈ publicNames ((classHeader.matchesIn source).map (classOf source))
        ((functionHeader.matchesIn source).map (functionOf source)) ↔
      DeclaresPublicly source name := by
  have unindented (header : Match) : indentOf header = 0 ↔ header.text 1 = [] := by
    rw [indentOf]
    cases header.text 1 with
    | nil => simp [byteLength]
    | cons c rest =>
        have := c.utf8Size_pos
        rw [byteLength_cons]
        simp
        omega
  have declared :
      ((classHeader.matchesIn source).map (classOf source)).map
          (fun block => (block.name, block.topLevel)) ++
        ((functionHeader.matchesIn source).map (functionOf source)).map
          (fun block => (block.name, block.topLevel)) =
      (classHeader.matchesIn source ++ functionHeader.matchesIn source).map fun header =>
        (header.name 2, indentOf header == 0) := by
    rw [List.map_append, List.map_map, List.map_map]
    rfl
  simp only [publicNames, declared, List.mem_map, List.mem_filter, Bool.and_eq_true]
  constructor
  · rintro ⟨_, ⟨⟨header, listed, rfl⟩, top, shown⟩, rfl⟩
    exact ⟨header, listed, (unindented header).mp (beq_iff_eq.mp top), rfl, shown⟩
  · rintro ⟨header, listed, top, rfl, shown⟩
    exact ⟨_, ⟨⟨header, listed, rfl⟩, beq_iff_eq.mpr ((unindented header).mpr top), shown⟩, rfl⟩

/-- The exports are the names of the first list and the names that are declared publicly. -/
theorem mem_exports_iff {context : RuleContext} (lasts : context.deadline.expired = false)
    (source : Text) :
    ∃ found, dependencies context source = .ok found ∧ ∀ name : String,
      name ∈ found.exports.toList ↔
        (∃ first : OfferedList, first.IsFirstIn source ∧
          name.toList ∈ quotedNames first.list) ∨ DeclaresPublicly source name := by
  have read : ∃ found, dependencies context source = .ok found ∧ found.exports = NameSet.ofList
      (((offeredNames.firstMatch? source).toList.flatMap fun found =>
        (quotedName.matchesIn (found.text 1)).map (·.name 1)) ++
        publicNames ((classHeader.matchesIn source).map (classOf source))
          ((functionHeader.matchesIn source).map (functionOf source))) := by
    simp only [dependencies, matchesWithin_of_lasting _ lasts, firstWithin_of_lasting _ lasts,
      blocks_of_lasting lasts]
    exact ⟨_, rfl, rfl⟩
  obtain ⟨found, read, exports⟩ := read
  refine ⟨found, read, fun name => ?_⟩
  have quoted (list : Text) :
      name ∈ (quotedName.matchesIn list).map (·.name 1) ↔ name.toList ∈ quotedNames list := by
    rw [← quotedName_matchesIn, List.mem_map, List.mem_map]
    refine exists_congr fun taken => and_congr_right fun _ => ?_
    rw [Match.name, ← String.toList_inj, String.toList_ofList]
  have first : (∃ taken ∈ (offeredNames.firstMatch? source).toList,
      name ∈ (quotedName.matchesIn (taken.text 1)).map (·.name 1)) ↔
      ∃ first : OfferedList, first.IsFirstIn source ∧ name.toList ∈ quotedNames first.list := by
    constructor
    · rintro ⟨taken, searched, listed⟩
      obtain ⟨first, isFirst, list⟩ :=
        OfferedList.exists_isFirstIn (Option.mem_toList.mp searched)
      exact ⟨first, isFirst, list ▸ (quoted _).mp listed⟩
    · rintro ⟨first, isFirst, listed⟩
      obtain ⟨taken, searched, list⟩ := isFirst.exists_match
      exact ⟨taken, Option.mem_toList.mpr searched, (quoted _).mpr (list ▸ listed)⟩
  rw [exports, NameSet.mem_ofList, List.mem_append, List.mem_flatMap, first, mem_publicNames_iff]

/-- The exports of a text hold the names of the first list of offered names and the names that are
declared publicly, and nothing else.  So they hold the names of all lists exactly if each name of a
later list is also one of the first list or declared publicly. -/
theorem exports_of_first_list (context : RuleContext) (source : Text)
    (lasts : context.deadline.expired = false) :
    ∃ found, dependencies context source = .ok found ∧
      (∀ name : String, name ∈ found.exports.toList ↔
        (∃ first : OfferedList, first.IsFirstIn source ∧
          name.toList ∈ quotedNames first.list) ∨ DeclaresPublicly source name) ∧
      ((∀ offered : OfferedList, offered.source = source →
          ∀ name ∈ quotedNames offered.list, String.ofList name ∈ found.exports.toList) ↔
        ∀ first later : OfferedList, first.IsFirstIn source → later.source = source →
          ∀ name ∈ quotedNames later.list,
            name ∈ quotedNames first.list ∨ DeclaresPublicly source (String.ofList name)) := by
  obtain ⟨found, read, exported⟩ := mem_exports_iff lasts source
  refine ⟨found, read, exported, ?_, ?_⟩
  · intro complete first later isFirst same name listed
    rcases (exported _).mp (complete later same name listed) with
      ⟨other, alsoFirst, known⟩ | declared
    · rw [String.toList_ofList, alsoFirst.list_eq isFirst] at known
      exact .inl known
    · exact .inr declared
  · intro covered offered same name listed
    obtain ⟨first, isFirst⟩ := OfferedList.exists_first same
    rw [exported, String.toList_ofList]
    rcases covered first offered isFirst same name listed with known | declared
    · exact .inl ⟨first, isFirst, known⟩
    · exact .inr declared

/-- One name in brackets, with single spaces around the sign. -/
def singleOffer (before sign : Text) (name : Char) (after : Text)
    (begins : before.getLast? = none ∨ before.getLast? = some '\n')
    (signed : sign = [] ∨ sign = ['+']) (solid : except "])" name = true) : OfferedList where
  before := before
  gap := [' ']
  sign := sign
  margin := [' ']
  opening := '['
  list := ['"', name, '"']
  closing := ']'
  after := after
  begins := begins
  gapBlank := by simp [isBlank]
  signed := signed
  marginBlank := by simp [isBlank]
  opens := by decide
  unclosed := by simpa using ⟨by decide, solid, by decide⟩
  closes := by decide

/-- A list, behind which an extension and a function follow. -/
def assignedList : OfferedList :=
  singleOffer [] [] 'a' "\n__all__ += [\"b\"]\ndef c():\n    pass\n".toList (.inl rfl) (.inl rfl)
    (by decide)

def extendingList : OfferedList :=
  singleOffer "__all__ = [\"a\"]\n".toList ['+'] 'b' "\ndef c():\n    pass\n".toList
    (.inr (by decide)) (.inr rfl) (by decide)

theorem exports_of_assignedList :
    assignedList.IsFirstIn assignedList.source ∧
    ∃ found, dependencies {} assignedList.source = .ok found ∧
      "a" ∈ found.exports.toList ∧ "c" ∈ found.exports.toList ∧
      ¬∀ offered : OfferedList, offered.source = assignedList.source →
        ∀ name ∈ quotedNames offered.list, String.ofList name ∈ found.exports.toList := by
  have isFirst : assignedList.IsFirstIn assignedList.source := ⟨rfl, fun _ _ => Nat.zero_le _⟩
  obtain ⟨found, read, exported, complete⟩ :=
    exports_of_first_list {} assignedList.source rfl
  refine ⟨isFirst, found, read, ?_, ?_, ?_⟩
  · exact (exported "a").mpr (.inl ⟨assignedList, isFirst, by decide +kernel⟩)
  · exact (exported "c").mpr (.inr (by decide +kernel))
  · rw [complete]
    intro covered
    rcases covered assignedList extendingList isFirst (by decide +kernel) ['b'] (by decide +kernel)
      with known | declared
    · revert known
      decide +kernel
    · revert declared
      decide +kernel

/-- The name that a list is extended by is not exported. -/
theorem exports_without_extension :
    extendingList.source = assignedList.source ∧ quotedNames extendingList.list = [['b']] ∧
      (dependencies {} assignedList.source).map (·.exports.toList) = .ok ["a", "c"] := by
  decide +kernel

end Python
end SourceAtlas
