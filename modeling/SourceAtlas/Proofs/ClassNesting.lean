import Mathlib.Data.List.Pairwise
import SourceAtlas.Proofs.ClassListing
import SourceAtlas.Proofs.IndentedBodies
import SourceAtlas.Proofs.PatternMatches

/-!
# Class bodies are nested or apart

The body of a class is followed from the end of its header on, without regard to other
classes.  A class whose header begins in the body of another one is indented deeper than the
header of that one, so every line that ends the outer body ends the inner one as well.  In a
text that the search can reach the end of, class bodies are therefore nested or apart, and the
shortest body around a function is the innermost one.
-/

namespace SourceAtlas

namespace Text

theorem bodyLimit_of_short {source : Text} (short : byteLength source ≤ maxBodyScan)
    (headerEnd : Nat) : bodyLimit source headerEnd = byteLength source :=
  Nat.min_eq_right (Nat.le_trans short (Nat.le_add_left _ _))

/-- The body behind a header is nested with the body behind every later header whose first
line counts and is indented as that header. -/
theorem indentedBody_isNested {source : Text} (short : byteLength source ≤ maxBodyScan)
    {outer outerIndent inner : Nat} {first : Span} (outerBoundary : IsBoundary source outer)
    (innerBoundary : IsBoundary source inner) (isLine : IsLine source first)
    (significant : IsSignificant (slice source first)) (behind : outer < first.start)
    (goesOn : first.start < inner) :
    (indentedBody source outer outerIndent).IsNested
      (indentedBody source inner (leadingWidth (slice source first))) := by
  have outerEnd := isGreatest_stop_indentedBody outerIndent outerBoundary
  have innerEnd := isGreatest_stop_indentedBody (leadingWidth (slice source first)) innerBoundary
  rw [bodyLimit_of_short short] at outerEnd innerEnd
  by_cases apart : (indentedBody source outer outerIndent).stop ≤ inner
  · exact Or.inl (Or.inl (by rwa [indentedBody_start]))
  refine Or.inr (Or.inr ⟨by rw [indentedBody_start, indentedBody_start]; omega, ?_⟩)
  -- The outer body goes on behind the inner header, so it ends with a line of its own.
  obtain ⟨last, ⟨counted, precedes⟩, ends⟩ : ∃ last, IsBodyLine source (outer + 1)
      (byteLength source) outerIndent last ∧
        last.stop = (indentedBody source outer outerIndent).stop := by
    rcases outerEnd.1 with headerLine | bodyLine
    · have tooEarly := LineEndsAt.lt_of_begins headerLine isLine.1 behind
      omega
    · exact bodyLine
  have notBefore : first.start ≤ last.start := by
    apply Nat.le_of_not_lt
    intro earlier
    have tooEarly := counted.1.2.lt_of_begins isLine.1 earlier
    omega
  have deeper : outerIndent < leadingWidth (slice source first) := by
    have inText := innerBoundary.le_byteLength
    apply Nat.lt_of_not_le
    intro shallow
    have earlier := precedes first ⟨isLine, behind, by omega, significant⟩ shallow
    omega
  rcases innerEnd.1 with headerLine | ⟨innerLast, ⟨innerCounted, innerPrecedes⟩, innerStop⟩
  · rw [← ends]
    exact LineEndsAt.le_of_lineEndsAt headerLine counted.1.2 (by omega)
  · -- The last line of the inner body is a line of the outer one.
    have belongs : IsBodyLine source (outer + 1) (byteLength source) outerIndent innerLast := by
      obtain ⟨innerLine, later, inText, innerSignificant⟩ := innerCounted
      refine ⟨⟨innerLine, by omega, inText, innerSignificant⟩, ?_⟩
      intro other counts shallow
      by_cases inHeader : other.start ≤ inner
      · have passed := precedes other counts shallow
        have tooEarly := counted.1.2.lt_of_begins counts.1.1 passed
        omega
      · exact innerPrecedes other ⟨counts.1, by omega, counts.2.2⟩ (by omega)
    rw [← innerStop]
    exact outerEnd.2 (Or.inr ⟨innerLast, belongs, rfl⟩)

/-- A line that begins with blanks and a character that is neither blank nor the mark of a
comment. -/
theorem exists_isLine_of_indentation {source before indent after : Text} {mark : Char}
    (split : source = before ++ (indent ++ mark :: after))
    (begins : ∀ c ∈ before.getLast?, c = '\n')
    (blank : ∀ c ∈ indent, isBlank c = true ∧ c ≠ '\n') (notBlank : isBlank mark = false)
    (noComment : mark ≠ '#') :
    ∃ line : Span, line.start = byteLength before ∧ IsLine source line ∧
      IsSignificant (slice source line) ∧
      leadingWidth (slice source line) = byteLength indent := by
  have notNewline : mark ≠ '\n' := by
    rintro rfl
    exact absurd notBlank (by decide)
  have known : RestOfLine source (byteLength before)
      (indent ++ mark :: after.takeWhile (· != '\n')) := by
    refine ⟨before, after.dropWhile (· != '\n'), ?_, rfl, ?_, ?_⟩
    · rw [split, List.append_assoc, List.cons_append, List.takeWhile_append_dropWhile]
    · simp only [List.mem_append, List.mem_cons, not_or]
      refine ⟨fun inside => (blank _ inside).2 rfl, notNewline.symm, fun inside => ?_⟩
      exact absurd (List.mem_takeWhile_imp inside) (by simp)
    · intro c first
      have stopped := List.head?_dropWhile_not (· != '\n') after
      rw [Option.mem_def.mp first] at stopped
      simpa using stopped
  have trimmed : trimStart (indent ++ mark :: after.takeWhile (· != '\n')) =
      mark :: after.takeWhile (· != '\n') := by
    rw [trimStart, List.dropWhile_append_of_pos fun c inside => (blank c inside).1,
      List.dropWhile_cons_of_neg (by simp [notBlank])]
  refine ⟨⟨byteLength before,
    byteLength before + byteLength (indent ++ mark :: after.takeWhile (· != '\n'))⟩, rfl,
    ⟨⟨before, _, split, rfl, begins⟩, _, known, rfl⟩, ?_, ?_⟩
  · rw [known.slice_eq, IsSignificant, trimmed]
    simp [noComment]
  · rw [known.slice_eq, leadingWidth, trimmed, byteLength_append, Nat.add_sub_cancel]

/-- No line begins behind a character that is no newline. -/
theorem not_lineBeginsAt {source passed rest : Text} (split : source = passed ++ rest) {c : Char}
    (last : passed.getLast? = some c) (goesOn : c ≠ '\n') :
    ¬LineBeginsAt source (byteLength passed) := by
  rintro ⟨before, behind, otherSplit, same, newline⟩
  obtain ⟨between, rfl, -⟩ := exists_between (split.symm.trans otherSplit) (Nat.le_of_eq same.symm)
  rw [byteLength_append] at same
  obtain rfl := eq_nil_of_byteLength_eq_zero (show byteLength between = 0 by omega)
  rw [List.append_nil, last] at newline
  exact goesOn (newline c rfl)

end Text

namespace Pattern

/-- Letters lead over themselves. -/
theorem leads_letters {letters : List Char} {progress reached : Progress}
    (leads : (sequence (letters.map fun letter => one (· == letter))).Leads progress reached) :
    ∃ later, progress.place.Passes letters later ∧ reached = progress.moveTo later := by
  induction letters generalizing progress with
  | nil => exact ⟨progress.place, .nothing _, leads⟩
  | cons letter letters ih =>
      cases letters with
      | nil =>
          obtain ⟨c, later, same, passes, rfl⟩ := leads
          obtain rfl := eq_of_beq same
          exact ⟨later, passes, rfl⟩
      | cons following letters =>
          obtain ⟨_, ⟨c, middle, same, passes, rfl⟩, leadsOn⟩ := leads
          obtain rfl := eq_of_beq same
          obtain ⟨later, passesOn, rfl⟩ := ih leadsOn
          exact ⟨later, passes.append passesOn, rfl⟩

theorem leads_literal {text : String} {progress reached : Progress}
    (leads : (literal text).Leads progress reached) :
    ∃ later, progress.place.Passes text.toList later ∧ reached = progress.moveTo later :=
  leads_letters leads

end Pattern

namespace Python

open Text

/-- What is known of the header of a class: the line on which it begins counts and is indented
by its indentation, and no line begins where it ends. -/
structure IsHeader (source : Text) (found : Match) : Prop where
  firstLine : ∃ line : Span, line.start = found.start ∧ IsLine source line ∧
    IsSignificant (slice source line) ∧ leadingWidth (slice source line) = indentOf found
  forward : found.start < found.stop
  boundary : IsBoundary source found.stop
  withinLine : ¬LineBeginsAt source found.stop

/-- The way that the pattern for headers leads: over the indentation, which is captured, the
keyword and what follows, and last over a colon. -/
theorem leads_classHeader {place : Place} {reached : Progress}
    (leads : classHeader.Leads ⟨place, []⟩ reached) :
    place.atLineStart = true ∧ ∃ (indent tail : Text) (margin behind last : Place),
      (∀ c ∈ indent, Pattern.among " \t" c = true) ∧ place.Passes indent margin ∧
        margin.Passes ['c', 'l', 'a', 's', 's'] behind ∧ behind.Passes tail reached.place ∧
        last.Passes [':'] reached.place ∧
        reached.captures.find? (·.index == 1) =
          some ⟨1, place.offset, margin.offset, place.rest,
            place.remaining - margin.remaining⟩ := by
  have keyword : "class".toList = ['c', 'l', 'a', 's', 's'] := by decide
  have mark : ":".toList = [':'] := by decide
  obtain ⟨_, ⟨begins, rfl⟩, _, ⟨_, ⟨indent, margin, blank, overIndent, rfl⟩, rfl⟩, _, word,
    rest⟩ := leads
  obtain ⟨behind, overWord, rfl⟩ := Pattern.leads_literal word
  obtain ⟨tail, overTail⟩ := rest.exists_passes
  have captured := rest.find?_captures (show 1 ∉ _ by decide)
  obtain ⟨_, -, _, -, _, -, _, -, last, -, colon⟩ := rest
  obtain ⟨stop, overColon, rfl⟩ := Pattern.leads_literal colon
  rw [keyword] at overWord
  rw [mark] at overColon
  exact ⟨begins, indent, tail, margin, behind, last.place, blank, overIndent, overWord, overTail,
    overColon, captured⟩

theorem isBlank_of_among {c : Char} (among : Pattern.among " \t" c = true) :
    isBlank c = true ∧ c ≠ '\n' := by
  have either : c = ' ' ∨ c = '\t' := by
    simpa [Pattern.among] using among
  rcases either with rfl | rfl <;> decide

theorem isHeader_of_mem {source : Text} {found : Match}
    (member : found ∈ classHeader.matchesIn source) : IsHeader source found := by
  obtain ⟨place, reached, inside, leads, rfl⟩ := Pattern.exists_leads_of_mem_matchesIn member
  obtain ⟨begins, indent, tail, margin, behind, last, blank, overIndent, overWord, overTail,
    overColon, captured⟩ := leads_classHeader leads
  obtain ⟨before, split, start, ending⟩ := inside.exists_split
  have width : indentOf ⟨place.offset, reached.place.offset, reached.captures⟩ =
      byteLength indent := by
    rw [indentOf, Match.text, Match.capture?, captured]
    exact congrArg byteLength (overIndent.take_eq inside.remaining_eq)
  have atStart : ∀ c ∈ before.getLast?, c = '\n' := by
    intro c final
    rw [Place.atLineStart, ending, Option.mem_def.mp final] at begins
    simpa using begins
  have whole : source = before ++ (indent ++ 'c' :: ('l' :: 'a' :: 's' :: 's' :: behind.rest)) := by
    rw [split, overIndent.rest_eq, overWord.rest_eq]
    rfl
  have stop := (((inside.pass overIndent).pass overWord).pass overTail).exists_split
  obtain ⟨passed, cut, reachedOffset, reachedBefore⟩ := stop
  constructor
  · obtain ⟨line, lineStart, isLine, significant, indented⟩ :=
      exists_isLine_of_indentation whole atStart (fun c inIndent => isBlank_of_among (blank c inIndent))
        (by decide) (by decide)
    exact ⟨line, lineStart.trans start.symm, isLine, significant, indented.trans width.symm⟩
  · have overMargin := overIndent.offset_eq
    have overKeyword := overWord.offset_eq
    have overRest := overTail.offset_eq
    have letters : byteLength ['c', 'l', 'a', 's', 's'] = 5 := rfl
    show place.offset < reached.place.offset
    omega
  · exact ⟨passed, reached.place.rest, cut, reachedOffset.symm⟩
  · show ¬LineBeginsAt source reached.place.offset
    rw [reachedOffset]
    refine not_lineBeginsAt cut (c := ':') ?_ (by decide)
    rw [← reachedBefore, overColon.before_eq]
    rfl

theorem isNested_of_headers {source : Text} (short : byteLength source ≤ maxBodyScan)
    {first second : Match} (one : IsHeader source first) (other : IsHeader source second)
    (ordered : first.stop ≤ second.start) :
    (classOf source first).body.IsNested (classOf source second).body := by
  obtain ⟨line, start, isLine, significant, width⟩ := other.firstLine
  have behind : first.stop < line.start := by
    rw [start]
    refine Nat.lt_of_le_of_ne ordered fun same => one.withinLine ?_
    rw [same, ← start]
    exact isLine.1
  have nested : (classOf source first).body.IsNested
      (indentedBody source second.stop (leadingWidth (slice source line))) :=
    indentedBody_isNested short one.boundary other.boundary isLine significant behind
      (start ▸ other.forward)
  rwa [width] at nested

/-- The classes of a text that the search can reach the end of have nested bodies. -/
theorem classes_isNested {source : Text} (short : byteLength source ≤ maxBodyScan) :
    ∀ first ∈ (classHeader.matchesIn source).map (classOf source),
      ∀ second ∈ (classHeader.matchesIn source).map (classOf source),
        first.body.IsNested second.body := by
  have pairwise : ((classHeader.matchesIn source).map (classOf source)).Pairwise
      fun first second => first.body.IsNested second.body := by
    rw [List.pairwise_map]
    refine (Pattern.matchesIn_pairwise classHeader source).imp_of_mem ?_
    intro first second known alsoKnown
    exact isNested_of_headers short (isHeader_of_mem known) (isHeader_of_mem alsoKnown)
  have symmetric : Std.Symm fun first second : ClassBlock => first.body.IsNested second.body :=
    ⟨fun _ _ nested => nested.symm⟩
  apply pairwise.forall_of_forall
  intro block _
  exact Or.inr (Or.inl (Span.IsWithin.refl _))

/-- What an answer says about the classes around a position: there are none, or the body of
the one given lies within all others. -/
def IsInnermostClass (classes : List ClassBlock) (position : Nat) : Option Nat → Prop
  | none => ∀ block ∈ classes, block.body.contains position = false
  | some index =>
      ∃ block, classes[index]? = some block ∧ block.body.contains position = true ∧
        ∀ other ∈ classes, other.body.contains position = true →
          block.body.IsWithin other.body

theorem enclosingClass?_isInnermost {classes : List ClassBlock}
    (nested : ∀ first ∈ classes, ∀ second ∈ classes, first.body.IsNested second.body)
    (position : Nat) :
    IsInnermostClass classes position (enclosingClass? classes position) := by
  have selects := selects_firstLeast? (fun found : ClassBlock × Nat => found.1.body.length)
    (fun found => found.1.body.contains position) classes.zipIdx
  have indexed {block : ClassBlock} (member : block ∈ classes) :
      ∃ index, (block, index) ∈ classes.zipIdx := by
    obtain ⟨index, inRange, rfl⟩ := List.mem_iff_getElem.mp member
    exact ⟨index, List.mem_zipIdx_iff_getElem?.mpr (List.getElem?_eq_getElem inRange)⟩
  rw [enclosingClass?_eq]
  cases chosen : innermostClass? classes position with
  | none =>
      rw [innermostClass?] at chosen
      rw [chosen] at selects
      intro block member
      obtain ⟨index, known⟩ := indexed member
      exact selects _ known
  | some found =>
      have known := mem_of_innermostClass? chosen
      rw [innermostClass?] at chosen
      rw [chosen] at selects
      have here : found.1 ∈ classes := List.fst_mem_of_mem_zipIdx known
      refine ⟨found.1, List.mem_zipIdx_iff_getElem?.mp known, selects.1, ?_⟩
      intro other member around
      obtain ⟨index, alsoKnown⟩ := indexed member
      exact (nested found.1 here other member).isWithin_of_length_le selects.1 around
        (selects.le_key alsoKnown around)

/-- The name of the class at the index found for a function is its owner. -/
theorem mem_ownedCallables_enclosingClass? (classes : List ClassBlock)
    {functions : List FunctionBlock} {function : FunctionBlock} (member : function ∈ functions) :
    (function.callable,
        ((enclosingClass? classes function.position).bind (classes[·]?)).map (·.name)) ∈
      ownedCallables (blockDeclarations classes functions) := by
  rw [mem_ownedCallables classes member, ownerOf?_callable, enclosingClass?_eq]
  cases chosen : innermostClass? classes function.position with
  | none => rfl
  | some found =>
      have known := List.mem_zipIdx_iff_getElem?.mp (mem_of_innermostClass? chosen)
      simp [known]

/-- In a Python text that the search for a body can reach the end of, any two class bodies are
apart or one lies within the other, and the class that is chosen for a position has its body
within all others around the position.  So the outline lists every function under the
innermost class around it, and the analysis makes that class its owner. -/
theorem classBodies_innermost (source : Text) (short : byteLength source ≤ maxBodyScan)
    (deadline : Deadline) (lasts : deadline.expired = false) :
    ∃ (classes : List ClassBlock) (functions : List FunctionBlock) (declared : List Declaration),
      blocks deadline source = .ok (classes, functions) ∧
      declarations deadline source = .ok declared ∧
      (∀ first ∈ classes, ∀ second ∈ classes, first.body.IsNested second.body) ∧
      (∀ position, IsInnermostClass classes position (enclosingClass? classes position)) ∧
      ∀ function ∈ functions, ∃ index, IsInnermostClass classes function.position index ∧
        function ∈ functionsIn (locate classes functions) index ∧
        (function.callable, (index.bind (classes[·]?)).map (·.name)) ∈
          ownedCallables declared := by
  have read := blocks_of_lasting lasts source
  have nested := classes_isNested short
  generalize (classHeader.matchesIn source).map (classOf source) = classes at read nested
  generalize (functionHeader.matchesIn source).map (functionOf source) = functions at read
  have readDeclarations : declarations deadline source =
      .ok (blockDeclarations classes functions) := by
    simp only [declarations, read]
    rfl
  refine ⟨classes, functions, _, read, readDeclarations, nested,
    enclosingClass?_isInnermost nested, ?_⟩
  intro function member
  refine ⟨_, enclosingClass?_isInnermost nested function.position, ?_,
    mem_ownedCallables_enclosingClass? classes member⟩
  rw [functionsIn_locate, List.mem_filter]
  exact ⟨member, by simp⟩

/-- A class with a class inside, whose headers go over several lines and end at the margin. -/
def marginHeaderText : Text :=
  ("class A(\n  X\n):\n    class B(\n# ):\n        Y):\n        def f(self): pass\n" ++
    "    def g(self): pass\ndef h(): pass\n").toList

theorem classBodies_marginHeaderText :
    byteLength marginHeaderText ≤ maxBodyScan ∧ Deadline.unbounded.expired = false ∧
      ∃ (classes : List ClassBlock) (functions : List FunctionBlock)
        (declared : List Declaration),
        blocks .unbounded marginHeaderText = .ok (classes, functions) ∧
        classes.map (·.body) = [⟨15, 93⟩, ⟨33, 71⟩] ∧
        (locate classes functions).map (fun located => (located.1.position, located.2)) =
          [(58, some 1), (80, some 0), (98, none)] ∧
        (∀ first ∈ classes, ∀ second ∈ classes, first.body.IsNested second.body) ∧
        IsInnermostClass classes 58 (some 1) ∧ IsInnermostClass classes 80 (some 0) ∧
        IsInnermostClass classes 98 none ∧
        ∀ function ∈ functions, ∃ index, IsInnermostClass classes function.position index ∧
          (function.callable, (index.bind (classes[·]?)).map (·.name)) ∈
            ownedCallables declared := by
  have short : byteLength marginHeaderText ≤ maxBodyScan := by decide +kernel
  obtain ⟨classes, functions, declared, read, -, nested, innermost, owners⟩ :=
    classBodies_innermost marginHeaderText short .unbounded rfl
  have known : (blocks .unbounded marginHeaderText).toOption.map (fun found =>
      (found.1.map (·.body),
        (locate found.1 found.2).map fun located => (located.1.position, located.2),
        [58, 80, 98].map (enclosingClass? found.1))) =
      some ([⟨15, 93⟩, ⟨33, 71⟩], [(58, some 1), (80, some 0), (98, none)],
        [some 1, some 0, none]) := by
    decide +kernel
  rw [read] at known
  simp only [Except.toOption, Option.map_some, Option.some.injEq, Prod.mk.injEq, List.map_cons,
    List.map_nil, List.cons.injEq, and_true] at known
  obtain ⟨bodies, places, first, second, third⟩ := known
  refine ⟨short, rfl, classes, functions, declared, read, bodies, places, nested, ?_, ?_, ?_, ?_⟩
  · exact first ▸ innermost 58
  · exact second ▸ innermost 80
  · exact third ▸ innermost 98
  · intro function member
    obtain ⟨index, isInnermost, -, owned⟩ := owners function member
    exact ⟨index, isInnermost, owned⟩

end Python
end SourceAtlas
