import Mathlib.Order.Bounds.Basic
import SourceAtlas.Proofs.TextLines
import SourceAtlas.Text.Block

/-!
# Where an indented body ends

A body given by indentation is followed line by line.  Blank lines and comments are passed
over, and the first other line that is not indented deeper than the header ends the body.
What is found this way is the last line that belongs to the body, and the search for it
never leaves the text or divides a character.
-/

namespace SourceAtlas
namespace Text

/-- Whether a line is neither blank nor a comment. -/
def IsSignificant (line : Text) : Prop :=
  trimStart line ≠ [] ∧ (trimStart line).head? ≠ some '#'

/-- How many bytes of blanks a line begins with. -/
def leadingWidth (line : Text) : Nat :=
  byteLength line - byteLength (trimStart line)

/-- Whether a line counts for or against a body, where only lines that begin at `start` or
behind it and in front of `limit` are looked at. -/
def IsCounted (source : Text) (start limit : Nat) (line : Span) : Prop :=
  IsLine source line ∧ start ≤ line.start ∧ line.start < limit ∧
    IsSignificant (slice source line)

/-- Whether a line belongs to a body: it counts, and it stands in front of all lines that
count and are not indented deeper than `indent`. -/
def IsBodyLine (source : Text) (start limit indent : Nat) (line : Span) : Prop :=
  IsCounted source start limit line ∧
    ∀ other, IsCounted source start limit other → leadingWidth (slice source other) ≤ indent →
      line.start < other.start

/-- Where the lines of a body end. -/
def bodyLineEnds (source : Text) (start limit indent : Nat) : Set Nat :=
  {stop | ∃ line, IsBodyLine source start limit indent line ∧ line.stop = stop}

theorem isInsignificant_eq_false_iff (line : Text) :
    isInsignificant (trimStart line) = false ↔ IsSignificant line := by
  simp [isInsignificant, IsSignificant]

section Step

variable {source : Text} {start limit indent : Nat} {text : Text}

/-- The lines from an offset on are the line that begins there and the lines behind it. -/
theorem isCounted_iff (begins : LineBeginsAt source start) (known : RestOfLine source start text)
    {line : Span} :
    IsCounted source start limit line ↔
      (line = ⟨start, start + byteLength text⟩ ∧ start < limit ∧ IsSignificant text) ∨
        IsCounted source (start + byteLength text + 1) limit line := by
  have first : IsLine source ⟨start, start + byteLength text⟩ := ⟨begins, text, known, rfl⟩
  constructor
  · rintro ⟨isLine, behind, inReach, significant⟩
    rcases first.eq_or_lt isLine behind with rfl | later
    · rw [known.slice_eq] at significant
      exact Or.inl ⟨rfl, inReach, significant⟩
    · exact Or.inr ⟨isLine, later, inReach, significant⟩
  · rintro (⟨rfl, inReach, significant⟩ | ⟨isLine, behind, inReach, significant⟩)
    · refine ⟨first, Nat.le_refl _, inReach, ?_⟩
      rwa [known.slice_eq]
    · exact ⟨isLine, by omega, inReach, significant⟩

theorem bodyLineEnds_of_beyond (beyond : limit ≤ start) :
    bodyLineEnds source start limit indent = ∅ := by
  refine Set.eq_empty_of_forall_notMem ?_
  rintro stop ⟨line, ⟨⟨-, behind, inReach, -⟩, -⟩, -⟩
  omega

theorem bodyLineEnds_of_not_significant (begins : LineBeginsAt source start)
    (known : RestOfLine source start text) (passedOver : ¬IsSignificant text) :
    bodyLineEnds source start limit indent =
      bodyLineEnds source (start + byteLength text + 1) limit indent := by
  have same (line : Span) : IsCounted source start limit line ↔
      IsCounted source (start + byteLength text + 1) limit line := by
    rw [isCounted_iff begins known]
    exact or_iff_right fun here => passedOver here.2.2
  simp only [bodyLineEnds, IsBodyLine, same]

theorem bodyLineEnds_of_shallow (begins : LineBeginsAt source start)
    (known : RestOfLine source start text) (inReach : start < limit)
    (significant : IsSignificant text) (shallow : leadingWidth text ≤ indent) :
    bodyLineEnds source start limit indent = ∅ := by
  refine Set.eq_empty_of_forall_notMem ?_
  rintro stop ⟨line, ⟨counted, precedes⟩, -⟩
  have here := (isCounted_iff begins known).mpr (Or.inl ⟨rfl, inReach, significant⟩)
  have earlier := precedes _ here (by rwa [known.slice_eq])
  exact absurd counted.2.1 (Nat.not_le_of_lt earlier)

theorem bodyLineEnds_of_deep (begins : LineBeginsAt source start)
    (known : RestOfLine source start text) (inReach : start < limit)
    (significant : IsSignificant text) (deep : indent < leadingWidth text) :
    bodyLineEnds source start limit indent =
      insert (start + byteLength text)
        (bodyLineEnds source (start + byteLength text + 1) limit indent) := by
  ext stop
  constructor
  · rintro ⟨line, ⟨counted, precedes⟩, rfl⟩
    rcases (isCounted_iff begins known).mp counted with ⟨rfl, -, -⟩ | later
    · exact Set.mem_insert _ _
    · refine Set.mem_insert_of_mem _ ⟨line, ⟨later, ?_⟩, rfl⟩
      intro other counts
      exact precedes other ((isCounted_iff begins known).mpr (Or.inr counts))
  · intro known'
    rcases Set.mem_insert_iff.mp known' with rfl | ⟨line, ⟨counted, precedes⟩, rfl⟩
    · refine ⟨⟨start, start + byteLength text⟩, ⟨?_, ?_⟩, rfl⟩
      · exact (isCounted_iff begins known).mpr (Or.inl ⟨rfl, inReach, significant⟩)
      · intro other counts shallow
        rcases (isCounted_iff begins known).mp counts with ⟨rfl, -, -⟩ | ⟨-, behind, -⟩
        · rw [known.slice_eq] at shallow
          omega
        · show start < other.start
          omega
    · refine ⟨line, ⟨(isCounted_iff begins known).mpr (Or.inr counted), ?_⟩, rfl⟩
      intro other counts shallow
      rcases (isCounted_iff begins known).mp counts with ⟨rfl, -, -⟩ | later
      · rw [known.slice_eq] at shallow
        omega
      · exact precedes other later shallow

end Step

/-- The search goes to the end of the last line that belongs to the body. -/
theorem isGreatest_indentedStop {source : Text} {start : Nat} {texts : List Text}
    (listed : LinesFrom source start texts) {limit indent stop : Nat}
    (inText : limit ≤ byteLength source) (before : stop ≤ start) :
    IsGreatest (insert stop (bodyLineEnds source start limit indent))
      (indentedStop limit indent stop start texts) := by
  induction listed generalizing stop with
  | @done start past =>
      rw [bodyLineEnds_of_beyond (by omega), insert_empty_eq]
      exact isGreatest_singleton
  | @line start text others begins known rest ih =>
      rw [indentedStop]
      split
      case isTrue beyond =>
        rw [bodyLineEnds_of_beyond beyond, insert_empty_eq]
        exact isGreatest_singleton
      case isFalse inReach =>
        split
        case isTrue passedOver =>
          have blank : ¬IsSignificant text := by
            rw [← isInsignificant_eq_false_iff, passedOver]
            simp
          rw [bodyLineEnds_of_not_significant begins known blank]
          exact ih (by omega)
        case isFalse counts =>
          have significant : IsSignificant text :=
            (isInsignificant_eq_false_iff text).mp (by simpa using counts)
          split
          case isTrue shallow =>
            rw [bodyLineEnds_of_shallow begins known (by omega) significant shallow,
              insert_empty_eq]
            exact isGreatest_singleton
          case isFalse deep =>
            rw [bodyLineEnds_of_deep begins known (by omega) significant (Nat.lt_of_not_le deep)]
            have goesOn := ih (Nat.le_succ (start + byteLength text))
            refine ⟨Set.mem_insert_of_mem _ goesOn.1, ?_⟩
            have below := goesOn.2 (Set.mem_insert _ _)
            intro other member
            rcases Set.mem_insert_iff.mp member with rfl | later
            · omega
            · exact goesOn.2 later

/-- The offset from which on lines are not looked at. -/
def bodyLimit (source : Text) (headerEnd : Nat) : Nat :=
  min (headerEnd + maxBodyScan) (byteLength source)

theorem bodyLimit_le (source : Text) (headerEnd : Nat) :
    bodyLimit source headerEnd ≤ byteLength source :=
  Nat.min_le_right _ _

theorem bodyLineEnds_congr {source : Text} {start other : Nat} (limit indent : Nat)
    (same : ∀ line, IsLine source line → (start ≤ line.start ↔ other ≤ line.start)) :
    bodyLineEnds source start limit indent = bodyLineEnds source other limit indent := by
  have counted (line : Span) :
      IsCounted source start limit line ↔ IsCounted source other limit line :=
    and_congr_right fun isLine => and_congr_left' (same line isLine)
  simp only [bodyLineEnds, IsBodyLine, counted]

section Body

variable {source : Text} {headerEnd : Nat} (indent : Nat)

@[simp]
theorem indentedBody_start (source : Text) (headerEnd : Nat) :
    (indentedBody source headerEnd indent).start = headerEnd := by
  unfold indentedBody
  split <;> rfl

/-- What the search by lines starts from: the line of the header and the lines behind it. -/
theorem exists_linesFrom (boundary : IsBoundary source headerEnd) :
    ∃ first others, RestOfLine source headerEnd first ∧
      LinesFrom source (headerEnd + byteLength first + 1) others ∧
      (indentedBody source headerEnd indent).stop =
        indentedStop (bodyLimit source headerEnd) indent (headerEnd + byteLength first)
          (headerEnd + byteLength first + 1) others := by
  obtain ⟨before, rest, rfl, rfl⟩ := boundary
  have dropped : dropBytes? (before ++ rest) (byteLength before) = some rest :=
    dropBytes?_eq_some_iff.mpr ⟨before, rfl, rfl⟩
  cases split : lines rest with
  | nil => exact absurd split (lines_ne_nil rest)
  | cons first others =>
      obtain ⟨known, listed⟩ := restOfLine_and_linesFrom split
      refine ⟨first, others, known, listed, ?_⟩
      simp only [indentedBody, dropped, Option.getD_some, split]
      rfl

/-- An indented body ends with the last of its lines, the line of the header included. -/
theorem isGreatest_stop_indentedBody (boundary : IsBoundary source headerEnd) :
    IsGreatest ({stop | LineEndsAt source headerEnd stop} ∪
        bodyLineEnds source (headerEnd + 1) (bodyLimit source headerEnd) indent)
      (indentedBody source headerEnd indent).stop := by
  obtain ⟨first, others, known, listed, reached⟩ := exists_linesFrom indent boundary
  have ends : LineEndsAt source headerEnd (headerEnd + byteLength first) := ⟨first, known, rfl⟩
  have headerLine : {stop | LineEndsAt source headerEnd stop} = {headerEnd + byteLength first} :=
    Set.eq_singleton_iff_unique_mem.mpr ⟨ends, fun _ alsoEnds => alsoEnds.unique ends⟩
  have behind : bodyLineEnds source (headerEnd + 1) (bodyLimit source headerEnd) indent =
      bodyLineEnds source (headerEnd + byteLength first + 1) (bodyLimit source headerEnd)
        indent := by
    apply bodyLineEnds_congr
    intro line isLine
    exact ⟨fun later => ends.lt_of_begins isLine.1 later, fun later => by omega⟩
  rw [headerLine, behind, Set.singleton_union, reached]
  exact isGreatest_indentedStop listed (bodyLimit_le source headerEnd) (Nat.le_succ _)

/-- The line on which a body ends is the one of the header, or the last that belongs to the
body. -/
theorem indentedBody_stop_cases (boundary : IsBoundary source headerEnd) :
    LineEndsAt source headerEnd (indentedBody source headerEnd indent).stop ∨
      ∃ last, IsBodyLine source (headerEnd + 1) (bodyLimit source headerEnd) indent last ∧
        last.stop = (indentedBody source headerEnd indent).stop :=
  (isGreatest_stop_indentedBody indent boundary).1

variable {indent}

theorem lt_leadingWidth_of_inside (boundary : IsBoundary source headerEnd) {line : Span}
    (isLine : IsLine source line) (behind : headerEnd < line.start)
    (inside : line.start < (indentedBody source headerEnd indent).stop)
    (significant : IsSignificant (slice source line)) :
    indent < leadingWidth (slice source line) := by
  rcases indentedBody_stop_cases indent boundary with ends | ⟨last, ⟨counted, precedes⟩, same⟩
  · have later := ends.lt_of_begins isLine.1 behind
    omega
  · have notBehind : line.start ≤ last.start := by
      apply Nat.le_of_not_lt
      intro later
      have apart := counted.1.2.lt_of_begins isLine.1 later
      omega
    have counts : IsCounted source (headerEnd + 1) (bodyLimit source headerEnd) line :=
      ⟨isLine, behind, Nat.lt_of_le_of_lt notBehind counted.2.2.1, significant⟩
    apply Nat.lt_of_not_le
    intro shallow
    exact absurd (precedes line counts shallow) (Nat.not_lt_of_le notBehind)

theorem stop_ne_of_not_significant (boundary : IsBoundary source headerEnd) {line : Span}
    (isLine : IsLine source line) (behind : headerEnd < line.start)
    (passedOver : ¬IsSignificant (slice source line)) :
    line.stop ≠ (indentedBody source headerEnd indent).stop := by
  intro same
  have ordered := isLine.2.bounds.1
  rcases indentedBody_stop_cases indent boundary with ends | ⟨last, ⟨counted, -⟩, reached⟩
  · have later := ends.lt_of_begins isLine.1 behind
    omega
  · have lastOrdered := counted.1.2.bounds.1
    -- Two lines with one end are one line.
    have single : line = last := by
      rcases Nat.le_total line.start last.start with first | second
      · exact (isLine.eq_or_lt counted.1 first).resolve_right (by omega)
      · exact ((counted.1.eq_or_lt isLine second).resolve_right (by omega)).symm
    exact passedOver (single ▸ counted.2.2.2)

end Body

/-- The part of a text between two offsets; nothing unless they are boundaries in the right
order. -/
def cut? (text : Text) (span : Span) : Option Text :=
  match dropBytes? text span.start, dropBytes? text span.stop with
  | some rest, some behind =>
      if span.start ≤ span.stop then some (rest.take (rest.length - behind.length)) else none
  | _, _ => none

/-- The search for the end of a body by offsets instead of lines: every line is cut out of
the text, and the search fails where a cut fails. -/
def walkStop? (source : Text) (limit indent stop start : Nat) : Option Nat :=
  if start < limit then
    match dropBytes? source start with
    | none => none
    | some rest =>
        let next := start + byteLength (rest.takeWhile (· != '\n'))
        match cut? source ⟨start, next⟩ with
        | none => none
        | some line =>
            if isInsignificant (trimStart line) then
              walkStop? source limit indent stop (next + 1)
            else if byteLength line - byteLength (trimStart line) ≤ indent then some stop
            else walkStop? source limit indent next (next + 1)
  else some stop
termination_by limit - start

/-- The body that the search by offsets gives. -/
def walkBody? (source : Text) (headerEnd indent : Nat) : Option Span :=
  match dropBytes? source headerEnd with
  | none => none
  | some rest =>
      let stop := headerEnd + byteLength (rest.takeWhile (· != '\n'))
      (walkStop? source (bodyLimit source headerEnd) indent stop (stop + 1)).map
        fun last => ⟨headerEnd, last⟩

section Walk

variable {source : Text} {start : Nat} {line : Text}

theorem RestOfLine.exists_dropBytes? (known : RestOfLine source start line) :
    ∃ rest, dropBytes? source start = some rest ∧ rest.takeWhile (· != '\n') = line := by
  obtain ⟨before, rest, rfl, rfl, unbroken, stops⟩ := known
  refine ⟨line ++ rest, dropBytes?_eq_some_iff.mpr ⟨before, rfl, rfl⟩, ?_⟩
  have goesOn : ∀ c ∈ line, (c != '\n') = true := by
    intro c member
    rw [bne_iff_ne]
    rintro rfl
    exact unbroken member
  rw [List.takeWhile_append_of_pos goesOn]
  cases rest with
  | nil => simp
  | cons c rest => simp [stops c rfl]

theorem RestOfLine.cut?_eq (known : RestOfLine source start line) :
    cut? source ⟨start, start + byteLength line⟩ = some line := by
  obtain ⟨before, rest, rfl, rfl, -⟩ := known
  have first : dropBytes? (before ++ (line ++ rest)) (byteLength before) = some (line ++ rest) :=
    dropBytes?_eq_some_iff.mpr ⟨before, rfl, rfl⟩
  have second : dropBytes? (before ++ (line ++ rest)) (byteLength before + byteLength line) =
      some rest :=
    dropBytes?_eq_some_iff.mpr ⟨before ++ line, by simp, byteLength_append _ _⟩
  simp [cut?, first, second]

theorem walkStop?_eq {texts : List Text} (listed : LinesFrom source start texts)
    {limit : Nat} (indent stop : Nat) (inText : limit ≤ byteLength source) :
    walkStop? source limit indent stop start =
      some (indentedStop limit indent stop start texts) := by
  induction listed generalizing stop with
  | @done start past =>
      rw [walkStop?, if_neg (by omega)]
      rfl
  | @line start text others begins known rest ih =>
      rw [walkStop?, indentedStop]
      by_cases inReach : start < limit
      · obtain ⟨behind, dropped, first⟩ := known.exists_dropBytes?
        rw [if_pos inReach, if_neg (by omega)]
        simp only [dropped, first, known.cut?_eq, ih]
        split
        · rfl
        · split <;> rfl
      · rw [if_neg inReach, if_pos (by omega)]

theorem walkBody?_eq (indent : Nat) {headerEnd : Nat} (boundary : IsBoundary source headerEnd) :
    walkBody? source headerEnd indent = some (indentedBody source headerEnd indent) := by
  obtain ⟨first, others, known, listed, reached⟩ := exists_linesFrom indent boundary
  obtain ⟨rest, dropped, line⟩ := known.exists_dropBytes?
  have walked := walkStop?_eq listed indent (headerEnd + byteLength first)
    (bodyLimit_le source headerEnd)
  rw [← reached] at walked
  simp only [walkBody?, dropped, line]
  rw [walked, Option.map_some, Option.some.injEq, Span.mk.injEq]
  exact ⟨(indentedBody_start indent source headerEnd).symm, rfl⟩

end Walk

/-- The search for an indented body never fails to cut a line out of the text.  The body
begins behind the header and ends with the last line among the header's own and those that
count and stand in front of the first one indented no deeper than the header.  So all lines
in the body that count are indented deeper, and no body ends with a blank line or a
comment. -/
theorem indentedBody_extent (source : Text) (headerEnd indent : Nat)
    (boundary : IsBoundary source headerEnd) :
    walkBody? source headerEnd indent = some (indentedBody source headerEnd indent) ∧
      (indentedBody source headerEnd indent).start = headerEnd ∧
      IsGreatest ({stop | LineEndsAt source headerEnd stop} ∪
          bodyLineEnds source (headerEnd + 1) (bodyLimit source headerEnd) indent)
        (indentedBody source headerEnd indent).stop ∧
      ∀ line, IsLine source line → headerEnd < line.start →
        (IsSignificant (slice source line) →
          line.start < (indentedBody source headerEnd indent).stop →
            indent < leadingWidth (slice source line)) ∧
        (¬IsSignificant (slice source line) →
          line.stop ≠ (indentedBody source headerEnd indent).stop) := by
  refine ⟨walkBody?_eq indent boundary, indentedBody_start indent source headerEnd,
    isGreatest_stop_indentedBody indent boundary, ?_⟩
  intro line isLine behind
  constructor
  · intro significant inside
    exact lt_leadingWidth_of_inside boundary isLine behind inside significant
  · exact stop_ne_of_not_significant boundary isLine behind

/-- A body with a blank line and a comment in it, and a line behind it. -/
def commentedClass : Text := "class A:\n    é = 1\n\n# note\n    b = 2\nc\n".toList

theorem indentedBody_extent_commentedClass :
    IsBoundary commentedClass 8 ∧ walkBody? commentedClass 8 0 = some ⟨8, 37⟩ ∧
      IsGreatest ({stop | LineEndsAt commentedClass 8 stop} ∪
        bodyLineEnds commentedClass 9 (bodyLimit commentedClass 8) 0) 37 ∧
      ∀ line, IsLine commentedClass line → 8 < line.start →
        (IsSignificant (slice commentedClass line) → line.start < 37 →
          0 < leadingWidth (slice commentedClass line)) ∧
        (¬IsSignificant (slice commentedClass line) → line.stop ≠ 37) := by
  have boundary : IsBoundary commentedClass 8 :=
    ⟨commentedClass.take 8, commentedClass.drop 8, by decide +kernel, by decide +kernel⟩
  have body : indentedBody commentedClass 8 0 = ⟨8, 37⟩ := by decide +kernel
  have extent := indentedBody_extent commentedClass 8 0 boundary
  rw [body] at extent
  exact ⟨boundary, extent.1, extent.2.2.1, extent.2.2.2⟩

/-- How far a body may go past the reach of the search.  The line on which it ends begins in
reach, and the body ends in front of the first newline out of reach.  It ends in reach
exactly if all its lines do. -/
theorem indentedBody_overrun (source : Text) (headerEnd indent : Nat)
    (boundary : IsBoundary source headerEnd) :
    (∃ start, headerEnd ≤ start ∧ start < headerEnd + maxBodyScan ∧
        LineEndsAt source start (indentedBody source headerEnd indent).stop) ∧
      (∀ offset, headerEnd + maxBodyScan ≤ offset → StandsAt source '\n' offset →
        (indentedBody source headerEnd indent).stop ≤ offset) ∧
      ((indentedBody source headerEnd indent).stop ≤ headerEnd + maxBodyScan ↔
        (∀ stop, LineEndsAt source headerEnd stop → stop ≤ headerEnd + maxBodyScan) ∧
          ∀ line, IsBodyLine source (headerEnd + 1) (bodyLimit source headerEnd) indent line →
            line.stop ≤ headerEnd + maxBodyScan) := by
  have lastLine : ∃ start, headerEnd ≤ start ∧ start < headerEnd + maxBodyScan ∧
      LineEndsAt source start (indentedBody source headerEnd indent).stop := by
    have reach : 0 < maxBodyScan := by decide
    rcases indentedBody_stop_cases indent boundary with ends | ⟨last, ⟨counted, -⟩, same⟩
    · exact ⟨headerEnd, Nat.le_refl _, by omega, ends⟩
    · have inReach : last.start < headerEnd + maxBodyScan :=
        Nat.lt_of_lt_of_le counted.2.2.1 (Nat.min_le_left _ _)
      exact ⟨last.start, Nat.le_of_lt counted.2.1, inReach, same ▸ counted.1.2⟩
  refine ⟨lastLine, ?_, ?_⟩
  · rintro offset beyond ⟨front, back, split, rfl⟩
    obtain ⟨start, -, inReach, ends⟩ := lastLine
    exact ends.le_of_ends split (by simp) (by omega)
  · have greatest := isGreatest_stop_indentedBody indent boundary
    constructor
    · intro bounded
      constructor
      · intro stop ends
        exact Nat.le_trans (greatest.2 (Or.inl ends)) bounded
      · intro line belongs
        exact Nat.le_trans (greatest.2 (Or.inr ⟨line, belongs, rfl⟩)) bounded
    · rintro ⟨headerLine, bodyLines⟩
      rcases greatest.1 with ends | ⟨last, belongs, same⟩
      · exact headerLine _ ends
      · exact same ▸ bodyLines last belongs

theorem byteLength_replicate (size : Nat) (c : Char) :
    byteLength (List.replicate size c) = size * c.utf8Size := by
  induction size with
  | zero => rw [Nat.zero_mul, List.replicate_zero, byteLength_nil]
  | succ size ih => rw [List.replicate_succ, byteLength_cons, ih, Nat.succ_mul, Nat.add_comm]

/-- A line of letters, indented by four blanks. -/
def longLine (size : Nat) : Text :=
  List.replicate 4 ' ' ++ List.replicate (size + 1) 'x'

/-- A class with a single line in its body. -/
def longLineClass (size : Nat) : Text :=
  ['c', 'l', 'a', 's', 's', ' ', 'A', ':'] ++ '\n' :: longLine size

theorem byteLength_longLine (size : Nat) : byteLength (longLine size) = 5 + size := by
  rw [longLine, byteLength_append, byteLength_replicate, byteLength_replicate,
    show (' ' : Char).utf8Size = 1 from rfl, show ('x' : Char).utf8Size = 1 from rfl]
  omega

theorem byteLength_longLineClass (size : Nat) :
    byteLength (longLineClass size) = 14 + size := by
  rw [longLineClass, byteLength_append, byteLength_cons '\n', byteLength_longLine,
    show byteLength ['c', 'l', 'a', 's', 's', ' ', 'A', ':'] = 8 from rfl,
    show ('\n' : Char).utf8Size = 1 from rfl]
  omega

theorem lines_longLine (size : Nat) : lines ('\n' :: longLine size) = [[], longLine size] := by
  have unbroken : '\n' ∉ longLine size := by simp [longLine]
  have first := lines_append_cons (List.not_mem_nil (a := '\n')) (longLine size)
  rwa [List.nil_append, lines_of_notMem unbroken] at first

theorem trimStart_longLine (size : Nat) :
    trimStart (longLine size) = List.replicate (size + 1) 'x' := by
  have margin : ∀ c ∈ List.replicate 4 ' ', isBlank c = true := by
    intro c member
    rw [List.eq_of_mem_replicate member]
    decide
  have letter : isBlank 'x' = false := by decide
  rw [trimStart, longLine, List.dropWhile_append_of_pos margin, List.replicate_succ,
    List.dropWhile_cons_of_neg]
  simp [letter]

theorem indentedBody_longLineClass (size : Nat) :
    indentedBody (longLineClass size) 8 0 = ⟨8, 14 + size⟩ := by
  have reach : 1 < maxBodyScan := by decide
  have letter : ('x' : Char).utf8Size = 1 := rfl
  have dropped : dropBytes? (longLineClass size) 8 = some ('\n' :: longLine size) :=
    dropBytes?_eq_some_iff.mpr ⟨['c', 'l', 'a', 's', 's', ' ', 'A', ':'], rfl, rfl⟩
  simp only [indentedBody, dropped, Option.getD_some, lines_longLine, indentedStop,
    trimStart_longLine, byteLength_longLineClass, byteLength_longLine, byteLength_replicate,
    byteLength_nil, letter]
  rw [if_neg (by omega), if_neg (by simp [isInsignificant, List.replicate_succ]),
    if_neg (by omega)]
  congr 1
  omega

theorem indentedBody_overrun_longLineClass :
    IsBoundary (longLineClass maxBodyScan) 8 ∧
      (∃ start, 8 ≤ start ∧ start < 8 + maxBodyScan ∧
        LineEndsAt (longLineClass maxBodyScan) start (14 + maxBodyScan)) ∧
      ¬((∀ stop, LineEndsAt (longLineClass maxBodyScan) 8 stop → stop ≤ 8 + maxBodyScan) ∧
        ∀ line, IsBodyLine (longLineClass maxBodyScan) 9 (bodyLimit (longLineClass maxBodyScan) 8)
          0 line → line.stop ≤ 8 + maxBodyScan) := by
  have boundary : IsBoundary (longLineClass maxBodyScan) 8 :=
    ⟨['c', 'l', 'a', 's', 's', ' ', 'A', ':'], _, rfl, rfl⟩
  have overrun := indentedBody_overrun (longLineClass maxBodyScan) 8 0 boundary
  rw [indentedBody_longLineClass] at overrun
  refine ⟨boundary, overrun.1, ?_⟩
  rw [← overrun.2.2]
  show ¬14 + maxBodyScan ≤ 8 + maxBodyScan
  omega

/-- A body may end out of reach of the search. -/
theorem indentedBody_ends_out_of_reach :
    IsBoundary (longLineClass maxBodyScan) 8 ∧
      ¬(indentedBody (longLineClass maxBodyScan) 8 0).stop ≤ 8 + maxBodyScan := by
  refine ⟨⟨['c', 'l', 'a', 's', 's', ' ', 'A', ':'], _, rfl, rfl⟩, ?_⟩
  rw [indentedBody_longLineClass]
  show ¬14 + maxBodyScan ≤ 8 + maxBodyScan
  omega

end Text
end SourceAtlas
