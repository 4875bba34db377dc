import SourceAtlas.Proofs.ByteOffsets
import SourceAtlas.Proofs.WordSplitting

/-!
# Lines of a text by their offsets

A line ends at a newline or at the end of the text, and it begins behind a newline or at the
beginning of the text.  Two lines of one text are the same or one ends in front of the other,
so lines are compared by where they begin.
-/

namespace SourceAtlas
namespace Text

/-- Whether `line` is what stands between an offset and the end of its line. -/
def RestOfLine (source : Text) (start : Nat) (line : Text) : Prop :=
  ∃ before rest, source = before ++ (line ++ rest) ∧ byteLength before = start ∧
    '\n' ∉ line ∧ ∀ c ∈ rest.head?, c = '\n'

/-- Whether the line around the offset `start` ends at `stop`. -/
def LineEndsAt (source : Text) (start stop : Nat) : Prop :=
  ∃ line, RestOfLine source start line ∧ start + byteLength line = stop

/-- Whether a line begins at the offset `start`. -/
def LineBeginsAt (source : Text) (start : Nat) : Prop :=
  ∃ before rest, source = before ++ rest ∧ byteLength before = start ∧
    ∀ c ∈ before.getLast?, c = '\n'

/-- Whether a range is a whole line without its newline. -/
def IsLine (source : Text) (line : Span) : Prop :=
  LineBeginsAt source line.start ∧ LineEndsAt source line.start line.stop

section Offsets

variable {source : Text} {start stop : Nat} {line : Text}

theorem RestOfLine.slice_eq (known : RestOfLine source start line) :
    slice source ⟨start, start + byteLength line⟩ = line := by
  obtain ⟨before, rest, rfl, rfl, -⟩ := known
  rw [slice_append, takeBytes_append_of_le (Nat.le_refl _),
    takeBytes_of_byteLength_le (Nat.le_refl _)]

theorem RestOfLine.le_byteLength (known : RestOfLine source start line) :
    start + byteLength line ≤ byteLength source := by
  obtain ⟨before, rest, rfl, rfl, -⟩ := known
  rw [byteLength_append, byteLength_append]
  omega

theorem LineEndsAt.bounds (ends : LineEndsAt source start stop) :
    start ≤ stop ∧ stop ≤ byteLength source := by
  obtain ⟨line, known, rfl⟩ := ends
  exact ⟨Nat.le_add_right _ _, known.le_byteLength⟩

/-- A line that begins behind an offset begins behind the line around it. -/
theorem LineEndsAt.lt_of_begins (ends : LineEndsAt source start stop) {later : Nat}
    (begins : LineBeginsAt source later) (behind : start < later) : stop < later := by
  obtain ⟨line, ⟨before, rest, rfl, rfl, unbroken, -⟩, rfl⟩ := ends
  obtain ⟨front, back, split, rfl, afterNewline⟩ := begins
  obtain ⟨between, rfl, shared⟩ := exists_between split (Nat.le_of_lt behind)
  rw [byteLength_append] at behind ⊢
  apply Nat.lt_of_not_le
  intro tooEarly
  obtain ⟨more, rfl, -⟩ := exists_between shared.symm (Nat.le_of_add_le_add_left tooEarly)
  -- The newline in front of the later line would stand inside the earlier one.
  rcases List.eq_nil_or_concat between with rfl | ⟨init, last, rfl⟩
  · rw [byteLength_nil] at behind
    omega
  · obtain rfl : last = '\n' := afterNewline last (by simp)
    exact unbroken (by simp)

/-- A line does not go past a newline or the end of the text. -/
theorem LineEndsAt.le_of_ends (ends : LineEndsAt source start stop) {front back : Text}
    (split : source = front ++ back) (stops : ∀ c ∈ back.head?, c = '\n')
    (behind : start ≤ byteLength front) : stop ≤ byteLength front := by
  obtain ⟨line, ⟨before, rest, rfl, rfl, unbroken, -⟩, rfl⟩ := ends
  obtain ⟨between, rfl, shared⟩ := exists_between split behind
  rw [byteLength_append]
  apply Nat.le_of_not_lt
  intro tooEarly
  obtain ⟨more, rfl, rfl⟩ := exists_between shared.symm (by omega)
  cases more with
  | nil =>
      rw [List.append_nil] at tooEarly
      omega
  | cons c more =>
      obtain rfl : c = '\n' := stops c rfl
      exact unbroken (by simp)

theorem LineEndsAt.le_of_lineEndsAt (ends : LineEndsAt source start stop) {other otherStop : Nat}
    (otherEnds : LineEndsAt source other otherStop) (behind : start ≤ otherStop) :
    stop ≤ otherStop := by
  obtain ⟨text, ⟨before, rest, split, rfl, -, stops⟩, rfl⟩ := otherEnds
  rw [← byteLength_append] at behind ⊢
  exact ends.le_of_ends (by rw [split, List.append_assoc]) stops behind

theorem LineEndsAt.unique (ends : LineEndsAt source start stop) {other : Nat}
    (alsoEnds : LineEndsAt source start other) : stop = other :=
  Nat.le_antisymm (ends.le_of_lineEndsAt alsoEnds alsoEnds.bounds.1)
    (alsoEnds.le_of_lineEndsAt ends ends.bounds.1)

theorem IsLine.eq_or_lt {first second : Span} (one : IsLine source first)
    (other : IsLine source second) (ordered : first.start ≤ second.start) :
    first = second ∨ first.stop < second.start := by
  obtain ⟨start, stop⟩ := first
  obtain ⟨otherStart, otherStop⟩ := second
  rcases Nat.eq_or_lt_of_le ordered with same | behind
  · obtain rfl : start = otherStart := same
    obtain rfl : stop = otherStop := one.2.unique other.2
    exact Or.inl rfl
  · exact Or.inr (one.2.lt_of_begins other.1 behind)

end Offsets

/-- Whether some texts are the lines of a source from the offset `start` on. -/
inductive LinesFrom (source : Text) : Nat → List Text → Prop
  | done {start : Nat} (past : byteLength source < start) : LinesFrom source start []
  | line {start : Nat} {line : Text} {others : List Text} (begins : LineBeginsAt source start)
      (known : RestOfLine source start line)
      (rest : LinesFrom source (start + byteLength line + 1) others) :
      LinesFrom source start (line :: others)

theorem lines_of_notMem {text : Text} (unbroken : '\n' ∉ text) : lines text = [text] := by
  rw [lines, splitWhere_eq_splitOnP]
  apply List.splitOnP_eq_singleton
  intro c member
  rw [beq_eq_false_iff_ne]
  rintro rfl
  exact unbroken member

theorem lines_append_cons {line : Text} (unbroken : '\n' ∉ line) (behind : Text) :
    lines (line ++ '\n' :: behind) = line :: lines behind := by
  have whole := lines_of_notMem unbroken
  simp only [lines, splitWhere_eq_splitOnP] at whole ⊢
  rw [List.splitOnP_append_cons line behind (by simp), whole, List.singleton_append]

theorem lines_ne_nil (text : Text) : lines text ≠ [] := by
  rw [lines, splitWhere_eq_splitOnP]
  exact List.splitOnP_ne_nil _ _

/-- The first line of a text is all of it, or a newline and the other lines follow. -/
theorem of_lines_eq_cons {text line : Text} {others : List Text}
    (split : lines text = line :: others) :
    '\n' ∉ line ∧ (text = line ∧ others = [] ∨
      ∃ behind, text = line ++ '\n' :: behind ∧ lines behind = others) := by
  by_cases broken : '\n' ∈ text
  · obtain ⟨first, behind, rfl, unbroken⟩ := List.eq_append_cons_of_mem broken
    rw [lines_append_cons unbroken] at split
    obtain ⟨rfl, same⟩ := List.cons.inj split
    exact ⟨unbroken, Or.inr ⟨behind, rfl, same⟩⟩
  · rw [lines_of_notMem broken] at split
    obtain ⟨rfl, rfl⟩ := List.cons.inj split
    exact ⟨broken, Or.inl ⟨rfl, rfl⟩⟩

/-- What follows an offset, taken apart into lines, gives the rest of its line and the whole
lines behind it. -/
theorem restOfLine_and_linesFrom {before text line : Text} {others : List Text}
    (split : lines text = line :: others) :
    RestOfLine (before ++ text) (byteLength before) line ∧
      LinesFrom (before ++ text) (byteLength before + byteLength line + 1) others := by
  induction others generalizing before text line with
  | nil =>
      obtain ⟨unbroken, ⟨rfl, -⟩ | ⟨behind, -, nothing⟩⟩ := of_lines_eq_cons split
      · refine ⟨⟨before, [], by simp, rfl, unbroken, by simp⟩, LinesFrom.done ?_⟩
        rw [byteLength_append]
        omega
      · exact absurd nothing (lines_ne_nil behind)
  | cons next others ih =>
      obtain ⟨unbroken, ⟨-, nothing⟩ | ⟨behind, rfl, rest⟩⟩ := of_lines_eq_cons split
      · exact absurd nothing (List.cons_ne_nil _ _)
      · have newline : ('\n' : Char).utf8Size = 1 := rfl
        have shift : before ++ (line ++ '\n' :: behind) = before ++ line ++ ['\n'] ++ behind := by
          simp
        have passed : byteLength (before ++ line ++ ['\n']) =
            byteLength before + byteLength line + 1 := by
          rw [byteLength_append, byteLength_append, byteLength_cons, newline, byteLength_nil]
        obtain ⟨known, later⟩ := @ih (before ++ line ++ ['\n']) behind next rest
        rw [← shift, passed] at known later
        refine ⟨⟨before, '\n' :: behind, rfl, rfl, unbroken, by simp⟩, LinesFrom.line ?_ known later⟩
        exact ⟨before ++ line ++ ['\n'], behind, shift, passed, by simp⟩

end Text
end SourceAtlas
