import Mathlib.Order.Bounds.Basic
import SourceAtlas.Proofs.BraceExtent
import SourceAtlas.Proofs.IndentedBodies
import SourceAtlas.Text.Decode

/-!
# The longest piece within a limit

Cutting a range short leaves the longest piece that begins with the range, ends between two
characters and exceeds neither the range nor the limit.  The cut is made at the greatest boundary
that is not above an offset.  In the encoded bytes a boundary is recognised by the byte that stands
there, so stepping down byte by byte finds this boundary too, after three steps at most.
-/

namespace SourceAtlas
namespace Text

/-- Whether a text is a piece of a source that begins with a range, ends in it and has at most
`limit` bytes.  A piece is made of whole characters, so it ends at a boundary. -/
def IsPiece (source : Text) (span : Span) (limit : Nat) (piece : Text) : Prop :=
  ∃ before after, source = before ++ (piece ++ after) ∧ byteLength before = span.start ∧
    span.start + byteLength piece ≤ span.stop ∧ byteLength piece ≤ limit

/-- Whether the bytes end at an offset, or have one there that can begin a character. -/
def beginsAt (bytes : List UInt8) (offset : Nat) : Bool :=
  match bytes[offset]? with
  | some byte => decide byte.IsUTF8FirstByte
  | none => offset == bytes.length

/-- Steps down from an offset to the first one that passes the test on bytes. -/
def stepDown (bytes : List UInt8) : Nat → Nat
  | 0 => 0
  | offset + 1 => if beginsAt bytes (offset + 1) then offset + 1 else stepDown bytes offset

/-! ## Pieces -/

/-- Every prefix that fits is a prefix of the longest one. -/
theorem prefix_takeBytes {piece text : Text} {limit : Nat} (begins : piece <+: text)
    (fits : byteLength piece ≤ limit) : piece <+: takeBytes text limit := by
  obtain ⟨back, rfl⟩ := begins
  obtain ⟨more, rfl⟩ := Nat.exists_eq_add_of_le fits
  rw [takeBytes_append]
  exact List.prefix_append _ _

theorem isPiece_append_iff {before rest piece : Text} {stop limit : Nat} :
    IsPiece (before ++ rest) ⟨byteLength before, stop⟩ limit piece ↔
      piece <+: rest ∧ byteLength before + byteLength piece ≤ stop ∧ byteLength piece ≤ limit := by
  constructor
  · rintro ⟨front, after, split, same, ends, short⟩
    obtain ⟨between, rfl, rfl⟩ := exists_between split (Nat.le_of_eq same.symm)
    simp only [byteLength_append] at same
    obtain rfl := eq_nil_of_byteLength_eq_zero (show byteLength between = 0 by omega)
    exact ⟨⟨after, rfl⟩, ends, short⟩
  · rintro ⟨⟨after, rfl⟩, ends, short⟩
    exact ⟨before, after, rfl, rfl, ends, short⟩

section Aligned

variable {source : Text} {span : Span} (limit : Nat)

theorem isPiece_boundedSlice (aligned : IsBoundary source span.start)
    (ordered : span.start ≤ span.stop) :
    IsPiece source span limit (boundedSlice source span limit) := by
  obtain ⟨start, stop⟩ := span
  obtain ⟨before, rest, rfl, rfl⟩ := aligned
  have begins := takeBytes_prefix rest (min (stop - byteLength before) limit)
  have fits := byteLength_takeBytes_le rest (min (stop - byteLength before) limit)
  rw [boundedSlice_append, isPiece_append_iff]
  simp only at ordered
  exact ⟨begins, by omega, by omega⟩

theorem IsPiece.prefix_boundedSlice {limit : Nat} {piece : Text}
    (isPiece : IsPiece source span limit piece) : piece <+: boundedSlice source span limit := by
  obtain ⟨start, stop⟩ := span
  obtain ⟨before, after, rfl, rfl, ends, short⟩ := isPiece
  rw [boundedSlice_append]
  simp only at ends
  exact prefix_takeBytes (List.prefix_append _ _) (by omega)

theorem boundedSlice_eq_nil (aligned : IsBoundary source span.start)
    (reversed : span.stop ≤ span.start) : boundedSlice source span limit = [] := by
  obtain ⟨start, stop⟩ := span
  obtain ⟨before, rest, rfl, rfl⟩ := aligned
  have nothing := byteLength_takeBytes_le rest (min (stop - byteLength before) limit)
  rw [boundedSlice_append]
  simp only at reversed
  exact eq_nil_of_byteLength_eq_zero (by omega)

end Aligned

/-! ## Boundaries in the encoded bytes -/

theorem encoding_cons (c : Char) (text : Text) :
    encoding (c :: text) = String.utf8EncodeChar c ++ encoding text :=
  List.flatMap_cons

theorem length_encoding (text : Text) : (encoding text).length = byteLength text := by
  induction text with
  | nil => rfl
  | cons c text ih =>
      rw [encoding_cons, List.length_append, String.length_utf8EncodeChar, ih, byteLength_cons]

theorem isBoundary_zero (text : Text) : IsBoundary text 0 :=
  ⟨[], text, rfl, rfl⟩

theorem isBoundary_cons_add_iff {c : Char} {text : Text} {offset : Nat} :
    IsBoundary (c :: text) (c.utf8Size + offset) ↔ IsBoundary text offset := by
  constructor
  · rintro ⟨before, rest, split, reached⟩
    cases before with
    | nil =>
        have positive := c.utf8Size_pos
        rw [byteLength_nil] at reached
        omega
    | cons first before =>
        obtain ⟨rfl, rfl⟩ := List.cons.inj split
        rw [byteLength_cons] at reached
        exact ⟨before, rest, rfl, by omega⟩
  · rintro ⟨before, rest, rfl, rfl⟩
    exact ⟨c :: before, rest, rfl, rfl⟩

/-- Within the first character there is one boundary, its beginning. -/
theorem isBoundary_cons_of_lt {c : Char} {text : Text} {offset : Nat}
    (inside : offset < c.utf8Size) : IsBoundary (c :: text) offset ↔ offset = 0 := by
  constructor
  · rintro ⟨before, rest, split, reached⟩
    cases before with
    | nil => exact reached.symm
    | cons first before =>
        obtain ⟨rfl, -⟩ := List.cons.inj split
        rw [byteLength_cons] at reached
        omega
  · rintro rfl
    exact isBoundary_zero _

/-- The boundaries of a text are the offsets that pass the test on its bytes. -/
theorem isBoundary_iff_beginsAt {text : Text} {offset : Nat} :
    IsBoundary text offset ↔ beginsAt (encoding text) offset = true := by
  induction text generalizing offset with
  | nil =>
      have empty : IsBoundary [] offset ↔ offset = 0 := by
        constructor
        · exact fun boundary => Nat.le_zero.mp boundary.le_byteLength
        · rintro rfl
          exact isBoundary_zero []
      simp [empty, beginsAt, encoding]
  | cons c text ih =>
      -- The offset lies in the bytes of the first character or in those of the rest.
      have size := String.length_utf8EncodeChar c
      rcases Nat.lt_or_ge offset c.utf8Size with inside | behind
      · have shorter : offset < (String.utf8EncodeChar c).length := by omega
        have byte : (encoding (c :: text))[offset]? = some (String.utf8EncodeChar c)[offset] := by
          rw [encoding_cons, List.getElem?_append_left shorter, List.getElem?_eq_getElem shorter]
        rw [isBoundary_cons_of_lt inside, beginsAt, byte, decide_eq_true_iff,
          UInt8.isUTF8FirstByte_getElem_utf8EncodeChar]
      · obtain ⟨more, rfl⟩ := Nat.exists_eq_add_of_le behind
        have byte : (encoding (c :: text))[c.utf8Size + more]? = (encoding text)[more]? := by
          rw [encoding_cons, List.getElem?_append_right (by omega), size, Nat.add_sub_cancel_left]
        have ends : (c.utf8Size + more == (encoding (c :: text)).length) =
            (more == (encoding text).length) := by
          rw [encoding_cons, List.length_append, size, Bool.eq_iff_iff, beq_iff_eq, beq_iff_eq,
            Nat.add_left_cancel_iff]
        rw [isBoundary_cons_add_iff, ih, beginsAt, beginsAt, byte, ends]

theorem isGreatest_stepDown {bytes : List UInt8} (begun : beginsAt bytes 0 = true)
    (offset : Nat) :
    IsGreatest {place | beginsAt bytes place = true ∧ place ≤ offset} (stepDown bytes offset) := by
  induction offset with
  | zero => exact ⟨⟨begun, Nat.le_refl 0⟩, fun place known => known.2⟩
  | succ offset ih =>
      rw [stepDown]
      by_cases here : beginsAt bytes (offset + 1) = true
      · rw [if_pos here]
        exact ⟨⟨here, Nat.le_refl _⟩, fun place known => known.2⟩
      · rw [if_neg here]
        refine ⟨⟨ih.1.1, Nat.le_succ_of_le ih.1.2⟩, fun place known => ?_⟩
        have other : place ≠ offset + 1 := by
          rintro rfl
          exact here known.1
        have below : place ≤ offset := Nat.le_of_lt_succ (Nat.lt_of_le_of_ne known.2 other)
        exact ih.2 ⟨known.1, below⟩

theorem stepDown_eq_floorBoundary (source : Text) (offset : Nat) :
    stepDown (encoding source) (min offset (encoding source).length) =
      floorBoundary source offset := by
  have greatest := isGreatest_stepDown (isBoundary_iff_beginsAt.mp (isBoundary_zero source))
    (min offset (encoding source).length)
  simp only [← isBoundary_iff_beginsAt, length_encoding] at greatest
  rw [length_encoding]
  exact greatest.unique (isGreatest_floorBoundary source offset)

/-- A character has at most four bytes, so a boundary is near. -/
theorem lt_floorBoundary_add_four (source : Text) (offset : Nat) :
    min offset (byteLength source) < floorBoundary source offset + 4 := by
  by_contra far
  obtain ⟨before, rest, split, reached⟩ := isBoundary_floorBoundary source offset
  have length := congrArg byteLength split
  rw [byteLength_append] at length
  cases rest with
  | nil =>
      rw [byteLength_nil] at length
      omega
  | cons c rest =>
      -- The end of the next character would be a greater boundary that is not above the offset.
      have next : IsBoundary source (byteLength before + c.utf8Size) :=
        ⟨before ++ [c], rest, by rw [split]; simp, by simp⟩
      have small := c.utf8Size_le_four
      have positive := c.utf8Size_pos
      have below : byteLength before + c.utf8Size ≤ offset := by omega
      have above := next.le_floorBoundary below
      omega

/-! ## The cut -/

/-- A range that begins at a boundary, as the bodies of declarations do, is cut to the longest
piece that begins with it, ends in it and has at most `limit` bytes; nothing is left of a range
that ends where it begins or before.  The offsets of the cut are rounded to the greatest boundary
that is not above them, where stepping down in the bytes ends as well. -/
theorem boundedSlice_longest (source : Text) :
    (∀ span limit, IsBoundary source span.start →
      (span.start ≤ span.stop → IsPiece source span limit (boundedSlice source span limit)) ∧
      (∀ piece, IsPiece source span limit piece → piece <+: boundedSlice source span limit) ∧
      (span.stop ≤ span.start → boundedSlice source span limit = [])) ∧
    (∀ start window body, braceBody? source start window = some body →
      IsBoundary source body.start) ∧
    (∀ headerEnd indent, IsBoundary source headerEnd →
      IsBoundary source (indentedBody source headerEnd indent).start) ∧
    ∀ offset,
      IsGreatest {place | IsBoundary source place ∧ place ≤ min offset (byteLength source)}
        (floorBoundary source offset) ∧
      stepDown (encoding source) (min offset (encoding source).length) =
        floorBoundary source offset ∧
      min offset (byteLength source) < floorBoundary source offset + 4 := by
  refine ⟨fun span limit aligned => ⟨isPiece_boundedSlice limit aligned,
      fun piece isPiece => isPiece.prefix_boundedSlice, boundedSlice_eq_nil limit aligned⟩,
    fun start window body found => ?_, fun headerEnd indent boundary => ?_,
    fun offset => ⟨isGreatest_floorBoundary source offset,
      stepDown_eq_floorBoundary source offset, lt_floorBoundary_add_four source offset⟩⟩
  · obtain ⟨-, opening, opens, first, closes⟩ := braceBody?_eq_some_iff.mp found
    rw [first]
    exact (closes.bounds opens.2.2.1).2.1
  · rwa [indentedBody_start]

/-- Characters of one, two and four bytes. -/
def mixedWidths : Text :=
  ['a', 'é', '😀', 'b']

theorem boundedSlice_mixedWidths :
    boundedSlice mixedWidths ⟨1, 5⟩ 9 = ['é'] ∧
      IsPiece mixedWidths ⟨1, 5⟩ 9 ['é'] ∧
      (∀ piece, IsPiece mixedWidths ⟨1, 5⟩ 9 piece → piece <+: ['é']) ∧
      boundedSlice mixedWidths ⟨3, 2⟩ 9 = [] ∧
      stepDown (encoding mixedWidths) 6 = 3 := by
  obtain ⟨cut, -, -, floors⟩ := boundedSlice_longest mixedWidths
  have result : boundedSlice mixedWidths ⟨1, 5⟩ 9 = ['é'] := by decide +kernel
  obtain ⟨isPiece, longest, -⟩ := cut ⟨1, 5⟩ 9 ⟨['a'], ['é', '😀', 'b'], rfl, by decide +kernel⟩
  obtain ⟨-, -, reversed⟩ := cut ⟨3, 2⟩ 9 ⟨['a', 'é'], ['😀', 'b'], rfl, by decide +kernel⟩
  rw [result] at isPiece longest
  refine ⟨result, isPiece (by decide), longest, reversed (by decide), ?_⟩
  exact (floors 6).2.1.trans (by decide +kernel)

end Text
end SourceAtlas
