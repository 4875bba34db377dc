import SourceAtlas.Text.CharClass

/-!
# Text measured in bytes

A text is a list of characters.  Positions in it are offsets into its UTF-8 encoding,
so not every number is a position: the boundaries are the byte lengths of the prefixes.
This file holds the measure, the operations that cut a text at an offset, and ranges of
offsets.
-/

namespace SourceAtlas

/-- Text as the sequence of its characters. -/
abbrev Text := List Char

/-- A half-open range of byte offsets.  Nothing forces `start ≤ stop`: a range that ends
before it begins holds no offset. -/
structure Span where
  /-- The first offset inside. -/
  start : Nat
  /-- The first offset behind the end. -/
  stop : Nat
  deriving DecidableEq, Repr, Inhabited

namespace Span

/-- Whether an offset lies in the range. -/
def contains (span : Span) (offset : Nat) : Bool :=
  span.start ≤ offset && offset < span.stop

/-- The number of offsets in the range. -/
def length (span : Span) : Nat :=
  span.stop - span.start

end Span

namespace Text

/-- The length of the UTF-8 encoding. -/
def byteLength (text : Text) : Nat :=
  text.foldr (fun c size => c.utf8Size + size) 0

/-- What follows a byte offset; nothing when the offset is inside a character or past
the end. -/
def dropBytes? : Text → Nat → Option Text
  | text, 0 => some text
  | [], _ + 1 => none
  | c :: rest, offset =>
      if c.utf8Size ≤ offset then dropBytes? rest (offset - c.utf8Size) else none

/-- The longest prefix of at most `limit` bytes. -/
def takeBytes : Text → Nat → Text
  | [], _ => []
  | c :: rest, limit =>
      if c.utf8Size ≤ limit then c :: takeBytes rest (limit - c.utf8Size) else []

/-- Walks over whole characters while they end at or before `limit`, and gives the
offset reached. -/
def floorFrom (limit : Nat) : (offset : Nat) → Text → Nat
  | offset, [] => offset
  | offset, c :: rest =>
      if offset + c.utf8Size ≤ limit then floorFrom limit (offset + c.utf8Size) rest
      else offset

/-- The greatest character boundary that is not above `offset`. -/
def floorBoundary (text : Text) (offset : Nat) : Nat :=
  floorFrom offset 0 text

/-- The part of a text between two boundaries; empty when they are no boundaries or in
the wrong order. -/
def slice (text : Text) (span : Span) : Text :=
  match dropBytes? text span.start with
  | some rest => takeBytes rest span.length
  | none => []

/-- At most `limit` bytes of a range, cut at a character boundary. -/
def boundedSlice (text : Text) (span : Span) (limit : Nat) : Text :=
  let start := floorBoundary text span.start
  let stop := floorBoundary text (min span.stop (span.start + limit))
  slice text ⟨start, stop⟩

end Text
end SourceAtlas
