import SourceAtlas.Pattern.Basic

/-!
# Matching patterns

A pattern is matched at a place of a text by trying its stretches in order of
preference.  `Pattern.reach` is that search: it hands every place the pattern may reach
to a continuation, the preferred place first, and returns the first answer the
continuation gives.  The matches of a pattern in a text are taken from left to right and
do not overlap.
-/

namespace SourceAtlas

/-- A place in a text: what stands before it, how far it is from both ends, and what
follows. -/
structure Place where
  /-- The character right before the place. -/
  before : Option Char
  offset : Nat
  /-- The number of characters that follow. -/
  remaining : Nat
  rest : Text

namespace Place

/-- The place before the first character. -/
def start (text : Text) : Place :=
  ⟨none, 0, text.length, text⟩

/-- The place behind the next character `c`, with `rest` following it. -/
def advance (place : Place) (c : Char) (rest : Text) : Place :=
  ⟨some c, place.offset + c.utf8Size, place.remaining - 1, rest⟩

/-- Whether a line begins here. -/
def atLineStart (place : Place) : Bool :=
  place.before == none || place.before == some '\n'

/-- Whether an identifier begins or ends here. -/
def atWordEdge (place : Place) : Bool :=
  place.before.any Text.isIdentifierChar != place.rest.head?.any Text.isIdentifierChar

/-- The places behind runs of a class of characters, the longest run first.  The places
already found stand in `found`. -/
def runStops (accepts : Char → Bool) (found : List Place) (place : Place) :
    (rest : Text) → List Place
  | [] => place :: found
  | c :: rest =>
      if accepts c then
        runStops accepts (place :: found) (place.advance c rest) rest
      else place :: found

end Place

/-- The stretch of text that a numbered group stands for. -/
structure Capture where
  /-- The number of the group. -/
  index : Nat
  /-- Where the stretch begins. -/
  start : Nat
  /-- Where the stretch ends. -/
  stop : Nat
  /-- The text from the beginning of the stretch on. -/
  ahead : Text
  /-- The number of characters in the stretch. -/
  size : Nat

/-- The characters of the stretch. -/
def Capture.text (capture : Capture) : Text :=
  capture.ahead.take capture.size

/-- A place reached while matching, with the groups closed on the way, the latest
first. -/
structure Progress where
  place : Place
  /-- The groups closed so far. -/
  captures : List Capture

namespace Progress

/-- Moves on to another place. -/
def moveTo (progress : Progress) (place : Place) : Progress :=
  { progress with place := place }

/-- Closes a group that was opened at `opened`. -/
def close (progress : Progress) (index : Nat) (opened : Place) : Progress :=
  let capture : Capture :=
    { index := index
      start := opened.offset
      stop := progress.place.offset
      ahead := opened.rest
      size := opened.remaining - progress.place.remaining }
  { progress with captures := capture :: progress.captures }

end Progress

namespace Pattern

/-- What is still to be matched: an answer for a place reached, or none. -/
abbrev Continuation := Progress → Option Progress

/-- Tries the places behind runs of a class of characters, the shortest run first. -/
def reachShortRun (accepts : Char → Bool) (next : Continuation) (progress : Progress) :
    (rest : Text) → Option Progress
  | [] => next progress
  | c :: rest =>
      match next progress with
      | some answer => some answer
      | none =>
          if accepts c then
            reachShortRun accepts next (progress.moveTo (progress.place.advance c rest)) rest
          else none

/-- Tries as many rounds of a body as possible before going on.  Every round has to
consume something, so `fuel` rounds suffice when that many characters remain. -/
def reachRounds (body : Continuation → Continuation) (next : Continuation) :
    (fuel : Nat) → Continuation
  | 0, progress => next progress
  | fuel + 1, progress =>
      let again : Continuation := fun reached =>
        if reached.place.remaining < progress.place.remaining then
          reachRounds body next fuel reached
        else none
      (body again progress).or (next progress)

/-- The first answer that the continuation gives for a place reached by the pattern, the
places tried in order of preference. -/
def reach : Pattern → Continuation → Continuation
  | nothing, next, progress => next progress
  | one accepts, next, progress =>
      match progress.place.rest with
      | [] => none
      | c :: rest =>
          if accepts c then next (progress.moveTo (progress.place.advance c rest))
          else none
  | run accepts, next, progress =>
      (progress.place.runStops accepts [] progress.place.rest).findSome? fun place =>
        next (progress.moveTo place)
  | shortRun accepts, next, progress =>
      reachShortRun accepts next progress progress.place.rest
  | lineStart, next, progress =>
      if progress.place.atLineStart then next progress else none
  | wordEdge, next, progress =>
      if progress.place.atWordEdge then next progress else none
  | followedBy first second, next, progress => first.reach (second.reach next) progress
  | either first second, next, progress =>
      match first.reach next progress with
      | some answer => some answer
      | none => second.reach next progress
  | rounds body, next, progress =>
      reachRounds body.reach next progress.place.remaining progress
  | group index body, next, progress =>
      body.reach (fun reached => next (reached.close index progress.place)) progress

end Pattern

/-- A match of a pattern: the stretch it takes up and the groups inside. -/
structure Match where
  /-- Where the match begins. -/
  start : Nat
  /-- Where the match ends. -/
  stop : Nat
  /-- The groups that took part, the latest first. -/
  captures : List Capture

namespace Match

/-- The group of a number, if it took part in the match. -/
def capture? (found : Match) (index : Nat) : Option Capture :=
  found.captures.find? (·.index == index)

/-- The text of a group, empty if it took no part. -/
def text (found : Match) (index : Nat) : Text :=
  match found.capture? index with
  | some capture => capture.text
  | none => []

/-- The text of a group as a name. -/
def name (found : Match) (index : Nat) : String :=
  String.ofList (found.text index)

/-- Where a group begins. -/
def place (found : Match) (index : Nat) : Nat :=
  match found.capture? index with
  | some capture => capture.start
  | none => 0

/-- The trimmed text of a group, unless nothing is left of it. -/
def trimmed? (found : Match) (index : Nat) : Option Text :=
  let trimmed := Text.trim (found.text index)
  if trimmed.isEmpty then none else some trimmed

end Match

namespace Pattern

def matchAt? (pattern : Pattern) (place : Place) : Option Match :=
  (pattern.reach some ⟨place, []⟩).map fun reached =>
    ⟨place.offset, reached.place.offset, reached.captures⟩

/-- The matches from a place on that begin at the offset `resume` or behind it, each
beginning where the one before has ended or later. -/
def matchesFrom (pattern : Pattern) (resume : Nat) (place : Place) : (rest : Text) → List Match
  | [] =>
      if place.offset < resume then [] else (pattern.matchAt? { place with rest := [] }).toList
  | c :: rest =>
      let next := place.advance c rest
      if place.offset < resume then pattern.matchesFrom resume next rest
      else
        match pattern.matchAt? { place with rest := c :: rest } with
        | none => pattern.matchesFrom resume next rest
        | some found => found :: pattern.matchesFrom found.stop next rest

/-- The matches of a pattern in a text, from left to right and without overlap. -/
def matchesIn (pattern : Pattern) (text : Text) : List Match :=
  pattern.matchesFrom 0 (Place.start text) text

def firstMatchFrom? (pattern : Pattern) (place : Place) : (rest : Text) → Option Match
  | [] => pattern.matchAt? { place with rest := [] }
  | c :: rest =>
      match pattern.matchAt? { place with rest := c :: rest } with
      | none => pattern.firstMatchFrom? (place.advance c rest) rest
      | some found => some found

def firstMatch? (pattern : Pattern) (text : Text) : Option Match :=
  pattern.firstMatchFrom? (Place.start text) text

/-- A text, beginning at `offset`, without the characters that stand in some match. -/
def eraseStretches (found : List Match) : (offset : Nat) → Text → Text
  | _, [] => []
  | offset, c :: rest =>
      let kept := eraseStretches found (offset + c.utf8Size) rest
      if found.any fun stretch => stretch.start ≤ offset && offset < stretch.stop then kept
      else c :: kept

def erase (pattern : Pattern) (text : Text) : Text :=
  eraseStretches (pattern.matchesIn text) 0 text

end Pattern
end SourceAtlas
