import SourceAtlas.Text.Basic

/-!
# Trimming, splitting and searching

Fields are the pieces of a text between blanks, words the pieces between characters that
belong to no word.  Both are what remains of a plain split once the empty pieces are
dropped.  Lists of type names are split at the commas outside brackets.  Plain splits are
made in bytes as they are in characters.
-/

namespace SourceAtlas
namespace Text

/-- Drops the blanks at the front. -/
def trimStart (text : Text) : Text :=
  text.dropWhile isBlank

/-- Drops the blanks at the end. -/
def trimEnd (text : Text) : Text :=
  (text.reverse.dropWhile isBlank).reverse

/-- Drops the blanks at both ends. -/
def trim (text : Text) : Text :=
  trimEnd (trimStart text)

/-- Puts one more character in front of a split text. -/
def splitStep {α : Type} (separates : α → Bool) (c : α) (pieces : List (List α)) :
    List (List α) :=
  if separates c then [] :: pieces
  else
    match pieces with
    | [] => [[c]]
    | first :: others => (c :: first) :: others

/-- The pieces between separating characters, the empty ones included: one piece more
than there are separators. -/
def splitWhere {α : Type} (separates : α → Bool) (text : List α) : List (List α) :=
  text.foldr (splitStep separates) [[]]

/-- The lines of a text, without their newlines. -/
def lines (text : Text) : List Text :=
  splitWhere (· == '\n') text

/-- The non-empty pieces between blanks. -/
def fields (text : Text) : List Text :=
  (splitWhere isBlank text).filter (!·.isEmpty)

/-- The non-empty pieces made of word characters. -/
def words (text : Text) : List Text :=
  (splitWhere (fun c => !isWordChar c) text).filter (!·.isEmpty)

/-- The fields of a text with single spaces between them. -/
def compact (text : Text) : Text :=
  [' '].intercalate (fields text)

/-- The brackets that open a part of a type name which is not its name. -/
def opensBracket (c : Char) : Bool :=
  c == '<' || c == '[' || c == '('

/-- The brackets that close such a part. -/
def closesBracket (c : Char) : Bool :=
  c == '>' || c == ']' || c == ')'

/-- What stands outside every bracket.  All kinds of brackets share one depth, and a
closing bracket that nothing opened changes nothing. -/
def outsideBrackets : (depth : Nat) → Text → Text
  | _, [] => []
  | depth, c :: rest =>
      if opensBracket c then outsideBrackets (depth + 1) rest
      else if closesBracket c then outsideBrackets (depth - 1) rest
      else if depth = 0 then c :: outsideBrackets depth rest
      else outsideBrackets depth rest

/-- The names of a comma-separated list without their bracketed parts, compacted, the
blank ones left out. -/
def splitNames (text : Text) : List Text :=
  ((splitWhere (· == ',') (outsideBrackets 0 text)).map compact).filter (!·.isEmpty)

/-- Whether `needle` occurs in a text. -/
def occursIn (needle : Text) : Text → Bool
  | [] => needle.isEmpty
  | c :: rest => needle.isPrefixOf (c :: rest) || occursIn needle rest

/-- Looks for the first occurrence of `needle`, with the characters passed so far in
reverse. -/
def splitAtFrom? {α : Type} [BEq α] (needle : List α) :
    (passed : List α) → List α → Option (List α × List α)
  | passed, [] => if needle.isEmpty then some (passed.reverse, []) else none
  | passed, c :: rest =>
      if needle.isPrefixOf (c :: rest) then
        some (passed.reverse, (c :: rest).drop needle.length)
      else splitAtFrom? needle (c :: passed) rest

/-- The text before and the text behind the first occurrence of `needle`. -/
def splitAtFirst? {α : Type} [BEq α] (needle text : List α) : Option (List α × List α) :=
  splitAtFrom? needle [] text

/-- The text before and the text behind the last occurrence of `needle`. -/
def splitAtLast? {α : Type} [BEq α] (needle text : List α) : Option (List α × List α) :=
  (splitAtFirst? needle.reverse text.reverse).map fun (behind, before) =>
    (before.reverse, behind.reverse)

/-- What follows the last `::` of a path, or all of it. -/
def lastPathSegment (path : Text) : Text :=
  match splitAtLast? [':', ':'] path with
  | some (_, segment) => segment
  | none => path

/-- Replaces the occurrences of `needle` from left to right; `skip` characters belong to
an occurrence already replaced. -/
def replaceFrom (needle replacement : Text) : (skip : Nat) → Text → Text
  | _, [] => []
  | skip + 1, _ :: rest => replaceFrom needle replacement skip rest
  | 0, c :: rest =>
      if needle.isPrefixOf (c :: rest) then
        replacement ++ replaceFrom needle replacement (needle.length - 1) rest
      else c :: replaceFrom needle replacement 0 rest

/-- Replaces every occurrence of a non-empty `needle`. -/
def replaceAll (needle replacement text : Text) : Text :=
  replaceFrom needle replacement 0 text

/-- Drops the occurrences of a non-empty `needle` at the end of a text; `steps` bounds
their number. -/
def dropEndings (needle : Text) : (steps : Nat) → Text → Text
  | 0, text => text
  | steps + 1, text =>
      if needle.isSuffixOf text then
        dropEndings needle steps (text.take (text.length - needle.length))
      else text

/-- Drops every occurrence of a non-empty `needle` at the end of a text. -/
def trimEndings (needle text : Text) : Text :=
  dropEndings needle text.length text

end Text
end SourceAtlas
