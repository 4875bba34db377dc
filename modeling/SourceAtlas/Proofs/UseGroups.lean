import SourceAtlas.Proofs.BraceSplitting
import SourceAtlas.Proofs.FileNames
import SourceAtlas.Proofs.UsedWords

/-!
# Groups in use trees

The outermost group of a use tree is split at the commas outside inner groups, and every piece
stands for a path behind the stem of the group.  The text is compacted first, so blanks in the stem
and in the items come out as single spaces.
-/

namespace SourceAtlas
namespace Rust

open Text

/-! ## Expanding a group -/

/-- The text of a use tree that its paths are read from. -/
def normalForm (tree : Text) : Text :=
  replaceAll " :: ".toList "::".toList (compact tree)

@[simp]
theorem solids_normalForm (tree : Text) : solids (normalForm tree) = solids tree := by
  rw [normalForm, solids_replaceAll (by decide) (by decide), solids_compact]

theorem expandUse_of_notMem {tree : Text} (single : '\x7b' ∉ normalForm tree) :
    expandUse tree = [normalForm tree] := by
  have unopened : splitAtFirst? ['\x7b'] (normalForm tree) = none :=
    splitAtFrom?_of_notMem single []
  unfold expandUse
  unfold normalForm at unopened ⊢
  simp only [unopened]

/-- The paths of the pieces of a group behind its stem. -/
def piecePaths (stem : Text) (pieces : List Text) : List Text :=
  ((pieces.map trim).filter (!·.isEmpty)).map (groupedPath stem)

theorem expandUse_of_group {tree stem inside after : Text}
    (split : normalForm tree = stem ++ '\x7b' :: (inside ++ '\x7d' :: after))
    (first : '\x7b' ∉ stem) (last : '\x7d' ∉ after) :
    expandUse tree = piecePaths stem (splitOutsideBraces 0 inside) := by
  have opened : splitAtFirst? ['\x7b'] (normalForm tree) =
      some (stem, inside ++ '\x7d' :: after) := by
    rw [split, splitAtFirst?, splitAtFrom?_append first, List.reverse_nil, List.nil_append]
  unfold expandUse
  unfold normalForm at opened
  simp only [opened, splitAtLast?_append last inside]
  rfl

theorem expandUse_of_unclosed {tree stem behind : Text}
    (split : normalForm tree = stem ++ '\x7b' :: behind) (first : '\x7b' ∉ stem)
    (unclosed : '\x7d' ∉ behind) : expandUse tree = [normalForm tree] := by
  have opened : splitAtFirst? ['\x7b'] (normalForm tree) = some (stem, behind) := by
    rw [split, splitAtFirst?, splitAtFrom?_append first, List.reverse_nil, List.nil_append]
  unfold expandUse
  unfold normalForm at opened ⊢
  simp only [opened, splitAtLast?_of_notMem unclosed]

/-- A group of use trees behind a stem.  Commas and braces of its own items are nested. -/
structure UseGroup where
  stem : Text
  unopened : '\x7b' ∉ stem
  items : List Text
  notEmpty : items ≠ []
  notBlank : ∀ item ∈ items, solids item ≠ []
  balanced : ∀ item ∈ items, Balanced item
  commasInside : ∀ item ∈ items, CommasInside item

namespace UseGroup

variable (group : UseGroup)

def text : Text :=
  group.stem ++ '\x7b' :: ([',', ' '].intercalate group.items ++ ['\x7d'])

/-- What stands between the commas of the group. -/
def pieces : List Text :=
  group.items.take 1 ++ (group.items.drop 1).map (' ' :: ·)

end UseGroup

theorem squeezeFrom_intercalate (pieces : List Text) :
    squeezeFrom false ([','].intercalate pieces) =
      [','].intercalate (pieces.map (squeezeFrom false)) := by
  induction pieces with
  | nil => rfl
  | cons piece pieces ih =>
      cases pieces with
      | nil => simp
      | cons next pieces =>
          rw [List.intercalate_cons_cons, List.append_assoc, List.singleton_append,
            squeezeFrom_append_cons (by decide), ih]
          simp [List.intercalate_cons_cons]

namespace UseGroup

variable {group : UseGroup}

theorem pieces_ne_nil : group.pieces ≠ [] := by
  obtain ⟨item, items, listed⟩ := List.exists_cons_of_ne_nil group.notEmpty
  simp [pieces, listed]

theorem mem_pieces {piece : Text} (member : piece ∈ group.pieces) :
    ∃ item ∈ group.items, piece = item ∨ piece = ' ' :: item := by
  rcases List.mem_append.mp member with first | later
  · exact ⟨piece, List.mem_of_mem_take first, .inl rfl⟩
  · obtain ⟨item, known, rfl⟩ := List.mem_map.mp later
    exact ⟨item, List.mem_of_mem_drop known, .inr rfl⟩

theorem map_compact_pieces : group.pieces.map compact = group.items.map compact := by
  have space (item : Text) : compact (' ' :: item) = compact item :=
    compact_cons_of_blank (by decide) item
  rw [pieces, List.map_append, List.map_map]
  simp only [Function.comp_def, space]
  rw [← List.map_append, List.take_append_drop]

theorem text_eq :
    group.text = group.stem ++ '\x7b' :: ([','].intercalate group.pieces ++ ['\x7d']) := by
  obtain ⟨item, items, listed⟩ := List.exists_cons_of_ne_nil group.notEmpty
  rw [text, pieces, listed, intercalate_comma_space]
  rfl

/-- Compacting a group squeezes its stem and its pieces. -/
theorem compact_text :
    compact group.text = squeeze group.stem ++ '\x7b' ::
      ([','].intercalate (group.pieces.map (squeezeFrom false)) ++ ['\x7d']) := by
  have last : isBlank '\x7d' = false := by decide
  have squeezed : squeeze group.text = squeeze group.stem ++ '\x7b' ::
      ([','].intercalate (group.pieces.map (squeezeFrom false)) ++ ['\x7d']) := by
    rw [text_eq, squeeze, squeezeFrom_append_cons (by decide), squeezeFrom_append_cons last,
      squeezeFrom_intercalate]
    rfl
  rw [compact_eq_trimEnd_squeeze, squeezed, ← List.cons_append, ← List.append_assoc,
    trimEnd_eq_rdropWhile, List.rdropWhile_concat_neg _ _ _ (by simp [last])]

theorem depthBehind?_squeezed_piece {piece : Text}
    (member : piece ∈ group.pieces.map (squeezeFrom false)) : depthBehind? 0 piece = some 0 := by
  obtain ⟨part, known, rfl⟩ := List.mem_map.mp member
  obtain ⟨item, isItem, same⟩ := mem_pieces known
  have solid : solids part = solids item := by
    rcases same with rfl | rfl
    · rfl
    · exact solids_cons_of_blank (by decide) item
  rw [← depthBehind?_solids, solids_squeezeFrom, solid, depthBehind?_solids]
  exact (group.balanced item isItem).depthBehind?_eq (group.commasInside item isItem)

theorem expandUse_text (tight : ¬" :: ".toList <:+: compact group.text) :
    expandUse group.text =
      group.items.map fun item => groupedPath (squeeze group.stem) (compact item) := by
  have normal : normalForm group.text = _ :=
    (replaceAll_of_absent _ tight).trans compact_text
  have first : '\x7b' ∉ squeeze group.stem := by
    intro member
    have solid := mem_solids.mpr ⟨member, by decide⟩
    rw [squeeze, solids_squeezeFrom] at solid
    exact group.unopened (mem_solids.mp solid).1
  have trimmed : (group.pieces.map (squeezeFrom false)).map trim = group.items.map compact := by
    rw [List.map_map, ← map_compact_pieces]
    exact List.map_congr_left fun piece _ => trim_squeezeFrom false piece
  have kept : (group.items.map compact).filter (!·.isEmpty) = group.items.map compact := by
    rw [List.filter_eq_self]
    intro name member
    obtain ⟨item, isItem, rfl⟩ := List.mem_map.mp member
    simpa [compact_eq_nil_iff] using group.notBlank item isItem
  have split := splitOutsideBraces_intercalate (by simpa using pieces_ne_nil)
    fun piece => group.depthBehind?_squeezed_piece
  rw [expandUse_of_group normal first List.not_mem_nil, piecePaths, split, trimmed, kept,
    List.map_map]
  rfl

/-- Whether the stem does not begin with a blank, the items neither begin nor end with one, and
every blank in them is a single space. -/
structure Compacted (group : UseGroup) : Prop where
  stem : SingleSpaced group.stem
  begins : group.stem.head?.any isBlank = false
  items : ∀ item ∈ group.items, SingleSpaced item
  itemBegins : ∀ item ∈ group.items, item.head?.any isBlank = false
  itemEnds : ∀ item ∈ group.items, item.getLast?.any isBlank = false

theorem Compacted.compact_text (compacted : group.Compacted) : compact group.text = group.text := by
  have same : group.pieces.map (squeezeFrom false) = group.pieces := by
    conv => rhs; rw [← List.map_id group.pieces]
    apply List.map_congr_left
    intro piece member
    obtain ⟨item, isItem, rfl | rfl⟩ := mem_pieces member
    · exact (compacted.items piece isItem).squeezeFrom_eq (by simp)
    · have begins := compacted.itemBegins item isItem
      have squeezed := (compacted.items item isItem).squeeze_eq begins
      rw [squeezeFrom, if_pos (by decide), if_neg (by decide), ← squeeze, squeezed]
      rfl
  rw [UseGroup.compact_text, same, compacted.stem.squeeze_eq compacted.begins, text_eq]

theorem Compacted.expandUse_text (compacted : group.Compacted)
    (tight : ¬" :: ".toList <:+: group.text) :
    expandUse group.text = group.items.map (groupedPath group.stem) := by
  rw [UseGroup.expandUse_text (by rwa [compacted.compact_text]),
    compacted.stem.squeeze_eq compacted.begins]
  apply List.map_congr_left
  intro item member
  rw [(compacted.items item member).compact_eq (compacted.itemBegins item member)
    (compacted.itemEnds item member)]

end UseGroup

/-! ## Cutting at offsets -/

/-- Whether a range of a text holds a piece. -/
def Holds (text : Text) (span : Span) (piece : Text) : Prop :=
  ∃ before after, text = before ++ (piece ++ after) ∧
    span = ⟨byteLength before, byteLength before + byteLength piece⟩

theorem Holds.isAligned {text piece : Text} {span : Span} (holds : Holds text span piece) :
    IsAligned text span := by
  obtain ⟨before, after, split, range⟩ := holds
  exact ⟨before, piece, after, split, range⟩

theorem Holds.slice_eq {text piece : Text} {span : Span} (holds : Holds text span piece) :
    slice text span = piece := by
  obtain ⟨before, after, rfl, rfl⟩ := holds
  rw [slice_append, takeBytes_append_of_le (Nat.le_refl _),
    takeBytes_of_byteLength_le (Nat.le_refl _)]

/-- The ranges between the commas outside braces.  A piece that begins at `start` is followed up to
`offset`, and the last one ends at `stop`. -/
def commaSpans (stop : Nat) : (start offset depth : Nat) → Text → List Span
  | start, _, _, [] => [⟨start, stop⟩]
  | start, offset, depth, c :: rest =>
      let next := offset + c.utf8Size
      if c = '\x7b' then commaSpans stop start next (depth + 1) rest
      else if c = '\x7d' then commaSpans stop start next (depth - 1) rest
      else if c = ',' ∧ depth = 0 then
        ⟨start, offset⟩ :: commaSpans stop (offset + 1) next depth rest
      else commaSpans stop start next depth rest

/-- The ranges hold what is split, the first of them together with the piece it was begun with. -/
theorem commaSpans_holds {text : Text} (depth : Nat) (before piece rest after : Text)
    (split : text = before ++ (piece ++ (rest ++ after))) :
    List.Forall₂ (Holds text)
      (commaSpans (byteLength (before ++ (piece ++ rest))) (byteLength before)
        (byteLength (before ++ piece)) depth rest)
      ((splitOutsideBraces depth rest).modifyHead (piece ++ ·)) := by
  induction rest generalizing depth before piece with
  | nil =>
      refine .cons ⟨before, after, ?_, ?_⟩ .nil
      · simpa using split
      · simp
  | cons c rest ih =>
      -- The piece goes on with `c`.
      have extend (deeper : Nat) : List.Forall₂ (Holds text)
          (commaSpans (byteLength (before ++ (piece ++ c :: rest))) (byteLength before)
            (byteLength (before ++ piece) + c.utf8Size) deeper rest)
          ((splitStep (fun _ => false) c (splitOutsideBraces deeper rest)).modifyHead
            (piece ++ ·)) := by
        have longer := ih deeper before (piece ++ [c]) (by simpa using split)
        cases pieces : splitOutsideBraces deeper rest with
        | nil => exact absurd pieces (splitOutsideBraces_ne_nil _ _)
        | cons first others =>
            rw [pieces] at longer
            simpa [splitStep, Nat.add_assoc] using longer
      rw [commaSpans, splitOutsideBraces]
      split
      case isTrue opening =>
        subst opening
        exact extend (depth + 1)
      case isFalse notOpening =>
        split
        case isTrue closing =>
          subst closing
          exact extend (depth - 1)
        case isFalse notClosing =>
          split
          case isTrue comma =>
            obtain ⟨rfl, rfl⟩ := comma
            have fresh := ih 0 (before ++ (piece ++ [','])) [] (by simpa using split)
            have size : (',' : Char).utf8Size = 1 := rfl
            refine .cons ⟨before, ',' :: (rest ++ after), by simpa using split, by simp⟩ ?_
            cases pieces : splitOutsideBraces 0 rest with
            | nil => exact absurd pieces (splitOutsideBraces_ne_nil _ _)
            | cons first others =>
                rw [pieces] at fresh
                simpa [size, Nat.add_assoc] using fresh
          case isFalse notComma =>
            have joined : (c == ',' && depth == 0) = false := by simpa using notComma
            simpa [splitStep, joined] using extend depth

/-- The ranges that a group is cut into. -/
structure GroupCuts where
  stem : Span
  inside : Span
  items : List Span

/-- The cuts of the group between the first opening and the last closing brace. -/
def groupCuts? (text : Text) : Option GroupCuts := do
  let opening ← (splitAtFirst? ['\x7b'] text).map fun parts => byteLength parts.1
  let closing ← (splitAtLast? ['\x7d'] text).map fun parts => byteLength parts.1
  let inside : Span := ⟨opening + 1, closing⟩
  if closing < opening then none
  else some ⟨⟨0, opening⟩, inside,
    commaSpans closing (opening + 1) (opening + 1) 0 (slice text inside)⟩

/-- The paths of a text that is cut at offsets. -/
def cutPaths (text : Text) : Option GroupCuts → List Text
  | none => [text]
  | some cuts => piecePaths (slice text cuts.stem) (cuts.items.map (slice text))

/-- What the cuts of a text hold, if it has a group. -/
theorem groupCuts?_of_group {text stem inside after : Text}
    (split : text = stem ++ '\x7b' :: (inside ++ '\x7d' :: after)) (first : '\x7b' ∉ stem)
    (last : '\x7d' ∉ after) :
    ∃ cuts, groupCuts? text = some cuts ∧ Holds text cuts.stem stem ∧
      Holds text cuts.inside inside ∧
      List.Forall₂ (Holds text) cuts.items (splitOutsideBraces 0 inside) := by
  have opening : ('\x7b' : Char).utf8Size = 1 := rfl
  have opened : splitAtFirst? ['\x7b'] text = some (stem, inside ++ '\x7d' :: after) := by
    rw [split, splitAtFirst?, splitAtFrom?_append first, List.reverse_nil, List.nil_append]
  have closed : splitAtLast? ['\x7d'] text = some (stem ++ '\x7b' :: inside, after) := by
    rw [split, ← List.cons_append, ← List.append_assoc, splitAtLast?_append last]
  have insideHeld : Holds text
      ⟨byteLength stem + 1, byteLength (stem ++ '\x7b' :: inside)⟩ inside := by
    refine ⟨stem ++ ['\x7b'], '\x7d' :: after, by simpa using split, ?_⟩
    simp [opening, Nat.add_assoc]
  have ordered : ¬byteLength (stem ++ '\x7b' :: inside) < byteLength stem := by
    rw [byteLength_append]
    omega
  have cut : groupCuts? text = some ⟨⟨0, byteLength stem⟩,
      ⟨byteLength stem + 1, byteLength (stem ++ '\x7b' :: inside)⟩,
      commaSpans (byteLength (stem ++ '\x7b' :: inside)) (byteLength stem + 1)
        (byteLength stem + 1) 0 inside⟩ := by
    simp only [groupCuts?, opened, closed, Option.map_some, Option.bind_eq_bind, Option.bind_some,
      if_neg ordered, insideHeld.slice_eq]
  refine ⟨_, cut, ⟨[], _, split, by simp⟩, insideHeld, ?_⟩
  have spans := commaSpans_holds 0 (stem ++ ['\x7b']) [] inside ('\x7d' :: after)
    (by simpa using split)
  have same : (splitOutsideBraces 0 inside).modifyHead ([] ++ ·) = splitOutsideBraces 0 inside := by
    cases splitOutsideBraces 0 inside <;> rfl
  rw [same] at spans
  simpa [opening, Nat.add_assoc] using spans

theorem exists_last {c : Char} {text : Text} (present : c ∈ text) :
    ∃ front behind, text = front ++ c :: behind ∧ c ∉ behind := by
  obtain ⟨behind, front, reversed, absent⟩ :=
    List.eq_append_cons_of_mem (List.mem_reverse.mpr present)
  refine ⟨front.reverse, behind.reverse, ?_, by simpa using absent⟩
  rw [← List.reverse_reverse text, reversed]
  simp

theorem groupCuts?_of_notMem {text : Text} (single : '\x7b' ∉ text) : groupCuts? text = none := by
  have unopened : splitAtFirst? ['\x7b'] text = none := splitAtFrom?_of_notMem single []
  simp [groupCuts?, unopened]

theorem groupCuts?_of_unclosed {text stem behind : Text} (split : text = stem ++ '\x7b' :: behind)
    (first : '\x7b' ∉ stem) (unclosed : '\x7d' ∉ behind) : groupCuts? text = none := by
  have opened : splitAtFirst? ['\x7b'] text = some (stem, behind) := by
    rw [split, splitAtFirst?, splitAtFrom?_append first, List.reverse_nil, List.nil_append]
  have unclosedOn : '\x7d' ∉ '\x7b' :: behind := by simpa using unclosed
  by_cases before : '\x7d' ∈ stem
  · obtain ⟨front, between, rfl, absent⟩ := exists_last before
    have last : '\x7d' ∉ between ++ '\x7b' :: behind := by
      rw [List.mem_append, not_or]
      exact ⟨absent, unclosedOn⟩
    have closed : splitAtLast? ['\x7d'] text = some (front, between ++ '\x7b' :: behind) := by
      rw [split, List.append_assoc, List.cons_append, splitAtLast?_append last]
    have early : byteLength front < byteLength (front ++ '\x7d' :: between) := by
      have positive := ('\x7d' : Char).utf8Size_pos
      rw [byteLength_append, byteLength_cons]
      omega
    simp only [groupCuts?, opened, closed, Option.map_some, Option.bind_eq_bind, Option.bind_some,
      if_pos early]
  · have absent : '\x7d' ∉ text := by
      rw [split, List.mem_append, not_or]
      exact ⟨before, unclosedOn⟩
    simp [groupCuts?, opened, splitAtLast?_of_notMem absent]

/-- Cutting at offsets gives the same paths, and every cut is made between two characters of the
text. -/
theorem expandUse_eq_cutPaths (tree : Text) :
    expandUse tree = cutPaths (normalForm tree) (groupCuts? (normalForm tree)) ∧
      ∀ cuts ∈ groupCuts? (normalForm tree), ∀ span ∈ cuts.stem :: cuts.inside :: cuts.items,
        IsAligned (normalForm tree) span := by
  by_cases opening : '\x7b' ∈ normalForm tree
  · obtain ⟨stem, behind, split, first⟩ := List.eq_append_cons_of_mem opening
    by_cases closing : '\x7d' ∈ behind
    · obtain ⟨inside, after, rfl, last⟩ := exists_last closing
      obtain ⟨cuts, cut, stemHeld, insideHeld, itemsHeld⟩ := groupCuts?_of_group split first last
      have pieces : cuts.items.map (slice (normalForm tree)) = splitOutsideBraces 0 inside := by
        rw [← List.forall₂_eq_eq_eq, List.forall₂_map_left_iff]
        exact itemsHeld.imp fun _ _ holds => holds.slice_eq
      refine ⟨?_, ?_⟩
      · rw [expandUse_of_group split first last, cut, cutPaths, stemHeld.slice_eq, pieces]
      · intro others same span member
        obtain rfl : cuts = others := Option.some.inj (cut.symm.trans same)
        rcases List.mem_cons.mp member with rfl | rest
        · exact stemHeld.isAligned
        rcases List.mem_cons.mp rest with rfl | item
        · exact insideHeld.isAligned
        · have aligned := (List.forall₂_and_left (p := IsAligned (normalForm tree)) _ _).mp
            (itemsHeld.imp fun _ _ holds => ⟨holds.isAligned, holds⟩)
          exact aligned.1 span item
    · rw [expandUse_of_unclosed split first closing, groupCuts?_of_unclosed split first closing]
      exact ⟨rfl, by simp⟩
  · rw [expandUse_of_notMem opening, groupCuts?_of_notMem opening]
    exact ⟨rfl, by simp⟩

/-- Expanding a use tree undoes one level of grouping: behind the stem of a group stands every item
in turn, both with their blanks reduced to single spaces, and as they are if they are compact.
Whatever the tree is, its text is cut between two of its characters only. -/
theorem expandUse_undoes_grouping (group : UseGroup) (tree : Text) :
    (¬" :: ".toList <:+: compact group.text →
      expandUse group.text =
        group.items.map fun item => groupedPath (squeeze group.stem) (compact item)) ∧
      (group.Compacted → ¬" :: ".toList <:+: group.text →
        expandUse group.text = group.items.map (groupedPath group.stem)) ∧
      expandUse tree = cutPaths (normalForm tree) (groupCuts? (normalForm tree)) ∧
      ∀ cuts ∈ groupCuts? (normalForm tree), ∀ span ∈ cuts.stem :: cuts.inside :: cuts.items,
        IsAligned (normalForm tree) span :=
  ⟨UseGroup.expandUse_text, UseGroup.Compacted.expandUse_text, expandUse_eq_cutPaths tree⟩

/-- A group with an alias, a group inside and the stem itself among its items. -/
def nestedGroup : UseGroup where
  stem := "std::".toList
  unopened := by decide
  items := ["fs as files".toList, "io::\x7bRead, fmt::\x7bself, Write\x7d\x7d".toList,
    "self".toList]
  notEmpty := by decide
  notBlank := by decide
  balanced := by decide
  commasInside := by decide

/-- A group behind a stem with two spaces. -/
def gappedGroup : UseGroup where
  stem := "a  ::".toList
  unopened := by decide
  items := ["b".toList]
  notEmpty := by decide
  notBlank := by decide
  balanced := by decide
  commasInside := by decide

theorem expandUse_nestedGroup :
    nestedGroup.Compacted ∧ ¬" :: ".toList <:+: nestedGroup.text ∧
      expandUse nestedGroup.text =
        ["std::fs as files".toList, "std::io::\x7bRead, fmt::\x7bself, Write\x7d\x7d".toList,
          "std".toList] ∧
      ¬" :: ".toList <:+: compact gappedGroup.text ∧
      expandUse gappedGroup.text = ["a ::b".toList] := by
  have compacted : nestedGroup.Compacted :=
    ⟨by decide +kernel, by decide, by decide +kernel, by decide, by decide⟩
  have tight : ¬" :: ".toList <:+: nestedGroup.text := by decide +kernel
  have alsoTight : ¬" :: ".toList <:+: compact gappedGroup.text := by decide +kernel
  refine ⟨compacted, tight, ?_, alsoTight, ?_⟩
  · rw [(expandUse_undoes_grouping nestedGroup []).2.1 compacted tight]
    decide +kernel
  · rw [(expandUse_undoes_grouping gappedGroup []).1 alsoTight]
    decide +kernel

/-- The stem of a group is compacted too, although its items need not be. -/
theorem expandUse_gappedGroup :
    gappedGroup.text = "a  ::\x7bb\x7d".toList ∧ ¬" :: ".toList <:+: gappedGroup.text ∧
      (∀ item ∈ gappedGroup.items, SingleSpaced item ∧ item.head?.any isBlank = false ∧
        item.getLast?.any isBlank = false) ∧
      expandUse gappedGroup.text = ["a ::b".toList] ∧
      gappedGroup.items.map (groupedPath gappedGroup.stem) = ["a  ::b".toList] := by
  decide +kernel

end Rust
end SourceAtlas
