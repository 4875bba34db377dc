import Mathlib.Data.List.Chain
import SourceAtlas.Proofs.UseGroups

/-!
# Names with bracketed parts

A list of names is split at the commas outside brackets, and what stands in brackets is dropped.
One depth serves all kinds of brackets.  Where brackets are nested it comes back to where it was,
so the names of a list are found again behind whatever brackets follow them.
-/

namespace SourceAtlas
namespace Text

/-! ## Brackets -/

inductive Bracket where
  | angle
  | square
  | round
  deriving DecidableEq, Repr

namespace Bracket

def opening : Bracket → Char
  | angle => '<'
  | square => '['
  | round => '('

def closing : Bracket → Char
  | angle => '>'
  | square => ']'
  | round => ')'

end Bracket

def isBracket (c : Char) : Bool :=
  opensBracket c || closesBracket c

/-- Whether every bracket is closed by one of its kind, behind what is opened inside. -/
inductive Nested : Text → Prop
  | nothing : Nested []
  | plain {c : Char} {rest : Text} (plain : isBracket c = false) (nested : Nested rest) :
      Nested (c :: rest)
  | group (bracket : Bracket) {inner rest : Text} (inside : Nested inner) (behind : Nested rest) :
      Nested (bracket.opening :: (inner ++ bracket.closing :: rest))

/-- A bracket with what it encloses. -/
structure BracketGroup where
  bracket : Bracket
  inner : Text
  nested : Nested inner

def BracketGroup.text (group : BracketGroup) : Text :=
  group.bracket.opening :: (group.inner ++ [group.bracket.closing])

/-- A name without commas and brackets, and the groups behind it. -/
structure NameEntry where
  name : Text
  plain : ∀ c ∈ name, c ≠ ',' ∧ isBracket c = false
  groups : List BracketGroup

def NameEntry.text (entry : NameEntry) : Text :=
  entry.name ++ entry.groups.flatMap BracketGroup.text

/-! ## What stands outside brackets -/

theorem outsideBrackets_opening (bracket : Bracket) (depth : Nat) (rest : Text) :
    outsideBrackets depth (bracket.opening :: rest) = outsideBrackets (depth + 1) rest := by
  cases bracket <;> rfl

theorem outsideBrackets_closing (bracket : Bracket) (depth : Nat) (rest : Text) :
    outsideBrackets (depth + 1) (bracket.closing :: rest) = outsideBrackets depth rest := by
  cases bracket <;> rfl

theorem outsideBrackets_plain {c : Char} (plain : isBracket c = false) (depth : Nat) (rest : Text) :
    outsideBrackets depth (c :: rest) =
      if depth = 0 then c :: outsideBrackets depth rest else outsideBrackets depth rest := by
  rw [isBracket, Bool.or_eq_false_iff] at plain
  simp [outsideBrackets, plain.1, plain.2]

/-- Inside brackets, a nested text is dropped and the depth is the same behind it. -/
theorem Nested.outsideBrackets_append {inner : Text} (nested : Nested inner) (depth : Nat)
    (rest : Text) :
    outsideBrackets (depth + 1) (inner ++ rest) = outsideBrackets (depth + 1) rest := by
  induction nested generalizing depth rest with
  | nothing => rfl
  | plain plain _ ih =>
      rw [List.cons_append, outsideBrackets_plain plain, if_neg (Nat.succ_ne_zero depth), ih]
  | group bracket _ _ insideIh behindIh =>
      rw [List.cons_append, outsideBrackets_opening, List.append_assoc, insideIh,
        List.cons_append, outsideBrackets_closing, behindIh]

theorem outsideBrackets_groups (groups : List BracketGroup) (depth : Nat) (rest : Text) :
    outsideBrackets depth (groups.flatMap BracketGroup.text ++ rest) =
      outsideBrackets depth rest := by
  induction groups with
  | nil => rfl
  | cons group groups ih =>
      rw [List.flatMap_cons, List.append_assoc, BracketGroup.text, List.cons_append,
        outsideBrackets_opening, List.append_assoc, group.nested.outsideBrackets_append,
        List.singleton_append, outsideBrackets_closing, ih]

theorem outsideBrackets_append {front : Text} (plain : ∀ c ∈ front, isBracket c = false)
    (rest : Text) : outsideBrackets 0 (front ++ rest) = front ++ outsideBrackets 0 rest := by
  induction front with
  | nil => rfl
  | cons c front ih =>
      obtain ⟨here, others⟩ := List.forall_mem_cons.mp plain
      rw [List.cons_append, outsideBrackets_plain here, if_pos rfl, ih others, List.cons_append]

theorem isBracket_of_mem_outsideBrackets {c : Char} {depth : Nat} {text : Text}
    (member : c ∈ outsideBrackets depth text) : isBracket c = false := by
  induction text generalizing depth with
  | nil => cases member
  | cons d rest ih =>
      cases bracket : isBracket d with
      | false =>
          rw [outsideBrackets_plain bracket] at member
          split at member
          · rcases List.mem_cons.mp member with rfl | behind
            · exact bracket
            · exact ih behind
          · exact ih member
      | true =>
          rw [outsideBrackets] at member
          split at member
          · exact ih member
          · split at member
            · exact ih member
            · simp_all [isBracket]

theorem outsideBrackets_entry (entry : NameEntry) (rest : Text) :
    outsideBrackets 0 (entry.text ++ rest) = entry.name ++ outsideBrackets 0 rest := by
  rw [NameEntry.text, List.append_assoc,
    outsideBrackets_append fun c member => (entry.plain c member).2, outsideBrackets_groups]

theorem outsideBrackets_entries (entries : List NameEntry) :
    outsideBrackets 0 ([','].intercalate (entries.map NameEntry.text)) =
      [','].intercalate (entries.map NameEntry.name) := by
  induction entries with
  | nil => rfl
  | cons entry entries ih =>
      cases entries with
      | nil =>
          have single := outsideBrackets_entry entry []
          simpa [outsideBrackets] using single
      | cons next entries =>
          have comma (rest : Text) :
              outsideBrackets 0 (',' :: rest) = ',' :: outsideBrackets 0 rest :=
            rfl
          rw [List.map_cons, List.map_cons, List.intercalate_cons_cons, List.append_assoc,
            outsideBrackets_entry, List.singleton_append, comma, ← List.map_cons, ih]
          simp [List.intercalate_cons_cons]

/-! ## Compact names -/

theorem head?_compact (text : Text) : (compact text).head?.any isBlank = false := by
  induction text with
  | nil => rfl
  | cons c rest ih =>
      cases blank : isBlank c with
      | true => rwa [compact_cons_of_blank blank]
      | false => simp [compact_cons_of_solid blank, blank]

theorem getLast?_compact (text : Text) : (compact text).getLast?.any isBlank = false := by
  rw [compact_eq_trimEnd_squeeze, trimEnd_eq_rdropWhile]
  cases last : ((squeeze text).rdropWhile isBlank).getLast? with
  | none => rfl
  | some c =>
      have remains : (squeeze text).rdropWhile isBlank ≠ [] := by
        intro nothing
        simp [nothing] at last
      rw [List.getLast?_eq_some_getLast remains, Option.some.injEq] at last
      simpa [← last] using List.rdropWhile_last_not isBlank _ remains

theorem SingleSpaced.cons {c : Char} {rest : Text} (spaced : SingleSpaced rest)
    (single : isBlank c = true → c = ' ' ∧ rest.head?.any isBlank = false) :
    SingleSpaced (c :: rest) := by
  refine ⟨?_, ?_⟩
  · intro d member blank
    rcases List.mem_cons.mp member with rfl | behind
    · exact (single blank).1
    · exact spaced.spaces d behind blank
  · cases rest with
    | nil => exact List.isChain_singleton _
    | cons d rest =>
        exact List.isChain_cons_cons.mpr ⟨fun blank => (single blank).2, spaced.alone⟩

theorem singleSpaced_compact (text : Text) : SingleSpaced (compact text) := by
  induction text with
  | nil => exact ⟨by simp [compact, fields, splitWhere], List.isChain_nil⟩
  | cons c rest ih =>
      cases blank : isBlank c with
      | true => rwa [compact_cons_of_blank blank]
      | false =>
          have spaced : SingleSpaced (' ' :: compact rest) :=
            ih.cons fun _ => ⟨rfl, head?_compact rest⟩
          rw [compact_cons_of_solid blank]
          split
          · exact spaced.cons (by simp [blank])
          · exact ih.cons (by simp [blank])

theorem compact_compact (text : Text) : compact (compact text) = compact text :=
  (singleSpaced_compact text).compact_eq (head?_compact text) (getLast?_compact text)

theorem mem_of_mem_compact {c : Char} {text : Text} (member : c ∈ compact text)
    (solid : isBlank c = false) : c ∈ text := by
  have kept : c ∈ solids (compact text) := mem_solids.mpr ⟨member, solid⟩
  rw [solids_compact] at kept
  exact (mem_solids.mp kept).1

/-! ## Splitting into names -/

/-- Joined pieces are compacted one by one, and the blank ones are left out. -/
theorem compact_split_intercalate {pieces : List Text} (whole : ∀ piece ∈ pieces, ',' ∉ piece) :
    ((splitWhere (· == ',') ([','].intercalate pieces)).map compact).filter (!·.isEmpty) =
      (pieces.filter (·.any (!isBlank ·))).map compact := by
  have blank (piece : Text) : (!(compact piece).isEmpty) = piece.any (!isBlank ·) := by
    rw [Bool.eq_iff_iff, Bool.not_eq_true', List.isEmpty_eq_false_iff, Ne, compact_eq_nil_iff,
      solids_eq_nil_iff]
    simp
  cases pieces with
  | nil => rfl
  | cons piece pieces =>
      rw [splitWhere_eq_splitOnP, ← List.splitOn_eq_splitOnP,
        List.splitOn_intercalate ',' whole (List.cons_ne_nil _ _), List.filter_map]
      simp only [Function.comp_def, blank]

theorem splitNames_entries (entries : List NameEntry) :
    splitNames ([','].intercalate (entries.map NameEntry.text)) =
      ((entries.map NameEntry.name).filter (·.any (!isBlank ·))).map compact := by
  rw [splitNames, outsideBrackets_entries, compact_split_intercalate]
  intro name member comma
  obtain ⟨entry, -, rfl⟩ := List.mem_map.mp member
  exact (entry.plain ',' comma).1 rfl

theorem splitNames_of_plain {pieces : List Text}
    (plain : ∀ piece ∈ pieces, ∀ c ∈ piece, c ≠ ',' ∧ isBracket c = false) :
    splitNames ([','].intercalate pieces) =
      (pieces.filter (·.any (!isBlank ·))).map compact := by
  let entries := pieces.pmap (fun piece plain => NameEntry.mk piece plain []) plain
  have texts : entries.map NameEntry.text = pieces := by
    simp [entries, List.map_pmap, NameEntry.text]
  have names : entries.map NameEntry.name = pieces := by
    simp [entries, List.map_pmap]
  have split := splitNames_entries entries
  rwa [texts, names] at split

/-- Whether a text is what splitting leaves of a name. -/
structure IsSplitName (name : Text) : Prop where
  notEmpty : name ≠ []
  plain : ∀ c ∈ name, c ≠ ',' ∧ isBracket c = false
  compacted : compact name = name

theorem isSplitName_of_mem {text name : Text} (member : name ∈ splitNames text) :
    IsSplitName name := by
  obtain ⟨listed, notEmpty⟩ := List.mem_filter.mp member
  obtain ⟨piece, split, rfl⟩ := List.mem_map.mp listed
  refine ⟨by simpa using notEmpty, fun c inside => ?_, compact_compact piece⟩
  cases blank : isBlank c with
  | true =>
      obtain rfl := (singleSpaced_compact piece).spaces c inside blank
      decide
  | false =>
      obtain ⟨outside, noComma⟩ := of_mem_splitWhere split c (mem_of_mem_compact inside blank)
      exact ⟨by simpa using noComma, isBracket_of_mem_outsideBrackets outside⟩

theorem IsSplitName.any_solid {name : Text} (isName : IsSplitName name) :
    name.any (!isBlank ·) = true := by
  by_contra blank
  have nothing : solids name = [] := by
    rw [solids_eq_nil_iff]
    simpa using blank
  rw [← compact_eq_nil_iff, isName.compacted] at nothing
  exact isName.notEmpty nothing

/-- Joined names are entries without groups, with a space in front of all names but the first. -/
theorem splitNames_intercalate {names : List Text} (areNames : ∀ name ∈ names, IsSplitName name) :
    splitNames ([',', ' '].intercalate names) = names := by
  cases names with
  | nil => rfl
  | cons name names =>
      obtain ⟨first, others⟩ := List.forall_mem_cons.mp areNames
      have plain : ∀ piece ∈ name :: names.map (' ' :: ·),
          ∀ c ∈ piece, c ≠ ',' ∧ isBracket c = false := by
        refine List.forall_mem_cons.mpr ⟨first.plain, List.forall_mem_map.mpr fun other known => ?_⟩
        exact List.forall_mem_cons.mpr ⟨by decide, (others other known).plain⟩
      have solid : ∀ piece ∈ name :: names.map (' ' :: ·), piece.any (!isBlank ·) = true := by
        refine List.forall_mem_cons.mpr
          ⟨first.any_solid, List.forall_mem_map.mpr fun other known => ?_⟩
        rw [List.any_cons, (others other known).any_solid, Bool.or_true]
      have compacted (other : Text) (known : other ∈ names) :
          (compact ∘ (' ' :: ·)) other = id other :=
        (compact_cons_of_blank (by decide) other).trans (others other known).compacted
      rw [intercalate_comma_space, splitNames_of_plain plain, List.filter_eq_self.mpr solid,
        List.map_cons, List.map_map, List.map_congr_left compacted, List.map_id, first.compacted]

/-- Every name that a list is split into is compact, is not empty and has neither commas nor
brackets.  Joining the names and splitting again gives them back, and names that are joined with
nested brackets behind them are found in their order, compacted and without the blank ones. -/
theorem splitNames_undoes_joining (text : Text) (entries : List NameEntry) :
    (∀ name ∈ splitNames text,
      name ≠ [] ∧ (∀ c ∈ name, c ≠ ',' ∧ c ∉ ['<', '>', '[', ']', '(', ')']) ∧
        name.head?.any isBlank = false ∧ name.getLast?.any isBlank = false ∧
        SingleSpaced name) ∧
    splitNames ([',', ' '].intercalate (splitNames text)) = splitNames text ∧
    splitNames ([','].intercalate (entries.map NameEntry.text)) =
      ((entries.map NameEntry.name).filter (·.any (!isBlank ·))).map compact := by
  refine ⟨fun name member => ?_, splitNames_intercalate fun _ => isSplitName_of_mem,
    splitNames_entries entries⟩
  obtain ⟨notEmpty, plain, compacted⟩ := isSplitName_of_mem member
  have begins := head?_compact name
  have ends := getLast?_compact name
  have spaced := singleSpaced_compact name
  rw [compacted] at begins ends spaced
  refine ⟨notEmpty, fun c inside => ⟨(plain c inside).1, ?_⟩, begins, ends, spaced⟩
  have other := (plain c inside).2
  simp_all [isBracket, opensBracket, closesBracket]

/-- Two names and one of blanks only, with brackets in brackets behind the first. -/
def bracketedEntries : List NameEntry :=
  [⟨[' ', 'A', ' ', ' ', 'B'], by simp [isBracket, opensBracket, closesBracket],
      [⟨.angle, ['K', ',', '[', 'V', ']'],
        .plain rfl (.plain rfl (.group .square (.plain rfl .nothing) .nothing))⟩]⟩,
    ⟨[' '], by simp [isBracket, opensBracket, closesBracket], [⟨.round, [], .nothing⟩]⟩,
    ⟨['C'], by simp [isBracket, opensBracket, closesBracket], []⟩]

def bracketedText : Text := " A  B<K,[V]>, (),C".toList

theorem splitNames_bracketedEntries :
    [','].intercalate (bracketedEntries.map NameEntry.text) = bracketedText ∧
      splitNames bracketedText = [['A', ' ', 'B'], ['C']] ∧ SingleSpaced ['A', ' ', 'B'] ∧
      splitNames ([',', ' '].intercalate [['A', ' ', 'B'], ['C']]) = [['A', ' ', 'B'], ['C']] := by
  have joined : [','].intercalate (bracketedEntries.map NameEntry.text) = bracketedText := by
    decide +kernel
  obtain ⟨spaced, again, split⟩ := splitNames_undoes_joining bracketedText bracketedEntries
  have names : splitNames bracketedText = [['A', ' ', 'B'], ['C']] := by
    rw [← joined, split]
    decide +kernel
  rw [names] at spaced again
  exact ⟨joined, names, (spaced _ List.mem_cons_self).2.2.2.2, again⟩

end Text
end SourceAtlas
