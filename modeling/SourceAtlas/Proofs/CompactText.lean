import SourceAtlas.Proofs.ImportLists

/-!
# Texts with single spaces

Compacting a text joins its fields.  The same is done from left to right by keeping one space of
every run of blanks, and this can be taken apart at every character that is no blank.  Trimming
and compacting leave those characters as they are.
-/

namespace SourceAtlas
namespace Text

/-- The characters of a text that are no blanks. -/
def solids (text : Text) : Text :=
  text.filter (!isBlank ·)

/-- A text with one space for every run of blanks; right behind a blank there is none for the
first run. -/
def squeezeFrom : (behindBlank : Bool) → Text → Text
  | _, [] => []
  | behindBlank, c :: rest =>
      if isBlank c then
        if behindBlank then squeezeFrom true rest else ' ' :: squeezeFrom true rest
      else c :: squeezeFrom false rest

/-- A text with one space for every run of blanks but the one at its beginning, which is
dropped. -/
def squeeze (text : Text) : Text :=
  squeezeFrom true text

/-! ## Solid characters -/

@[simp]
theorem solids_append (front back : Text) : solids (front ++ back) = solids front ++ solids back :=
  List.filter_append _ _

theorem solids_cons_of_blank {c : Char} (blank : isBlank c = true) (rest : Text) :
    solids (c :: rest) = solids rest := by
  simp [solids, blank]

theorem solids_cons_of_solid {c : Char} (solid : isBlank c = false) (rest : Text) :
    solids (c :: rest) = c :: solids rest := by
  simp [solids, solid]

theorem mem_solids {c : Char} {text : Text} :
    c ∈ solids text ↔ c ∈ text ∧ isBlank c = false := by
  simp [solids]

theorem solids_eq_nil_iff {text : Text} : solids text = [] ↔ ∀ c ∈ text, isBlank c = true := by
  simp [solids]

@[simp]
theorem solids_trimStart (text : Text) : solids (trimStart text) = solids text := by
  rw [trimStart]
  conv => rhs; rw [← List.takeWhile_append_dropWhile (p := isBlank) (l := text), solids_append]
  rw [solids_eq_nil_iff.mpr fun c member => List.mem_takeWhile_imp member, List.nil_append]

@[simp]
theorem solids_trimEnd (text : Text) : solids (trimEnd text) = solids text := by
  rw [trimEnd_eq_rdropWhile]
  conv => rhs; rw [← List.rdropWhile_append_rtakeWhile (p := isBlank) (l := text), solids_append]
  rw [solids_eq_nil_iff.mpr fun c member => List.mem_rtakeWhile_imp member, List.append_nil]

@[simp]
theorem solids_trim (text : Text) : solids (trim text) = solids text := by
  rw [trim, solids_trimEnd, solids_trimStart]

theorem trim_eq_nil_iff {text : Text} : trim text = [] ↔ solids text = [] := by
  constructor
  · intro nothing
    rw [← solids_trim, nothing]
    rfl
  · intro nothing
    rw [trim, trimStart, List.dropWhile_eq_nil_iff.mpr (solids_eq_nil_iff.mp nothing)]
    rfl

@[simp]
theorem solids_squeezeFrom (behindBlank : Bool) (text : Text) :
    solids (squeezeFrom behindBlank text) = solids text := by
  induction text generalizing behindBlank with
  | nil => rfl
  | cons c rest ih =>
      rw [squeezeFrom]
      split
      case isTrue blank =>
        rw [solids_cons_of_blank blank]
        split
        · exact ih true
        · rw [solids_cons_of_blank (by decide), ih]
      case isFalse solid =>
        rw [Bool.not_eq_true] at solid
        rw [solids_cons_of_solid solid, solids_cons_of_solid solid, ih]

/-! ## Compacting from left to right -/

/-- A character that is no blank divides the text for the squeeze. -/
theorem squeezeFrom_append_cons {c : Char} (solid : isBlank c = false) (behindBlank : Bool)
    (front back : Text) :
    squeezeFrom behindBlank (front ++ c :: back) =
      squeezeFrom behindBlank front ++ c :: squeezeFrom false back := by
  induction front generalizing behindBlank with
  | nil => simp [squeezeFrom, solid]
  | cons d front ih =>
      rw [List.cons_append, squeezeFrom, squeezeFrom]
      split
      · split
        · exact ih true
        · rw [ih, List.cons_append]
      · rw [ih, List.cons_append]

theorem trimEnd_cons (c : Char) (rest : Text) :
    trimEnd (c :: rest) =
      if isBlank c ∧ trimEnd rest = [] then [] else c :: trimEnd rest := by
  rw [trimEnd, List.reverse_cons, List.dropWhile_append]
  by_cases nothing : rest.reverse.dropWhile isBlank = []
  · have blankRest : trimEnd rest = [] := by rw [trimEnd, nothing, List.reverse_nil]
    cases blank : isBlank c <;> simp [nothing, blankRest, blank]
  · have remains : trimEnd rest ≠ [] := by rwa [trimEnd, Ne, List.reverse_eq_nil_iff]
    simp [nothing, remains]
    rfl

theorem fields_cons_of_blank {c : Char} (blank : isBlank c = true) (rest : Text) :
    fields (c :: rest) = fields rest := by
  simp [fields, splitWhere, splitStep, blank]

theorem fields_cons_cons_of_blank {c d : Char} (solid : isBlank c = false)
    (blank : isBlank d = true) (rest : Text) :
    fields (c :: d :: rest) = [c] :: fields rest := by
  simp [fields, splitWhere, splitStep, solid, blank]

theorem fields_cons_cons_of_solid {c d : Char} (solid : isBlank c = false)
    (alsoSolid : isBlank d = false) (rest : Text) :
    ∃ word others, fields (d :: rest) = (d :: word) :: others ∧
      fields (c :: d :: rest) = (c :: d :: word) :: others := by
  obtain ⟨word, others, pieces⟩ : ∃ word others, splitWhere isBlank rest = word :: others := by
    rw [splitWhere_eq_splitOnP]
    exact List.exists_cons_of_ne_nil (List.splitOnP_ne_nil _ _)
  have one : splitWhere isBlank (d :: rest) = (d :: word) :: others := by
    rw [splitWhere, List.foldr_cons, ← splitWhere, pieces]
    simp [splitStep, alsoSolid]
  have two : splitWhere isBlank (c :: d :: rest) = (c :: d :: word) :: others := by
    rw [splitWhere, List.foldr_cons, ← splitWhere, one]
    simp [splitStep, solid]
  exact ⟨word, others.filter (!·.isEmpty), by simp [fields, one], by simp [fields, two]⟩

theorem compact_cons_of_blank {c : Char} (blank : isBlank c = true) (rest : Text) :
    compact (c :: rest) = compact rest := by
  rw [compact, fields_cons_of_blank blank, compact]

theorem compact_eq_nil_iff_fields {text : Text} : compact text = [] ↔ fields text = [] := by
  constructor
  · intro nothing
    have notEmpty : ∀ field ∈ fields text, field ≠ [] := by simp [fields]
    rw [compact] at nothing
    cases listed : fields text with
    | nil => rfl
    | cons field others =>
        rw [listed] at nothing notEmpty
        cases others <;> simp_all [List.intercalate_cons_cons]
  · intro nothing
    rw [compact, nothing]
    rfl

/-- A character that is no blank is divided from what follows by a space if a blank follows and
something else behind it. -/
theorem compact_cons_of_solid {c : Char} (solid : isBlank c = false) (rest : Text) :
    compact (c :: rest) =
      c :: if rest.head?.any isBlank ∧ compact rest ≠ [] then ' ' :: compact rest
        else compact rest := by
  cases rest with
  | nil => simp [compact, fields, splitWhere, splitStep, solid]
  | cons d rest =>
      cases blank : isBlank d with
      | true =>
          rw [compact_cons_of_blank blank, compact, fields_cons_cons_of_blank solid blank]
          cases listed : fields rest with
          | nil => simp [compact_eq_nil_iff_fields.mpr listed]
          | cons field others =>
              have remains : compact rest ≠ [] := by
                simp [compact_eq_nil_iff_fields, listed]
              rw [List.intercalate_cons_cons, ← listed, ← compact]
              simp [blank, remains]
      | false =>
          obtain ⟨word, others, one, two⟩ := fields_cons_cons_of_solid solid blank rest
          rw [compact, compact, one, two]
          cases others <;> simp [blank, List.intercalate_cons_cons]

/-- Up to the blanks at its end, a squeezed text is compacted. -/
theorem trimEnd_squeezeFrom (behindBlank : Bool) (text : Text) :
    trimEnd (squeezeFrom behindBlank text) =
      if behindBlank = false ∧ text.head?.any isBlank ∧ compact text ≠ [] then
        ' ' :: compact text
      else compact text := by
  induction text generalizing behindBlank with
  | nil => cases behindBlank <;> rfl
  | cons c rest ih =>
      rw [squeezeFrom]
      cases blank : isBlank c with
      | true =>
          rw [compact_cons_of_blank blank]
          cases behindBlank with
          | true => simp [ih]
          | false =>
              have space : isBlank ' ' = true := by decide
              by_cases nothing : compact rest = [] <;>
                simp [trimEnd_cons, ih, space, blank, nothing]
      | false => simp [trimEnd_cons, ih, compact_cons_of_solid blank, blank]

theorem compact_eq_trimEnd_squeeze (text : Text) : compact text = trimEnd (squeeze text) := by
  simp [squeeze, trimEnd_squeezeFrom]

@[simp]
theorem solids_compact (text : Text) : solids (compact text) = solids text := by
  rw [compact_eq_trimEnd_squeeze, solids_trimEnd, squeeze, solids_squeezeFrom]

theorem trimStart_squeeze (text : Text) : trimStart (squeeze text) = squeeze text := by
  rw [squeeze]
  induction text with
  | nil => rfl
  | cons c rest ih =>
      cases blank : isBlank c with
      | true => simpa [squeezeFrom, blank] using ih
      | false => simp [squeezeFrom, trimStart, blank]

theorem trim_compact (text : Text) : trim (compact text) = compact text := by
  rw [compact_eq_trimEnd_squeeze, trim_trimEnd, trim, trimStart_squeeze]

theorem trim_squeezeFrom (behindBlank : Bool) (text : Text) :
    trim (squeezeFrom behindBlank text) = compact text := by
  have space : trimStart (' ' :: compact text) = trimStart (compact text) :=
    List.dropWhile_cons_of_pos (by decide)
  rw [← trim_trimEnd, trimEnd_squeezeFrom]
  split
  · rw [trim, space, ← trim, trim_compact]
  · exact trim_compact text

theorem compact_eq_nil_iff {text : Text} : compact text = [] ↔ solids text = [] := by
  rw [← trim_compact, trim_eq_nil_iff, solids_compact]

/-! ## Texts that are compact already -/

/-- Whether every blank is a space that stands alone. -/
structure SingleSpaced (text : Text) : Prop where
  spaces : ∀ c ∈ text, isBlank c = true → c = ' '
  alone : text.IsChain fun c d => isBlank c = true → isBlank d = false

instance (text : Text) : Decidable (SingleSpaced text) :=
  decidable_of_iff (text.all (fun c => !isBlank c || c == ' ') = true ∧
      text.IsChain fun c d => isBlank c = true → isBlank d = false)
    ⟨fun known => ⟨by simpa [imp_iff_not_or] using known.1, known.2⟩,
      fun known => ⟨by simpa [imp_iff_not_or] using known.spaces, known.alone⟩⟩

theorem SingleSpaced.squeezeFrom_eq {text : Text} (spaced : SingleSpaced text)
    {behindBlank : Bool} (begins : behindBlank = true → text.head?.any isBlank = false) :
    squeezeFrom behindBlank text = text := by
  induction text generalizing behindBlank with
  | nil => rfl
  | cons c rest ih =>
      have following : SingleSpaced rest :=
        ⟨fun d member => spaced.spaces d (List.mem_cons_of_mem _ member), spaced.alone.of_cons⟩
      rw [squeezeFrom]
      cases blank : isBlank c with
      | true =>
          obtain rfl := spaced.spaces c List.mem_cons_self blank
          cases behindBlank with
          | true => simp [blank] at begins
          | false =>
              have divided : rest.head?.any isBlank = false := by
                cases rest with
                | nil => rfl
                | cons d rest => exact (List.isChain_cons_cons.mp spaced.alone).1 blank
              simp [ih following fun _ => divided]
      | false => simp [ih following]

theorem SingleSpaced.squeeze_eq {text : Text} (spaced : SingleSpaced text)
    (begins : text.head?.any isBlank = false) : squeeze text = text :=
  spaced.squeezeFrom_eq fun _ => begins

theorem SingleSpaced.compact_eq {text : Text} (spaced : SingleSpaced text)
    (begins : text.head?.any isBlank = false) (ends : text.getLast?.any isBlank = false) :
    compact text = text := by
  rw [compact_eq_trimEnd_squeeze, spaced.squeeze_eq begins, trimEnd_eq_rdropWhile,
    List.rdropWhile_eq_self_iff]
  intro notEmpty
  simpa [List.getLast?_eq_some_getLast notEmpty] using ends

/-! ## Replacing a text -/

theorem replaceFrom_of_absent {needle : Text} (replacement : Text) {text : Text}
    (absent : ¬needle <:+: text) : replaceFrom needle replacement 0 text = text := by
  induction text with
  | nil => rfl
  | cons c rest ih =>
      have notHere : needle.isPrefixOf (c :: rest) = false := by
        rw [Bool.eq_false_iff, Ne, List.isPrefixOf_iff_prefix]
        exact fun here => absent here.isInfix
      have notBehind : ¬needle <:+: rest := fun behind =>
        absent (behind.trans (List.suffix_cons c rest).isInfix)
      simp [replaceFrom, notHere, ih notBehind]

theorem replaceAll_of_absent {needle : Text} (replacement : Text) {text : Text}
    (absent : ¬needle <:+: text) : replaceAll needle replacement text = text :=
  replaceFrom_of_absent replacement absent

/-- A replacement with the same solid characters keeps those of the text. -/
theorem solids_replaceFrom {needle replacement : Text} (notEmpty : needle ≠ [])
    (same : solids needle = solids replacement) (skip : Nat) (text : Text) :
    solids (replaceFrom needle replacement skip text) = solids (text.drop skip) := by
  induction text generalizing skip with
  | nil => cases skip <;> rfl
  | cons c rest ih =>
      cases skip with
      | succ skip => exact ih skip
      | zero =>
          rw [replaceFrom]
          split
          case isTrue here =>
            obtain ⟨behind, split⟩ := List.isPrefixOf_iff_prefix.mp here
            obtain ⟨d, others, rfl⟩ := List.exists_cons_of_ne_nil notEmpty
            obtain rfl : others ++ behind = rest := (List.cons.inj split).2
            rw [solids_append, ih, ← same, List.length_cons, Nat.add_sub_cancel, List.drop_left,
              List.drop_zero, ← split, solids_append]
          case isFalse =>
            have rest_eq := ih 0
            rw [List.drop_zero] at rest_eq ⊢
            cases blank : isBlank c with
            | true => rw [solids_cons_of_blank blank, solids_cons_of_blank blank, rest_eq]
            | false => rw [solids_cons_of_solid blank, solids_cons_of_solid blank, rest_eq]

theorem solids_replaceAll {needle replacement : Text} (notEmpty : needle ≠ [])
    (same : solids needle = solids replacement) (text : Text) :
    solids (replaceAll needle replacement text) = solids text :=
  solids_replaceFrom notEmpty same 0 text

end Text
end SourceAtlas
