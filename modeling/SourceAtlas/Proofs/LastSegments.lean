import Mathlib.Data.List.Infix
import Mathlib.Order.Bounds.Basic
import SourceAtlas.CrossIndex
import SourceAtlas.Proofs.ByteOffsets

/-!
# The last segment of a name

The segments of a name are separated by dots and by double colons.  Occurrences of separators may
overlap, as they do in a row of three colons, so the last segment is not found by splitting: it is
what stands behind the occurrence that ends last.  Whatever stands in front of a separator, the
base symbol of a name is this last segment.
-/

namespace SourceAtlas

/-- The texts that separate the segments of a name. -/
def separators : List Text :=
  [['.'], [':', ':']]

/-- Whether no separator occurs in a text. -/
def IsUnseparated (text : Text) : Prop :=
  ∀ separator ∈ separators, ¬separator <:+: text

/-- The offsets at which an occurrence of a separator ends. -/
def separatorEnds (name : Text) : Set Nat :=
  {stop | ∃ front, ∃ separator ∈ separators, ∃ back,
    name = front ++ separator ++ back ∧ Text.byteLength (front ++ separator) = stop}

/-- Whether a text stands behind a separator of a name, such that no further separator begins
behind the first character of that one. -/
def IsLastSegment (name last : Text) : Prop :=
  ∃ front, ∃ separator ∈ separators,
    name = front ++ separator ++ last ∧ IsUnseparated (separator.tail ++ last)

section Separators

variable {text name last : Text}

theorem mem_separators_iff {separator : Text} :
    separator ∈ separators ↔ separator = ['.'] ∨ separator = [':', ':'] := by
  simp [separators]

theorem IsUnseparated.of_infix {part : Text} (unseparated : IsUnseparated text)
    (inside : part <:+: text) : IsUnseparated part :=
  fun separator known occurs => unseparated separator known (occurs.trans inside)

theorem isUnseparated_nil : IsUnseparated [] := by
  intro separator known occurs
  rw [List.infix_nil] at occurs
  subst occurs
  simp [separators] at known

theorem isUnseparated_cons_iff {c : Char} :
    IsUnseparated (c :: text) ↔
      c ≠ '.' ∧ ¬(c = ':' ∧ text.head? = some ':') ∧ IsUnseparated text := by
  have begins : [':', ':'] <+: c :: text ↔ c = ':' ∧ text.head? = some ':' := by
    cases text with
    | nil => simp [List.cons_prefix_cons]
    | cons next text => simp [List.cons_prefix_cons, eq_comm]
  simp only [IsUnseparated, separators, List.forall_mem_cons, List.not_mem_nil, false_imp_iff,
    implies_true, and_true, List.infix_cons_iff, not_or, begins, List.cons_prefix_cons,
    List.nil_prefix]
  tauto

theorem isUnseparated_of_notMem (undotted : '.' ∉ text) (uncoloned : ':' ∉ text) :
    IsUnseparated text := by
  intro separator known occurs
  rcases mem_separators_iff.mp known with rfl | rfl
  · exact undotted (occurs.subset List.mem_cons_self)
  · exact uncoloned (occurs.subset List.mem_cons_self)

/-- An occurrence that ends behind another one lies behind the first character of that one. -/
theorem suffix_of_later {front separator between later : Text} (known : separator ∈ separators)
    (laterKnown : later ∈ separators) (behind : between ≠ [])
    (ends : later <:+ front ++ separator ++ between) : later <:+ separator.tail ++ between := by
  have length := List.length_pos_iff.mpr behind
  rcases mem_separators_iff.mp laterKnown with rfl | rfl
  · exact (List.suffix_of_suffix_length_le ends (List.suffix_append _ _) length).trans
      (List.suffix_append _ _)
  · rcases mem_separators_iff.mp known with rfl | rfl
    · rw [List.append_assoc] at ends
      have close : [':', ':'] <:+ '.' :: between :=
        List.suffix_of_suffix_length_le ends (List.suffix_append front ('.' :: between))
          (Nat.succ_le_succ length)
      rcases List.suffix_cons_iff.mp close with dotted | rest
      · simp at dotted
      · exact rest
    · have close : ':' :: between <:+ front ++ [':', ':'] ++ between :=
        ⟨front ++ [':'], by simp⟩
      exact List.suffix_of_suffix_length_le ends close (Nat.succ_le_succ length)

namespace IsLastSegment

theorem cons (segment : IsLastSegment text last) (c : Char) : IsLastSegment (c :: text) last := by
  obtain ⟨front, separator, known, rfl, unseparated⟩ := segment
  exact ⟨c :: front, separator, known, rfl, unseparated⟩

theorem isUnseparated (segment : IsLastSegment name last) : IsUnseparated last := by
  obtain ⟨front, separator, known, rfl, unseparated⟩ := segment
  exact unseparated.of_infix (List.suffix_append _ _).isInfix

theorem not_isUnseparated (segment : IsLastSegment name last) : ¬IsUnseparated name := by
  obtain ⟨front, separator, known, rfl, -⟩ := segment
  intro unseparated
  exact unseparated separator known ⟨front, last, rfl⟩

/-- The last segment begins at the greatest end of a separator. -/
theorem exists_isGreatest (segment : IsLastSegment name last) :
    ∃ stop, IsGreatest (separatorEnds name) stop ∧ Text.dropBytes? name stop = some last := by
  obtain ⟨front, separator, known, rfl, unseparated⟩ := segment
  refine ⟨Text.byteLength (front ++ separator), ⟨⟨front, separator, known, last, rfl, rfl⟩, ?_⟩,
    Text.dropBytes?_eq_some_iff.mpr ⟨front ++ separator, rfl, rfl⟩⟩
  rintro stop ⟨laterFront, later, laterKnown, back, split, rfl⟩
  -- A separator that ends further on would occur behind the first character of this one.
  by_contra further
  obtain ⟨between, longer, rfl⟩ := Text.exists_between split (Nat.le_of_not_le further)
  have behind : between ≠ [] := by
    rintro rfl
    rw [longer, List.append_nil] at further
    exact further (Nat.le_refl _)
  have ends : later <:+ front ++ separator ++ between := longer ▸ List.suffix_append _ _
  have occurs := (suffix_of_later known laterKnown behind ends).isInfix
  refine unseparated later laterKnown (occurs.trans ?_)
  rw [← List.append_assoc]
  exact (List.prefix_append _ _).isInfix

theorem unique {other : Text} (segment : IsLastSegment name last)
    (another : IsLastSegment name other) : last = other := by
  obtain ⟨stop, greatest, dropped⟩ := segment.exists_isGreatest
  obtain ⟨_, alsoGreatest, alsoDropped⟩ := another.exists_isGreatest
  obtain rfl := greatest.unique alsoGreatest
  exact Option.some.inj (dropped.symm.trans alsoDropped)

end IsLastSegment
end Separators

/-! ## The scan -/

/-- The scan keeps its candidate as long as there is no separator, and otherwise ends up with the
last segment. -/
theorem segmentFrom_cases (candidate text : Text) :
    (IsUnseparated text ∧ segmentFrom candidate text = candidate) ∨
      IsLastSegment text (segmentFrom candidate text) := by
  induction text generalizing candidate with
  | nil => exact Or.inl ⟨isUnseparated_nil, rfl⟩
  | cons c rest ih =>
      rw [segmentFrom]
      by_cases dot : c = '.'
      · subst dot
        rw [if_pos rfl]
        -- The dot is the last separator, or the scan of the rest finds that one.
        rcases ih rest with ⟨unseparated, kept⟩ | segment
        · rw [kept]
          exact Or.inr ⟨[], ['.'], by simp [separators], rfl, unseparated⟩
        · exact Or.inr (segment.cons '.')
      · rw [if_neg dot]
        by_cases colons : c = ':' ∧ rest.head? = some ':'
        · obtain ⟨rfl, next⟩ := colons
          obtain ⟨behind, rfl⟩ := List.head?_eq_some_iff.mp next
          -- The scan goes on with the second colon, which may begin a separator as well.
          rw [if_pos (by simp), List.tail_cons]
          rcases ih behind with ⟨unseparated, kept⟩ | segment
          · rw [kept]
            exact Or.inr ⟨[], [':', ':'], by simp [separators], rfl, unseparated⟩
          · exact Or.inr (segment.cons ':')
        · rw [if_neg (by simpa using colons)]
          rcases ih candidate with ⟨unseparated, kept⟩ | segment
          · exact Or.inl ⟨isUnseparated_cons_iff.mpr ⟨dot, colons, unseparated⟩, kept⟩
          · exact Or.inr (segment.cons c)

theorem baseSymbol_of_isUnseparated {name : String} (unseparated : IsUnseparated name.toList) :
    baseSymbol name = name := by
  rcases segmentFrom_cases name.toList name.toList with ⟨-, kept⟩ | segment
  · rw [baseSymbol, kept, String.ofList_toList]
  · exact absurd unseparated segment.not_isUnseparated

theorem isLastSegment_baseSymbol {name : String} (separated : ¬IsUnseparated name.toList) :
    IsLastSegment name.toList (baseSymbol name).toList := by
  rcases segmentFrom_cases name.toList name.toList with ⟨unseparated, -⟩ | segment
  · exact absurd unseparated separated
  · rwa [baseSymbol, String.toList_ofList]

theorem baseSymbol_eq_of_isLastSegment {name last : String}
    (segment : IsLastSegment name.toList last.toList) : baseSymbol name = last :=
  String.toList_injective
    ((isLastSegment_baseSymbol segment.not_isUnseparated).unique segment)

theorem isUnseparated_baseSymbol (name : String) : IsUnseparated (baseSymbol name).toList := by
  by_cases unseparated : IsUnseparated name.toList
  · rwa [baseSymbol_of_isUnseparated unseparated]
  · exact (isLastSegment_baseSymbol unseparated).isUnseparated

theorem baseSymbol_suffix (name : String) : (baseSymbol name).toList <:+ name.toList := by
  by_cases unseparated : IsUnseparated name.toList
  · rw [baseSymbol_of_isUnseparated unseparated]
  · obtain ⟨front, separator, -, split, -⟩ := isLastSegment_baseSymbol unseparated
    exact ⟨front ++ separator, split.symm⟩

theorem baseSymbol_eq_self_iff {name : String} :
    baseSymbol name = name ↔ IsUnseparated name.toList := by
  constructor
  · intro whole
    rw [← whole]
    exact isUnseparated_baseSymbol name
  · exact baseSymbol_of_isUnseparated

/-! ## Separators in front of a segment -/

theorem baseSymbol_dot_iff (front last : String) :
    baseSymbol (front ++ "." ++ last) = last ↔ IsUnseparated last.toList := by
  constructor
  · intro base
    rw [← base]
    exact isUnseparated_baseSymbol _
  · intro unseparated
    refine baseSymbol_eq_of_isLastSegment
      ⟨front.toList, ['.'], by simp [separators], ?_, unseparated⟩
    rw [String.toList_append, String.toList_append]
    rfl

/-- A colon at the beginning of what follows a double colon belongs to a separator itself. -/
theorem baseSymbol_colons_iff (front last : String) :
    baseSymbol (front ++ "::" ++ last) = last ↔
      IsUnseparated last.toList ∧ last.toList.head? ≠ some ':' := by
  have colons : (front ++ "::" ++ last).toList = front.toList ++ [':', ':'] ++ last.toList := by
    rw [String.toList_append, String.toList_append]
    rfl
  have clear : IsUnseparated (':' :: last.toList) ↔
      IsUnseparated last.toList ∧ last.toList.head? ≠ some ':' := by
    rw [isUnseparated_cons_iff]
    simp [and_comm]
  rw [← clear]
  constructor
  · intro base
    have separated : ¬IsUnseparated (front ++ "::" ++ last).toList := by
      rw [colons]
      intro unseparated
      exact unseparated [':', ':'] (by simp [separators]) ⟨front.toList, last.toList, rfl⟩
    obtain ⟨before, separator, known, split, unseparated⟩ := isLastSegment_baseSymbol separated
    rw [base, colons] at split
    rw [base] at unseparated
    have ends : [':', ':'] <:+ before ++ separator :=
      List.append_cancel_right split ▸ List.suffix_append _ _
    rcases mem_separators_iff.mp known with rfl | rfl
    · have colon : [':'] <:+ ['.'] := List.suffix_of_suffix_length_le
        ((List.suffix_cons ':' [':']).trans ends) (List.suffix_append before ['.']) (Nat.le_refl _)
      exact absurd (colon.eq_of_length rfl) (by decide)
    · exact unseparated
  · intro unseparated
    exact baseSymbol_eq_of_isLastSegment
      ⟨front.toList, [':', ':'], by simp [separators], colons, unseparated⟩

/-- The base symbol of a name is a part at its end without separators.  It is the whole name
exactly if there are none, and otherwise begins where the separator that ends last ends, which is
a boundary of the text.  Taking it again changes nothing, and it is whatever follows a separator,
if nothing of that belongs to a separator itself. -/
theorem baseSymbol_last_segment (name : String) :
    (baseSymbol name).toList <:+ name.toList ∧
    IsUnseparated (baseSymbol name).toList ∧
    (baseSymbol name = name ↔ IsUnseparated name.toList) ∧
    (¬IsUnseparated name.toList → ∃ stop, IsGreatest (separatorEnds name.toList) stop ∧
      Text.dropBytes? name.toList stop = some (baseSymbol name).toList) ∧
    baseSymbol (baseSymbol name) = baseSymbol name ∧
    ∀ last : String,
      (baseSymbol (name ++ "." ++ last) = last ↔ IsUnseparated last.toList) ∧
      (baseSymbol (name ++ "::" ++ last) = last ↔
        IsUnseparated last.toList ∧ last.toList.head? ≠ some ':') :=
  ⟨baseSymbol_suffix name, isUnseparated_baseSymbol name, baseSymbol_eq_self_iff,
    fun separated => (isLastSegment_baseSymbol separated).exists_isGreatest,
    baseSymbol_of_isUnseparated (isUnseparated_baseSymbol name),
    fun last => ⟨baseSymbol_dot_iff name last, baseSymbol_colons_iff name last⟩⟩

/-- Separators of both kinds that touch and overlap, between letters of two bytes. -/
theorem baseSymbol_overlapping_separators :
    baseSymbol "é.:::ü" = "ü" ∧
      (∃ stop, IsGreatest (separatorEnds "é.:::ü".toList) stop ∧
        Text.dropBytes? "é.:::ü".toList stop = some ['ü']) ∧
      baseSymbol ("é.:" ++ "::" ++ "ü") = "ü" ∧
      baseSymbol ("é." ++ "::" ++ ":ü") ≠ ":ü" := by
  have base : baseSymbol "é.:::ü" = "ü" := by decide +kernel
  have separated : ¬IsUnseparated "é.:::ü".toList := by
    intro unseparated
    exact unseparated ['.'] (by decide) (by decide +kernel)
  obtain ⟨-, -, -, last, -, -⟩ := baseSymbol_last_segment "é.:::ü"
  obtain ⟨-, -, -, -, -, behind⟩ := baseSymbol_last_segment "é.:"
  obtain ⟨-, -, -, -, -, alsoBehind⟩ := baseSymbol_last_segment "é."
  have letter : IsUnseparated "ü".toList := by
    unfold IsUnseparated
    decide +kernel
  refine ⟨base, ?_, (behind "ü").2.mpr ⟨letter, by decide +kernel⟩, fun colon => ?_⟩
  · obtain ⟨stop, greatest, dropped⟩ := last separated
    rw [base] at dropped
    exact ⟨stop, greatest, dropped⟩
  · exact ((alsoBehind ":ü").2.mp colon).2 (by decide +kernel)

end SourceAtlas
