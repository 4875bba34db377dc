import Mathlib.Data.List.Infix
import SourceAtlas.Proofs.CompactText
import SourceAtlas.Rules.Rust

/-!
# Splitting at commas outside braces

A text whose braces are balanced and whose commas all stand inside braces is one piece for the
split at commas outside braces.  So the pieces that a list was joined from are found again, however
deep the braces in them are nested.
-/

namespace SourceAtlas

namespace Text

/-! ## Braces and commas -/

/-- Whether no brace is closed before it is opened, and none is left open. -/
structure Balanced (text : Text) : Prop where
  opened : ∀ front, front <+: text → front.count '\x7d' ≤ front.count '\x7b'
  closed : text.count '\x7b' = text.count '\x7d'

/-- Whether an open brace stands in front of every comma. -/
def CommasInside (text : Text) : Prop :=
  ∀ front, front <+: text → front.getLast? = some ',' → front.count '\x7d' < front.count '\x7b'

instance (text : Text) : Decidable (Balanced text) :=
  decidable_of_iff ((∀ front ∈ text.inits, front.count '\x7d' ≤ front.count '\x7b') ∧
      text.count '\x7b' = text.count '\x7d')
    ⟨fun known => ⟨fun front begins => known.1 front (List.mem_inits _ _ |>.mpr begins), known.2⟩,
      fun known => ⟨fun front begins => known.opened front (List.mem_inits _ _ |>.mp begins),
        known.closed⟩⟩

instance (text : Text) : Decidable (CommasInside text) :=
  decidable_of_iff (∀ front ∈ text.inits, front.getLast? = some ',' →
      front.count '\x7d' < front.count '\x7b')
    ⟨fun known front begins => known front (List.mem_inits _ _ |>.mpr begins),
      fun known front begins => known front (List.mem_inits _ _ |>.mp begins)⟩

/-- How many braces are open behind a text, if `depth` are open in front of it.  Neither a closing
brace nor a comma may stand where none is open. -/
def depthBehind? : (depth : Nat) → Text → Option Nat
  | depth, [] => some depth
  | depth, c :: rest =>
      if c = '\x7b' then depthBehind? (depth + 1) rest
      else if c = '\x7d' then if depth = 0 then none else depthBehind? (depth - 1) rest
      else if c = ',' ∧ depth = 0 then none
      else depthBehind? depth rest

theorem depthBehind?_append (depth : Nat) (front back : Text) :
    depthBehind? depth (front ++ back) =
      (depthBehind? depth front).bind fun behind => depthBehind? behind back := by
  induction front generalizing depth with
  | nil => rfl
  | cons c front ih =>
      rw [List.cons_append, depthBehind?, depthBehind?]
      split
      · exact ih _
      · split
        · split
          · rfl
          · exact ih _
        · split
          · rfl
          · exact ih _

theorem depthBehind?_of_plain {text : Text} (depth : Nat) (noOpening : '\x7b' ∉ text)
    (noClosing : '\x7d' ∉ text) (noComma : ',' ∉ text) : depthBehind? depth text = some depth := by
  induction text with
  | nil => rfl
  | cons c rest ih =>
      rw [List.mem_cons, not_or] at noOpening noClosing noComma
      rw [depthBehind?, if_neg (Ne.symm noOpening.1), if_neg (Ne.symm noClosing.1),
        if_neg fun comma => noComma.1 comma.1.symm]
      exact ih noOpening.2 noClosing.2 noComma.2

/-- Blanks open and close nothing. -/
theorem depthBehind?_solids (depth : Nat) (text : Text) :
    depthBehind? depth (solids text) = depthBehind? depth text := by
  induction text generalizing depth with
  | nil => rfl
  | cons c rest ih =>
      cases blank : isBlank c with
      | true =>
          have differs {mark : Char} (solid : isBlank mark = false) : c ≠ mark := by
            rintro rfl
            rw [blank] at solid
            exact Bool.false_ne_true solid.symm
          rw [solids_cons_of_blank blank, ih, depthBehind?, if_neg (differs (by decide)),
            if_neg (differs (by decide)), if_neg fun comma => differs (by decide) comma.1]
      | false =>
          rw [solids_cons_of_solid blank, depthBehind?, depthBehind?]
          simp only [ih]

theorem depthBehind?_of_counts {depth : Nat} {text : Text}
    (opened : ∀ front, front <+: text → front.count '\x7d' ≤ depth + front.count '\x7b')
    (inside : ∀ front, front <+: text → front.getLast? = some ',' →
      front.count '\x7d' < depth + front.count '\x7b') :
    ∃ behind, depthBehind? depth text = some behind ∧
      behind + text.count '\x7d' = depth + text.count '\x7b' := by
  induction text generalizing depth with
  | nil => exact ⟨depth, rfl, rfl⟩
  | cons c rest ih =>
      have openedHere := opened [c] (by simp)
      have insideHere := inside [c] (by simp)
      -- A condition on all beginnings of the text gives one on the beginnings behind `c`.
      have step (deeper : Nat) (counted : deeper + [c].count '\x7d' = depth + [c].count '\x7b') :
          ∃ behind, depthBehind? deeper rest = some behind ∧
            behind + (c :: rest).count '\x7d' = depth + (c :: rest).count '\x7b' := by
        have split (mark : Char) (front : Text) :
            (c :: front).count mark = [c].count mark + front.count mark := by
          rw [← List.singleton_append, List.count_append]
        obtain ⟨behind, found, total⟩ := @ih deeper
          (fun front begins => by
            have whole := opened (c :: front) ((List.prefix_cons_inj c).mpr begins)
            rw [split '\x7d' front, split '\x7b' front] at whole
            omega)
          (fun front begins last => by
            have whole := inside (c :: front) ((List.prefix_cons_inj c).mpr begins)
              (by simp [List.getLast?_cons, last])
            rw [split '\x7d' front, split '\x7b' front] at whole
            omega)
        refine ⟨behind, found, ?_⟩
        rw [split '\x7d' rest, split '\x7b' rest]
        omega
      rw [depthBehind?]
      split
      case isTrue opening =>
        subst opening
        exact step (depth + 1) (by simp)
      case isFalse notOpening =>
        split
        case isTrue closing =>
          subst closing
          have someOpen : 1 ≤ depth := by simpa using openedHere
          rw [if_neg (by omega)]
          exact step (depth - 1) (by simp; omega)
        case isFalse notClosing =>
          split
          case isTrue comma =>
            obtain ⟨rfl, rfl⟩ := comma
            simp at insideHere
          case isFalse => exact step depth (by simp [notOpening, notClosing])

theorem Balanced.depthBehind?_eq {text : Text} (balanced : Balanced text)
    (inside : CommasInside text) : depthBehind? 0 text = some 0 := by
  obtain ⟨behind, found, total⟩ := @depthBehind?_of_counts 0 text
    (by simpa using balanced.opened) (by simpa [CommasInside] using inside)
  rw [found]
  have closed := balanced.closed
  congr 1
  omega

/-! ## Pieces and what joins them -/

theorem splitStep_ne_nil (separates : Char → Bool) (c : Char) (pieces : List Text) :
    splitStep separates c pieces ≠ [] := by
  unfold splitStep
  split
  · simp
  · split <;> simp

/-- Items joined by a comma and a space are pieces joined by a comma. -/
theorem intercalate_comma_space (item : Text) (items : List Text) :
    [',', ' '].intercalate (item :: items) =
      [','].intercalate (item :: items.map (' ' :: ·)) := by
  induction items generalizing item with
  | nil => simp
  | cons next items ih =>
      rw [List.intercalate_cons_cons, List.map_cons, List.intercalate_cons_cons, ih]
      cases items <;> simp [List.intercalate_cons_cons]

end Text

namespace Rust

open Text

/-! ## Splitting outside braces -/

theorem splitOutsideBraces_ne_nil (depth : Nat) (text : Text) :
    splitOutsideBraces depth text ≠ [] := by
  cases text with
  | nil => simp [splitOutsideBraces]
  | cons c rest =>
      rw [splitOutsideBraces]
      exact splitStep_ne_nil _ _ _

/-- Where every comma stands inside braces, nothing is split. -/
theorem splitOutsideBraces_append {depth behind : Nat} {piece : Text}
    (known : depthBehind? depth piece = some behind) (rest : Text) :
    splitOutsideBraces depth (piece ++ rest) =
      (splitOutsideBraces behind rest).modifyHead (piece ++ ·) := by
  induction piece generalizing depth with
  | nil =>
      obtain rfl := Option.some.inj known
      rw [List.nil_append]
      cases splitOutsideBraces depth rest <;> rfl
  | cons c piece ih =>
      have extend (deeper : Nat) (found : depthBehind? deeper piece = some behind) :
          splitStep (fun _ => false) c (splitOutsideBraces deeper (piece ++ rest)) =
            (splitOutsideBraces behind rest).modifyHead (c :: piece ++ ·) := by
        rw [ih found]
        cases pieces : splitOutsideBraces behind rest with
        | nil => exact absurd pieces (splitOutsideBraces_ne_nil _ _)
        | cons first others => rfl
      rw [depthBehind?] at known
      rw [List.cons_append, splitOutsideBraces]
      split at known
      case isTrue opening =>
        subst opening
        exact extend (depth + 1) known
      case isFalse =>
        split at known
        case isTrue closing =>
          subst closing
          rw [Option.ite_none_left_eq_some] at known
          exact extend (depth - 1) known.2
        case isFalse notOpening notClosing =>
          split at known
          case isTrue => cases known
          case isFalse notComma =>
            have joined : (c == ',' && depth == 0) = false := by simpa using notComma
            have found := extend depth known
            simpa [splitStep, notOpening, notClosing, joined] using found

theorem splitOutsideBraces_intercalate {pieces : List Text} (notEmpty : pieces ≠ [])
    (whole : ∀ piece ∈ pieces, depthBehind? 0 piece = some 0) :
    splitOutsideBraces 0 ([','].intercalate pieces) = pieces := by
  induction pieces with
  | nil => exact absurd rfl notEmpty
  | cons piece pieces ih =>
      obtain ⟨here, others⟩ := List.forall_mem_cons.mp whole
      cases pieces with
      | nil =>
          have single := splitOutsideBraces_append here []
          simpa [splitOutsideBraces] using single
      | cons next pieces =>
          have comma (rest : Text) :
              splitOutsideBraces 0 (',' :: rest) = [] :: splitOutsideBraces 0 rest := by
            simp [splitOutsideBraces, splitStep]
          rw [List.intercalate_cons_cons, List.append_assoc, List.singleton_append,
            splitOutsideBraces_append here, comma, ih (List.cons_ne_nil _ _) others]
          simp

end Rust
end SourceAtlas
