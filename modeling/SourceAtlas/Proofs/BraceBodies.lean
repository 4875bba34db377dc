import SourceAtlas.Proofs.ByteOffsets
import SourceAtlas.Text.Block

/-!
# Bodies in braces are nested or apart

A scan for the end of a body counts braces from its own opening brace on and knows nothing
of the scans for other bodies.  Still any two bodies in a text that is no longer than a
scan goes are apart or one lies within the other, whether the braces are balanced or not.
-/

namespace SourceAtlas
namespace Text

/-- The offset of the brace that closes the last of `depth` open braces. -/
def closeFrom? : (depth offset : Nat) → Text → Option Nat
  | _, _, [] => none
  | depth, offset, c :: rest =>
      if c = '\x7b' then closeFrom? (depth + 1) (offset + c.utf8Size) rest
      else if c = '\x7d' then
        if depth ≤ 1 then some offset else closeFrom? (depth - 1) (offset + c.utf8Size) rest
      else closeFrom? depth (offset + c.utf8Size) rest

/-- Before its opening brace a scan only moves on. -/
theorem closingBrace?_append {opening limit offset : Nat} (depth : Nat) (before rest : Text)
    (reached : offset + byteLength before = opening) (below : opening ≤ limit) :
    closingBrace? opening limit depth offset (before ++ rest) =
      closingBrace? opening limit depth opening rest := by
  induction before generalizing offset with
  | nil =>
      rw [byteLength_nil, Nat.add_zero] at reached
      rw [List.nil_append, reached]
  | cons c before ih =>
      have positive := c.utf8Size_pos
      rw [byteLength_cons] at reached
      rw [List.cons_append, closingBrace?, if_neg (by omega), if_pos (by omega)]
      exact ih (by omega)

/-- Behind its opening brace a scan whose bound is not in the text only counts. -/
theorem closingBrace?_eq_closeFrom? {opening limit offset : Nat} (depth : Nat) {text : Text}
    (opened : opening ≤ offset) (bounded : offset + byteLength text ≤ limit) :
    closingBrace? opening limit depth offset text = closeFrom? depth offset text := by
  induction text generalizing depth offset with
  | nil => rfl
  | cons c text ih =>
      have positive := c.utf8Size_pos
      rw [byteLength_cons] at bounded
      rw [closingBrace?, closeFrom?, if_neg (by omega), if_neg (by omega)]
      simp only [ih _ (show opening ≤ offset + c.utf8Size by omega) (by omega)]

theorem closeFrom?_bounds {depth offset closing : Nat} {text : Text}
    (closed : closeFrom? depth offset text = some closing) :
    offset ≤ closing ∧ closing < offset + byteLength text := by
  induction text generalizing depth offset with
  | nil => simp [closeFrom?] at closed
  | cons c text ih =>
      have positive := c.utf8Size_pos
      rw [byteLength_cons]
      rw [closeFrom?] at closed
      split at closed
      · have later := ih closed
        omega
      · split at closed
        · split at closed
          · rw [Option.some.injEq] at closed
            omega
          · have later := ih closed
            omega
        · have later := ih closed
          omega

/-- Of two scans from one place, the one inside fewer braces ends first. -/
theorem closeFrom?_of_deeper {shallow deep offset outer : Nat} {text : Text}
    (opened : 0 < shallow) (deeper : shallow < deep)
    (closed : closeFrom? deep offset text = some outer) :
    ∃ inner, closeFrom? shallow offset text = some inner ∧ inner < outer := by
  induction text generalizing shallow deep offset with
  | nil => simp [closeFrom?] at closed
  | cons c text ih =>
      have positive := c.utf8Size_pos
      rw [closeFrom?] at closed ⊢
      split at closed
      case isTrue brace =>
        rw [if_pos brace]
        exact ih (by omega) (by omega) closed
      case isFalse noOpening =>
        rw [if_neg noOpening]
        split at closed
        case isTrue brace =>
          rw [if_neg (by omega)] at closed
          rw [if_pos brace]
          by_cases last : shallow ≤ 1
          · -- the shallow scan ends here, the deep one behind
            have behind := (closeFrom?_bounds closed).1
            exact ⟨offset, if_pos last, by omega⟩
          · rw [if_neg last]
            exact ih (by omega) (by omega) closed
        case isFalse noClosing =>
          rw [if_neg noClosing]
          exact ih opened deeper closed

/-- A scan ends within the first part of a text, or it enters the second part inside at
least one brace. -/
theorem closeFrom?_append {depth : Nat} (opened : 0 < depth) (offset : Nat)
    (first second : Text) :
    (∃ closing, closeFrom? depth offset (first ++ second) = some closing ∧
        closing < offset + byteLength first) ∨
      ∃ inside, 0 < inside ∧
        closeFrom? depth offset (first ++ second) =
          closeFrom? inside (offset + byteLength first) second := by
  -- The depth stays positive: the brace that would bring it to zero ends the scan.
  induction first generalizing depth offset with
  | nil => exact Or.inr ⟨depth, opened, rfl⟩
  | cons c first ih =>
      have positive := c.utf8Size_pos
      rw [List.cons_append, closeFrom?, byteLength_cons, ← Nat.add_assoc]
      split
      · exact ih (by omega) _
      · split
        · split
          · exact Or.inl ⟨offset, rfl, by omega⟩
          · exact ih (by omega) _
        · exact ih opened _

/-- The body behind an opening brace with `before` in front of it and `rest` behind it.
Without a closing brace it runs to the end of the text. -/
def bodyBehind (before rest : Text) : Span :=
  ⟨byteLength before + 1,
    (closeFrom? 1 (byteLength before + 1) rest).getD (byteLength before + 1 + byteLength rest)⟩

/-- The body behind a brace is nested with the body behind every later one. -/
theorem bodyBehind_isNested (before middle rest : Text) :
    (bodyBehind before (middle ++ '\x7b' :: rest)).IsNested
      (bodyBehind (before ++ '\x7b' :: middle) rest) := by
  have size : ('\x7b' : Char).utf8Size = 1 := rfl
  have inStart : byteLength (before ++ '\x7b' :: middle) =
      byteLength before + 1 + byteLength middle := by
    rw [byteLength_append, byteLength_cons, size]
    omega
  have inStop : byteLength before + 1 + byteLength (middle ++ '\x7b' :: rest) =
      byteLength before + 1 + byteLength middle + 1 + byteLength rest := by
    rw [byteLength_append, byteLength_cons, size]
    omega
  rw [bodyBehind, bodyBehind, inStart, inStop]
  rcases closeFrom?_append Nat.one_pos (byteLength before + 1) middle ('\x7b' :: rest) with
    ⟨closing, closed, early⟩ | ⟨inside, opened, entered⟩
  · -- the first body ends before the second begins
    rw [closed, Option.getD_some]
    refine Or.inl (Or.inl ?_)
    show closing ≤ byteLength before + 1 + byteLength middle + 1
    omega
  · -- the scan for the first body counts the second brace as well
    rw [closeFrom?, if_pos rfl, size] at entered
    rw [entered]
    refine Or.inr (Or.inr ⟨?_, ?_⟩)
    · show byteLength before + 1 ≤ byteLength before + 1 + byteLength middle + 1
      omega
    · cases outer : closeFrom? (inside + 1) (byteLength before + 1 + byteLength middle + 1) rest with
      | none =>
          cases inner : closeFrom? 1 (byteLength before + 1 + byteLength middle + 1) rest with
          | none => exact Nat.le_refl _
          | some closing => exact Nat.le_of_lt (closeFrom?_bounds inner).2
      | some closing =>
          obtain ⟨inner, closed, less⟩ := closeFrom?_of_deeper Nat.one_pos (by omega) outer
          rw [closed]
          exact Nat.le_of_lt less

/-- The search for an opening brace finds the first one, if it is not too far ahead and no
semicolon comes first. -/
theorem openingBrace?_eq_some_iff {window offset ahead : Nat} {text : Text} :
    openingBrace? window offset text = some ahead ↔
      ∃ passed rest, text = passed ++ '\x7b' :: rest ∧ ahead = offset + byteLength passed ∧
        ahead ≤ window ∧ '\x7b' ∉ passed ∧ ';' ∉ passed := by
  induction text generalizing offset with
  | nil => simp [openingBrace?]
  | cons c text ih =>
      rw [openingBrace?]
      constructor
      · intro found
        split at found
        case isTrue => exact absurd found (by simp)
        case isFalse inReach =>
          simp only [Bool.or_eq_true, decide_eq_true_eq, beq_iff_eq, not_or, Nat.not_lt] at inReach
          split at found
          case isTrue brace =>
            rw [beq_iff_eq] at brace
            obtain rfl := Option.some.inj found
            exact ⟨[], text, by rw [brace, List.nil_append], rfl, inReach.1, by simp, by simp⟩
          case isFalse noBrace =>
            rw [beq_iff_eq] at noBrace
            obtain ⟨passed, rest, rfl, rfl, near, noOpening, noSemicolon⟩ := ih.mp found
            refine ⟨c :: passed, rest, rfl, ?_, near, ?_, ?_⟩
            · rw [byteLength_cons, Nat.add_assoc]
            · simp [Ne.symm noBrace, noOpening]
            · simp [Ne.symm inReach.2, noSemicolon]
      · rintro ⟨passed, rest, split, rfl, near, noOpening, noSemicolon⟩
        cases passed with
        | nil =>
            obtain ⟨rfl, rfl⟩ := List.cons.inj split
            have notBeyond : ¬window < offset := by simpa using near
            simp [notBeyond]
        | cons first passed =>
            obtain ⟨rfl, rfl⟩ := List.cons.inj split
            rw [List.mem_cons, not_or] at noOpening noSemicolon
            have notBeyond : ¬window < offset := by omega
            have here : (decide (window < offset) || c == ';') = false := by
              simp [notBeyond, Ne.symm noSemicolon.1]
            have notBrace : (c == '\x7b') = false := by simp [Ne.symm noOpening.1]
            rw [here, notBrace, if_neg Bool.false_ne_true, if_neg Bool.false_ne_true]
            refine ih.mpr ⟨passed, rest, rfl, ?_, near, noOpening.2, noSemicolon.2⟩
            rw [byteLength_cons, Nat.add_assoc]

/-- Whether a range is the body that is found behind some header of a text. -/
def IsBraceBody (source : Text) (body : Span) : Prop :=
  ∃ start window, braceBody? source start window = some body

/-- In a text that a scan can reach the end of, a body is the one behind its opening
brace. -/
theorem IsBraceBody.eq_bodyBehind {source : Text} {body : Span}
    (short : byteLength source ≤ maxBodyScan) (found : IsBraceBody source body) :
    ∃ before rest, source = before ++ '\x7b' :: rest ∧ body = bodyBehind before rest := by
  obtain ⟨start, window, found⟩ := found
  simp only [braceBody?, Option.bind_eq_bind, Option.bind_eq_some_iff, Option.some.injEq]
    at found
  obtain ⟨behind, dropped, ahead, opened, rfl⟩ := found
  obtain ⟨header, rfl, rfl⟩ := dropBytes?_eq_some_iff.mp dropped
  obtain ⟨passed, rest, rfl, reached, -⟩ := openingBrace?_eq_some_iff.mp opened
  rw [Nat.zero_add] at reached
  have size : ('\x7b' : Char).utf8Size = 1 := rfl
  have opening : byteLength header + ahead = byteLength (header ++ passed) := by
    rw [byteLength_append, reached]
  refine ⟨header ++ passed, rest, by rw [List.append_assoc], ?_⟩
  rw [← List.append_assoc] at short ⊢
  rw [byteLength_append, byteLength_cons, size] at short
  have closing : matchingBrace? (header ++ passed ++ '\x7b' :: rest)
      (byteLength (header ++ passed)) =
      closeFrom? 1 (byteLength (header ++ passed) + 1) rest := by
    rw [matchingBrace?, closingBrace?_append 0 _ _ (Nat.zero_add _) (by omega),
      closingBrace?_eq_closeFrom? 0 (Nat.le_refl _)
        (by rw [byteLength_cons, size]; omega),
      closeFrom?, if_pos rfl, size]
  have bound : floorBoundary (header ++ passed ++ '\x7b' :: rest)
      (byteLength (header ++ passed) + maxBodyScan) =
      byteLength (header ++ passed) + 1 + byteLength rest := by
    rw [floorBoundary_eq, takeBytes_of_byteLength_le
      (by rw [byteLength_append, byteLength_cons, size]; omega),
      byteLength_append, byteLength_cons, size]
    omega
  rw [bodyBehind, opening, closing, bound]

/-- Two bodies of one text, where the opening brace of the second is that of the first or
stands behind it. -/
theorem bodyBehind_isNested_of_append (before : Text) {between rest laterRest : Text}
    (shared : '\x7b' :: rest = between ++ '\x7b' :: laterRest) :
    (bodyBehind before rest).IsNested (bodyBehind (before ++ between) laterRest) := by
  cases between with
  | nil =>
      obtain ⟨-, rfl⟩ := List.cons.inj shared
      rw [List.append_nil]
      exact Or.inr (Or.inl (Span.IsWithin.refl _))
  | cons c middle =>
      obtain ⟨rfl, rfl⟩ := List.cons.inj shared
      exact bodyBehind_isNested before middle laterRest

theorem IsBraceBody.isNested {source : Text} (short : byteLength source ≤ maxBodyScan)
    {first second : Span} (one : IsBraceBody source first) (other : IsBraceBody source second) :
    first.IsNested second := by
  obtain ⟨before, rest, split, rfl⟩ := one.eq_bodyBehind short
  obtain ⟨otherBefore, otherRest, otherSplit, rfl⟩ := other.eq_bodyBehind short
  rw [split] at otherSplit
  rcases List.append_eq_append_iff.mp otherSplit with
    ⟨between, rfl, shared⟩ | ⟨between, rfl, shared⟩
  · exact bodyBehind_isNested_of_append before shared
  · exact (bodyBehind_isNested_of_append otherBefore shared).symm

end Text
end SourceAtlas
