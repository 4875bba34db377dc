import SourceAtlas.Text.Basic

/-!
# Ranges and boundaries of a text

Two ranges of offsets are nested if they are apart or one lies within the other.  A
boundary of a text is the byte length of one of its prefixes, so every statement about
boundaries becomes one about splitting the text into parts.  This file reads the
operations on offsets that way.
-/

namespace SourceAtlas

namespace Span

/-- Whether one range lies within another. -/
def IsWithin (inner outer : Span) : Prop :=
  outer.start ≤ inner.start ∧ inner.stop ≤ outer.stop

/-- Whether one of two ranges ends before the other begins. -/
def IsApart (first second : Span) : Prop :=
  first.stop ≤ second.start ∨ second.stop ≤ first.start

/-- Whether two ranges are apart or one of them lies within the other. -/
def IsNested (first second : Span) : Prop :=
  first.IsApart second ∨ first.IsWithin second ∨ second.IsWithin first

theorem IsWithin.refl (span : Span) : span.IsWithin span :=
  ⟨Nat.le_refl _, Nat.le_refl _⟩

theorem IsNested.symm {first second : Span} (nested : first.IsNested second) :
    second.IsNested first := by
  rcases nested with apart | within | within
  · exact Or.inl apart.symm
  · exact Or.inr (Or.inr within)
  · exact Or.inr (Or.inl within)

/-- Of two nested ranges around an offset, one that is not longer lies within the
other. -/
theorem IsNested.isWithin_of_length_le {first second : Span} {offset : Nat}
    (nested : first.IsNested second) (inFirst : first.contains offset = true)
    (inSecond : second.contains offset = true) (notLonger : first.length ≤ second.length) :
    first.IsWithin second := by
  simp only [contains, Bool.and_eq_true, decide_eq_true_eq] at inFirst inSecond
  simp only [length] at notLonger
  rcases nested with apart | within | within
  · unfold IsApart at apart
    omega
  · exact within
  · unfold IsWithin at within ⊢
    omega

end Span

namespace Text

@[simp]
theorem byteLength_nil : byteLength [] = 0 :=
  rfl

@[simp]
theorem byteLength_cons (c : Char) (text : Text) :
    byteLength (c :: text) = c.utf8Size + byteLength text :=
  rfl

@[simp]
theorem byteLength_append (first second : Text) :
    byteLength (first ++ second) = byteLength first + byteLength second := by
  induction first with
  | nil => simp
  | cons c first ih => rw [List.cons_append, byteLength_cons, ih, byteLength_cons, Nat.add_assoc]

theorem dropBytes?_cons_succ (c : Char) (rest : Text) (offset : Nat) :
    dropBytes? (c :: rest) (offset + 1) =
      if c.utf8Size ≤ offset + 1 then dropBytes? rest (offset + 1 - c.utf8Size) else none := by
  simp [dropBytes?]

/-- The text behind an offset is what follows a prefix of that length. -/
theorem dropBytes?_eq_some_iff {text rest : Text} {offset : Nat} :
    dropBytes? text offset = some rest ↔
      ∃ before, text = before ++ rest ∧ byteLength before = offset := by
  constructor
  · intro found
    induction text generalizing offset with
    | nil =>
        cases offset with
        | zero => exact ⟨[], by simpa [dropBytes?] using found, rfl⟩
        | succ offset => simp [dropBytes?] at found
    | cons c text ih =>
        cases offset with
        | zero => exact ⟨[], by simpa [dropBytes?] using found, rfl⟩
        | succ offset =>
            rw [dropBytes?_cons_succ, Option.ite_none_right_eq_some] at found
            obtain ⟨fits, found⟩ := found
            obtain ⟨before, rfl, length⟩ := ih found
            refine ⟨c :: before, rfl, ?_⟩
            rw [byteLength_cons, length]
            omega
  · rintro ⟨before, rfl, rfl⟩
    induction before with
    | nil => simp [dropBytes?]
    | cons c before ih =>
        obtain ⟨size, positive⟩ := Nat.exists_eq_add_one.mpr c.utf8Size_pos
        have here : byteLength (c :: before) = size + byteLength before + 1 := by
          rw [byteLength_cons, positive]
          omega
        have behind : size + byteLength before + 1 - c.utf8Size = byteLength before := by
          omega
        rw [here, List.cons_append, dropBytes?_cons_succ, if_pos (by omega), behind]
        exact ih

theorem takeBytes_prefix (text : Text) (limit : Nat) : takeBytes text limit <+: text := by
  induction text generalizing limit with
  | nil => simp [takeBytes]
  | cons c text ih =>
      rw [takeBytes]
      split
      · exact (List.prefix_cons_inj c).mpr (ih _)
      · exact List.nil_prefix

theorem takeBytes_of_byteLength_le {text : Text} {limit : Nat} (fits : byteLength text ≤ limit) :
    takeBytes text limit = text := by
  induction text generalizing limit with
  | nil => rfl
  | cons c text ih =>
      rw [byteLength_cons] at fits
      rw [takeBytes, if_pos (by omega), ih (by omega)]

theorem takeBytes_append_of_le {front : Text} {limit : Nat} (within : limit ≤ byteLength front)
    (back : Text) : takeBytes (front ++ back) limit = takeBytes front limit := by
  induction front generalizing limit with
  | nil =>
      have nothing : limit = 0 := by simpa using within
      subst nothing
      cases back with
      | nil => rfl
      | cons c back =>
          have positive := c.utf8Size_pos
          simp [takeBytes, Nat.ne_of_gt positive]
  | cons c front ih =>
      rw [byteLength_cons] at within
      rw [List.cons_append, takeBytes, takeBytes]
      split
      · rw [ih (by omega)]
      · rfl

theorem takeBytes_byteLength_takeBytes (text : Text) (limit : Nat) :
    takeBytes text (byteLength (takeBytes text limit)) = takeBytes text limit := by
  obtain ⟨back, whole⟩ := takeBytes_prefix text limit
  calc
    takeBytes text (byteLength (takeBytes text limit)) =
        takeBytes (takeBytes text limit ++ back) (byteLength (takeBytes text limit)) := by
      rw [whole]
    _ = takeBytes (takeBytes text limit) (byteLength (takeBytes text limit)) :=
      takeBytes_append_of_le (Nat.le_refl _) back
    _ = takeBytes text limit := takeBytes_of_byteLength_le (Nat.le_refl _)

theorem floorFrom_eq (limit offset : Nat) (text : Text) (begun : offset ≤ limit) :
    floorFrom limit offset text = offset + byteLength (takeBytes text (limit - offset)) := by
  induction text generalizing offset with
  | nil => rfl
  | cons c text ih =>
      rw [floorFrom, takeBytes]
      by_cases fits : offset + c.utf8Size ≤ limit
      · rw [if_pos fits, if_pos (by omega), ih _ fits, byteLength_cons, Nat.sub_add_eq]
        omega
      · rw [if_neg fits, if_neg (by omega)]
        rfl

/-- The boundary at or below an offset ends the longest prefix that fits. -/
theorem floorBoundary_eq (text : Text) (offset : Nat) :
    floorBoundary text offset = byteLength (takeBytes text offset) := by
  rw [floorBoundary, floorFrom_eq _ _ _ (Nat.zero_le _), Nat.zero_add, Nat.sub_zero]

theorem takeBytes_append (front back : Text) (more : Nat) :
    takeBytes (front ++ back) (byteLength front + more) = front ++ takeBytes back more := by
  induction front with
  | nil => simp
  | cons c front ih =>
      rw [List.cons_append, byteLength_cons, takeBytes, if_pos (by omega)]
      have rest : c.utf8Size + byteLength front + more - c.utf8Size =
          byteLength front + more := by
        omega
      rw [rest, ih, List.cons_append]

theorem floorBoundary_append (front back : Text) (more : Nat) :
    floorBoundary (front ++ back) (byteLength front + more) =
      byteLength front + floorBoundary back more := by
  rw [floorBoundary_eq, takeBytes_append, byteLength_append, floorBoundary_eq]

theorem slice_append_stop (before rest : Text) (stop : Nat) :
    slice (before ++ rest) ⟨byteLength before, stop⟩ =
      takeBytes rest (stop - byteLength before) := by
  have dropped : dropBytes? (before ++ rest) (byteLength before) = some rest :=
    dropBytes?_eq_some_iff.mpr ⟨before, rfl, rfl⟩
  rw [slice]
  simp only [dropped, Span.length]

theorem slice_append (before rest : Text) (length : Nat) :
    slice (before ++ rest) ⟨byteLength before, byteLength before + length⟩ =
      takeBytes rest length := by
  rw [slice_append_stop, Nat.add_sub_cancel_left]

theorem eq_nil_of_byteLength_eq_zero {text : Text} (empty : byteLength text = 0) : text = [] := by
  cases text with
  | nil => rfl
  | cons c text =>
      have positive := c.utf8Size_pos
      rw [byteLength_cons] at empty
      omega

/-- Two divisions of one text, the second at the first or behind it. -/
theorem exists_between {front back laterFront laterBack : Text}
    (same : front ++ back = laterFront ++ laterBack)
    (ordered : byteLength front ≤ byteLength laterFront) :
    ∃ between, laterFront = front ++ between ∧ back = between ++ laterBack := by
  rcases List.append_eq_append_iff.mp same with ⟨between, later, rest⟩ | ⟨between, rfl, rfl⟩
  · exact ⟨between, later, rest⟩
  · rw [byteLength_append] at ordered
    obtain rfl := eq_nil_of_byteLength_eq_zero (show byteLength between = 0 by omega)
    exact ⟨[], by simp, by simp⟩

/-- Whether an offset lies between two characters of a text or at one of its ends. -/
def IsBoundary (text : Text) (offset : Nat) : Prop :=
  ∃ before rest, text = before ++ rest ∧ byteLength before = offset

/-- Whether a character begins at an offset of a text. -/
def StandsAt (text : Text) (c : Char) (offset : Nat) : Prop :=
  ∃ before rest, text = before ++ c :: rest ∧ byteLength before = offset

section Boundaries

variable {text : Text} {offset : Nat}

theorem isBoundary_append (before rest : Text) :
    IsBoundary (before ++ rest) (byteLength before) :=
  ⟨before, rest, rfl, rfl⟩

theorem IsBoundary.le_byteLength (boundary : IsBoundary text offset) :
    offset ≤ byteLength text := by
  obtain ⟨before, rest, rfl, rfl⟩ := boundary
  rw [byteLength_append]
  exact Nat.le_add_right _ _

theorem isBoundary_floorBoundary (text : Text) (limit : Nat) :
    IsBoundary text (floorBoundary text limit) := by
  obtain ⟨back, whole⟩ := takeBytes_prefix text limit
  exact ⟨takeBytes text limit, back, whole.symm, (floorBoundary_eq text limit).symm⟩

theorem IsBoundary.le_floorBoundary (boundary : IsBoundary text offset) {limit : Nat}
    (below : offset ≤ limit) : offset ≤ floorBoundary text limit := by
  obtain ⟨before, rest, rfl, rfl⟩ := boundary
  obtain ⟨more, rfl⟩ := Nat.exists_eq_add_of_le below
  rw [floorBoundary_append]
  exact Nat.le_add_right _ _

theorem byteLength_takeBytes_le (text : Text) (limit : Nat) :
    byteLength (takeBytes text limit) ≤ limit := by
  induction text generalizing limit with
  | nil => exact Nat.zero_le _
  | cons c text ih =>
      rw [takeBytes]
      split
      · have rest := ih (limit - c.utf8Size)
        rw [byteLength_cons]
        omega
      · exact Nat.zero_le _

theorem floorBoundary_le (text : Text) (limit : Nat) : floorBoundary text limit ≤ limit := by
  rw [floorBoundary_eq]
  exact byteLength_takeBytes_le text limit

/-- What a limit leaves over of a range that begins at a boundary.  A range that ends before it
begins has nothing to leave. -/
theorem boundedSlice_append (before rest : Text) (stop limit : Nat) :
    boundedSlice (before ++ rest) ⟨byteLength before, stop⟩ limit =
      takeBytes rest (min (stop - byteLength before) limit) := by
  have start : floorBoundary (before ++ rest) (byteLength before) = byteLength before := by
    have here := floorBoundary_append before rest 0
    have nothing := floorBoundary_le rest 0
    rw [Nat.add_zero] at here
    omega
  simp only [boundedSlice]
  rw [start, slice_append_stop]
  rcases Nat.le_total (byteLength before) stop with forward | backward
  · have reached : min stop (byteLength before + limit) =
        byteLength before + min (stop - byteLength before) limit := by
      omega
    rw [reached, floorBoundary_append, Nat.add_sub_cancel_left, floorBoundary_eq,
      takeBytes_byteLength_takeBytes]
  · have below := floorBoundary_le (before ++ rest) (min stop (byteLength before + limit))
    rw [Nat.sub_eq_zero_of_le backward, Nat.zero_min, Nat.sub_eq_zero_of_le (by omega)]

/-- Between two boundaries nothing is lost. -/
theorem byteLength_slice {span : Span} (start : IsBoundary text span.start)
    (stop : IsBoundary text span.stop) (ordered : span.start ≤ span.stop) :
    byteLength (slice text span) = span.length := by
  obtain ⟨first, last⟩ := span
  obtain ⟨before, rest, rfl, rfl⟩ := start
  obtain ⟨front, back, split, rfl⟩ := stop
  obtain ⟨between, rfl, rfl⟩ := exists_between split ordered
  rw [byteLength_append, slice_append, takeBytes_append_of_le (Nat.le_refl _),
    takeBytes_of_byteLength_le (Nat.le_refl _), Span.length, Nat.add_sub_cancel_left]

end Boundaries

end Text
end SourceAtlas
