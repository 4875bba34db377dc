import Mathlib.Order.Lattice.Nat
import SourceAtlas.Proofs.BraceBodies

/-!
# Where a body in braces begins and ends

The scan for a body goes forward once and counts.  What it finds can be said without
counting: the body opens at the first brace behind the header, and it ends at the first
place where the text from that brace on has as many closing braces as opening ones.
-/

namespace SourceAtlas
namespace Text

/-- Whether the body behind a header that ends at `start` opens at `opening`: there is a
brace, at most `window` bytes ahead, and neither a brace nor a semicolon in front of it. -/
def OpensAt (source : Text) (start window opening : Nat) : Prop :=
  start ≤ opening ∧ opening ≤ start + window ∧ StandsAt source '\x7b' opening ∧
    '\x7b' ∉ slice source ⟨start, opening⟩ ∧ ';' ∉ slice source ⟨start, opening⟩

/-- Whether the text from `opening` through the byte at `closing` has as many closing braces
as opening ones. -/
def BalancesAt (source : Text) (opening closing : Nat) : Prop :=
  opening < closing ∧ closing < byteLength source ∧
    (slice source ⟨opening, closing + 1⟩).count '\x7b' =
      (slice source ⟨opening, closing + 1⟩).count '\x7d'

/-- The offsets at which a body that opens at `opening` may be closed. -/
def balancedOffsets (source : Text) (opening : Nat) : Set Nat :=
  {closing | closing < opening + maxBodyScan ∧ BalancesAt source opening closing}

/-- Whether the body that opens at `opening` ends at `closing`: the braces are balanced
there for the first time, or they never are and the scan stops at the last boundary in its
reach. -/
def ClosesAt (source : Text) (opening closing : Nat) : Prop :=
  IsLeast (balancedOffsets source opening) closing ∨
    balancedOffsets source opening = ∅ ∧
      IsGreatest {offset | IsBoundary source offset ∧
        offset ≤ min (opening + maxBodyScan) (byteLength source)} closing

theorem ClosesAt.unique {source : Text} {opening first second : Nat}
    (one : ClosesAt source opening first) (other : ClosesAt source opening second) :
    first = second := by
  rcases one with least | ⟨never, greatest⟩
  · rcases other with otherLeast | ⟨never, -⟩
    · exact least.unique otherLeast
    · rw [never] at least
      exact absurd least.1 (Set.notMem_empty _)
  · rcases other with otherLeast | ⟨-, otherGreatest⟩
    · rw [never] at otherLeast
      exact absurd otherLeast.1 (Set.notMem_empty _)
    · exact greatest.unique otherGreatest

/-- Whether the `depth` braces open in front of a text, which begins at `offset`, and those
in it are all closed through the byte at `closing`. -/
def EvensAt (depth offset : Nat) (text : Text) (closing : Nat) : Prop :=
  offset ≤ closing ∧ closing < offset + byteLength text ∧
    (takeBytes text (closing + 1 - offset)).count '\x7b' + depth =
      (takeBytes text (closing + 1 - offset)).count '\x7d'

/-- A character that leaves braces open passes the question on to what follows. -/
theorem evensAt_cons_iff {c : Char} {depth inside : Nat} (offset : Nat) (text : Text)
    (closing : Nat) (opened : 0 < depth) (stillOpened : 0 < inside)
    (counted : [c].count '\x7b' + depth = [c].count '\x7d' + inside) :
    EvensAt depth offset (c :: text) closing ↔
      EvensAt inside (offset + c.utf8Size) text closing := by
  have positive := c.utf8Size_pos
  simp only [EvensAt, byteLength_cons, takeBytes]
  by_cases whole : c.utf8Size ≤ closing + 1 - offset
  · have behind : closing + 1 - offset - c.utf8Size = closing + 1 - (offset + c.utf8Size) := by
      omega
    rw [if_pos whole, behind, ← List.singleton_append, List.count_append, List.count_append]
    by_cases here : closing + 1 = offset + c.utf8Size
    · -- only this character is counted, and it leaves braces open
      have nothing : takeBytes text (closing + 1 - (offset + c.utf8Size)) = [] := by
        apply eq_nil_of_byteLength_eq_zero
        have fits := byteLength_takeBytes_le text (closing + 1 - (offset + c.utf8Size))
        omega
      rw [nothing]
      simp only [List.count_nil]
      omega
    · omega
  · rw [if_neg whole]
    simp only [List.count_nil]
    omega

/-- The brace that closes the last open one is where all braces are closed for the first
time. -/
theorem isLeast_evensAt_closing {offset limit : Nat} (inReach : offset < limit) (text : Text) :
    IsLeast {place | place < limit ∧ EvensAt 1 offset ('\x7d' :: text) place} offset := by
  have size : ('\x7d' : Char).utf8Size = 1 := rfl
  have single : takeBytes ('\x7d' :: text) (offset + 1 - offset) = ['\x7d'] := by
    rw [Nat.add_sub_cancel_left, takeBytes, size, if_pos (Nat.le_refl _), Nat.sub_self,
      eq_nil_of_byteLength_eq_zero (Nat.le_zero.mp (byteLength_takeBytes_le text 0))]
  refine ⟨⟨inReach, Nat.le_refl _, ?_, ?_⟩, fun place known => known.2.1⟩
  · rw [byteLength_cons, size]
    omega
  · rw [single]
    rfl

/-- A scan behind its opening brace stops where all braces are closed for the first time. -/
theorem closingBrace?_eq_some_iff {opening limit depth offset closing : Nat} {text : Text}
    (opened : opening ≤ offset) (inside : 0 < depth) :
    closingBrace? opening limit depth offset text = some closing ↔
      IsLeast {place | place < limit ∧ EvensAt depth offset text place} closing := by
  induction text generalizing depth offset with
  | nil =>
      simp only [closingBrace?, reduceCtorEq, false_iff]
      rintro ⟨⟨-, begun, inReach, -⟩, -⟩
      rw [byteLength_nil] at inReach
      omega
  | cons c text ih =>
      have later : opening ≤ offset + c.utf8Size := by omega
      -- Every step but the last hands the set of candidates on unchanged.
      have step {remaining : Nat} (stillInside : 0 < remaining)
          (counted : [c].count '\x7b' + depth = [c].count '\x7d' + remaining) :
          closingBrace? opening limit remaining (offset + c.utf8Size) text = some closing ↔
            IsLeast {place | place < limit ∧ EvensAt depth offset (c :: text) place} closing := by
        simp only [evensAt_cons_iff offset text _ inside stillInside counted]
        exact ih later stillInside
      rw [closingBrace?]
      split
      case isTrue beyond =>
        simp only [reduceCtorEq, false_iff]
        rintro ⟨⟨inReach, begun, -⟩, -⟩
        omega
      case isFalse inReach =>
        rw [if_neg (by omega)]
        split
        case isTrue brace =>
          refine step (by omega) ?_
          simp [brace]
          omega
        case isFalse noOpening =>
          split
          case isTrue brace =>
            subst brace
            split
            case isTrue last =>
              obtain rfl : depth = 1 := by omega
              have least := isLeast_evensAt_closing (Nat.lt_of_not_le inReach) text
              rw [Option.some.injEq]
              exact ⟨fun same => same ▸ least, fun other => least.unique other⟩
            case isFalse =>
              refine step (by omega) ?_
              simp
              omega
          case isFalse noClosing =>
            refine step inside ?_
            simp [noOpening, noClosing]

/-- A scan stops at a closing brace. -/
theorem closingBrace?_split {opening limit depth offset closing : Nat} {text : Text}
    (found : closingBrace? opening limit depth offset text = some closing) :
    ∃ front rest, text = front ++ '\x7d' :: rest ∧ closing = offset + byteLength front := by
  induction text generalizing depth offset with
  | nil => simp [closingBrace?] at found
  | cons c text ih =>
      have step {remaining : Nat}
          (found : closingBrace? opening limit remaining (offset + c.utf8Size) text =
            some closing) :
          ∃ front rest, c :: text = front ++ '\x7d' :: rest ∧
            closing = offset + byteLength front := by
        obtain ⟨front, rest, rfl, rfl⟩ := ih found
        refine ⟨c :: front, rest, rfl, ?_⟩
        rw [byteLength_cons, Nat.add_assoc]
      rw [closingBrace?] at found
      split at found
      · simp at found
      · split at found
        · exact step found
        · split at found
          · exact step found
          · split at found
            case isTrue brace =>
              split at found
              · exact ⟨[], text, by rw [brace, List.nil_append], (Option.some.inj found).symm⟩
              · exact step found
            case isFalse => exact step found

section Opened

variable (before rest : Text)

theorem balancesAt_iff (closing : Nat) :
    BalancesAt (before ++ '\x7b' :: rest) (byteLength before) closing ↔
      EvensAt 1 (byteLength before + 1) rest closing := by
  have size : ('\x7b' : Char).utf8Size = 1 := rfl
  simp only [BalancesAt, EvensAt, byteLength_append, byteLength_cons, size]
  by_cases behind : byteLength before < closing
  · obtain ⟨more, rfl⟩ := Nat.exists_eq_add_of_lt behind
    have ahead : byteLength before + more + 1 + 1 - (byteLength before + 1) = more + 1 := by
      omega
    have cut : slice (before ++ '\x7b' :: rest)
        ⟨byteLength before, byteLength before + more + 1 + 1⟩ =
          '\x7b' :: takeBytes rest (more + 1) := by
      rw [show byteLength before + more + 1 + 1 = byteLength before + (more + 2) by omega,
        slice_append, takeBytes, size, if_pos (by omega)]
      rfl
    rw [cut, ahead]
    simp
    omega
  · omega

theorem matchingBrace?_eq_some_iff (closing : Nat) :
    matchingBrace? (before ++ '\x7b' :: rest) (byteLength before) = some closing ↔
      IsLeast (balancedOffsets (before ++ '\x7b' :: rest) (byteLength before)) closing := by
  have size : ('\x7b' : Char).utf8Size = 1 := rfl
  have reach : 0 < maxBodyScan := by decide
  rw [matchingBrace?, closingBrace?_append 0 _ _ (Nat.zero_add _) (by omega), closingBrace?,
    if_neg (by omega), if_neg (by omega), if_pos rfl, size,
    closingBrace?_eq_some_iff (by omega) Nat.one_pos]
  simp only [balancedOffsets, balancesAt_iff]

theorem matchingBrace?_eq_none_iff :
    matchingBrace? (before ++ '\x7b' :: rest) (byteLength before) = none ↔
      balancedOffsets (before ++ '\x7b' :: rest) (byteLength before) = ∅ := by
  rw [Option.eq_none_iff_forall_ne_some, ← Set.not_nonempty_iff_eq_empty]
  constructor
  · intro never some
    exact never _ ((matchingBrace?_eq_some_iff before rest _).mpr
      ⟨Nat.sInf_mem some, fun place known => Nat.sInf_le known⟩)
  · intro never closing found
    exact never ⟨closing, ((matchingBrace?_eq_some_iff before rest closing).mp found).1⟩

theorem isGreatest_floorBoundary (source : Text) (limit : Nat) :
    IsGreatest {offset | IsBoundary source offset ∧ offset ≤ min limit (byteLength source)}
      (floorBoundary source limit) := by
  have boundary := isBoundary_floorBoundary source limit
  constructor
  · exact ⟨boundary, Nat.le_min.mpr ⟨floorBoundary_le source limit, boundary.le_byteLength⟩⟩
  · intro offset known
    exact known.1.le_floorBoundary (Nat.le_trans known.2 (Nat.min_le_left _ _))

/-- The end that is computed for a body is the one described. -/
theorem closesAt_getD_matchingBrace? :
    ClosesAt (before ++ '\x7b' :: rest) (byteLength before)
      ((matchingBrace? (before ++ '\x7b' :: rest) (byteLength before)).getD
        (floorBoundary (before ++ '\x7b' :: rest) (byteLength before + maxBodyScan))) := by
  cases found : matchingBrace? (before ++ '\x7b' :: rest) (byteLength before) with
  | none =>
      exact Or.inr ⟨(matchingBrace?_eq_none_iff before rest).mp found,
        isGreatest_floorBoundary _ _⟩
  | some closing => exact Or.inl ((matchingBrace?_eq_some_iff before rest closing).mp found)

end Opened

theorem opensAt_append_iff (header rest : Text) (window opening : Nat) :
    OpensAt (header ++ rest) (byteLength header) window opening ↔
      ∃ ahead, openingBrace? window 0 rest = some ahead ∧
        opening = byteLength header + ahead := by
  have between (passed behind : Text) :
      slice (header ++ (passed ++ '\x7b' :: behind))
        ⟨byteLength header, byteLength (header ++ passed)⟩ = passed := by
    rw [byteLength_append, slice_append, takeBytes_append_of_le (Nat.le_refl _),
      takeBytes_of_byteLength_le (Nat.le_refl _)]
  constructor
  · rintro ⟨behind, near, ⟨front, back, split, rfl⟩, noOpening, noSemicolon⟩
    obtain ⟨passed, rfl, rfl⟩ := exists_between split behind
    rw [between] at noOpening noSemicolon
    rw [byteLength_append] at near ⊢
    refine ⟨byteLength passed, openingBrace?_eq_some_iff.mpr ?_, rfl⟩
    exact ⟨passed, back, rfl, (Nat.zero_add _).symm, by omega, noOpening, noSemicolon⟩
  · rintro ⟨ahead, found, rfl⟩
    obtain ⟨passed, behind, rfl, rfl, near, noOpening, noSemicolon⟩ :=
      openingBrace?_eq_some_iff.mp found
    rw [Nat.zero_add] at near ⊢
    refine ⟨by omega, by omega, ⟨header ++ passed, behind, ?_, byteLength_append _ _⟩, ?_⟩
    · rw [List.append_assoc]
    · rw [← byteLength_append, between]
      exact ⟨noOpening, noSemicolon⟩

/-- A body is found exactly where one opens, and its ends are the ones described. -/
theorem braceBody?_eq_some_iff {source : Text} {start window : Nat} {body : Span} :
    braceBody? source start window = some body ↔
      IsBoundary source start ∧ ∃ opening, OpensAt source start window opening ∧
        body.start = opening + 1 ∧ ClosesAt source opening body.stop := by
  simp only [braceBody?, Option.bind_eq_bind, Option.bind_eq_some_iff, Option.some.injEq]
  constructor
  · rintro ⟨rest, dropped, ahead, found, rfl⟩
    obtain ⟨header, rfl, rfl⟩ := dropBytes?_eq_some_iff.mp dropped
    have opens := (opensAt_append_iff header rest window _).mpr ⟨ahead, found, rfl⟩
    obtain ⟨before, behind, split, reached⟩ := opens.2.2.1
    refine ⟨isBoundary_append header rest, _, opens, rfl, ?_⟩
    rw [← reached, split]
    exact closesAt_getD_matchingBrace? before behind
  · rintro ⟨⟨header, rest, rfl, rfl⟩, opening, opens, first, closes⟩
    obtain ⟨ahead, found, rfl⟩ := (opensAt_append_iff header rest window opening).mp opens
    refine ⟨rest, dropBytes?_eq_some_iff.mpr ⟨header, rfl, rfl⟩, ahead, found, ?_⟩
    obtain ⟨before, behind, split, reached⟩ := opens.2.2.1
    rw [← reached, split] at closes ⊢
    have last := closes.unique (closesAt_getD_matchingBrace? before behind)
    obtain ⟨begin, stop⟩ := body
    simp only at first last
    rw [first, last, reached]

/-- A body lies in its text, between boundaries, and in the reach of the scan. -/
theorem ClosesAt.bounds {source : Text} {opening closing : Nat}
    (opens : StandsAt source '\x7b' opening) (closes : ClosesAt source opening closing) :
    opening < closing ∧ IsBoundary source (opening + 1) ∧ IsBoundary source closing ∧
      closing ≤ opening + maxBodyScan := by
  obtain ⟨before, rest, rfl, rfl⟩ := opens
  have size : ('\x7b' : Char).utf8Size = 1 := rfl
  have reach : 0 < maxBodyScan := by decide
  have behind : IsBoundary (before ++ '\x7b' :: rest) (byteLength before + 1) := by
    refine ⟨before ++ ['\x7b'], rest, by simp, ?_⟩
    rw [byteLength_append, byteLength_cons, size, byteLength_nil]
  rcases closes with least | ⟨-, greatest⟩
  · have found := (matchingBrace?_eq_some_iff before rest closing).mpr least
    obtain ⟨front, back, split, reached⟩ := closingBrace?_split found
    refine ⟨least.1.2.1, behind, ⟨front, '\x7d' :: back, split, ?_⟩, Nat.le_of_lt least.1.1⟩
    rw [reached, Nat.zero_add]
  · obtain ⟨⟨boundary, below⟩, above⟩ := greatest
    have notBefore := above ⟨behind, Nat.le_min.mpr ⟨by omega, behind.le_byteLength⟩⟩
    exact ⟨notBefore, behind, boundary, Nat.le_trans below (Nat.min_le_left _ _)⟩

/-- A header has a body in braces exactly if it ends at a boundary and a brace opens behind
it in time.  The body begins behind that brace and ends where the braces are balanced for
the first time or, if they never are, where the scan gives up.  It always lies in the text
and between boundaries, so that cutting it out loses nothing. -/
theorem braceBody?_extent (source : Text) (start window : Nat) :
    ((braceBody? source start window).isSome = true ↔
      IsBoundary source start ∧ ∃ opening, OpensAt source start window opening) ∧
    ∀ body, braceBody? source start window = some body →
      ∃ opening, (∀ other, OpensAt source start window other ↔ other = opening) ∧
        body.start = opening + 1 ∧ ClosesAt source opening body.stop ∧
        body.start ≤ body.stop ∧ body.stop ≤ byteLength source ∧
        IsBoundary source body.start ∧ IsBoundary source body.stop ∧
        body.stop - opening ≤ maxBodyScan ∧
        byteLength (slice source body) = body.length := by
  constructor
  · rw [Option.isSome_iff_exists]
    constructor
    · rintro ⟨body, found⟩
      obtain ⟨boundary, opening, opens, -⟩ := braceBody?_eq_some_iff.mp found
      exact ⟨boundary, opening, opens⟩
    · rintro ⟨boundary, opening, opens⟩
      obtain ⟨before, rest, rfl, rfl⟩ := opens.2.2.1
      exact ⟨⟨_, _⟩, braceBody?_eq_some_iff.mpr
        ⟨boundary, _, opens, rfl, closesAt_getD_matchingBrace? before rest⟩⟩
  · intro body found
    obtain ⟨boundary, opening, opens, first, closes⟩ := braceBody?_eq_some_iff.mp found
    obtain ⟨behind, starts, stops, reach⟩ := closes.bounds opens.2.2.1
    rw [← first] at starts
    have ordered : body.start ≤ body.stop := by omega
    refine ⟨opening, ?_, first, closes, ordered, stops.le_byteLength, starts, stops, by omega,
      byteLength_slice starts stops ordered⟩
    intro other
    refine ⟨fun alsoOpens => ?_, fun same => same ▸ opens⟩
    obtain ⟨header, rest, rfl, rfl⟩ := boundary
    obtain ⟨ahead, known, rfl⟩ := (opensAt_append_iff header rest window opening).mp opens
    obtain ⟨_, alsoKnown, rfl⟩ := (opensAt_append_iff header rest window other).mp alsoOpens
    rw [known] at alsoKnown
    rw [Option.some.inj alsoKnown]

/-- A block that is never closed, with a block inside and a character of two bytes. -/
def unclosedBlock : Text := "f \x7bé\x7b\x7d".toList

theorem braceBody?_extent_unclosedBlock :
    braceBody? unclosedBlock 1 5 = some ⟨3, 7⟩ ∧
      (∀ other, OpensAt unclosedBlock 1 5 other ↔ other = 2) ∧ ClosesAt unclosedBlock 2 7 ∧
      IsBoundary unclosedBlock 3 ∧ IsBoundary unclosedBlock 7 ∧
      byteLength (slice unclosedBlock ⟨3, 7⟩) = 4 := by
  have found : braceBody? unclosedBlock 1 5 = some ⟨3, 7⟩ := by decide +kernel
  obtain ⟨opening, opens, first, closes, -, -, starts, stops, -, whole⟩ :=
    (braceBody?_extent unclosedBlock 1 5).2 _ found
  obtain rfl : 2 = opening := Nat.succ.inj first
  exact ⟨found, opens, closes, starts, stops, whole⟩

end Text
end SourceAtlas
