import Mathlib.Tactic.SplitIfs
import SourceAtlas.Path

/-!
# Bytes that encode a text

The first byte of an encoded character tells how many bytes follow, and their payloads give
the character back, so decoding undoes encoding.  Bytes that encode nothing are decoded to
replacement characters, and different bytes may be shown alike; only encodings of texts are
told apart by what is shown for them.  Decoding makes up no ASCII character: where one is
shown, its byte was there.
-/

namespace SourceAtlas
namespace Text

/-! ## Bytes as numbers -/

theorem isContinuation_iff {byte : UInt8} :
    isContinuation byte = true ↔ 0x80 ≤ byte.toNat ∧ byte.toNat ≤ 0xBF := by
  simp [isContinuation, UInt8.le_iff_toNat_le]

theorem follows_iff {lowest least highest most first second : UInt8} (apart : lowest ≠ highest)
    (leastFollows : 0x80 ≤ least.toNat) (mostFollows : most.toNat ≤ 0xBF) :
    follows lowest least highest most first second = true ↔
      (0x80 ≤ second.toNat ∧ second.toNat ≤ 0xBF) ∧ (first = lowest → least.toNat ≤ second.toNat) ∧
        (first = highest → second.toNat ≤ most.toNat) := by
  unfold follows
  split_ifs with low high
  · simp_all [UInt8.le_iff_toNat_le]
    omega
  · simp_all [UInt8.le_iff_toNat_le]
    omega
  · simp_all [isContinuation_iff]

theorem followsThree_iff {first second : UInt8} :
    followsThree first second = true ↔
      (0x80 ≤ second.toNat ∧ second.toNat ≤ 0xBF) ∧ (first.toNat = 0xE0 → 0xA0 ≤ second.toNat) ∧
        (first.toNat = 0xED → second.toNat ≤ 0x9F) := by
  rw [followsThree, follows_iff (by decide) (by decide) (by decide), ← UInt8.toNat_inj,
    ← UInt8.toNat_inj]
  rfl

theorem followsFour_iff {first second : UInt8} :
    followsFour first second = true ↔
      (0x80 ≤ second.toNat ∧ second.toNat ≤ 0xBF) ∧ (first.toNat = 0xF0 → 0x90 ≤ second.toNat) ∧
        (first.toNat = 0xF4 → second.toNat ≤ 0x8F) := by
  rw [followsFour, follows_iff (by decide) (by decide) (by decide), ← UInt8.toNat_inj,
    ← UInt8.toNat_inj]
  rfl

section Characters

variable {first second third fourth : UInt8} (behind : Bytes)

theorem decodeFirst_one (ascii : first.toNat < 0x80) :
    decodeFirst first behind = (Char.ofNat first.toNat, 1) := by
  rw [decodeFirst, if_pos (by simpa [UInt8.lt_iff_toNat_lt] using ascii)]

theorem decodeFirst_two (least : 0xC2 ≤ first.toNat) (most : first.toNat ≤ 0xDF)
    (followed : isContinuation second = true) :
    decodeFirst first (second :: behind) =
      (Char.ofNat (first.toNat % 0x20 * 0x40 + payload second), 2) := by
  have notOne : 0x80 ≤ first.toNat := by omega
  simp [decodeFirst, decodeTwo, UInt8.lt_iff_toNat_lt, UInt8.le_iff_toNat_le, notOne, least, most,
    followed]

theorem decodeFirst_three (least : 0xE0 ≤ first.toNat) (most : first.toNat ≤ 0xEF)
    (followed : followsThree first second = true) (last : isContinuation third = true) :
    decodeFirst first (second :: third :: behind) =
      (Char.ofNat ((first.toNat % 0x10 * 0x40 + payload second) * 0x40 + payload third), 3) := by
  have notOne : 0x80 ≤ first.toNat := by omega
  have notTwo : ¬ first.toNat ≤ 0xDF := by omega
  simp [decodeFirst, decodeThree, UInt8.lt_iff_toNat_lt, UInt8.le_iff_toNat_le, notOne, notTwo,
    least, most, followed, last]

theorem decodeFirst_four (least : 0xF0 ≤ first.toNat) (most : first.toNat ≤ 0xF4)
    (followed : followsFour first second = true) (next : isContinuation third = true)
    (last : isContinuation fourth = true) :
    decodeFirst first (second :: third :: fourth :: behind) =
      (Char.ofNat (((first.toNat % 0x08 * 0x40 + payload second) * 0x40 + payload third) * 0x40 +
        payload fourth), 4) := by
  have notOne : 0x80 ≤ first.toNat := by omega
  have notTwo : ¬ first.toNat ≤ 0xDF := by omega
  have notThree : ¬ first.toNat ≤ 0xEF := by omega
  simp [decodeFirst, decodeFour, UInt8.lt_iff_toNat_lt, UInt8.le_iff_toNat_le, notOne, notTwo,
    notThree, least, most, followed, next, last]

end Characters

theorem toNat_ofNat_byte {number : Nat} (fits : number < 256) :
    (UInt8.ofNat number).toNat = number :=
  UInt8.toNat_ofNat_of_lt' fits

/-- Six bits are the payload of a continuation byte. -/
theorem continuation_ofNat {number : Nat} (fits : number < 64) :
    isContinuation (UInt8.ofNat (number + 128)) = true ∧
      payload (UInt8.ofNat (number + 128)) = number := by
  rw [isContinuation_iff, payload, toNat_ofNat_byte (by omega)]
  omega

/-- The bytes of a character are decoded together, whatever follows them. -/
theorem decodeFirst_utf8EncodeChar (c : Char) (behind : Bytes) :
    ∃ first others, String.utf8EncodeChar c = first :: others ∧
      decodeFirst first (others ++ behind) = (c, others.length + 1) := by
  have valid := c.valid
  simp only [UInt32.isValidChar, Nat.isValidChar] at valid
  have back {code : Nat} (same : code = c.val.toNat) : Char.ofNat code = c := by
    rw [same]
    exact Char.ofNat_toNat c
  simp only [String.utf8EncodeChar]
  generalize c.val.toNat = code at valid back
  have last := continuation_ofNat (Nat.mod_lt code (show 64 > 0 by decide))
  have third := continuation_ofNat (Nat.mod_lt (code / 64) (show 64 > 0 by decide))
  have second := continuation_ofNat (Nat.mod_lt (code / 4096) (show 64 > 0 by decide))
  split_ifs with one two three
  · refine ⟨_, _, rfl, ?_⟩
    have lead := toNat_ofNat_byte (show code < 256 by omega)
    rw [decodeFirst_one _ (by omega), lead, back rfl]
    rfl
  · refine ⟨_, _, rfl, ?_⟩
    have lead := toNat_ofNat_byte (show code / 64 % 32 + 192 < 256 by omega)
    rw [List.cons_append, decodeFirst_two _ (by omega) (by omega) last.1, lead, last.2,
      back (by omega)]
    rfl
  · refine ⟨_, _, rfl, ?_⟩
    have lead := toNat_ofNat_byte (show code / 4096 % 16 + 224 < 256 by omega)
    have next := toNat_ofNat_byte (show code / 64 % 64 + 128 < 256 by omega)
    have followed : followsThree (UInt8.ofNat (code / 4096 % 16 + 224))
        (UInt8.ofNat (code / 64 % 64 + 128)) = true := by
      rw [followsThree_iff, lead, next]
      omega
    rw [List.cons_append, List.cons_append,
      decodeFirst_three _ (by omega) (by omega) followed last.1, lead, third.2, last.2,
      back (by omega)]
    rfl
  · refine ⟨_, _, rfl, ?_⟩
    have lead := toNat_ofNat_byte (show code / 262144 % 8 + 240 < 256 by omega)
    have next := toNat_ofNat_byte (show code / 4096 % 64 + 128 < 256 by omega)
    have followed : followsFour (UInt8.ofNat (code / 262144 % 8 + 240))
        (UInt8.ofNat (code / 4096 % 64 + 128)) = true := by
      rw [followsFour_iff, lead, next]
      omega
    rw [List.cons_append, List.cons_append, List.cons_append,
      decodeFirst_four _ (by omega) (by omega) followed third.1 last.1, lead, second.2, third.2,
      last.2, back (by omega)]
    rfl

theorem decodeFrom_skipped (decoded : Text) (skipped behind : Bytes) :
    decodeFrom decoded skipped.length (skipped ++ behind) = decodeFrom decoded 0 behind := by
  induction skipped with
  | nil => rfl
  | cons byte skipped ih => exact ih

theorem decodeFrom_encoding (decoded text : Text) :
    decodeFrom decoded 0 (encoding text) = decoded.reverse ++ text := by
  induction text generalizing decoded with
  | nil => simp [encoding, decodeFrom]
  | cons c text ih =>
      obtain ⟨first, others, encoded, read⟩ := decodeFirst_utf8EncodeChar c (encoding text)
      have whole : encoding (c :: text) = first :: (others ++ encoding text) := by
        rw [encoding, List.flatMap_cons, encoded]
        rfl
      rw [whole, decodeFrom, read]
      simp only [Nat.add_sub_cancel]
      rw [decodeFrom_skipped, ih, List.reverse_cons, List.append_assoc]
      rfl

@[simp]
theorem decode_encoding (text : Text) : decode (encoding text) = text := by
  rw [decode, decodeFrom_encoding]
  rfl

theorem encoding_injective : Function.Injective encoding := by
  intro first second same
  rw [← decode_encoding first, same, decode_encoding]

/-! ## ASCII -/

theorem utf8EncodeChar_ascii {c : Char} (ascii : c.toNat < 0x80) :
    String.utf8EncodeChar c = [UInt8.ofNat c.toNat] := by
  have small : c.val.toNat ≤ 0x7F := Nat.le_of_lt_succ ascii
  simp only [String.utf8EncodeChar, if_pos small]
  rfl

/-- An ASCII byte in an encoding stands for its character. -/
theorem mem_of_mem_encoding {c : Char} (ascii : c.toNat < 0x80) {text : Text}
    (member : UInt8.ofNat c.toNat ∈ encoding text) : c ∈ text := by
  obtain ⟨d, inside, member⟩ := List.mem_flatMap.1 member
  have value := toNat_ofNat_byte (show c.toNat < 256 by omega)
  suffices same : c.toNat = d.toNat from Char.toNat_inj.1 same ▸ inside
  change c.toNat = d.val.toNat
  have bound := d.valid
  simp only [UInt32.isValidChar, Nat.isValidChar] at bound
  simp only [String.utf8EncodeChar] at member
  generalize d.val.toNat = code at *
  -- In a longer encoding all bytes are beyond ASCII.
  split_ifs at member
  all_goals
    simp only [List.mem_cons, List.not_mem_nil, or_false, ← UInt8.toNat_inj, value,
      UInt8.toNat_ofNat'] at member
    omega

theorem replacement_notAscii : 0x80 ≤ replacement.toNat := by
  decide

theorem toNat_ofNat {code : Nat} (valid : code < 0xD800 ∨ 0xE000 ≤ code ∧ code < 0x110000) :
    (Char.ofNat code).toNat = code := by
  have scalar : code.isValidChar := by
    simp only [Nat.isValidChar]
    omega
  rw [Char.ofNat, dif_pos scalar]
  rfl

theorem ofNat_notAscii {code : Nat} (least : 0x80 ≤ code)
    (valid : code < 0xD800 ∨ 0xE000 ≤ code ∧ code < 0x110000) :
    0x80 ≤ (Char.ofNat code).toNat := by
  rwa [toNat_ofNat valid]

section Beyond

variable {first : UInt8} (behind : Bytes)

theorem decodeTwo_notAscii (least : 0xC2 ≤ first.toNat) (most : first.toNat ≤ 0xDF) :
    0x80 ≤ (decodeTwo first behind).1.toNat := by
  unfold decodeTwo
  split
  next second _ =>
    split_ifs
    · have rest : payload second < 0x40 := Nat.mod_lt _ (by decide)
      exact ofNat_notAscii (by omega) (by omega)
    · exact replacement_notAscii
  next => exact replacement_notAscii

theorem decodeThree_notAscii (least : 0xE0 ≤ first.toNat) (most : first.toNat ≤ 0xEF) :
    0x80 ≤ (decodeThree first behind).1.toNat := by
  unfold decodeThree
  split
  next second _ =>
    split_ifs with followed
    · split
      next third _ =>
        split_ifs
        · have rest : payload third < 0x40 := Nat.mod_lt _ (by decide)
          have value : payload second = second.toNat % 0x40 := rfl
          rw [followsThree_iff] at followed
          exact ofNat_notAscii (by omega) (by omega)
        · exact replacement_notAscii
      next => exact replacement_notAscii
    · exact replacement_notAscii
  next => exact replacement_notAscii

theorem decodeFour_notAscii (least : 0xF0 ≤ first.toNat) (most : first.toNat ≤ 0xF4) :
    0x80 ≤ (decodeFour first behind).1.toNat := by
  unfold decodeFour
  split
  next second _ =>
    split_ifs with followed
    · split
      next third _ =>
        split_ifs
        · split
          next fourth _ =>
            split_ifs
            · have further : payload third < 0x40 := Nat.mod_lt _ (by decide)
              have rest : payload fourth < 0x40 := Nat.mod_lt _ (by decide)
              have value : payload second = second.toNat % 0x40 := rfl
              rw [followsFour_iff] at followed
              exact ofNat_notAscii (by omega) (by omega)
            · exact replacement_notAscii
          next => exact replacement_notAscii
        · exact replacement_notAscii
      next => exact replacement_notAscii
    · exact replacement_notAscii
  next => exact replacement_notAscii

/-- A byte beyond ASCII never becomes an ASCII character. -/
theorem decodeFirst_notAscii (beyond : 0x80 ≤ first.toNat) :
    0x80 ≤ (decodeFirst first behind).1.toNat := by
  unfold decodeFirst
  simp only [UInt8.lt_iff_toNat_lt, UInt8.le_iff_toNat_le, UInt8.reduceToNat, Bool.and_eq_true,
    decide_eq_true_eq]
  split_ifs with one two three four
  · omega
  · exact decodeTwo_notAscii behind two.1 two.2
  · exact decodeThree_notAscii behind three.1 three.2
  · exact decodeFour_notAscii behind four.1 four.2
  · exact replacement_notAscii

/-- Where an ASCII character is decoded, its byte was there. -/
theorem eq_of_decodeFirst_ascii (ascii : (decodeFirst first behind).1.toNat < 0x80) :
    first = UInt8.ofNat (decodeFirst first behind).1.toNat := by
  rcases Nat.lt_or_ge first.toNat 0x80 with below | beyond
  · rw [decodeFirst_one behind below, toNat_ofNat (by omega), UInt8.ofNat_toNat]
  · exact absurd (decodeFirst_notAscii behind beyond) (Nat.not_le.2 ascii)

end Beyond

theorem mem_of_mem_decodeFrom {c : Char} (ascii : c.toNat < 0x80) {decoded : Text} {skip : Nat}
    {bytes : Bytes} (member : c ∈ decodeFrom decoded skip bytes) :
    c ∈ decoded ∨ UInt8.ofNat c.toNat ∈ bytes := by
  fun_induction decodeFrom decoded skip bytes with
  | case1 decoded skip => exact .inl (List.mem_reverse.1 member)
  | case2 decoded skip byte rest ih => exact (ih member).imp_right (List.mem_cons_of_mem byte)
  | case3 decoded first rest d taken read ih =>
      rcases ih member with here | later
      · rcases List.mem_cons.1 here with rfl | earlier
        · have small : (decodeFirst first rest).1.toNat < 0x80 := by rwa [read]
          have known := eq_of_decodeFirst_ascii rest small
          rw [read] at known
          exact .inr (List.mem_cons.2 (.inl known.symm))
        · exact .inl earlier
      · exact .inr (List.mem_cons_of_mem first later)

/-- Decoding makes up no ASCII character. -/
theorem mem_of_mem_decode {c : Char} (ascii : c.toNat < 0x80) {bytes : Bytes}
    (member : c ∈ decode bytes) : UInt8.ofNat c.toNat ∈ bytes :=
  (mem_of_mem_decodeFrom ascii member).resolve_left List.not_mem_nil

end Text

namespace Bytes

@[simp]
theorem shown_ofString (text : String) : (ofString text).shown = text := by
  rw [shown, ofString, Text.decode_encoding, String.ofList_toList]

/-- Bytes are read as a text if they are its encoding. -/
theorem text?_eq_some_iff {bytes : Bytes} {text : String} :
    bytes.text? = some text ↔ bytes = ofString text := by
  unfold text?
  constructor
  · intro read
    split at read
    next encoded =>
      rw [← Option.some.inj read]
      exact encoded.symm
    next => cases read
  · rintro rfl
    rw [shown_ofString, if_pos rfl]

/-- Encodings of texts are told apart by what is shown for them. -/
theorem eq_of_shown_eq {first second : Bytes} (firstEncodes : first.text?.isSome = true)
    (secondEncodes : second.text?.isSome = true) (same : first.shown = second.shown) :
    first = second := by
  obtain ⟨text, read⟩ := Option.isSome_iff_exists.1 firstEncodes
  obtain ⟨other, otherRead⟩ := Option.isSome_iff_exists.1 secondEncodes
  rw [text?_eq_some_iff] at read otherRead
  rw [read, otherRead, shown_ofString, shown_ofString] at same
  rw [read, otherRead, same]

theorem map_shown_inj {first second : List Bytes}
    (firstEncodes : ∀ name ∈ first, name.text?.isSome = true)
    (secondEncodes : ∀ name ∈ second, name.text?.isSome = true)
    (same : first.map shown = second.map shown) : first = second := by
  induction first generalizing second with
  | nil => exact (List.map_eq_nil_iff.1 same.symm).symm
  | cons name others ih =>
      cases second with
      | nil => cases same
      | cons otherName furtherOthers =>
          obtain ⟨sameName, sameOthers⟩ := List.cons.inj same
          obtain ⟨encodes, othersEncode⟩ := List.forall_mem_cons.1 firstEncodes
          obtain ⟨otherEncodes, furtherEncode⟩ := List.forall_mem_cons.1 secondEncodes
          rw [eq_of_shown_eq encodes otherEncodes sameName,
            ih othersEncode furtherEncode sameOthers]

/-- An ASCII character that is shown stands for its byte. -/
theorem mem_of_mem_shown {bytes : Bytes} {c : Char} (ascii : c.toNat < 0x80)
    (member : c ∈ bytes.shown.toList) : UInt8.ofNat c.toNat ∈ bytes := by
  rw [shown, String.toList_ofList] at member
  exact Text.mem_of_mem_decode ascii member

end Bytes
end SourceAtlas
