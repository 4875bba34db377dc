import SourceAtlas.Text.Basic

/-!
# Bytes and the texts they encode

Every sequence of bytes decodes to a text.  Where the bytes are no valid UTF-8, the longest
prefix that could begin a character, or else a single byte, becomes one replacement
character.  So the bytes can be read back from the text only if they encode one.
-/

namespace SourceAtlas

/-- Bytes, such as the names of files are made of. -/
abbrev Bytes := List UInt8

namespace Text

def encoding (text : Text) : Bytes :=
  text.flatMap String.utf8EncodeChar

/-- What stands for bytes that encode nothing. -/
def replacement : Char := '�'

def isContinuation (byte : UInt8) : Bool :=
  0x80 ≤ byte && byte ≤ 0xBF

def payload (byte : UInt8) : Nat :=
  byte.toNat % 0x40

/-- Whether a second byte can follow the first one of a character.  Behind the first byte
`lowest` it is at least `least`, since there are shorter encodings below that, and behind
`highest` at most `most`. -/
def follows (lowest least highest most first second : UInt8) : Bool :=
  if first == lowest then least ≤ second && second ≤ 0xBF
  else if first == highest then 0x80 ≤ second && second ≤ most
  else isContinuation second

/-- What can follow in a character of three bytes, which is no surrogate. -/
def followsThree : (first second : UInt8) → Bool :=
  follows 0xE0 0xA0 0xED 0x9F

/-- What can follow in a character of four bytes, which is at most `0x10FFFF`. -/
def followsFour : (first second : UInt8) → Bool :=
  follows 0xF0 0x90 0xF4 0x8F

/-- A character of two bytes, with the number of bytes it takes up. -/
def decodeTwo (first : UInt8) (rest : List UInt8) : Char × Nat :=
  match rest with
  | second :: _ =>
      if isContinuation second then
        (Char.ofNat (first.toNat % 0x20 * 0x40 + payload second), 2)
      else (replacement, 1)
  | [] => (replacement, 1)

/-- A character of three bytes, with the number of bytes it takes up. -/
def decodeThree (first : UInt8) (rest : List UInt8) : Char × Nat :=
  match rest with
  | second :: rest =>
      if followsThree first second then
        match rest with
        | third :: _ =>
            if isContinuation third then
              (Char.ofNat ((first.toNat % 0x10 * 0x40 + payload second) * 0x40 + payload third), 3)
            else (replacement, 2)
        | [] => (replacement, 2)
      else (replacement, 1)
  | [] => (replacement, 1)

/-- A character of four bytes, with the number of bytes it takes up. -/
def decodeFour (first : UInt8) (rest : List UInt8) : Char × Nat :=
  match rest with
  | second :: rest =>
      if followsFour first second then
        match rest with
        | third :: rest =>
            if isContinuation third then
              match rest with
              | fourth :: _ =>
                  if isContinuation fourth then
                    (Char.ofNat (((first.toNat % 0x08 * 0x40 + payload second) * 0x40 +
                      payload third) * 0x40 + payload fourth), 4)
                  else (replacement, 3)
              | [] => (replacement, 3)
            else (replacement, 2)
        | [] => (replacement, 2)
      else (replacement, 1)
  | [] => (replacement, 1)

/-- The first character of a non-empty sequence of bytes, with the number of bytes it
takes up. -/
def decodeFirst (first : UInt8) (rest : List UInt8) : Char × Nat :=
  if first < 0x80 then (Char.ofNat first.toNat, 1)
  else if 0xC2 ≤ first && first ≤ 0xDF then decodeTwo first rest
  else if 0xE0 ≤ first && first ≤ 0xEF then decodeThree first rest
  else if 0xF0 ≤ first && first ≤ 0xF4 then decodeFour first rest
  else (replacement, 1)

/-- Decodes bytes behind the text `decoded`, which is kept in reverse; `skip` bytes belong
to a character already decoded. -/
def decodeFrom (decoded : Text) : (skip : Nat) → List UInt8 → Text
  | _, [] => decoded.reverse
  | skip + 1, _ :: rest => decodeFrom decoded skip rest
  | 0, first :: rest =>
      let (c, taken) := decodeFirst first rest
      decodeFrom (c :: decoded) (taken - 1) rest

/-- The text that some bytes encode. -/
def decode (bytes : Bytes) : Text :=
  decodeFrom [] 0 bytes

end Text

namespace Bytes

def ofString (text : String) : Bytes :=
  Text.encoding text.toList

instance : Coe String Bytes := ⟨ofString⟩

/-- The string that is shown for bytes, with replacement characters for what encodes
nothing. -/
def shown (bytes : Bytes) : String :=
  String.ofList (Text.decode bytes)

/-- The string that bytes encode, if they encode one. -/
def text? (bytes : Bytes) : Option String :=
  if ofString bytes.shown = bytes then some bytes.shown else none

end Bytes
end SourceAtlas
