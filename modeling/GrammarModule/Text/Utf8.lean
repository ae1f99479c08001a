/-!
# GrammarModule.Text.Utf8

Texts as bytes and back. Decoding looks at one sequence at a time: either the bytes in front
denote a character, in the shortest form and outside the surrogates, or the longest part of them
that could have begun such a sequence is ill formed.
-/

namespace GrammarModule
namespace Text

/-- The bytes of a text. -/
def encode (text : List Char) : List UInt8 := text.flatMap String.utf8EncodeChar

def isContinuation (b : UInt8) : Bool := 0x80 ≤ b && b ≤ 0xbf

/-- The bits that a continuation byte adds. -/
def continuationBits (b : UInt8) : Nat := b.toNat - 0x80

/-- The bytes that may follow a lead byte of three or four bytes, the shortest form and the range
of the characters being checked there. -/
def mayFollow (lead second : UInt8) : Bool :=
  if lead = 0xe0 then 0xa0 ≤ second && second ≤ 0xbf
  else if lead = 0xed then 0x80 ≤ second && second ≤ 0x9f
  else if lead = 0xf0 then 0x90 ≤ second && second ≤ 0xbf
  else if lead = 0xf4 then 0x80 ≤ second && second ≤ 0x8f
  else isContinuation second

/-- The character that a lead byte and the bytes after it denote, if they do, and how many of the
bytes after it belong to the sequence or to the ill-formed part. -/
def sequence (lead : UInt8) (rest : List UInt8) : Option Char × Nat :=
  if lead < 0x80 then (some (Char.ofNat lead.toNat), 0)
  else if lead < 0xc2 then (none, 0)
  else if lead < 0xe0 then
    match rest with
    | b :: _ =>
      if isContinuation b then
        (some (Char.ofNat ((lead.toNat - 0xc0) * 0x40 + continuationBits b)), 1)
      else (none, 0)
    | [] => (none, 0)
  else if lead < 0xf0 then
    match rest with
    | b :: c :: _ =>
      if !mayFollow lead b then (none, 0)
      else if !isContinuation c then (none, 1)
      else
        (some (Char.ofNat (((lead.toNat - 0xe0) * 0x40 + continuationBits b) * 0x40 +
          continuationBits c)), 2)
    | [b] => (none, if mayFollow lead b then 1 else 0)
    | [] => (none, 0)
  else if lead < 0xf5 then
    match rest with
    | b :: c :: d :: _ =>
      if !mayFollow lead b then (none, 0)
      else if !isContinuation c then (none, 1)
      else if !isContinuation d then (none, 2)
      else
        (some (Char.ofNat ((((lead.toNat - 0xf0) * 0x40 + continuationBits b) * 0x40 +
          continuationBits c) * 0x40 + continuationBits d)), 3)
    | [b, c] => (none, if !mayFollow lead b then 0 else if isContinuation c then 2 else 1)
    | [b] => (none, if mayFollow lead b then 1 else 0)
    | [] => (none, 0)
  else (none, 0)

/-- The text that bytes encode, if they are well formed. -/
def decode? : List UInt8 → Option (List Char)
  | [] => some []
  | lead :: rest =>
    match sequence lead rest with
    | (some c, count) => (decode? (rest.drop count)).map (c :: ·)
    | (none, _) => none
termination_by bytes => bytes.length
decreasing_by simp only [List.length_drop, List.length_cons]; omega

/-- The text that bytes show, with the replacement character for each ill-formed part. -/
def decodeLossy : List UInt8 → List Char
  | [] => []
  | lead :: rest =>
    let (c?, count) := sequence lead rest
    c?.getD '\ufffd' :: decodeLossy (rest.drop count)
termination_by bytes => bytes.length
decreasing_by simp only [List.length_drop, List.length_cons]; omega

end Text
end GrammarModule
