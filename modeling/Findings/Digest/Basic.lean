import Findings.Digest.Xxh3
import Findings.Json.Basic

/-!
# Digests of fields

A digest is sixteen bytes. What is digested is a list of fields, each in a form that tells where it
ends: a text is preceded by its length, a number has eight bytes. So different lists of fields of
the same kinds have different bytes (`Field.bytes`), and only the digest itself can confuse them.
-/

namespace Findings

/-- One part of what is digested. -/
inductive Field where
  | text (content : ByteArray)
  | int (n : Int)

namespace Field

/-- The eight bytes of a number modulo `2 ^ 64`, the lowest first. -/
def wordBytes (n : Nat) : List UInt8 :=
  (List.range 8).map fun k => (n / 256 ^ k % 256).toUInt8

/-- The bytes of a field: the length of a text and the text; a number as a signed word. -/
def bytes : Field → List UInt8
  | text content => wordBytes content.size ++ content.toList
  | int n => wordBytes (n % 2 ^ 64).toNat

/-- The field of a string. -/
def ofString (s : String) : Field :=
  text s.toUTF8

end Field

/-- A digest of 128 bits. -/
structure Digest where
  wide : Xxh3.Wide
  deriving DecidableEq, Repr

namespace Digest

def ofBytes (data : ByteArray) : Digest :=
  ⟨Xxh3.digest data⟩

/-- The digest of the bytes of the fields, one after the other. -/
def ofFields (fields : List Field) : Digest :=
  ofBytes ⟨(fields.flatMap Field.bytes).toArray⟩

/-- The sixteen bytes, the lowest of the low half first. -/
def bytes (digest : Digest) : List UInt8 :=
  Field.wordBytes digest.wide.low.toNat ++ Field.wordBytes digest.wide.high.toNat

/-- A byte as two lower-case hexadecimal digits. -/
def hexByte (b : UInt8) : List Char :=
  [Nat.digitChar (b.toNat / 16), Nat.digitChar (b.toNat % 16)]

def hex (bytes : List UInt8) : String :=
  .ofList (bytes.flatMap hexByte)

/-- The digest as 32 lower-case hexadecimal digits. -/
def text (digest : Digest) : String :=
  hex digest.bytes

/-- The first two bytes, for diagnostics. -/
def brief (digest : Digest) : String :=
  s!"ContentHash({hex (digest.bytes.take 2)}..)"

/-- A digest is written as the list of its bytes. -/
def toJson (digest : Digest) : Json :=
  .array (digest.bytes.map fun b => .ofNat b.toNat)

/-- The word that bytes spell, the lowest first. -/
def wordOfBytes (bytes : List UInt8) : UInt64 :=
  bytes.foldr (fun b n => (n <<< 8) ||| b.toUInt64) 0

/-- Reads a list of exactly sixteen bytes. -/
def ofJson? : Json → Option Digest
  | .array items => do
    let bytes ← items.mapM fun item => do
      let n ← item.toUInt64?
      if n < 256 then some n.toUInt8 else none
    if bytes.length = 16 then
      some ⟨{ low := wordOfBytes (bytes.take 8), high := wordOfBytes (bytes.drop 8) }⟩
    else none
  | _ => none

theorem length_hex (bytes : List UInt8) : (hex bytes).length = 2 * bytes.length := by
  induction bytes with
  | nil => rfl
  | cons b bytes ih =>
    simp only [hex, List.flatMap_cons, hexByte, List.cons_append, List.nil_append,
      List.length_cons, String.length_ofList] at *
    omega

/-- The text of a digest has 32 characters, so it is never empty. -/
theorem length_text (digest : Digest) : digest.text.length = 32 := by
  simp [text, length_hex, bytes, Field.wordBytes]

end Digest

end Findings
