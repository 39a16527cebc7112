/-!
# XXH3 with 128 bits

The digest function XXH3 in its 128-bit form, with seed 0 and the default secret. There is one
method for each range of lengths; all arithmetic is modulo `2 ^ 64`.
-/

namespace Findings.Xxh3

/-! ## Words -/

def prime32a : UInt64 := 0x9E3779B1
def prime32b : UInt64 := 0x85EBCA77
def prime32c : UInt64 := 0xC2B2AE3D
def prime64a : UInt64 := 0x9E3779B185EBCA87
def prime64b : UInt64 := 0xC2B2AE3D27D4EB4F
def prime64c : UInt64 := 0x165667B19E3779F9
def prime64d : UInt64 := 0x85EBCA77C2B2AE63
def prime64e : UInt64 := 0x27D4EB2F165667C5

/-- The default secret. -/
def secret : ByteArray := ⟨#[
  0xb8, 0xfe, 0x6c, 0x39, 0x23, 0xa4, 0x4b, 0xbe, 0x7c, 0x01, 0x81, 0x2c, 0xf7, 0x21, 0xad, 0x1c,
  0xde, 0xd4, 0x6d, 0xe9, 0x83, 0x90, 0x97, 0xdb, 0x72, 0x40, 0xa4, 0xa4, 0xb7, 0xb3, 0x67, 0x1f,
  0xcb, 0x79, 0xe6, 0x4e, 0xcc, 0xc0, 0xe5, 0x78, 0x82, 0x5a, 0xd0, 0x7d, 0xcc, 0xff, 0x72, 0x21,
  0xb8, 0x08, 0x46, 0x74, 0xf7, 0x43, 0x24, 0x8e, 0xe0, 0x35, 0x90, 0xe6, 0x81, 0x3a, 0x26, 0x4c,
  0x3c, 0x28, 0x52, 0xbb, 0x91, 0xc3, 0x00, 0xcb, 0x88, 0xd0, 0x65, 0x8b, 0x1b, 0x53, 0x2e, 0xa3,
  0x71, 0x64, 0x48, 0x97, 0xa2, 0x0d, 0xf9, 0x4e, 0x38, 0x19, 0xef, 0x46, 0xa9, 0xde, 0xac, 0xd8,
  0xa8, 0xfa, 0x76, 0x3f, 0xe3, 0x9c, 0x34, 0x3f, 0xf9, 0xdc, 0xbb, 0xc7, 0xc7, 0x0b, 0x4f, 0x1d,
  0x8a, 0x51, 0xe0, 0x4b, 0xcd, 0xb4, 0x59, 0x31, 0xc8, 0x9f, 0x7e, 0xc9, 0xd9, 0x78, 0x73, 0x64,
  0xea, 0xc5, 0xac, 0x83, 0x34, 0xd3, 0xeb, 0xc3, 0xc5, 0x81, 0xa0, 0xff, 0xfa, 0x13, 0x63, 0xeb,
  0x17, 0x0d, 0xdd, 0x51, 0xb7, 0xf0, 0xda, 0x49, 0xd3, 0x16, 0x55, 0x26, 0x29, 0xd4, 0x68, 0x9e,
  0x2b, 0x16, 0xbe, 0x58, 0x7d, 0x47, 0xa1, 0xfc, 0x8f, 0xf8, 0xb8, 0xd1, 0x7a, 0xd0, 0x31, 0xce,
  0x45, 0xcb, 0x3a, 0x8f, 0x95, 0x16, 0x04, 0x28, 0xaf, 0xd7, 0xfb, 0xca, 0xbb, 0x4b, 0x40, 0x7e]⟩

/-- The byte at a position, zero past the end. -/
def byteAt (data : ByteArray) (i : Nat) : UInt64 :=
  ((data[i]?).getD 0).toUInt64

/-- The number that `count` bytes from a position spell, the lowest byte first. -/
def word (count : Nat) (data : ByteArray) (i : Nat) : UInt64 :=
  (List.range count).foldr (fun k n => (n <<< 8) ||| byteAt data (i + k)) 0

def word32 (data : ByteArray) (i : Nat) : UInt64 :=
  word 4 data i

def word64 (data : ByteArray) (i : Nat) : UInt64 :=
  word 8 data i

/-- The bytes of a word of `count` bytes in the other order. -/
def swapBytes (count : Nat) (x : UInt64) : UInt64 :=
  (List.range count).foldl (fun n k => (n <<< 8) ||| ((x >>> (8 * k).toUInt64) &&& 0xff)) 0

/-- The high and the low half of a product. -/
def multiplyWide (x y : UInt64) : UInt64 × UInt64 :=
  let product := x.toNat * y.toNat
  ((product / 2 ^ 64).toUInt64, product.toUInt64)

/-- The halves of a product, combined. -/
def multiplyFold (x y : UInt64) : UInt64 :=
  let (high, low) := multiplyWide x y
  high ^^^ low

def xorShift (x : UInt64) (n : UInt64) : UInt64 :=
  x ^^^ (x >>> n)

def lowHalf (x : UInt64) : UInt64 :=
  x &&& 0xffffffff

def highHalf (x : UInt64) : UInt64 :=
  x >>> 32

/-- The final mixing of a long digest. -/
def avalanche (x : UInt64) : UInt64 :=
  xorShift (xorShift x 37 * 0x165667919E3779F9) 32

/-- The final mixing of the digest of at most three bytes. -/
def avalancheShort (x : UInt64) : UInt64 :=
  xorShift (xorShift (xorShift x 33 * prime64b) 29 * prime64c) 32

/-- A digest: its high and its low half. -/
structure Wide where
  high : UInt64
  low : UInt64
  deriving DecidableEq, Repr

/-! ## Short inputs -/

def digestEmpty : Wide :=
  { low := avalancheShort (word64 secret 64 ^^^ word64 secret 72)
    high := avalancheShort (word64 secret 80 ^^^ word64 secret 88) }

/-- One to three bytes. -/
def digestTo3 (data : ByteArray) : Wide :=
  let n := data.size
  let first := byteAt data 0
  let middle := byteAt data (n / 2)
  let last := byteAt data (n - 1)
  let low := (first <<< 16) ||| (middle <<< 24) ||| last ||| (n.toUInt64 <<< 8)
  let swapped := swapBytes 4 low
  let high := lowHalf ((swapped <<< 13) ||| (swapped >>> 19))
  { low := avalancheShort (low ^^^ (word32 secret 0 ^^^ word32 secret 4))
    high := avalancheShort (high ^^^ (word32 secret 8 ^^^ word32 secret 12)) }

/-- Four to eight bytes. -/
def digestTo8 (data : ByteArray) : Wide :=
  let n := data.size
  let combined := word32 data 0 + (word32 data (n - 4) <<< 32)
  let keyed := combined ^^^ (word64 secret 16 ^^^ word64 secret 24)
  let (high, low) := multiplyWide keyed (prime64a + (n.toUInt64 <<< 2))
  let high := high + (low <<< 1)
  let low := low ^^^ (high >>> 3)
  let low := xorShift (xorShift low 35 * 0x9FB21C651E98DF25) 28
  { low, high := avalanche high }

/-- Nine to sixteen bytes. -/
def digestTo16 (data : ByteArray) : Wide :=
  let n := data.size
  let inputLow := word64 data 0
  let inputHigh := word64 data (n - 8)
  let flipLow := word64 secret 32 ^^^ word64 secret 40
  let flipHigh := word64 secret 48 ^^^ word64 secret 56
  let (high, low) := multiplyWide (inputLow ^^^ inputHigh ^^^ flipLow) prime64a
  let low := low + ((n - 1).toUInt64 <<< 54)
  let inputHigh := inputHigh ^^^ flipHigh
  let high := high + inputHigh + lowHalf inputHigh * (prime32b - 1)
  let low := low ^^^ swapBytes 8 high
  let (top, bottom) := multiplyWide low prime64b
  { low := avalanche bottom, high := avalanche (top + high * prime64b) }

/-! ## Inputs up to 240 bytes -/

/-- Sixteen bytes mixed with sixteen of the secret. -/
def mix16 (data : ByteArray) (i s : Nat) : UInt64 :=
  multiplyFold (word64 data i ^^^ word64 secret s) (word64 data (i + 8) ^^^ word64 secret (s + 8))

/-- Two blocks of sixteen bytes mixed into the state. -/
def mix32 (data : ByteArray) (state : Wide) (i j s : Nat) : Wide :=
  { low := (state.low + mix16 data i s) ^^^ (word64 data j + word64 data (j + 8))
    high := (state.high + mix16 data j (s + 16)) ^^^ (word64 data i + word64 data (i + 8)) }

/-- The digest of a state for an input of `n` bytes. -/
def finish (n : Nat) (state : Wide) : Wide :=
  { low := avalanche (state.low + state.high)
    high := 0 - avalanche
      (state.low * prime64a + state.high * prime64d + n.toUInt64 * prime64b) }

/-- Seventeen to 128 bytes: pairs of blocks from both ends, the inner ones first. -/
def digestTo128 (data : ByteArray) : Wide :=
  let n := data.size
  let pairs := (n - 1) / 32 + 1
  let state := (List.range pairs).foldr
    (fun k state => mix32 data state (16 * k) (n - 16 * (k + 1)) (32 * k))
    { low := n.toUInt64 * prime64a, high := 0 }
  finish n state

/-- Up to 240 bytes: four rounds, a mixing, the other rounds, and the last 32 bytes. -/
def digestTo240 (data : ByteArray) : Wide :=
  let n := data.size
  let start : Wide := { low := n.toUInt64 * prime64a, high := 0 }
  let state := (List.range 4).foldl
    (fun state k => mix32 data state (32 * k) (32 * k + 16) (32 * k)) start
  let state : Wide := { low := avalanche state.low, high := avalanche state.high }
  let state := (List.range (n / 32 - 4)).foldl
    (fun state k => mix32 data state (32 * (k + 4)) (32 * (k + 4) + 16) (3 + 32 * k)) state
  finish n (mix32 data state (n - 16) (n - 32) (136 - 17 - 16))

/-! ## Long inputs -/

/-- The eight lanes before the first stripe. -/
def startLanes : Array UInt64 :=
  #[prime32c, prime64a, prime64b, prime64c, prime64d, prime32b, prime64e, prime32a]

def lane (lanes : Array UInt64) (i : Nat) : UInt64 :=
  (lanes[i]?).getD 0

/-- A stripe of 64 bytes mixed into the lanes. -/
def accumulate (data : ByteArray) (lanes : Array UInt64) (i s : Nat) : Array UInt64 :=
  (Array.range 8).map fun k =>
    let key := word64 data (i + 8 * k) ^^^ word64 secret (s + 8 * k)
    let partner := if k % 2 = 0 then k + 1 else k - 1
    lane lanes k + word64 data (i + 8 * partner) + lowHalf key * highHalf key

/-- The mixing of the lanes after a block. -/
def scramble (lanes : Array UInt64) (s : Nat) : Array UInt64 :=
  (Array.range 8).map fun k =>
    (xorShift (lane lanes k) 47 ^^^ word64 secret (s + 8 * k)) * prime32a

/-- The lanes combined to one word. -/
def mergeLanes (lanes : Array UInt64) (s : Nat) (start : UInt64) : UInt64 :=
  avalanche <| (List.range 4).foldl
    (fun sum k => sum + multiplyFold (lane lanes (2 * k) ^^^ word64 secret (s + 16 * k))
      (lane lanes (2 * k + 1) ^^^ word64 secret (s + 16 * k + 8)))
    start

/-- More than 240 bytes: blocks of sixteen stripes, then the rest, then the last stripe. -/
def digestLong (data : ByteArray) : Wide :=
  let n := data.size
  let secretEnd := 192 - 64
  let stripes (lanes : Array UInt64) (i count : Nat) : Array UInt64 :=
    (List.range count).foldl (fun lanes k => accumulate data lanes (i + 64 * k) (8 * k)) lanes
  let blocks := (n - 1) / 1024
  let lanes := (List.range blocks).foldl
    (fun lanes k => scramble (stripes lanes (1024 * k) 16) secretEnd) startLanes
  let lanes := stripes lanes (1024 * blocks) ((n - 1 - 1024 * blocks) / 64)
  let lanes := accumulate data lanes (n - 64) (secretEnd - 7)
  { low := mergeLanes lanes 11 (n.toUInt64 * prime64a)
    high := mergeLanes lanes (192 - 64 - 11) (~~~(n.toUInt64 * prime64b)) }

/-- The digest of any input. -/
def digest (data : ByteArray) : Wide :=
  if data.size = 0 then digestEmpty
  else if data.size ≤ 3 then digestTo3 data
  else if data.size ≤ 8 then digestTo8 data
  else if data.size ≤ 16 then digestTo16 data
  else if data.size ≤ 128 then digestTo128 data
  else if data.size ≤ 240 then digestTo240 data
  else digestLong data

end Findings.Xxh3
