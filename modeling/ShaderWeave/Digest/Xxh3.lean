import ShaderWeave.Digest.Basic

set_option autoImplicit false

/-!
# The digest function

XXH3 with 128 bits of output, without a seed and with the standard secret. The bytes are hashed in
one of six ways, by their number: none, up to 3, up to 8, up to 16, up to 128, up to 240, or more.
Words of 64 bits wrap around.

## Main definitions

* `ShaderWeave.Digest.xxh3` — the digest of bytes.
* `ShaderWeave.Digest.ofText` — the digest of the UTF-8 bytes of a text.
-/

namespace ShaderWeave

namespace Digest

/-! ### Words and constants -/

/-- Bytes as a number, the least significant byte first. -/
def littleEndian (bytes : List UInt8) : Nat :=
  bytes.foldr (fun b n => b.toNat + 256 * n) 0

/-- The word of 64 bits at an offset. -/
def word (bytes : List UInt8) (offset : Nat) : UInt64 :=
  .ofNat (littleEndian ((bytes.drop offset).take 8))

/-- The word of 32 bits at an offset, widened. -/
def halfWord (bytes : List UInt8) (offset : Nat) : UInt64 :=
  .ofNat (littleEndian ((bytes.drop offset).take 4))

/-- A word of 64 bits with its bytes in the opposite order. -/
def swapBytes (x : UInt64) : UInt64 :=
  .ofNat ((List.range 8).foldl (fun n i => 256 * n + (x.toNat >>> (8 * i)) % 256) 0)

/-- The lower 32 bits of a word. -/
def lowHalf (x : UInt64) : UInt64 :=
  x &&& 0xffffffff

/-- The upper 32 bits of a word. -/
def highHalf (x : UInt64) : UInt64 :=
  x >>> 32

/-- The secret. -/
def secret : List UInt8 :=
  [0xb8, 0xfe, 0x6c, 0x39, 0x23, 0xa4, 0x4b, 0xbe, 0x7c, 0x01, 0x81, 0x2c,
    0xf7, 0x21, 0xad, 0x1c, 0xde, 0xd4, 0x6d, 0xe9, 0x83, 0x90, 0x97, 0xdb,
    0x72, 0x40, 0xa4, 0xa4, 0xb7, 0xb3, 0x67, 0x1f, 0xcb, 0x79, 0xe6, 0x4e,
    0xcc, 0xc0, 0xe5, 0x78, 0x82, 0x5a, 0xd0, 0x7d, 0xcc, 0xff, 0x72, 0x21,
    0xb8, 0x08, 0x46, 0x74, 0xf7, 0x43, 0x24, 0x8e, 0xe0, 0x35, 0x90, 0xe6,
    0x81, 0x3a, 0x26, 0x4c, 0x3c, 0x28, 0x52, 0xbb, 0x91, 0xc3, 0x00, 0xcb,
    0x88, 0xd0, 0x65, 0x8b, 0x1b, 0x53, 0x2e, 0xa3, 0x71, 0x64, 0x48, 0x97,
    0xa2, 0x0d, 0xf9, 0x4e, 0x38, 0x19, 0xef, 0x46, 0xa9, 0xde, 0xac, 0xd8,
    0xa8, 0xfa, 0x76, 0x3f, 0xe3, 0x9c, 0x34, 0x3f, 0xf9, 0xdc, 0xbb, 0xc7,
    0xc7, 0x0b, 0x4f, 0x1d, 0x8a, 0x51, 0xe0, 0x4b, 0xcd, 0xb4, 0x59, 0x31,
    0xc8, 0x9f, 0x7e, 0xc9, 0xd9, 0x78, 0x73, 0x64, 0xea, 0xc5, 0xac, 0x83,
    0x34, 0xd3, 0xeb, 0xc3, 0xc5, 0x81, 0xa0, 0xff, 0xfa, 0x13, 0x63, 0xeb,
    0x17, 0x0d, 0xdd, 0x51, 0xb7, 0xf0, 0xda, 0x49, 0xd3, 0x16, 0x55, 0x26,
    0x29, 0xd4, 0x68, 0x9e, 0x2b, 0x16, 0xbe, 0x58, 0x7d, 0x47, 0xa1, 0xfc,
    0x8f, 0xf8, 0xb8, 0xd1, 0x7a, 0xd0, 0x31, 0xce, 0x45, 0xcb, 0x3a, 0x8f,
    0x95, 0x16, 0x04, 0x28, 0xaf, 0xd7, 0xfb, 0xca, 0xbb, 0x4b, 0x40, 0x7e]

/-- The word of the secret at an offset. -/
def secretWord (offset : Nat) : UInt64 :=
  word secret offset

/-- The two words of the secret at an offset, combined. -/
def secretPair (offset : Nat) : UInt64 :=
  secretWord offset ^^^ secretWord (offset + 8)

/-- The constants of 32 bits, widened. -/
def prime32A : UInt64 := 0x9e3779b1
@[inherit_doc prime32A] def prime32B : UInt64 := 0x85ebca77
@[inherit_doc prime32A] def prime32C : UInt64 := 0xc2b2ae3d

/-- The constants of 64 bits. -/
def prime64A : UInt64 := 0x9e3779b185ebca87
@[inherit_doc prime64A] def prime64B : UInt64 := 0xc2b2ae3d27d4eb4f
@[inherit_doc prime64A] def prime64C : UInt64 := 0x165667b19e3779f9
@[inherit_doc prime64A] def prime64D : UInt64 := 0x85ebca77c2b2ae63
@[inherit_doc prime64A] def prime64E : UInt64 := 0x27d4eb2f165667c5

/-- The constants with which results are mixed. -/
def mixA : UInt64 := 0x165667919e3779f9
@[inherit_doc mixA] def mixB : UInt64 := 0x9fb21c651e98df25

/-! ### Mixing -/

/-- The product of two words, in full. -/
def product (a b : UInt64) : Digest :=
  ⟨a * b, .ofNat ((a.toNat * b.toNat) >>> 64)⟩

/-- The two halves of the product of two words, combined. -/
def foldProduct (a b : UInt64) : UInt64 :=
  (product a b).low ^^^ (product a b).high

/-- Spreads every bit of a word over the whole word. -/
def avalanche (x : UInt64) : UInt64 :=
  let x := (x ^^^ (x >>> 37)) * mixA
  x ^^^ (x >>> 32)

/-- Spreads every bit of a word over the whole word, for short inputs. -/
def avalancheShort (x : UInt64) : UInt64 :=
  let x := (x ^^^ (x >>> 33)) * prime64B
  let x := (x ^^^ (x >>> 29)) * prime64C
  x ^^^ (x >>> 32)

/-- Sixteen bytes combined with sixteen bytes of the secret. -/
def mix16 (bytes : List UInt8) (offset key : Nat) : UInt64 :=
  foldProduct (word bytes offset ^^^ secretWord key) (word bytes (offset + 8) ^^^ secretWord (key + 8))

/-- Two groups of sixteen bytes worked into both halves of an accumulator. -/
def mix32 (bytes : List UInt8) (acc : Digest) (first second key : Nat) : Digest :=
  ⟨(acc.low + mix16 bytes first key) ^^^ (word bytes second + word bytes (second + 8)),
    (acc.high + mix16 bytes second (key + 16)) ^^^ (word bytes first + word bytes (first + 8))⟩

/-- The digest of an accumulator over `length` bytes. -/
def finish (acc : Digest) (length : UInt64) : Digest :=
  ⟨avalanche (acc.low + acc.high),
    0 - avalanche (acc.low * prime64A + acc.high * prime64D + length * prime64B)⟩

/-! ### Short inputs -/

/-- The digest of up to 3 bytes. -/
def upTo3 (bytes : List UInt8) : Digest :=
  match bytes with
  | [] => ⟨avalancheShort (secretPair 64), avalancheShort (secretPair 80)⟩
  | first :: _ =>
    let n := bytes.length
    let middle := bytes.getD (n / 2) 0
    let last := bytes.getD (n - 1) 0
    let low : Nat := first.toNat <<< 16 + middle.toNat <<< 24 + last.toNat + n <<< 8
    let swapped : Nat := last.toNat <<< 24 + n <<< 16 + first.toNat <<< 8 + middle.toNat
    let high : Nat := swapped <<< 13 % UInt32.size + swapped >>> 19
    ⟨avalancheShort (.ofNat low ^^^ (halfWord secret 0 ^^^ halfWord secret 4)),
      avalancheShort (.ofNat high ^^^ (halfWord secret 8 ^^^ halfWord secret 12))⟩

/-- The digest of 4 to 8 bytes. -/
def upTo8 (bytes : List UInt8) : Digest :=
  let n := bytes.length
  let value := halfWord bytes 0 + (halfWord bytes (n - 4) <<< 32)
  let p := product (value ^^^ secretPair 16) (prime64A + .ofNat (4 * n))
  let high := p.high + (p.low <<< 1)
  let low := p.low ^^^ (high >>> 3)
  let low := (low ^^^ (low >>> 35)) * mixB
  ⟨low ^^^ (low >>> 28), avalanche high⟩

/-- The digest of 9 to 16 bytes. -/
def upTo16 (bytes : List UInt8) : Digest :=
  let n := bytes.length
  let first := word bytes 0
  let last := word bytes (n - 8)
  let p := product (first ^^^ last ^^^ secretPair 32) prime64A
  let low := p.low + (UInt64.ofNat (n - 1) <<< 54)
  let last := last ^^^ secretPair 48
  let high := p.high + last + lowHalf last * (prime32B - 1)
  let q := product (low ^^^ swapBytes high) prime64B
  ⟨avalanche q.low, avalanche (q.high + high * prime64B)⟩

/-! ### Inputs of middle length -/

/-- The accumulator that mixing starts with. -/
def startOf (n : Nat) : Digest :=
  ⟨.ofNat n * prime64A, 0⟩

/-- The digest of 17 to 128 bytes: groups from both ends, the inner ones first. -/
def upTo128 (bytes : List UInt8) : Digest :=
  let n := bytes.length
  let rounds := (n - 1) / 32 + 1
  let acc := (List.range rounds).foldr
    (fun i acc => mix32 bytes acc (16 * i) (n - 16 * (i + 1)) (32 * i)) (startOf n)
  finish acc (.ofNat n)

/-- The digest of 129 to 240 bytes: groups from left to right, with a break behind the fourth, and the
last 32 bytes once more. -/
def upTo240 (bytes : List UInt8) : Digest :=
  let n := bytes.length
  let step (shift : Nat) (acc : Digest) (i : Nat) : Digest :=
    mix32 bytes acc (32 * i) (32 * i + 16) (32 * (i - shift) + if shift = 0 then 0 else 3)
  let acc := (List.range 4).foldl (step 0) (startOf n)
  let acc : Digest := ⟨avalanche acc.low, avalanche acc.high⟩
  let acc := ((List.range (n / 32)).drop 4).foldl (step 4) acc
  finish (mix32 bytes acc (n - 16) (n - 32) 103) (.ofNat n)

/-! ### Long inputs -/

/-- The eight words of the accumulator for long inputs, as it starts. -/
def lanes : List UInt64 :=
  [prime32C, prime64A, prime64B, prime64C, prime64D, prime32B, prime64E, prime32A]

/-- The neighbours in a list swapped, pair by pair. -/
def swapPairs {α : Type} : List α → List α
  | a :: b :: xs => b :: a :: swapPairs xs
  | xs => xs

/-- The eight words at an offset. -/
def eightWords (bytes : List UInt8) (offset : Nat) : List UInt64 :=
  let bytes := bytes.drop offset
  (List.range 8).map fun i => word bytes (8 * i)

/-- A stripe of 64 bytes worked into the accumulator. Each word is added to the neighbour of its lane,
and the product of its halves, once combined with the secret, to its own. -/
def accumulate (acc : List UInt64) (stripe : List UInt8) (key : Nat) : List UInt64 :=
  let data := eightWords stripe 0
  let keyed := List.zipWith (· ^^^ ·) data (eightWords secret key)
  let added := List.zipWith (· + ·) acc (swapPairs data)
  List.zipWith (fun a k => a + lowHalf k * highHalf k) added keyed

/-- What is done to the accumulator behind each block. -/
def scramble (acc : List UInt64) : List UInt64 :=
  List.zipWith (fun (a k : UInt64) => ((a ^^^ (a >>> 47)) ^^^ k) * prime32A) acc (eightWords secret 128)

/-- The stripes of a long input, of which sixteen make a block. The last bytes, up to a whole stripe,
are left out. `index` is the place of the next stripe in its block. -/
def accumulateAll (acc : List UInt64) (index : Nat) (bytes : List UInt8) : List UInt64 :=
  if h : 64 < bytes.length then
    let acc := accumulate acc (bytes.take 64) (8 * index)
    if index = 15 then accumulateAll (scramble acc) 0 (bytes.drop 64)
    else accumulateAll acc (index + 1) (bytes.drop 64)
  else acc
termination_by bytes.length
decreasing_by all_goals simp only [List.length_drop]; omega

/-- The sum of the folded products of a list of words, pair by pair. -/
def sumProducts : List UInt64 → UInt64
  | a :: b :: xs => foldProduct a b + sumProducts xs
  | _ => 0

/-- The accumulator as one word. -/
def merge (acc : List UInt64) (key : Nat) (start : UInt64) : UInt64 :=
  avalanche (start + sumProducts (List.zipWith (· ^^^ ·) acc (eightWords secret key)))

/-- The digest of more than 240 bytes. -/
def long (bytes : List UInt8) : Digest :=
  let n := bytes.length
  let acc := accumulateAll lanes 0 bytes
  let acc := accumulate acc (bytes.drop (n - 64)) 121
  ⟨merge acc 11 (.ofNat n * prime64A), merge acc 117 (~~~(.ofNat n * prime64B))⟩

/-! ### Any input -/

/-- **The digest of bytes.** -/
def xxh3 (bytes : List UInt8) : Digest :=
  let n := bytes.length
  if n ≤ 3 then upTo3 bytes
  else if n ≤ 8 then upTo8 bytes
  else if n ≤ 16 then upTo16 bytes
  else if n ≤ 128 then upTo128 bytes
  else if n ≤ 240 then upTo240 bytes
  else long bytes

/-- **The digest of a text**, taken over its UTF-8 bytes. -/
def ofText (s : String) : Digest :=
  xxh3 s.toUTF8.toList

end Digest

end ShaderWeave
