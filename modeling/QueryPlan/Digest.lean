import QueryPlan.Text.Quoted

/-!
# Digests

The digest of a text is a word of 64 bits computed from its UTF-8 bytes, sixteen at a time, by
folded multiplication: the two halves of a product of 128 bits, combined by exclusive or.
-/

namespace QueryPlan.Digest

/-- The two halves of the product, combined. -/
def fold (a b : UInt64) : UInt64 :=
  let p := a.toNat * b.toNat
  p.toUInt64 ^^^ (p >>> 64).toUInt64

/-- Turns the bits of a word to the left. -/
def turn (x n : UInt64) : UInt64 :=
  let k := n % 64
  if k = 0 then x else (x <<< k) ||| (x >>> (64 - k))

def factor : UInt64 := 6364136223846793005

def pad : UInt64 := 0x243f6a8885a308d3 ^^^ 0x452821e638d01377

def start : UInt64 := 0x13198a2e03707344 ^^^ 0xbe5466cf34e90c6c

def firstKey : UInt64 := 0xa4093822299f31d0 ^^^ 0xc0ac29b7c97c50dd

def secondKey : UInt64 := 0x082efa98ec4e6c89 ^^^ 0x3f84d5b5b5470917

/-- Takes up two words. -/
def absorb (state x y : UInt64) : UInt64 :=
  turn ((state + pad) ^^^ fold (x ^^^ firstKey) (y ^^^ secondKey)) 23

/-- Bytes as a number, the least significant first. -/
def littleEndian : List UInt8 → UInt64
  | [] => 0
  | b :: bs => b.toUInt64 ||| (littleEndian bs <<< 8)

/-- The first and the last `n` bytes, as words. -/
def ends (bytes : List UInt8) (first last : Nat) : UInt64 × UInt64 :=
  (littleEndian (bytes.take first), littleEndian (bytes.drop (bytes.length - last)))

/-- Takes up sixteen bytes at a time while more than sixteen remain; the fuel bounds the rounds. -/
def absorbBlocks : Nat → UInt64 → List UInt8 → UInt64
  | 0, state, _ => state
  | fuel + 1, state, bytes =>
    if 16 < bytes.length then
      let state := absorb state (littleEndian (bytes.take 8)) (littleEndian ((bytes.drop 8).take 8))
      absorbBlocks fuel state (bytes.drop 16)
    else state

/-- Takes up all bytes; a long text begins with its last sixteen. -/
def absorbAll (state : UInt64) (bytes : List UInt8) : UInt64 :=
  let n := bytes.length
  if 16 < n then
    let tail := bytes.drop (n - 16)
    let state := absorb state (littleEndian (tail.take 8)) (littleEndian (tail.drop 8))
    absorbBlocks (n / 16 + 1) state bytes
  else
    let (x, y) :=
      if 8 < n then ends bytes 8 8
      else if 4 ≤ n then ends bytes 4 4
      else if 2 ≤ n then ends bytes 2 1
      else ends bytes 1 1
    absorb state x y

/-- The digest of a text. -/
def ofText (s : String) : UInt64 :=
  let bytes := s.toUTF8.toList
  let state := absorbAll ((start + bytes.length.toUInt64) * factor) bytes
  let mixed := fold (state ^^^ 0xff) factor
  turn (fold mixed pad) (mixed &&& 63)

/-- Sixteen hexadecimal digits. -/
def text (digest : UInt64) : String :=
  let digits := Text.hex digest.toNat
  String.ofList (List.replicate (16 - digits.length) '0') ++ digits

end QueryPlan.Digest
