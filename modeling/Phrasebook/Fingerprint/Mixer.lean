/-
The mixing function behind fingerprints. The state is one 64-bit word; adding a word adds it to the
state and multiplies by an odd constant, modulo 2^64, and the result is the state rotated by 26 bits. A
byte string enters as one word that folds two 64-bit lanes together by wide multiplication.
-/

namespace Phrasebook.Mixer

/-- The odd factor of every addition. -/
def factor : UInt64 := 0xf1357aea2e62a9c5

/-- The state after one word is added. -/
def add (state word : UInt64) : UInt64 :=
  (state + word) * factor

/-- The word rotated to the left by 26 bits. -/
def rotate (w : UInt64) : UInt64 :=
  (w <<< 26) ||| (w >>> 38)

/-- The result of adding words one after the other to the state zero. -/
def digest (words : List UInt64) : UInt64 :=
  rotate (words.foldl add 0)

/-! ## Byte strings as words -/

/-- The 128-bit product of two words, its upper half folded onto its lower half. -/
def foldedProduct (x y : UInt64) : UInt64 :=
  let product := x.toNat * y.toNat
  UInt64.ofNat (product % UInt64.size) ^^^ UInt64.ofNat (product / UInt64.size)

/-- The word whose bytes are given, the least significant first. -/
def littleEndian (bytes : List UInt8) : UInt64 :=
  bytes.foldr (fun b high => (high <<< 8) ||| b.toUInt64) 0

/-- Two 64-bit lanes. -/
structure Lanes where
  left : UInt64
  right : UInt64
  deriving DecidableEq, Repr

/-- The lanes before any byte is seen. -/
def Lanes.start : Lanes :=
  ⟨0x243f6a8885a308d3, 0x13198a2e03707344⟩

/-- The word that is mixed into the second half of every block. -/
def blockKey : UInt64 := 0xa4093822299f31d0

/-- The lanes with one word folded onto each. -/
def Lanes.fold (l : Lanes) (x y : UInt64) : Lanes :=
  ⟨l.left ^^^ x, l.right ^^^ y⟩

/-- The lanes after one block of sixteen bytes, given as two words. -/
def Lanes.block (l : Lanes) (x y : UInt64) : Lanes :=
  ⟨l.right, foldedProduct (l.left ^^^ x) (blockKey ^^^ y)⟩

/-- The lanes after a number of blocks taken from the front of the bytes. -/
def Lanes.blocks : Lanes → Nat → List UInt8 → Lanes
  | l, 0, _ => l
  | l, n + 1, bytes =>
    (l.block (littleEndian (bytes.take 8)) (littleEndian ((bytes.drop 8).take 8))).blocks n
      (bytes.drop 16)

/-- The first and the last `width` bytes as words. The two may overlap. -/
def ends (width : Nat) (bytes : List UInt8) : UInt64 × UInt64 :=
  (littleEndian (bytes.take width), littleEndian (bytes.drop (bytes.length - width)))

/-- The lanes of at most sixteen bytes: the first and last eight, the first and last four, or for
fewer than four bytes the first one and the pair of the middle and the last one. -/
def shortLanes (bytes : List UInt8) : Lanes :=
  let n := bytes.length
  if 8 ≤ n then
    Lanes.start.fold (ends 8 bytes).1 (ends 8 bytes).2
  else if 4 ≤ n then
    Lanes.start.fold (ends 4 bytes).1 (ends 4 bytes).2
  else if 0 < n then
    Lanes.start.fold (littleEndian (bytes.take 1))
      (littleEndian [bytes.getD (n / 2) 0, bytes.getD (n - 1) 0])
  else
    Lanes.start

/-- The lanes of more than sixteen bytes: whole blocks as long as a byte remains after them, then the
last sixteen bytes. -/
def longLanes (bytes : List UInt8) : Lanes :=
  let tail := bytes.drop (bytes.length - 16)
  (Lanes.start.blocks ((bytes.length - 1) / 16) bytes).fold (littleEndian (tail.take 8))
    (littleEndian (tail.drop 8))

/-- The word of a byte string. -/
def hashBytes (bytes : List UInt8) : UInt64 :=
  let lanes := if bytes.length ≤ 16 then shortLanes bytes else longLanes bytes
  foldedProduct lanes.left lanes.right ^^^ UInt64.ofNat bytes.length

end Phrasebook.Mixer
