namespace EvmJumps

abbrev Digest := Vector UInt8 32

namespace Keccak

/-- Lane (x, y) stands at place x + 5 y. -/
abbrev Lanes := Vector UInt64 25

def lane (a : Lanes) (x y : Nat) : UInt64 :=
  a[x % 5 + 5 * (y % 5)]

def rotate (w : UInt64) (n : Nat) : UInt64 :=
  if n = 0 then w else w <<< n.toUInt64 ||| w >>> (64 - n).toUInt64

def roundConstants : List UInt64 :=
  [0x0000000000000001, 0x0000000000008082, 0x800000000000808a, 0x8000000080008000,
    0x000000000000808b, 0x0000000080000001, 0x8000000080008081, 0x8000000000008009,
    0x000000000000008a, 0x0000000000000088, 0x0000000080008009, 0x000000008000000a,
    0x000000008000808b, 0x800000000000008b, 0x8000000000008089, 0x8000000000008003,
    0x8000000000008002, 0x8000000000000080, 0x000000000000800a, 0x800000008000000a,
    0x8000000080008081, 0x8000000000008080, 0x0000000080000001, 0x8000000080008008]

/-- How far each lane is rotated. -/
def offsets : Vector Nat 25 :=
  #v[0, 1, 62, 28, 27, 36, 44, 6, 55, 20, 3, 10, 43, 25, 39, 41, 45, 15, 21, 8, 18, 2, 61, 56, 14]

/-- Adds to each lane the parities of two neighbouring columns. -/
def theta (a : Lanes) : Lanes :=
  let column : Vector UInt64 5 := Vector.ofFn fun x =>
    lane a x 0 ^^^ lane a x 1 ^^^ lane a x 2 ^^^ lane a x 3 ^^^ lane a x 4
  Vector.ofFn fun i =>
    a[i] ^^^ column[(i.val + 4) % 5] ^^^ rotate column[(i.val + 1) % 5] 1

/-- Rotates the lanes and moves them: what lands at (x, y) comes from (x + 3 y, x). -/
def rhoPi (a : Lanes) : Lanes :=
  Vector.ofFn fun i =>
    let x := i.val % 5
    let y := i.val / 5
    let source := (x + 3 * y) % 5 + 5 * x
    have bound : source < 25 := by omega
    rotate a[source] offsets[source]

def chi (a : Lanes) : Lanes :=
  Vector.ofFn fun i =>
    let x := i.val % 5
    let y := i.val / 5
    a[i] ^^^ (~~~ lane a (x + 1) y &&& lane a (x + 2) y)

def iota (a : Lanes) (constant : UInt64) : Lanes :=
  a.set 0 (a[0] ^^^ constant)

def permute (a : Lanes) : Lanes :=
  roundConstants.foldl (fun a constant => iota (chi (rhoPi (theta a))) constant) a

/-- Bytes per block. -/
def rate : Nat := 136

/-- The word of eight bytes, the least significant first. -/
def word (bytes : Array UInt8) (i : Nat) : UInt64 :=
  (List.range 8).foldr (fun k w => w <<< 8 ||| (bytes.getD (8 * i + k) 0).toUInt64) 0

def absorb (a : Lanes) (block : List UInt8) : Lanes :=
  let bytes := block.toArray
  permute (Vector.ofFn fun i => if i.val < rate / 8 then a[i] ^^^ word bytes i else a[i])

/-- Fills up the last block, with a bit after the message and a bit at the end of the block. -/
def pad (block : List UInt8) : List UInt8 :=
  let filled := block ++ 1 :: List.replicate (rate - 1 - block.length) 0
  filled.dropLast ++ [filled.getLastD 0 ||| 0x80]

/-- A message that ends on a block boundary is followed by a block of padding. -/
def absorbAll (a : Lanes) (message : List UInt8) : Lanes :=
  let block := message.take rate
  if full : block.length = rate then
    have shorter : (message.drop rate).length < message.length := by
      have taken : (message.take rate).length = rate := full
      simp only [List.length_take, List.length_drop, rate] at taken ⊢
      omega
    absorbAll (absorb a block) (message.drop rate)
  else absorb a (pad block)
termination_by message.length
decreasing_by exact shorter

def laneByte (w : UInt64) (k : Nat) : UInt8 :=
  (w >>> (8 * k).toUInt64).toUInt8

end Keccak

/-- A sponge over 25 lanes of 64 bits with a rate of 136 bytes. -/
def keccak256 (message : List UInt8) : Digest :=
  let a := Keccak.absorbAll (Vector.replicate 25 0) message
  Vector.ofFn fun i => Keccak.laneByte (a[i.val / 8]) (i.val % 8)

end EvmJumps
