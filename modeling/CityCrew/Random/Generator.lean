import CityCrew.Random.Block

/-!
# Random numbers

A generator gives the words of block 0, block 1, and so on, as one stream. Numbers below a bound and
samples without repetition are drawn from that stream; the seed decides all of them.
-/

namespace CityCrew.Random

structure Generator where
  key : Vector UInt32 8
  nextBlock : UInt64
  /-- The words of the last block that have not been drawn. -/
  pending : List UInt32
deriving DecidableEq

namespace Generator

/-- The step of the sequence that spreads a seed over the key. -/
def seedStep (state : UInt64) : UInt64 :=
  state * 6364136223846793005 + 11634580027462260723

def seedWord (state : UInt64) : UInt32 :=
  let x := (((state >>> 18) ^^^ state) >>> 27).toUInt32
  let turn := (state >>> 59).toUInt32
  (x >>> turn) ||| (x <<< ((32 - turn) % 32))

def ofSeed (seed : UInt64) : Generator :=
  let s1 := seedStep seed
  let s2 := seedStep s1
  let s3 := seedStep s2
  let s4 := seedStep s3
  let s5 := seedStep s4
  let s6 := seedStep s5
  let s7 := seedStep s6
  let s8 := seedStep s7
  { key := #v[seedWord s1, seedWord s2, seedWord s3, seedWord s4,
      seedWord s5, seedWord s6, seedWord s7, seedWord s8]
    nextBlock := 0
    pending := [] }

def word : StateM Generator UInt32 := fun g =>
  match g.pending with
  | w :: rest => (w, { g with pending := rest })
  | [] =>
    let fresh := block g.key g.nextBlock
    (fresh[0], { g with nextBlock := g.nextBlock + 1, pending := fresh.toList.tail })

inductive Width where
  | single
  | double
deriving DecidableEq

def Width.bits : Width → Nat
  | .single => 32
  | .double => 64

def Width.size : Width → Nat
  | .single => UInt32.size
  | .double => UInt64.size

/-- Draws a number of the given width: one word, or two with the low one first. -/
def draw : Width → StateM Generator Nat
  | .single => return (← word).toNat
  | .double => do
    let low ← word
    let high ← word
    return high.toNat * UInt32.size + low.toNat

def period : Nat :=
  16 * UInt64.size

/-- Scales draws of the given width to numbers below `n`. A draw is taken if the part that scaling
cuts off is at most `zone`, which gives every number the same share of the draws. If all the draws
of a period are refused, no later one is taken either; so the last of `retries` is only taken where
the drawing would go on forever. -/
def scaled (width : Width) (n zone : Nat) : Nat → StateM Generator Nat
  | 0 => do
    let product := (← draw width) * n
    return product / width.size
  | retries + 1 => do
    let product := (← draw width) * n
    if product % width.size ≤ zone then return product / width.size
    scaled width n zone retries

def below (width : Width) (n : Nat) : StateM Generator Nat :=
  let shift := width.bits - (n.log2 + 1)
  scaled width n (((n <<< shift) - 1) % width.size) period

/-- Puts `j` into a sample for which `t` was drawn: `t` itself, if it is new, or else `j` in front
of it. -/
def extend (sample : List Nat) (j t : Nat) : List Nat :=
  if t ∈ sample then sample.takeWhile (· ≠ t) ++ j :: sample.dropWhile (· ≠ t)
  else sample ++ [t]

/-- Draws `count` more members of a sample; the first of them is at most `j`, the next at most
`j + 1`, and so on. -/
def sampleFrom (sample : List Nat) (j : Nat) : Nat → StateM Generator (List Nat)
  | 0 => return sample
  | count + 1 => do
    let t ← below .single (j + 1)
    sampleFrom (extend sample j t) (j + 1) count

def sample (n count : Nat) : StateM Generator (List Nat) :=
  sampleFrom [] (n - count) count

end Generator

end CityCrew.Random
