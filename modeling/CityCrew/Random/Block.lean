/-!
# Blocks of random words

The ChaCha block function with eight rounds: from a key of eight words and a block number it makes
sixteen words. A round mixes the sixteen words of a square, first by columns, then by diagonals.
-/

namespace CityCrew.Random

abbrev Square := Vector UInt32 16

def rotateLeft (x n : UInt32) : UInt32 :=
  (x <<< n) ||| (x >>> (32 - n))

def mix (s : Square) (a b c d : Fin 16) : Square :=
  let s := s.set a (s[a] + s[b])
  let s := s.set d (rotateLeft (s[d] ^^^ s[a]) 16)
  let s := s.set c (s[c] + s[d])
  let s := s.set b (rotateLeft (s[b] ^^^ s[c]) 12)
  let s := s.set a (s[a] + s[b])
  let s := s.set d (rotateLeft (s[d] ^^^ s[a]) 8)
  let s := s.set c (s[c] + s[d])
  s.set b (rotateLeft (s[b] ^^^ s[c]) 7)

def doubleRound (s : Square) : Square :=
  let s := mix s 0 4 8 12
  let s := mix s 1 5 9 13
  let s := mix s 2 6 10 14
  let s := mix s 3 7 11 15
  let s := mix s 0 5 10 15
  let s := mix s 1 6 11 12
  let s := mix s 2 7 8 13
  mix s 3 4 9 14

/-- The square before the first round: four constants, the key, and the number of the block. -/
def initialSquare (key : Vector UInt32 8) (number : UInt64) : Square :=
  #v[0x61707865, 0x3320646e, 0x79622d32, 0x6b206574,
    key[0], key[1], key[2], key[3], key[4], key[5], key[6], key[7],
    number.toUInt32, (number >>> 32).toUInt32, 0, 0]

def block (key : Vector UInt32 8) (number : UInt64) : Square :=
  let start := initialSquare key number
  let mixed := doubleRound (doubleRound (doubleRound (doubleRound start)))
  mixed.zipWith (· + ·) start

end CityCrew.Random
