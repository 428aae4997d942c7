import AvroSchema.Text.Hex

/-!
# SHA-256

The SHA-256 digest of a text in UTF-8, written as 64 lower-case hexadecimal digits.
-/

namespace AvroSchema.Sha256

/-- The eight words of a running digest. -/
structure State where
  a : UInt32
  b : UInt32
  c : UInt32
  d : UInt32
  e : UInt32
  f : UInt32
  g : UInt32
  h : UInt32
deriving DecidableEq, Repr

/-- The digest before the first block: the fractional bits of the square roots of the first eight
primes. -/
def initial : State :=
  ⟨0x6a09e667, 0xbb67ae85, 0x3c6ef372, 0xa54ff53a, 0x510e527f, 0x9b05688c, 0x1f83d9ab, 0x5be0cd19⟩

/-- The round constants: the fractional bits of the cube roots of the first 64 primes. -/
def constants : List UInt32 :=
  [0x428a2f98, 0x71374491, 0xb5c0fbcf, 0xe9b5dba5, 0x3956c25b, 0x59f111f1, 0x923f82a4, 0xab1c5ed5,
    0xd807aa98, 0x12835b01, 0x243185be, 0x550c7dc3, 0x72be5d74, 0x80deb1fe, 0x9bdc06a7, 0xc19bf174,
    0xe49b69c1, 0xefbe4786, 0x0fc19dc6, 0x240ca1cc, 0x2de92c6f, 0x4a7484aa, 0x5cb0a9dc, 0x76f988da,
    0x983e5152, 0xa831c66d, 0xb00327c8, 0xbf597fc7, 0xc6e00bf3, 0xd5a79147, 0x06ca6351, 0x14292967,
    0x27b70a85, 0x2e1b2138, 0x4d2c6dfc, 0x53380d13, 0x650a7354, 0x766a0abb, 0x81c2c92e, 0x92722c85,
    0xa2bfe8a1, 0xa81a664b, 0xc24b8b70, 0xc76c51a3, 0xd192e819, 0xd6990624, 0xf40e3585, 0x106aa070,
    0x19a4c116, 0x1e376c08, 0x2748774c, 0x34b0bcb5, 0x391c0cb3, 0x4ed8aa4a, 0x5b9cca4f, 0x682e6ff3,
    0x748f82ee, 0x78a5636f, 0x84c87814, 0x8cc70208, 0x90befffa, 0xa4506ceb, 0xbef9a3f7, 0xc67178f2]

/-- A word rotated to the right. -/
def rotate (x : UInt32) (n : UInt32) : UInt32 := (x >>> n) ||| (x <<< (32 - n))

/-- The 64 words that the rounds of a block of sixteen words use. -/
def schedule (block : Array UInt32) : Array UInt32 :=
  -- each word is made of the words 16, 15, 7 and 2 places before it
  (List.range 48).foldl (fun words i =>
    let near := words.getD (i + 1) 0
    let far := words.getD (i + 14) 0
    let s0 := rotate near 7 ^^^ rotate near 18 ^^^ (near >>> 3)
    let s1 := rotate far 17 ^^^ rotate far 19 ^^^ (far >>> 10)
    words.push (words.getD i 0 + s0 + words.getD (i + 9) 0 + s1)) block

/-- One round with a word of the schedule and its constant. -/
def round (s : State) (word constant : UInt32) : State :=
  let s1 := rotate s.e 6 ^^^ rotate s.e 11 ^^^ rotate s.e 25
  let choice := (s.e &&& s.f) ^^^ (~~~s.e &&& s.g)
  let t1 := s.h + s1 + choice + constant + word
  let s0 := rotate s.a 2 ^^^ rotate s.a 13 ^^^ rotate s.a 22
  let majority := (s.a &&& s.b) ^^^ (s.a &&& s.c) ^^^ (s.b &&& s.c)
  ⟨t1 + (s0 + majority), s.a, s.b, s.c, s.d + t1, s.e, s.f, s.g⟩

/-- The digest after a further block of sixteen words. -/
def absorb (s : State) (block : Array UInt32) : State :=
  let t := ((schedule block).toList.zip constants).foldl (fun s w => round s w.1 w.2) s
  ⟨s.a + t.a, s.b + t.b, s.c + t.c, s.d + t.d, s.e + t.e, s.f + t.f, s.g + t.g, s.h + t.h⟩

/-- A number of bits as eight bytes, the highest first. -/
def lengthBytes (bits : Nat) : List UInt8 :=
  (List.range 8).map fun i => UInt8.ofNat (bits >>> (56 - 8 * i))

/-- A message filled up to whole blocks of 64 bytes, with its length at the end. -/
def padded (bytes : List UInt8) : List UInt8 :=
  bytes ++ 0x80 :: List.replicate ((119 - bytes.length % 64) % 64) 0 ++
    lengthBytes (8 * bytes.length)

/-- The words of some bytes, four bytes each, the highest first. -/
def words : List UInt8 → List UInt32
  | a :: b :: c :: d :: rest =>
    (a.toUInt32 <<< 24 ||| b.toUInt32 <<< 16 ||| c.toUInt32 <<< 8 ||| d.toUInt32) :: words rest
  | _ => []

/-- The digest of some bytes. -/
def digest (bytes : List UInt8) : State :=
  let message := (words (padded bytes)).toArray
  (List.range (message.size / 16)).foldl
    (fun s i => absorb s (message.extract (16 * i) (16 * i + 16))) initial

/-- The hexadecimal digits of a digest. -/
def State.hex (s : State) : String :=
  String.ofList <| [s.a, s.b, s.c, s.d, s.e, s.f, s.g, s.h].flatMap fun w => Hex.padded 8 w.toNat

/-- The digest of a text in UTF-8. -/
def ofText (text : String) : String := (digest text.toUTF8.toList).hex

end AvroSchema.Sha256
