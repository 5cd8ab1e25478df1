namespace BitSynth.Hash

def prime1 : UInt64 := 0x9E3779B185EBCA87
def prime2 : UInt64 := 0xC2B2AE3D27D4EB4F
def prime3 : UInt64 := 0x165667B19E3779F9
def prime4 : UInt64 := 0x85EBCA77C2B2AE63
def prime5 : UInt64 := 0x27D4EB2F165667C5

def rotl (x : UInt64) (r : UInt64) : UInt64 := (x <<< r) ||| (x >>> (64 - r))

def readLE (b : ByteArray) (i n : Nat) : UInt64 :=
  (List.range n).foldr (fun k acc => (acc <<< 8) ||| (b.get! (i + k)).toUInt64) 0

def round (acc input : UInt64) : UInt64 := rotl (acc + input * prime2) 31 * prime1

def mergeRound (acc v : UInt64) : UInt64 := (acc ^^^ round 0 v) * prime1 + prime4

/-- The four lanes after the stripes from `i`, within `fuel` stripes. -/
def stripes (b : ByteArray) : Nat → Nat → UInt64 × UInt64 × UInt64 × UInt64 →
    UInt64 × UInt64 × UInt64 × UInt64
  | 0, _, v => v
  | fuel + 1, i, (v1, v2, v3, v4) =>
    if i + 32 ≤ b.size then
      stripes b fuel (i + 32)
        (round v1 (readLE b i 8), round v2 (readLE b (i + 8) 8),
         round v3 (readLE b (i + 16) 8), round v4 (readLE b (i + 24) 8))
    else (v1, v2, v3, v4)

/-- The remaining bytes from `i` folded into `h`, within `fuel` steps. -/
def tail (b : ByteArray) : Nat → Nat → UInt64 → UInt64
  | 0, _, h => h
  | fuel + 1, i, h =>
    if i + 8 ≤ b.size then
      tail b fuel (i + 8) (rotl (h ^^^ round 0 (readLE b i 8)) 27 * prime1 + prime4)
    else if i + 4 ≤ b.size then
      tail b fuel (i + 4) (rotl (h ^^^ readLE b i 4 * prime1) 23 * prime2 + prime3)
    else if i < b.size then
      tail b fuel (i + 1) (rotl (h ^^^ (b.get! i).toUInt64 * prime5) 11 * prime1)
    else h

def xxh64 (b : ByteArray) : UInt64 :=
  let n := b.size
  let full := n / 32 * 32
  let h :=
    if n ≥ 32 then
      let (v1, v2, v3, v4) := stripes b (n / 32) 0 (prime1 + prime2, prime2, 0, 0 - prime1)
      let h := rotl v1 1 + rotl v2 7 + rotl v3 12 + rotl v4 18
      mergeRound (mergeRound (mergeRound (mergeRound h v1) v2) v3) v4
    else prime5
  let h := tail b (n + 1) (if n ≥ 32 then full else 0) (h + n.toUInt64)
  let h := (h ^^^ (h >>> 33)) * prime2
  let h := (h ^^^ (h >>> 29)) * prime3
  h ^^^ (h >>> 32)

end BitSynth.Hash
