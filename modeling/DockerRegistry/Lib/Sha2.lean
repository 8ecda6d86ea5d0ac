import Mathlib.Tactic

/-!
# The SHA-2 hash functions

SHA-256, SHA-384 and SHA-512 as FIPS 180-4 specifies them, over byte lists. A
message is padded to whole blocks, each block is expanded into its message
schedule, and the compression function folds the schedule into the chaining
state. Everything is structurally recursive, so the digest of a short message
is evaluated by the kernel.
-/

namespace Sha2

/-- Padding: a one bit, zeros, and the bit length in `lenBytes` big-endian bytes,
up to a multiple of `block` bytes. -/
def pad (block lenBytes : ℕ) (m : List UInt8) : List UInt8 :=
  let zeros := (2 * block - (m.length + 1 + lenBytes) % block) % block
  m ++ 0x80 :: List.replicate zeros 0 ++
    (List.range lenBytes).reverse.map fun i => ((m.length * 8) / 2 ^ (8 * i) % 256).toUInt8

def chunks (size : ℕ) : ℕ → List UInt8 → List (List UInt8)
  | 0, _ => []
  | n + 1, m => m.take size :: chunks size n (m.drop size)

/-! ## SHA-256 -/

def k256 : List UInt32 := [
  0x428a2f98, 0x71374491, 0xb5c0fbcf, 0xe9b5dba5, 0x3956c25b, 0x59f111f1, 0x923f82a4, 0xab1c5ed5,
  0xd807aa98, 0x12835b01, 0x243185be, 0x550c7dc3, 0x72be5d74, 0x80deb1fe, 0x9bdc06a7, 0xc19bf174,
  0xe49b69c1, 0xefbe4786, 0x0fc19dc6, 0x240ca1cc, 0x2de92c6f, 0x4a7484aa, 0x5cb0a9dc, 0x76f988da,
  0x983e5152, 0xa831c66d, 0xb00327c8, 0xbf597fc7, 0xc6e00bf3, 0xd5a79147, 0x06ca6351, 0x14292967,
  0x27b70a85, 0x2e1b2138, 0x4d2c6dfc, 0x53380d13, 0x650a7354, 0x766a0abb, 0x81c2c92e, 0x92722c85,
  0xa2bfe8a1, 0xa81a664b, 0xc24b8b70, 0xc76c51a3, 0xd192e819, 0xd6990624, 0xf40e3585, 0x106aa070,
  0x19a4c116, 0x1e376c08, 0x2748774c, 0x34b0bcb5, 0x391c0cb3, 0x4ed8aa4a, 0x5b9cca4f, 0x682e6ff3,
  0x748f82ee, 0x78a5636f, 0x84c87814, 0x8cc70208, 0x90befffa, 0xa4506ceb, 0xbef9a3f7, 0xc67178f2]

def init256 : List UInt32 :=
  [0x6a09e667, 0xbb67ae85, 0x3c6ef372, 0xa54ff53a, 0x510e527f, 0x9b05688c, 0x1f83d9ab, 0x5be0cd19]

def rotr32 (x : UInt32) (n : UInt32) : UInt32 := (x >>> n) ||| (x <<< (32 - n))

def word32 (bytes : List UInt8) : UInt32 :=
  bytes.foldl (fun acc b => (acc <<< 8) ||| b.toUInt32) 0

def bytes32 (w : UInt32) : List UInt8 :=
  [(w >>> 24).toUInt8, (w >>> 16).toUInt8, (w >>> 8).toUInt8, w.toUInt8]

/-- The message schedule `W₀ … W₁₅ W₁₆ …`, extended by `n` words. -/
def schedule256 (w : List UInt32) : ℕ → List UInt32
  | 0 => w
  | n + 1 =>
    let w := schedule256 w n
    let t := w.length
    let σ₀ := fun x => rotr32 x 7 ^^^ rotr32 x 18 ^^^ (x >>> 3)
    let σ₁ := fun x => rotr32 x 17 ^^^ rotr32 x 19 ^^^ (x >>> 10)
    w ++ [w.getD (t - 16) 0 + σ₀ (w.getD (t - 15) 0) + w.getD (t - 7) 0 + σ₁ (w.getD (t - 2) 0)]

def round256 (st : List UInt32) (kw : UInt32 × UInt32) : List UInt32 :=
  match st with
  | [a, b, c, d, e, f, g, h] =>
    let t₁ := h + (rotr32 e 6 ^^^ rotr32 e 11 ^^^ rotr32 e 25) + ((e &&& f) ^^^ (~~~e &&& g)) +
      kw.1 + kw.2
    let t₂ := (rotr32 a 2 ^^^ rotr32 a 13 ^^^ rotr32 a 22) + ((a &&& b) ^^^ (a &&& c) ^^^ (b &&& c))
    [t₁ + t₂, a, b, c, d + t₁, e, f, g]
  | _ => st

def compress256 (st : List UInt32) (block : List UInt8) : List UInt32 :=
  let w := schedule256 ((chunks 4 16 block).map word32) 48
  List.zipWith (· + ·) st ((k256.zip w).foldl round256 st)

def sha256 (m : List UInt8) : List UInt8 :=
  let p := pad 64 8 m
  ((chunks 64 (p.length / 64) p).foldl compress256 init256).flatMap bytes32

/-! ## SHA-512 and SHA-384 -/

def k512 : List UInt64 := [
  0x428a2f98d728ae22, 0x7137449123ef65cd, 0xb5c0fbcfec4d3b2f, 0xe9b5dba58189dbbc,
  0x3956c25bf348b538, 0x59f111f1b605d019, 0x923f82a4af194f9b, 0xab1c5ed5da6d8118,
  0xd807aa98a3030242, 0x12835b0145706fbe, 0x243185be4ee4b28c, 0x550c7dc3d5ffb4e2,
  0x72be5d74f27b896f, 0x80deb1fe3b1696b1, 0x9bdc06a725c71235, 0xc19bf174cf692694,
  0xe49b69c19ef14ad2, 0xefbe4786384f25e3, 0x0fc19dc68b8cd5b5, 0x240ca1cc77ac9c65,
  0x2de92c6f592b0275, 0x4a7484aa6ea6e483, 0x5cb0a9dcbd41fbd4, 0x76f988da831153b5,
  0x983e5152ee66dfab, 0xa831c66d2db43210, 0xb00327c898fb213f, 0xbf597fc7beef0ee4,
  0xc6e00bf33da88fc2, 0xd5a79147930aa725, 0x06ca6351e003826f, 0x142929670a0e6e70,
  0x27b70a8546d22ffc, 0x2e1b21385c26c926, 0x4d2c6dfc5ac42aed, 0x53380d139d95b3df,
  0x650a73548baf63de, 0x766a0abb3c77b2a8, 0x81c2c92e47edaee6, 0x92722c851482353b,
  0xa2bfe8a14cf10364, 0xa81a664bbc423001, 0xc24b8b70d0f89791, 0xc76c51a30654be30,
  0xd192e819d6ef5218, 0xd69906245565a910, 0xf40e35855771202a, 0x106aa07032bbd1b8,
  0x19a4c116b8d2d0c8, 0x1e376c085141ab53, 0x2748774cdf8eeb99, 0x34b0bcb5e19b48a8,
  0x391c0cb3c5c95a63, 0x4ed8aa4ae3418acb, 0x5b9cca4f7763e373, 0x682e6ff3d6b2b8a3,
  0x748f82ee5defb2fc, 0x78a5636f43172f60, 0x84c87814a1f0ab72, 0x8cc702081a6439ec,
  0x90befffa23631e28, 0xa4506cebde82bde9, 0xbef9a3f7b2c67915, 0xc67178f2e372532b,
  0xca273eceea26619c, 0xd186b8c721c0c207, 0xeada7dd6cde0eb1e, 0xf57d4f7fee6ed178,
  0x06f067aa72176fba, 0x0a637dc5a2c898a6, 0x113f9804bef90dae, 0x1b710b35131c471b,
  0x28db77f523047d84, 0x32caab7b40c72493, 0x3c9ebe0a15c9bebc, 0x431d67c49c100d4c,
  0x4cc5d4becb3e42b6, 0x597f299cfc657e2a, 0x5fcb6fab3ad6faec, 0x6c44198c4a475817]

def init512 : List UInt64 :=
  [0x6a09e667f3bcc908, 0xbb67ae8584caa73b, 0x3c6ef372fe94f82b, 0xa54ff53a5f1d36f1,
   0x510e527fade682d1, 0x9b05688c2b3e6c1f, 0x1f83d9abfb41bd6b, 0x5be0cd19137e2179]

def init384 : List UInt64 :=
  [0xcbbb9d5dc1059ed8, 0x629a292a367cd507, 0x9159015a3070dd17, 0x152fecd8f70e5939,
   0x67332667ffc00b31, 0x8eb44a8768581511, 0xdb0c2e0d64f98fa7, 0x47b5481dbefa4fa4]

def rotr64 (x : UInt64) (n : UInt64) : UInt64 := (x >>> n) ||| (x <<< (64 - n))

def word64 (bytes : List UInt8) : UInt64 :=
  bytes.foldl (fun acc b => (acc <<< 8) ||| b.toUInt64) 0

def bytes64 (w : UInt64) : List UInt8 :=
  (List.range 8).reverse.map fun i => (w >>> (8 * i).toUInt64).toUInt8

def schedule512 (w : List UInt64) : ℕ → List UInt64
  | 0 => w
  | n + 1 =>
    let w := schedule512 w n
    let t := w.length
    let σ₀ := fun x => rotr64 x 1 ^^^ rotr64 x 8 ^^^ (x >>> 7)
    let σ₁ := fun x => rotr64 x 19 ^^^ rotr64 x 61 ^^^ (x >>> 6)
    w ++ [w.getD (t - 16) 0 + σ₀ (w.getD (t - 15) 0) + w.getD (t - 7) 0 + σ₁ (w.getD (t - 2) 0)]

def round512 (st : List UInt64) (kw : UInt64 × UInt64) : List UInt64 :=
  match st with
  | [a, b, c, d, e, f, g, h] =>
    let t₁ := h + (rotr64 e 14 ^^^ rotr64 e 18 ^^^ rotr64 e 41) + ((e &&& f) ^^^ (~~~e &&& g)) +
      kw.1 + kw.2
    let t₂ := (rotr64 a 28 ^^^ rotr64 a 34 ^^^ rotr64 a 39) + ((a &&& b) ^^^ (a &&& c) ^^^ (b &&& c))
    [t₁ + t₂, a, b, c, d + t₁, e, f, g]
  | _ => st

def compress512 (st : List UInt64) (block : List UInt8) : List UInt64 :=
  let w := schedule512 ((chunks 8 16 block).map word64) 64
  List.zipWith (· + ·) st ((k512.zip w).foldl round512 st)

def hash512 (init : List UInt64) (m : List UInt8) : List UInt64 :=
  let p := pad 128 16 m
  (chunks 128 (p.length / 128) p).foldl compress512 init

def sha512 (m : List UInt8) : List UInt8 := (hash512 init512 m).flatMap bytes64

/-- SHA-384 is SHA-512 from its own initial state, truncated to six words. -/
def sha384 (m : List UInt8) : List UInt8 := ((hash512 init384 m).take 6).flatMap bytes64

/-! ## Lengths -/

theorem length_round256 (st : List UInt32) (kw : UInt32 × UInt32) :
    (round256 st kw).length = st.length := by
  unfold round256
  split <;> rfl

theorem length_compress256 (st : List UInt32) (block : List UInt8) :
    (compress256 st block).length = st.length := by
  have hfold : ∀ (l : List (UInt32 × UInt32)) (s : List UInt32), (l.foldl round256 s).length = s.length := by
    intro l
    induction l with
    | nil => intro s; rfl
    | cons kw l ih => intro s; rw [List.foldl_cons, ih, length_round256]
  simp [compress256, hfold]

theorem length_sha256 (m : List UInt8) : (sha256 m).length = 32 := by
  have hstate : ∀ (blocks : List (List UInt8)) (st : List UInt32),
      (blocks.foldl compress256 st).length = st.length := by
    intro blocks
    induction blocks with
    | nil => intro st; rfl
    | cons b bs ih => intro st; rw [List.foldl_cons, ih, length_compress256]
  have hwords := hstate (chunks 64 ((pad 64 8 m).length / 64) (pad 64 8 m)) init256
  simp only [sha256, List.length_flatMap, bytes32, List.length_cons, List.length_nil, List.map_const',
    List.sum_replicate, hwords, smul_eq_mul]
  rfl

end Sha2
