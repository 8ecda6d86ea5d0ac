import Mathlib.Tactic

/-!
# Base64 and big-endian octet strings

`base64.RawURLEncoding` of Go's `encoding/base64`: the URL-safe alphabet of
RFC 4648 §5, four characters for each group of three bytes, and for a last
group of one or two bytes two or three characters, without padding.

The octets of a natural number, most significant first: `(*big.Int).Bytes()`
writes the fewest (`bigBytes`), and the octet string of a fixed length `len`
(RFC 8017's I2OSP, which RFC 7518 asks for the coordinates of an EC key) writes
exactly `len` (`fixedBytes`). The two agree when the first of the `len` octets
is not zero, and `bigBytes` is shorter when it is.
-/

namespace Encoding

/-! ## Base64 -/

def urlChar (v : ℕ) : Char :=
  if v < 26 then Char.ofNat (65 + v)
  else if v < 52 then Char.ofNat (71 + v)
  else if v < 62 then Char.ofNat (v - 4)
  else if v = 62 then '-' else '_'

def encodeRawURL : List UInt8 → List Char
  | [] => []
  | [a] =>
    let v := a.toNat * 16
    [urlChar (v / 64), urlChar (v % 64)]
  | [a, b] =>
    let v := (a.toNat * 256 + b.toNat) * 4
    [urlChar (v / 4096), urlChar (v / 64 % 64), urlChar (v % 64)]
  | a :: b :: c :: rest =>
    let v := a.toNat * 65536 + b.toNat * 256 + c.toNat
    [urlChar (v / 262144), urlChar (v / 4096 % 64), urlChar (v / 64 % 64), urlChar (v % 64)] ++
      encodeRawURL rest

theorem length_encodeRawURL (l : List UInt8) : (encodeRawURL l).length = (4 * l.length + 2) / 3 := by
  fun_induction encodeRawURL l with
  | case1 => rfl
  | case2 => simp
  | case3 => simp
  | case4 a b c rest v ih =>
    rw [List.length_append, ih]
    simp only [List.length_cons, List.length_nil]
    omega

example : String.ofList (encodeRawURL [0xfb, 0xff]) = "-_8" := by decide

/-! ## Octet strings -/

/-- The base-256 digits of `n`, least significant first, at most `fuel` of
them; none for 0. -/
def bytesRev : ℕ → ℕ → List UInt8
  | 0, _ => []
  | fuel + 1, n => if n = 0 then [] else (n % 256).toUInt8 :: bytesRev fuel (n / 256)

/-- `(*big.Int).Bytes()` of a non-negative `n`: its bytes, most significant first,
without leading zeros. -/
def bigBytes (n : ℕ) : List UInt8 := (bytesRev n n).reverse

/-- The last `len` base-256 digits of `n`, least significant first. -/
def fixedRev : ℕ → ℕ → List UInt8
  | 0, _ => []
  | len + 1, n => (n % 256).toUInt8 :: fixedRev len (n / 256)

/-- The octet string of `n` of length `len`, most significant first. -/
def fixedBytes (len n : ℕ) : List UInt8 := (fixedRev len n).reverse

theorem length_fixedRev (len n : ℕ) : (fixedRev len n).length = len := by
  induction len generalizing n with
  | zero => rfl
  | succ len ih => rw [fixedRev, List.length_cons, ih]

@[simp] theorem length_fixedBytes (len n : ℕ) : (fixedBytes len n).length = len := by
  rw [fixedBytes, List.length_reverse, length_fixedRev]

theorem bytesRev_zero (fuel : ℕ) : bytesRev fuel 0 = [] := by
  cases fuel <;> rfl

theorem length_bytesRev_le : ∀ (fuel k n : ℕ), n < 256 ^ k → (bytesRev fuel n).length ≤ k
  | 0, _, _, _ => Nat.zero_le _
  | fuel + 1, k, n, hn => by
    by_cases h0 : n = 0
    · simp [bytesRev, h0]
    · obtain ⟨j, rfl⟩ : ∃ j, k = j + 1 := by
        rcases k with _ | j
        · simp at hn
          omega
        · exact ⟨j, rfl⟩
      have hdiv : n / 256 < 256 ^ j := by
        rw [pow_succ] at hn
        omega
      have := length_bytesRev_le fuel j (n / 256) hdiv
      simp only [bytesRev, h0, if_false, List.length_cons]
      omega

theorem bytesRev_eq_fixedRev : ∀ (k fuel n : ℕ), k ≤ fuel → 256 ^ k ≤ 256 * n → n < 256 ^ k →
    bytesRev fuel n = fixedRev k n
  | 0, _, n, _, hlo, hhi => by
    simp at hlo hhi
    omega
  | k + 1, fuel + 1, n, hfuel, hlo, hhi => by
    have h0 : n ≠ 0 := by
      rintro rfl
      have : 0 < 256 ^ (k + 1) := by positivity
      omega
    have hrest : bytesRev fuel (n / 256) = fixedRev k (n / 256) := by
      rcases k with _ | j
      · have : n / 256 = 0 := by
          simp at hhi
          omega
        rw [this, bytesRev_zero]
        rfl
      · have hlo' : 256 ^ (j + 1) ≤ 256 * (n / 256) := by
          have h1 : 256 ^ (j + 1) ≤ n := by
            rw [pow_succ 256 (j + 1), mul_comm] at hlo
            exact Nat.le_of_mul_le_mul_left hlo (by norm_num)
          have h2 : 256 ^ j ≤ n / 256 := (Nat.le_div_iff_mul_le (by norm_num)).mpr (by rwa [← pow_succ])
          rw [pow_succ, mul_comm]
          exact Nat.mul_le_mul_left 256 h2
        have hhi' : n / 256 < 256 ^ (j + 1) := by
          rw [pow_succ] at hhi
          omega
        exact bytesRev_eq_fixedRev (j + 1) fuel (n / 256) (by omega) hlo' hhi'
    simp only [bytesRev, h0, if_false, fixedRev, hrest]

theorem lt_pow_self_256 (n : ℕ) : n < 256 ^ n :=
  Nat.lt_pow_self (by norm_num)

theorem bigBytes_eq_fixedBytes {len n : ℕ} (hlo : 256 ^ len ≤ 256 * n) (hhi : n < 256 ^ len) :
    bigBytes n = fixedBytes len n := by
  have hlen : len ≤ n := by
    by_contra h
    have : 256 ^ (n + 1) ≤ 256 ^ len := Nat.pow_le_pow_right (by norm_num) (by omega)
    have := lt_pow_self_256 n
    rw [pow_succ] at *
    omega
  rw [bigBytes, fixedBytes, bytesRev_eq_fixedRev len n n hlen hlo hhi]

/-- `big.Int.Bytes()` of a number below `256 ^ k` has at most `k` octets: one
less than the octet string of length `k + 1`, which starts with a zero. -/
theorem length_bigBytes_le {k n : ℕ} (hn : n < 256 ^ k) : (bigBytes n).length ≤ k := by
  rw [bigBytes, List.length_reverse]
  exact length_bytesRev_le n k n hn

end Encoding
