import DockerRegistry.Lib.Encoding
import DockerRegistry.Lib.GoDecimal
import DockerRegistry.Lib.Sha2

/-!
# JWK thumbprints of token signing keys

`getJWKThumbprint` of `registry/auth/token/util.go`, the name under which
`newAccessController` trusts the key of each root certificate, and the lookup of
a token's key ID in `Token.VerifySigningKey`.

The thumbprint is the SHA-256 of a JSON object written by hand, base64url
without padding. RFC 7638 asks for the key's required members in lexicographic
order without white space, and RFC 7518 for the coordinates of an EC key as
octet strings of the curve's full length. The code writes a coordinate with
`big.Int.Bytes()`, which drops leading zero octets: for a key whose coordinate
starts with a zero octet it hashes a shorter object than RFC 7638's
(`getJWKThumbprint_leading_zero`); for every other key it computes RFC 7638's
thumbprint (`getJWKThumbprint_eq_rfc7638`).

The payloads are ASCII, so `[]byte(payload)` is their UTF-8 encoding.
-/

namespace DockerRegistry.Auth.Token

open Encoding GoDecimal

/-- The curves of `crypto/elliptic` an `ecdsa` key is on. -/
inductive Curve where
  | p256
  | p384
  | p521
  deriving DecidableEq, Repr

def Curve.name : Curve → String
  | .p256 => "P-256"
  | .p384 => "P-384"
  | .p521 => "P-521"

/-- The octets of a coordinate: the bits of the field, rounded up to octets. -/
def Curve.size : Curve → ℕ
  | .p256 => 32
  | .p384 => 48
  | .p521 => 66

def Curve.prime : Curve → ℕ
  | .p256 => 0xffffffff00000001000000000000000000000000ffffffffffffffffffffffff
  | .p384 => 0xfffffffffffffffffffffffffffffffffffffffffffffffffffffffffffffffeffffffff0000000000000000ffffffff
  | .p521 => 2 ^ 521 - 1

/-- The constant `b` of the curve `y² = x³ - 3x + b`. -/
def Curve.b : Curve → ℕ
  | .p256 => 0x5ac635d8aa3a93e7b3ebbd55769886bc651d06b0cc53b0f63bce3c3e27d2604b
  | .p384 => 0xb3312fa7e23ee7e4988e056be3f82d19181d9c6efe8141120314088f5013875ac656398d8a2ed19d2a85c8edd3ec2aef
  | .p521 =>
    0x51953eb9618e1c9a1f929a21a0b68540eea2da725b99b315f3b8b489918ef109e156193951ec7e937b1652c0bd3bb1bf073573df883d2c34f1ef451fd46b503f00

/-- `(x, y)` is a point of the curve, as the coordinates of a public key are. -/
def Curve.OnCurve (c : Curve) (x y : ℕ) : Prop :=
  x < c.prime ∧ y < c.prime ∧ ((y : ℤ) ^ 2 - ((x : ℤ) ^ 3 - 3 * x + c.b)) % c.prime = 0

instance (c : Curve) (x y : ℕ) : Decidable (c.OnCurve x y) := inferInstanceAs (Decidable (_ ∧ _ ∧ _))

theorem Curve.prime_le (c : Curve) : c.prime ≤ 256 ^ c.size := by
  cases c with
  | p256 => norm_num [Curve.prime, Curve.size]
  | p384 => norm_num [Curve.prime, Curve.size]
  | p521 =>
    calc Curve.p521.prime ≤ 2 ^ 521 := Nat.sub_le (2 ^ 521) 1
      _ ≤ 2 ^ 528 := by gcongr <;> norm_num
      _ = 256 ^ Curve.p521.size := by rw [Curve.size, show (256 : ℕ) = 2 ^ 8 by rfl, ← pow_mul]

theorem Curve.size_pos (c : Curve) : 0 < c.size := by
  cases c <;> decide

/-- The public keys `getJWKThumbprint` tells apart: `*rsa.PublicKey` with its
modulus and exponent, `*ecdsa.PublicKey`, `ed25519.PublicKey`, and any other. -/
inductive PublicKey where
  | rsa (n e : ℕ)
  | ecdsa (curve : Curve) (x y : ℕ)
  | ed25519 (key : List UInt8)
  | other

/-! ## The thumbprint -/

def b64 (bytes : List UInt8) : String := String.ofList (encodeRawURL bytes)

def hashAndEncode (payload : String) : String := b64 (Sha2.sha256 (payload.toList.flatMap String.utf8EncodeChar))

def rsaPayload (e n : String) : String := "\x7b\"e\":\"" ++ e ++ "\",\"kty\":\"RSA\",\"n\":\"" ++ n ++ "\"\x7d"

def ecPayload (crv x y : String) : String :=
  "\x7b\"crv\":\"" ++ crv ++ "\",\"kty\":\"EC\",\"x\":\"" ++ x ++ "\",\"y\":\"" ++ y ++ "\"\x7d"

def okpPayload (x : String) : String := "\x7b\"crv\":\"Ed25519\",\"kty\":\"OKP\",\"x\":\"" ++ x ++ "\"\x7d"

/-- `getJWKThumbprint`: `""` for a key of another type, and for an Ed25519 key
when `skipED25519` is set. -/
def getJWKThumbprint (k : PublicKey) (skipED25519 : Bool) : String :=
  match k with
  | .rsa n e => hashAndEncode (rsaPayload (b64 (bigBytes e)) (b64 (bigBytes n)))
  | .ecdsa c x y => hashAndEncode (ecPayload c.name (b64 (bigBytes x)) (b64 (bigBytes y)))
  | .ed25519 key => if skipED25519 then "" else hashAndEncode (okpPayload (b64 key))
  | .other => ""

def GetJWKThumbprint (k : PublicKey) : String := getJWKThumbprint k false

def GetRFC7638Thumbprint (k : PublicKey) : String := getJWKThumbprint k true

/-- The SHA-256 thumbprint RFC 7638 defines: the required members in
lexicographic order without white space, the RSA integers in their fewest
octets and the EC coordinates as octet strings of the curve's full length. -/
def rfc7638Thumbprint : PublicKey → Option String
  | .rsa n e => some (hashAndEncode (rsaPayload (b64 (bigBytes e)) (b64 (bigBytes n))))
  | .ecdsa c x y => some (hashAndEncode (ecPayload c.name (b64 (fixedBytes c.size x)) (b64 (fixedBytes c.size y))))
  | .ed25519 key => some (hashAndEncode (okpPayload (b64 key)))
  | .other => none

@[simp] theorem length_b64 (bytes : List UInt8) : (b64 bytes).length = (4 * bytes.length + 2) / 3 := by
  rw [b64, String.length_ofList, length_encodeRawURL]

theorem length_ecPayload (crv x y : String) :
    (ecPayload crv x y).length = 35 + crv.length + x.length + y.length := by
  simp only [ecPayload, String.length_append]
  have h₁ : ("\x7b\"crv\":\"" : String).length = 8 := by decide
  have h₂ : ("\",\"kty\":\"EC\",\"x\":\"" : String).length = 18 := by decide
  have h₃ : ("\",\"y\":\"" : String).length = 7 := by decide
  have h₄ : ("\"\x7d" : String).length = 2 := by decide
  omega

theorem b64_length_lt {m n : ℕ} (h : m < n) : (4 * m + 2) / 3 < (4 * n + 2) / 3 := by
  omega

theorem b64_length_le {m n : ℕ} (h : m ≤ n) : (4 * m + 2) / 3 ≤ (4 * n + 2) / 3 := by
  omega

theorem length_bigBytes_coordinate {c : Curve} {x : ℕ} (hx : x < c.prime) : (bigBytes x).length ≤ c.size :=
  length_bigBytes_le (lt_of_lt_of_le hx c.prime_le)

/-- For a key with a coordinate that starts with a zero octet, the object the
code hashes, with the coordinates in their fewest octets, is shorter than RFC
7638's, with the coordinates in the curve's full length. -/
theorem getJWKThumbprint_leading_zero {c : Curve} {x y : ℕ} (hkey : c.OnCurve x y)
    (hzero : x < 256 ^ (c.size - 1) ∨ y < 256 ^ (c.size - 1)) :
    GetJWKThumbprint (.ecdsa c x y) = hashAndEncode (ecPayload c.name (b64 (bigBytes x)) (b64 (bigBytes y))) ∧
      rfc7638Thumbprint (.ecdsa c x y) =
        some (hashAndEncode (ecPayload c.name (b64 (fixedBytes c.size x)) (b64 (fixedBytes c.size y)))) ∧
      (ecPayload c.name (b64 (bigBytes x)) (b64 (bigBytes y))).length <
        (ecPayload c.name (b64 (fixedBytes c.size x)) (b64 (fixedBytes c.size y))).length := by
  refine ⟨rfl, rfl, ?_⟩
  have hx := length_bigBytes_coordinate hkey.1
  have hy := length_bigBytes_coordinate hkey.2.1
  have hsize := c.size_pos
  rw [length_ecPayload, length_ecPayload]
  simp only [length_b64, length_fixedBytes]
  rcases hzero with h | h
  · have := b64_length_lt (lt_of_le_of_lt (length_bigBytes_le h) (Nat.sub_lt hsize one_pos))
    have := b64_length_le hy
    omega
  · have := b64_length_le hx
    have := b64_length_lt (lt_of_le_of_lt (length_bigBytes_le h) (Nat.sub_lt hsize one_pos))
    omega

/-- Three octets of zero and a one. -/
example : String.ofList (encodeRawURL (fixedBytes 4 1)) = "AAAAAQ" := by decide

/-- The keys whose thumbprint the code computes as RFC 7638 does: every key of
a known type, with the coordinates of an EC key on its curve and starting with
a non-zero octet. -/
def PublicKey.FullLength : PublicKey → Prop
  | .ecdsa c x y => c.OnCurve x y ∧ 256 ^ c.size ≤ 256 * x ∧ 256 ^ c.size ≤ 256 * y
  | .other => False
  | _ => True

theorem getJWKThumbprint_eq_rfc7638 {k : PublicKey} (hk : k.FullLength) :
    rfc7638Thumbprint k = some (GetJWKThumbprint k) := by
  cases k with
  | rsa n e => rfl
  | ecdsa c x y =>
    obtain ⟨hkey, hx, hy⟩ := hk
    have hx' := bigBytes_eq_fixedBytes hx (lt_of_lt_of_le hkey.1 c.prime_le)
    have hy' := bigBytes_eq_fixedBytes hy (lt_of_lt_of_le hkey.2.1 c.prime_le)
    simp only [rfc7638Thumbprint, GetJWKThumbprint, getJWKThumbprint, hx', hy']
  | ed25519 key => rfl
  | other => exact hk.elim

/-- The base point of P-256 has coordinates of the full 32 octets. -/
theorem getJWKThumbprint_eq_rfc7638_generator :
    let k := PublicKey.ecdsa .p256 0x6b17d1f2e12c4247f8bce6e563a440f277037d812deb33a0f4a13945d898c296
      0x4fe342e2fe1a7f9b8ee7eb4a7c0f9e162bce33576b315ececbb6406837bf51f5
    k.FullLength ∧ rfc7638Thumbprint k = some (GetJWKThumbprint k) := by
  intro k
  have hk : k.FullLength := ⟨by decide, by norm_num [Curve.size], by norm_num [Curve.size]⟩
  exact ⟨hk, getJWKThumbprint_eq_rfc7638 hk⟩

/-! ## Trusted keys and key IDs -/

/-- `trustedKeys` of `newAccessController`: each root certificate's key under
its thumbprint, when it has one, then each key of the JWKS under its key ID; a
later key replaces an earlier one of the same name. -/
def trustedKeys (rootKeys : List PublicKey) (jwks : List (String × PublicKey)) : String → Option PublicKey :=
  let roots := rootKeys.foldl (fun m k =>
    if GetJWKThumbprint k ≠ "" then fun s => if s = GetJWKThumbprint k then some k else m s else m) fun _ => none
  jwks.foldl (fun m kid => fun s => if s = kid.1 then some kid.2 else m s) roots

/-- What `VerifySigningKey` reads of the first header: whether it carries an
`x5c` chain and a `jwk`, and its key ID. -/
structure Header where
  x5c : Bool
  jsonWebKey : Bool
  keyID : String

/-- `Token.VerifySigningKey`, with the checks of an `x5c` chain and of a `jwk`
as parameters; without a chain, `verifyCertChain` fails with
`ErrMissingX5cHeader`, and the `jwk` or the key ID is used. -/
def verifySigningKey (verifyCertChain verifyJWK : Header → Except String PublicKey)
    (trusted : String → Option PublicKey) (headers : List Header) : Except String PublicKey :=
  match headers with
  | [] => .error "invalid token"
  | header :: _ =>
    if header.x5c then verifyCertChain header
    else if header.jsonWebKey then verifyJWK header
    else if header.keyID ≠ "" then
      match trusted header.keyID with
      | some key => .ok key
      | none => .error ("token signed by untrusted key with ID: " ++ quote header.keyID)
    else .error "invalid token"

/-! ## A key of P-256 whose `x` starts with a zero octet -/

/-- A P-256 key whose coordinate `x` is `0x0090fbb3…`. -/
def leadingZeroKey : PublicKey :=
  .ecdsa .p256 0x90fbb3d175e29c301a60a304f0d03be5c65485b97f76fcbb4864eded2e3dcd
    0xad2e3cf231f06b81898f809778cc16f1a9020b92eedc7a2cb22317e34e9c9c21

set_option maxRecDepth 20000 in
/-- The key is on P-256 with a leading zero octet in `x`; the code names it
`BCPByy3…` and RFC 7638 `FNEyzL8…`, and a token whose key ID is the latter is
refused when the key is the only trusted one. -/
theorem getJWKThumbprint_leading_zero_p256 :
    let x := 0x90fbb3d175e29c301a60a304f0d03be5c65485b97f76fcbb4864eded2e3dcd
    let y := 0xad2e3cf231f06b81898f809778cc16f1a9020b92eedc7a2cb22317e34e9c9c21
    Curve.p256.OnCurve x y ∧ x < 256 ^ (Curve.p256.size - 1) ∧
      (GetJWKThumbprint (.ecdsa .p256 x y) = hashAndEncode (ecPayload "P-256" (b64 (bigBytes x)) (b64 (bigBytes y))) ∧
        rfc7638Thumbprint (.ecdsa .p256 x y) =
          some (hashAndEncode (ecPayload "P-256" (b64 (fixedBytes 32 x)) (b64 (fixedBytes 32 y)))) ∧
        (ecPayload "P-256" (b64 (bigBytes x)) (b64 (bigBytes y))).length <
          (ecPayload "P-256" (b64 (fixedBytes 32 x)) (b64 (fixedBytes 32 y))).length) ∧
      GetJWKThumbprint leadingZeroKey = "BCPByy3FIC4RzTd6miCYLsv4RjnHrNJ90xHZcdsGCqA" ∧
      rfc7638Thumbprint leadingZeroKey = some "FNEyzL8VXQmoH2JJ9mhXqNpeWqXLrhN0sNtGBh4Bvnc" ∧
      verifySigningKey (fun _ => .error "") (fun _ => .error "") (trustedKeys [leadingZeroKey] [])
        [⟨false, false, "FNEyzL8VXQmoH2JJ9mhXqNpeWqXLrhN0sNtGBh4Bvnc"⟩] =
        .error ("token signed by untrusted key with ID: " ++ quote "FNEyzL8VXQmoH2JJ9mhXqNpeWqXLrhN0sNtGBh4Bvnc") := by
  intro x y
  have hkey : Curve.p256.OnCurve x y := by decide
  have hzero : x < 256 ^ (Curve.p256.size - 1) := by norm_num [x, Curve.size]
  have hcode : GetJWKThumbprint leadingZeroKey = "BCPByy3FIC4RzTd6miCYLsv4RjnHrNJ90xHZcdsGCqA" := by rfl
  have hrfc : rfc7638Thumbprint leadingZeroKey = some "FNEyzL8VXQmoH2JJ9mhXqNpeWqXLrhN0sNtGBh4Bvnc" := by rfl
  refine ⟨hkey, hzero, getJWKThumbprint_leading_zero hkey (.inl hzero), hcode, hrfc, ?_⟩
  simp [verifySigningKey, trustedKeys, hcode]

end DockerRegistry.Auth.Token
