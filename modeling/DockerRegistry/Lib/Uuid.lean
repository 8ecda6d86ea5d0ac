import DockerRegistry.Lib.GoDecimal

/-!
# UUIDs as text

`Parse` and `UUID.String` of `github.com/google/uuid`. A UUID is sixteen bytes.
`Parse` works on the bytes of its argument and accepts four lengths: 36 bytes in
the hyphenated form `xxxxxxxx-xxxx-xxxx-xxxx-xxxxxxxxxxxx`, 45 bytes of that form
after `urn:uuid:` in any case, 38 bytes whose first byte is dropped and whose
last byte is not read (the braces of `{…}`, never checked), and 32 hex digits
with no hyphens. Hex digits may be of either case. `String` writes the
hyphenated form in lower case.
-/

namespace Uuid

def xvalue (b : UInt8) : Option ℕ :=
  if 48 ≤ b ∧ b ≤ 57 then some (b.toNat - 48)
  else if 97 ≤ b ∧ b ≤ 102 then some (b.toNat - 87)
  else if 65 ≤ b ∧ b ≤ 70 then some (b.toNat - 55)
  else none

def xtob (x₁ x₂ : UInt8) : Option ℕ := do
  let b₁ ← xvalue x₁
  let b₂ ← xvalue x₂
  pure (b₁ * 16 + b₂)

def hexPairs : List UInt8 → Option (List ℕ)
  | [] => some []
  | [_] => none
  | x₁ :: x₂ :: rest => do
    let b ← xtob x₁ x₂
    let bs ← hexPairs rest
    pure (b :: bs)

/-- The hyphenated form at the start of `s`: hyphens at 8, 13, 18 and 23, and the
sixteen pairs of hex digits between them, up to byte 36. -/
def parseHyphenated (s : List UInt8) : Option (List ℕ) :=
  if s[8]? = some 45 ∧ s[13]? = some 45 ∧ s[18]? = some 45 ∧ s[23]? = some 45 then
    hexPairs (s.take 8 ++ (s.drop 9).take 4 ++ (s.drop 14).take 4 ++ (s.drop 19).take 4 ++
      (s.drop 24).take 12)
  else none

/-- ASCII lower case; `strings.EqualFold` against `urn:uuid:`, whose letters fold
to no other character, compares so. -/
def lowerByte (b : UInt8) : UInt8 := if 65 ≤ b ∧ b ≤ 90 then b + 32 else b

def urnPrefix : List UInt8 := [117, 114, 110, 58, 117, 117, 105, 100, 58]

def parse (s : List UInt8) : Option (List ℕ) :=
  if s.length = 36 then parseHyphenated s
  else if s.length = 36 + 9 then
    if (s.take 9).map lowerByte = urnPrefix then parseHyphenated (s.drop 9) else none
  else if s.length = 36 + 2 then parseHyphenated (s.drop 1)
  else if s.length = 32 then hexPairs s
  else none

def byteHex (b : ℕ) : List Char := [GoDecimal.hexDigit (b / 16), GoDecimal.hexDigit (b % 16)]

/-- `UUID.String`: the hyphenated form, in lower case. -/
def toString (u : List ℕ) : String :=
  String.ofList ((u.take 4).flatMap byteHex ++ '-' :: ((u.drop 4).take 2).flatMap byteHex ++
    '-' :: ((u.drop 6).take 2).flatMap byteHex ++ '-' :: ((u.drop 8).take 2).flatMap byteHex ++
    '-' :: (u.drop 10).flatMap byteHex)

end Uuid
