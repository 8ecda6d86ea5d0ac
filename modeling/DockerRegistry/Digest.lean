import DockerRegistry.Lib.Sha2

/-!
# Content digests and descriptors

The part of `go-digest` the registry uses. A digest is the string
`algorithm:encoded`; `FromBytes` hashes with the canonical algorithm, SHA-256,
and hex-encodes the sum. Methods that the Go package documents as panicking on a
malformed digest return `none` here, and their callers turn that into a panic
outcome of their own.
-/

namespace DockerRegistry

abbrev Bytes := List UInt8

abbrev Algorithm := String

abbrev Digest := String

/-- `hex.EncodeToString`: two lower-case hex digits per byte. -/
def hexEncode (p : Bytes) : String :=
  String.ofList (p.flatMap fun b => [hexDigit (b.toNat / 16), hexDigit (b.toNat % 16)])
where
  hexDigit (n : ℕ) : Char := if n < 10 then Char.ofNat (48 + n) else Char.ofNat (87 + n)

namespace Algorithm

def canonical : Algorithm := "sha256"

/-- The hash behind an algorithm that `Available()` reports, as registered in
`algorithms`: sha256, sha384 and sha512. -/
def hash? (a : Algorithm) : Option (Bytes → Bytes) :=
  if a = "sha256" then some Sha2.sha256
  else if a = "sha384" then some Sha2.sha384
  else if a = "sha512" then some Sha2.sha512
  else none

/-- `NewDigestFromBytes`: the algorithm name, a colon and the hex encoding. -/
def encode (a : Algorithm) (sum : Bytes) : Digest := a ++ ":" ++ hexEncode sum

/-- `Size()`: the length of the hash in bytes, `0` for an unknown algorithm. -/
def size (a : Algorithm) : ℕ :=
  if a = "sha256" then 32 else if a = "sha384" then 48 else if a = "sha512" then 64 else 0

end Algorithm

/-- The errors of `Digest.Validate`. -/
inductive DigestError
  /-- `ErrDigestInvalidFormat` -/
  | invalidFormat
  /-- `ErrDigestInvalidLength` -/
  | invalidLength
  /-- `ErrDigestUnsupported` -/
  | unsupported
  deriving DecidableEq, Repr

def isLowerHex (c : Char) : Bool := ('0' ≤ c && c ≤ '9') || ('a' ≤ c && c ≤ 'f')

/-- `Algorithm.Validate`: the encoded part of an available algorithm's digest is
lower-case hex, two characters per byte of the hash. -/
def Algorithm.validate (a : Algorithm) (encoded : String) : Option DigestError :=
  if a.hash?.isNone then some .unsupported
  else if a.size * 2 ≠ encoded.toList.length then some .invalidLength
  else if encoded.toList.all isLowerHex then none
  else some .invalidFormat

/-- `DigestRegexpAnchored`, `[a-z0-9]+(?:[.+_-][a-z0-9]+)*:[a-zA-Z0-9=_-]+`. -/
def digestFormat (s : List Char) : Bool :=
  let lowerAlnum := fun c : Char => ('a' ≤ c && c ≤ 'z') || ('0' ≤ c && c ≤ '9')
  let separator := fun c : Char => c = '.' || c = '+' || c = '_' || c = '-'
  let encodedChar := fun c : Char =>
    ('a' ≤ c && c ≤ 'z') || ('A' ≤ c && c ≤ 'Z') || ('0' ≤ c && c ≤ '9') || c = '=' || c = '_' || c = '-'
  match s.splitOn ':' with
  | [alg, enc] =>
    (alg.splitOnP separator).all (fun part => !part.isEmpty && part.all lowerAlnum) &&
      !enc.isEmpty && enc.all encodedChar
  | _ => false

/-- `digest.FromBytes`: the canonical (SHA-256) digest of some content. -/
def fromBytes (p : Bytes) : Digest := Algorithm.canonical.encode (Sha2.sha256 p)

/-- `sha256:e3b0…b855`, the digest of empty content (`digestSha256Empty`). -/
def digestSha256Empty : Digest := fromBytes []

namespace Digest

/-- `Algorithm()`: everything before the first colon; `none` where Go panics
because there is no colon. -/
def algorithm? (d : Digest) : Option Algorithm :=
  if ':' ∈ d.toList then some (String.ofList (d.toList.takeWhile (· ≠ ':'))) else none

def encoded (d : Digest) : String := String.ofList ((d.toList.dropWhile (· ≠ ':')).drop 1)

/-- `Validate()`. `strings.Index(s, ":")` splits the digest into the algorithm
before the first colon and the rest from it. -/
def validate (d : Digest) : Option DigestError :=
  let s := d.toList
  let alg := s.takeWhile (· ≠ ':')
  let rest := s.dropWhile (· ≠ ':')
  -- no colon, a colon first, or a colon last
  if alg = [] ∨ rest.length ≤ 1 then some .invalidFormat
  else
    let algorithm : Algorithm := String.ofList alg
    if algorithm.hash?.isNone then
      if digestFormat s then some .unsupported else some .invalidFormat
    else algorithm.validate (String.ofList (rest.drop 1))

/-- `Verifier()` fed with `content`, then `Verified()`: the content rehashed with
the digest's own algorithm gives the digest back. `none` where `Verifier()` panics:
no colon, or an algorithm that is not available. -/
def verified? (d : Digest) (content : Bytes) : Option Bool := do
  let a ← d.algorithm?
  let h ← a.hash?
  pure (a.encode (h content) == d)

end Digest

/-- The platform of a manifest-list entry (`architecture`, `os`). -/
structure Platform where
  architecture : String
  os : String
  deriving DecidableEq, Repr

/-- `v1.Descriptor`, restricted to the fields the modelled code reads. -/
structure Descriptor where
  mediaType : String := ""
  digest : Digest := ""
  size : ℤ := 0
  platform : Option Platform := none
  deriving DecidableEq, Repr

theorem algorithm_encode {a : Algorithm} (ha : ':' ∉ a.toList) (sum : Bytes) :
    (a.encode sum).algorithm? = some a := by
  have hsplit : (a.encode sum).toList = a.toList ++ ':' :: (hexEncode sum).toList := by
    simp [Algorithm.encode, String.toList_append]
  have htake : (a.toList ++ ':' :: (hexEncode sum).toList).takeWhile (· ≠ ':') = a.toList := by
    rw [List.takeWhile_append_of_pos (fun c hc => by simpa using ne_of_mem_of_not_mem hc ha)]
    simp
  unfold Digest.algorithm?
  rw [hsplit, if_pos (by simp), htake, String.ofList_toList]

@[simp] theorem algorithm_fromBytes (p : Bytes) :
    (fromBytes p).algorithm? = some Algorithm.canonical :=
  algorithm_encode (by decide) _

theorem fromBytes_ne_empty (p : Bytes) : fromBytes p ≠ "" := by
  intro h
  have := algorithm_fromBytes p
  rw [h] at this
  exact absurd this (by decide)

@[simp] theorem verified_fromBytes (p : Bytes) : (fromBytes p).verified? p = some true := by
  unfold Digest.verified?
  rw [algorithm_fromBytes]
  simp [Algorithm.hash?, Algorithm.canonical, fromBytes]

/-- What a digest that validates is made of: an available algorithm before the
first colon and non-empty lower-case hex after it. -/
theorem validate_eq_none {d : Digest} (h : d.validate = none) :
    ∃ a, d.algorithm? = some a ∧ (a = "sha256" ∨ a = "sha384" ∨ a = "sha512") ∧
      d.encoded.toList ≠ [] ∧ d.encoded.toList.all isLowerHex = true := by
  simp only [Digest.validate] at h
  split_ifs at h with hfmt hnone
  have hrest : d.toList.dropWhile (· ≠ ':') ≠ [] := by
    intro hnil
    exact hfmt (.inr (by rw [hnil]; simp))
  obtain ⟨c, cs, hcs⟩ := List.exists_cons_of_ne_nil hrest
  have hc : c = ':' := by
    have := @List.head_dropWhile_not _ (fun x => decide (x ≠ ':')) d.toList hrest
    simp only [hcs, List.head_cons] at this
    simpa using this
  have hcolon : ':' ∈ d.toList := by
    have hsplit := @List.takeWhile_append_dropWhile _ (fun x => decide (x ≠ ':')) d.toList
    rw [hcs, hc] at hsplit
    rw [← hsplit]
    simp
  have hencoded : d.encoded.toList = cs := by
    simp only [Digest.encoded, hcs, List.drop_one, List.tail_cons, String.toList_ofList]
  set a := String.ofList (d.toList.takeWhile (· ≠ ':')) with ha
  have halg : a = "sha256" ∨ a = "sha384" ∨ a = "sha512" := by
    simp only [Algorithm.hash?] at hnone
    split_ifs at hnone with h₁ h₂ h₃
    · exact .inl h₁
    · exact .inr (.inl h₂)
    · exact .inr (.inr h₃)
    · simp at hnone
  have hsize : 0 < Algorithm.size a := by
    rcases halg with h₁ | h₁ | h₁ <;> rw [h₁] <;> decide
  simp only [hcs, List.drop_one, List.tail_cons, Algorithm.validate, hnone, Bool.false_eq_true,
    if_false, String.toList_ofList] at h
  split_ifs at h with hlen hhex
  refine ⟨a, by simp [Digest.algorithm?, hcolon, ha], halg, ?_, by rw [hencoded]; exact hhex⟩
  rw [hencoded]
  rintro rfl
  simp at hlen
  omega

theorem mem_splitOnPPrepend {α : Type} {p : α → Bool} {c : α} (hc : p c = false) :
    ∀ (l acc : List α), c ∈ l ∨ c ∈ acc → ∃ part ∈ l.splitOnPPrepend p acc, c ∈ part
  | [], acc, h => ⟨acc.reverse, by simp, by simpa using h⟩
  | a :: t, acc, h => by
    cases ha : p a
    · rw [List.splitOnPPrepend_cons_neg ha]
      apply mem_splitOnPPrepend hc t (a :: acc)
      rcases h with h | h
      · rcases List.mem_cons.mp h with rfl | h
        · exact .inr List.mem_cons_self
        · exact .inl h
      · exact .inr (List.mem_cons_of_mem _ h)
    · rw [List.splitOnPPrepend_cons_pos ha]
      rcases h with h | h
      · rcases List.mem_cons.mp h with rfl | h
        · rw [hc] at ha
          contradiction
        · obtain ⟨part, hpart, hcp⟩ := mem_splitOnPPrepend hc t [] (.inl h)
          exact ⟨part, List.mem_cons_of_mem _ hpart, hcp⟩
      · exact ⟨acc.reverse, List.mem_cons_self, by simpa using h⟩

theorem not_mem_of_splitOnP {α : Type} {p : α → Bool} {c : α} {l : List α} (hc : p c = false)
    (h : ∀ part ∈ l.splitOnP p, c ∉ part) : c ∉ l := fun hl => by
  obtain ⟨part, hpart, hcp⟩ := mem_splitOnPPrepend hc l [] (.inl hl)
  exact h part hpart hcp

theorem digestFormat_spec {s : List Char} (h : digestFormat s = true) : ':' ∈ s ∧ '/' ∉ s := by
  unfold digestFormat at h
  split at h
  · rename_i alg enc hsplit
    have hs : s = alg ++ ':' :: enc := by
      have : [':'].intercalate (s.splitOn ':') = s := List.intercalate_splitOn ':'
      rw [hsplit] at this
      simpa using this.symm
    simp only [Bool.and_eq_true, List.all_eq_true, Bool.not_eq_true', List.isEmpty_eq_false_iff] at h
    obtain ⟨⟨halg, -⟩, henc⟩ := h
    rw [hs]
    refine ⟨by simp, ?_⟩
    simp only [List.mem_append, List.mem_cons, not_or]
    have hparts : ∀ part ∈ alg.splitOnP _, '/' ∉ part := fun part hpart hc => by
      have := (halg part hpart).2 '/' hc
      revert this
      decide
    refine ⟨not_mem_of_splitOnP (by decide) hparts, by decide, fun hm => ?_⟩
    have := henc '/' hm
    revert this
    decide
  · simp at h

/-! ## Digests of content -/

theorem hexDigit_isLowerHex {n : ℕ} (hn : n < 16) : isLowerHex (hexEncode.hexDigit n) = true := by
  interval_cases n <;> decide

theorem length_hexEncode (p : Bytes) : (hexEncode p).toList.length = 2 * p.length := by
  induction p with
  | nil => rfl
  | cons b bs ih =>
    simp only [hexEncode, String.toList_ofList, List.flatMap_cons, List.length_append] at ih ⊢
    rw [ih]
    simp only [List.length_cons, List.length_nil]
    ring

theorem all_isLowerHex_hexEncode (p : Bytes) : (hexEncode p).toList.all isLowerHex = true := by
  have h16 : ∀ b : UInt8, b.toNat / 16 < 16 := fun b => by have := b.toNat_lt; omega
  simp only [hexEncode, String.toList_ofList, List.all_eq_true, List.mem_flatMap]
  rintro c ⟨b, -, hc⟩
  simp only [List.mem_cons, List.not_mem_nil, or_false] at hc
  rcases hc with rfl | rfl
  · exact hexDigit_isLowerHex (h16 b)
  · exact hexDigit_isLowerHex (Nat.mod_lt _ (by norm_num))

theorem validate_fromBytes (p : Bytes) : (fromBytes p).validate = none := by
  set hex := (hexEncode (Sha2.sha256 p)).toList with hhex
  have hcolon : ':' ∉ hex := by
    intro h
    have := List.all_eq_true.mp (all_isLowerHex_hexEncode (Sha2.sha256 p)) ':' h
    exact absurd this (by decide)
  have hsplit : (fromBytes p).toList = ['s', 'h', 'a', '2', '5', '6'] ++ ':' :: hex := by
    simp [fromBytes, Algorithm.encode, Algorithm.canonical, String.toList_append, hhex]
  have hpos : ∀ c ∈ ['s', 'h', 'a', '2', '5', '6'], decide (c ≠ ':') = true :=
    List.all_eq_true.mp (by decide)
  have htake : (['s', 'h', 'a', '2', '5', '6'] ++ ':' :: hex).takeWhile (· ≠ ':') = ['s', 'h', 'a', '2', '5', '6'] := by
    rw [List.takeWhile_append_of_pos hpos]
    simp
  have hdrop : (['s', 'h', 'a', '2', '5', '6'] ++ ':' :: hex).dropWhile (· ≠ ':') = ':' :: hex := by
    rw [List.dropWhile_append_of_pos hpos]
    simp
  have hlen : hex.length = 64 := by rw [hhex, length_hexEncode, Sha2.length_sha256]
  unfold Digest.validate
  simp only [hsplit, htake, hdrop, List.length_cons, hlen, List.drop_one, List.tail_cons]
  have halg : String.ofList ['s', 'h', 'a', '2', '5', '6'] = "sha256" := rfl
  simp [halg, Algorithm.hash?, Algorithm.validate, Algorithm.size, hhex, all_isLowerHex_hexEncode,
    length_hexEncode, Sha2.length_sha256]

end DockerRegistry
