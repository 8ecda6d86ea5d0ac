import DockerRegistry.Lib.GoIo

/-!
# Bounded reads

`readAllLimited` of `registry/storage/io.go`, through which `getContent` reads
every link file and manifest, with a limit of `maxBlobGetSize`: `io.ReadAll`
over a `limitedReader`. That reader asks the reader below for at most one byte
past the bytes it has left, and fails with a sticky error once a read goes past
them.

The limit is an `int64`, and so is `l.n + 1`: for a limit of `2^63 - 1` the sum
wraps to `-2^63`, and slicing the buffer there panics.
-/

namespace DockerRegistry.Storage

open GoIo

def maxBlobGetSize : ℤ := 4 * 1024 * 1024

/-- `limitedReader`: the state of the reader below, the bytes left, and the sticky
error. -/
structure LimitedReader (σ : Type) where
  r : σ
  n : ℤ
  err : Option Error

def errReadExceedsLimit : Error := .msg "storage: read exceeds limit"

variable {σ : Type}

def LimitedReader.read (r : Reader σ) : Reader (LimitedReader σ) := fun l m =>
  match l.err with
  | some e => .ok (([], some e), l)
  | none =>
    if m = 0 then .ok (([], none), l)
    else
      -- `p = p[:l.n+1]` when `int64(len(p)) > l.n+1`, the sum taken in `int64`
      let bound := addInt64 l.n 1
      let request : Except String ℕ :=
        if bound < m then
          if bound < 0 then .error s!"runtime error: slice bounds out of range [:{bound}]" else .ok bound.toNat
        else .ok m
      match request with
      | .error e => .error e
      | .ok m =>
        match r l.r m with
        | .error e => .error e
        | .ok ((bytes, err), s) =>
          if (bytes.length : ℤ) ≤ l.n then .ok ((bytes, err), ⟨s, l.n - bytes.length, err⟩)
          else .ok ((bytes.take l.n.toNat, some errReadExceedsLimit), ⟨s, 0, some errReadExceedsLimit⟩)

/-- `readAllLimited`, for at most `fuel` reads; `grow` is how `append` grows the
buffer of `io.ReadAll`. -/
def readAllLimited (r : Reader σ) (s : σ) (limit : ℤ) (grow : ℕ → ℕ) (fuel : ℕ) :
    Option (Except String ((List UInt8 × Option Error) × LimitedReader σ)) :=
  readAll (LimitedReader.read r) grow fuel ⟨s, limit, none⟩

/-- `getContent`: the driver's reader of the path from offset 0, or its error, read
with the limit `maxBlobGetSize`. -/
def getContent (r : Reader σ) (reader : String → Except Error σ) (grow : ℕ → ℕ) (fuel : ℕ) (p : String) :
    Option (Except String (List UInt8 × Option Error)) :=
  match reader p with
  | .error e => some (.ok ([], some e))
  | .ok s => (readAllLimited r s maxBlobGetSize grow fuel).map fun result => result.map Prod.fst

section Read

variable {r : Reader σ} {s s' : σ} {k m : ℕ} {bytes : List UInt8} {err : Option Error}

/-- Below `2^63 - 1` bytes left, a read of `m ≥ 1` bytes asks the reader below for
`m` bytes, or for one past the bytes left if that is fewer. -/
theorem read_eq_of_ok (hk : (k : ℤ) + 1 < 2 ^ 63) (hm : 0 < m)
    (h : r s (min m (k + 1)) = .ok ((bytes, err), s')) :
    LimitedReader.read r ⟨s, k, none⟩ m =
      if (bytes.length : ℤ) ≤ k then .ok ((bytes, err), ⟨s', k - bytes.length, err⟩)
      else .ok ((bytes.take k, some errReadExceedsLimit), ⟨s', 0, some errReadExceedsLimit⟩) := by
  have hbound : addInt64 k 1 = k + 1 := addInt64_of_lt (by omega) hk
  have hrequest : (if addInt64 k 1 < (m : ℤ) then
        (if addInt64 k 1 < 0 then Except.error s!"runtime error: slice bounds out of range [:{addInt64 k 1}]"
          else .ok (addInt64 k 1).toNat)
      else (.ok m : Except String ℕ)) = .ok (min m (k + 1)) := by
    rw [hbound]
    split_ifs with hlt hneg
    · omega
    · exact congrArg Except.ok (by omega)
    · exact congrArg Except.ok (by omega)
  simp only [LimitedReader.read, hm.ne', if_false, hrequest, h, Int.toNat_natCast]

theorem read_of_le (hk : (k : ℤ) + 1 < 2 ^ 63) (hm : 0 < m) (h : r s (min m (k + 1)) = .ok ((bytes, err), s'))
    (hle : bytes.length ≤ k) :
    LimitedReader.read r ⟨s, k, none⟩ m = .ok ((bytes, err), ⟨s', ((k - bytes.length : ℕ) : ℤ), err⟩) := by
  rw [read_eq_of_ok hk hm h, if_pos (by omega), Nat.cast_sub hle]

theorem read_of_lt (hk : (k : ℤ) + 1 < 2 ^ 63) (hm : 0 < m) (h : r s (min m (k + 1)) = .ok ((bytes, err), s'))
    (hlt : k < bytes.length) :
    LimitedReader.read r ⟨s, k, none⟩ m =
      .ok ((bytes.take k, some errReadExceedsLimit), ⟨s', 0, some errReadExceedsLimit⟩) := by
  rw [read_eq_of_ok hk hm h, if_neg (by omega)]

end Read

section ReadAll

variable {r : Reader σ} {content : σ → List UInt8} (hr : YieldsChunks r content)
  {grow : ℕ → ℕ} (hgrow : ∀ c, c < grow c)
include hr hgrow

/-- `io.ReadAll` over a `limitedReader` with `k` bytes left, from a reader that
yields `C` in chunks: within `min (len C) k + 1` reads it returns `C` after the
bytes read so far if `C` fits, and otherwise its first `k` bytes and the limit's
error; the reader below has then given `min (len C) (k + 1)` bytes. -/
theorem readAllLoop_limited :
    ∀ (fuel k : ℕ) (s : σ) (b : List UInt8) (cap : ℕ), (k : ℤ) + 1 < 2 ^ 63 → b.length < cap →
      min (content s).length k < fuel →
      ∃ l, readAllLoop (LimitedReader.read r) grow fuel b cap ⟨s, k, none⟩ =
          some (.ok (if (content s).length ≤ k then ((b ++ content s, none), l)
            else ((b ++ (content s).take k, some errReadExceedsLimit), l))) ∧
        content l.r = (content s).drop (k + 1) := by
  intro fuel
  induction fuel with
  | zero => intro k s b cap _ _ hfuel; omega
  | succ fuel ih =>
    intro k s b cap hk hb hfuel
    have hm : 0 < min (cap - b.length) (k + 1) := lt_min (by omega) (by omega)
    by_cases hc : content s = []
    · obtain ⟨s', hread, hs'⟩ := hr.read_nil s _ hm hc
      have hl := read_of_le hk (Nat.sub_pos_of_lt hb) hread (by simp)
      refine ⟨⟨s', k, some .eof⟩, (readAllLoop_of_some _ _ _ hl).trans ?_, ?_⟩
      · simp [hc]
      · simp [hc, hs']
    obtain ⟨bytes, err, s', hread, hsplit, hne, hlen, herr⟩ := hr.read_cons s _ hm hc
    have hpos : 0 < bytes.length := List.length_pos_iff.mpr hne
    have hlenm : bytes.length ≤ cap - b.length := hlen.trans (min_le_left _ _)
    by_cases hle : bytes.length ≤ k
    · have hl := read_of_le hk (Nat.sub_pos_of_lt hb) hread hle
      rcases herr with rfl | ⟨rfl, hs'⟩
      · have hk' : ((k - bytes.length : ℕ) : ℤ) + 1 < 2 ^ 63 := by
          rw [Nat.cast_sub hle]
          omega
        have hfuel' : min (content s').length (k - bytes.length) < fuel := by
          rw [hsplit, List.length_append] at hfuel
          omega
        obtain ⟨l, hrun, hcontent⟩ := ih _ s' _ _ hk' (length_lt_nextCap hgrow hlenm hb) hfuel'
        have hfit : (content s').length ≤ k - bytes.length ↔ (content s).length ≤ k := by
          rw [hsplit, List.length_append]
          omega
        have htake : b ++ bytes ++ (content s').take (k - bytes.length) = b ++ (content s).take k := by
          rw [hsplit, List.take_append, List.take_of_length_le hle, List.append_assoc]
        refine ⟨l, ?_, ?_⟩
        · rw [readAllLoop_of_none _ _ _ hl, hrun]
          by_cases hfits : (content s).length ≤ k
          · rw [if_pos (hfit.mpr hfits), if_pos hfits, hsplit, List.append_assoc]
          · rw [if_neg (mt hfit.mp hfits), if_neg hfits, htake]
        · rw [hcontent, hsplit, List.drop_append, List.drop_eq_nil_of_le (show bytes.length ≤ k + 1 by omega),
            List.nil_append, show k + 1 - bytes.length = k - bytes.length + 1 by omega]
      · have hs : content s = bytes := by rw [hsplit, hs', List.append_nil]
        refine ⟨⟨s', ((k - bytes.length : ℕ) : ℤ), some .eof⟩, (readAllLoop_of_some _ _ _ hl).trans ?_, ?_⟩
        · simp [hs, hle]
        · simp [hs, hs', List.drop_eq_nil_of_le (Nat.le_succ_of_le hle)]
    · have hlt : k < bytes.length := by omega
      have hk1 : bytes.length = k + 1 := le_antisymm (hlen.trans (min_le_right _ _)) hlt
      have hl := read_of_lt hk (Nat.sub_pos_of_lt hb) hread hlt
      have hover : ¬ (content s).length ≤ k := by
        rw [hsplit, List.length_append]
        omega
      refine ⟨⟨s', 0, some errReadExceedsLimit⟩, (readAllLoop_of_some _ _ _ hl).trans ?_, ?_⟩
      · rw [if_neg hover, hsplit, List.take_append_of_le_length hlt.le]
        rfl
      · rw [hsplit, List.drop_left' hk1]

theorem readAllLimited_of_lt {s : σ} {k fuel : ℕ} (hk : (k : ℤ) + 1 < 2 ^ 63)
    (hfuel : min (content s).length k < fuel) :
    ∃ l, readAllLimited r s k grow fuel =
        some (.ok (if (content s).length ≤ k then ((content s, none), l)
          else (((content s).take k, some errReadExceedsLimit), l))) ∧
      content l.r = (content s).drop (k + 1) := by
  obtain ⟨l, hrun, hcontent⟩ := readAllLoop_limited hr hgrow fuel k s [] 512 hk (by decide) hfuel
  refine ⟨l, ?_, hcontent⟩
  rw [readAllLimited, readAll, hrun]
  simp only [List.nil_append]

end ReadAll

/-- `readAllLimited` with a limit `0 ≤ n < 2^63 - 1`, over a reader that yields `C`
in non-empty chunks and for any growth of the buffer: within `min (len C) n + 1`
reads it returns `C` and no error when `C` fits the limit, and otherwise the first
`n` bytes of `C` and the limit's error; the reader below has then given
`min (len C) (n + 1)` bytes. -/
theorem readAllLimited_exact {r : Reader σ} {content : σ → List UInt8} (hr : YieldsChunks r content)
    {grow : ℕ → ℕ} (hgrow : ∀ c, c < grow c) (s : σ) {n : ℤ} (hn : 0 ≤ n) (hmax : n < 2 ^ 63 - 1)
    {fuel : ℕ} (hfuel : min (content s).length n.toNat < fuel) :
    ∃ l, readAllLimited r s n grow fuel =
        some (.ok (if ((content s).length : ℤ) ≤ n then ((content s, none), l)
          else (((content s).take n.toNat, some errReadExceedsLimit), l))) ∧
      content l.r = (content s).drop (n.toNat + 1) := by
  obtain ⟨k, rfl⟩ := Int.eq_ofNat_of_zero_le hn
  rw [Int.toNat_natCast] at hfuel ⊢
  simp only [Nat.cast_le]
  exact readAllLimited_of_lt hr hgrow (by omega) hfuel

/-- Three bytes in chunks of two, with `io.EOF` along with the last, under a limit
of two. -/
theorem readAllLimited_exact_three :
    ∃ l, readAllLimited (chunkReader (fun _ => 2) true) ([1, 2, 3], 0) 2 (· + 512) 3 =
        some (.ok (if (([1, 2, 3] : List UInt8).length : ℤ) ≤ 2 then (([1, 2, 3], none), l)
          else ((([1, 2, 3] : List UInt8).take (2 : ℤ).toNat, some errReadExceedsLimit), l))) ∧
      l.r.1 = ([1, 2, 3] : List UInt8).drop ((2 : ℤ).toNat + 1) :=
  readAllLimited_exact (yieldsChunks_chunkReader _ _) (fun c => by omega) _ (by decide) (by decide) (by decide)

/-- With the limit `2^63 - 1`, `l.n + 1` wraps to `-2^63` and the first read
panics on the slice bound, whatever the reader below. -/
theorem readAllLimited_of_maxInt64 (r : Reader σ) (s : σ) (grow : ℕ → ℕ) (fuel : ℕ) :
    readAllLimited r s (2 ^ 63 - 1) grow (fuel + 1) =
      some (.error "runtime error: slice bounds out of range [:-9223372036854775808]") := by
  have hread : LimitedReader.read r ⟨s, 2 ^ 63 - 1, none⟩ (512 - ([] : List UInt8).length) =
      .error "runtime error: slice bounds out of range [:-9223372036854775808]" := rfl
  rw [readAllLimited, readAll]
  exact readAllLoop_of_error _ grow fuel hread

/-- An empty content, which fits any limit, read under the limit `2^63 - 1`: a panic
where the content was due. -/
theorem readAllLimited_maxInt64_panics :
    readAllLimited (chunkReader (fun _ => 1) true) ([], 0) (2 ^ 63 - 1) (· + 512) 1 =
      some (.error "runtime error: slice bounds out of range [:-9223372036854775808]") :=
  readAllLimited_of_maxInt64 _ _ _ 0

end DockerRegistry.Storage
