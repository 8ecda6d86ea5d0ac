import Mathlib.Tactic

/-!
# Go's io.Reader and io.ReadAll

A reader is a state machine: a `Read` of a buffer of `m` bytes answers with the
bytes read and an error, and a new state, or panics. `io.ReadAll` reads into a
buffer of capacity 512 that `append` grows each time it is full; how much it
grows by is the runtime's choice, so it is a parameter here.

A reader that yields a byte string in non-empty chunks is described by a
contract, `YieldsChunks`, which any number of implementations meet.

`int64` sums wrap around: `addInt64` is the sum in the range of `int64`.

An `io.ReadSeeker` is driven by a list of calls (`Op`) and answers each
(`Answer`). `bytes.Reader` is the reference one; `Serves` describes a reader that
answers as `bytes.Reader` does but may serve a read with fewer bytes, and gives
`io.EOF` along with the last.
-/

namespace GoIo

/-- The error a `Read` returns: `io.EOF`, or another error by its text. -/
inductive Error where
  | eof
  | msg (text : String)
  deriving DecidableEq, Repr

/-- An `io.Reader`: a `Read` of a buffer of `m` bytes in state `s` gives the bytes
read, the error and the next state; `.error` is a runtime panic. -/
def Reader (σ : Type) : Type := σ → ℕ → Except String ((List UInt8 × Option Error) × σ)

def addInt64 (a b : ℤ) : ℤ := (a + b + 2 ^ 63) % 2 ^ 64 - 2 ^ 63

variable {σ : Type}

/-- The loop of `io.ReadAll`, for at most `fuel` reads: `b` holds the bytes read
so far in a buffer of capacity `cap`; `none` when the fuel runs out. -/
def readAllLoop (r : Reader σ) (grow : ℕ → ℕ) : ℕ → List UInt8 → ℕ → σ →
    Option (Except String ((List UInt8 × Option Error) × σ))
  | 0, _, _, _ => none
  | fuel + 1, b, cap, s =>
    match r s (cap - b.length) with
    | .error e => some (.error e)
    | .ok ((bytes, err), s) =>
      match err with
      | some e => some (.ok ((b ++ bytes, if e = .eof then none else some e), s))
      | none =>
        -- `append(b, 0)[:len(b)]` once the buffer is full
        readAllLoop r grow fuel (b ++ bytes) (if (b ++ bytes).length = cap then grow cap else cap) s

def readAll (r : Reader σ) (grow : ℕ → ℕ) (fuel : ℕ) (s : σ) :
    Option (Except String ((List UInt8 × Option Error) × σ)) :=
  readAllLoop r grow fuel [] 512 s

/-- `r` yields the bytes `content s` in non-empty chunks: a read of `m ≥ 1` bytes
returns at least one and at most `m` of the next bytes while any are left,
with `io.EOF` only together with the last of them, and `io.EOF` alone once none
is left. -/
structure YieldsChunks (r : Reader σ) (content : σ → List UInt8) : Prop where
  read_nil : ∀ s m, 0 < m → content s = [] → ∃ s', r s m = .ok (([], some .eof), s') ∧ content s' = []
  read_cons : ∀ s m, 0 < m → content s ≠ [] → ∃ bytes err s', r s m = .ok ((bytes, err), s') ∧
    content s = bytes ++ content s' ∧ bytes ≠ [] ∧ bytes.length ≤ m ∧
    (err = none ∨ err = some .eof ∧ content s' = [])

/-- A reader of the bytes `rest` that answers its `i`-th read, of `m` bytes, with
the next `chunk i` bytes, but at least one and at most `m`, and with `io.EOF`
along with the last bytes when `eofWithLast` holds. -/
def chunkReader (chunk : ℕ → ℕ) (eofWithLast : Bool) : Reader (List UInt8 × ℕ) := fun (rest, i) m =>
  if m = 0 then .ok (([], none), (rest, i))
  else if rest = [] then .ok (([], some .eof), (rest, i + 1))
  else
    let k := max 1 (min (chunk i) m)
    .ok ((rest.take k, if eofWithLast ∧ rest.length ≤ k then some .eof else none), (rest.drop k, i + 1))

theorem yieldsChunks_chunkReader (chunk : ℕ → ℕ) (eofWithLast : Bool) :
    YieldsChunks (chunkReader chunk eofWithLast) Prod.fst := by
  constructor
  · rintro ⟨rest, i⟩ m hm (rfl : rest = [])
    exact ⟨([], i + 1), by simp [chunkReader, hm.ne'], rfl⟩
  · rintro ⟨rest, i⟩ m hm (hrest : rest ≠ [])
    obtain ⟨k, hk_def⟩ : ∃ k, k = max 1 (min (chunk i) m) := ⟨_, rfl⟩
    have hk : 1 ≤ k := hk_def ▸ le_max_left _ _
    have hkm : k ≤ m := hk_def ▸ max_le hm (min_le_right _ _)
    have hread : chunkReader chunk eofWithLast (rest, i) m =
        .ok ((rest.take k, if eofWithLast ∧ rest.length ≤ k then some .eof else none), (rest.drop k, i + 1)) := by
      simp only [chunkReader, hm.ne', hrest, if_false, hk_def]
    refine ⟨rest.take k, _, (rest.drop k, i + 1), hread, (List.take_append_drop _ _).symm, ?_, ?_, ?_⟩
    · simpa [List.take_eq_nil_iff, hrest] using Nat.one_le_iff_ne_zero.mp hk
    · exact (List.length_take_le _ _).trans hkm
    · split_ifs with heof
      · exact .inr ⟨rfl, List.drop_eq_nil_of_le heof.2⟩
      · exact .inl rfl

theorem addInt64_of_lt {a b : ℤ} (hlo : -2 ^ 63 ≤ a + b) (hhi : a + b < 2 ^ 63) : addInt64 a b = a + b := by
  rw [addInt64, Int.emod_eq_of_lt (by omega) (by omega)]
  ring

theorem readAllLoop_of_error (r : Reader σ) (grow : ℕ → ℕ) (fuel : ℕ) {b : List UInt8} {cap : ℕ} {s : σ}
    {e : String} (h : r s (cap - b.length) = .error e) :
    readAllLoop r grow (fuel + 1) b cap s = some (.error e) := by
  simp only [readAllLoop, h]

theorem readAllLoop_of_some (r : Reader σ) (grow : ℕ → ℕ) (fuel : ℕ) {b bytes : List UInt8} {cap : ℕ}
    {s s' : σ} {e : Error} (h : r s (cap - b.length) = .ok ((bytes, some e), s')) :
    readAllLoop r grow (fuel + 1) b cap s = some (.ok ((b ++ bytes, if e = .eof then none else some e), s')) := by
  simp only [readAllLoop, h]

theorem readAllLoop_of_none (r : Reader σ) (grow : ℕ → ℕ) (fuel : ℕ) {b bytes : List UInt8} {cap : ℕ}
    {s s' : σ} (h : r s (cap - b.length) = .ok ((bytes, none), s')) :
    readAllLoop r grow (fuel + 1) b cap s =
      readAllLoop r grow fuel (b ++ bytes) (if (b ++ bytes).length = cap then grow cap else cap) s' := by
  simp only [readAllLoop, h]

/-- The capacity `ReadAll` reads into next stays above the bytes read, when the
runtime grows a full buffer and the read kept to its buffer. -/
theorem length_lt_nextCap {grow : ℕ → ℕ} (hgrow : ∀ c, c < grow c) {b bytes : List UInt8} {cap : ℕ}
    (hbytes : bytes.length ≤ cap - b.length) (hb : b.length < cap) :
    (b ++ bytes).length < if (b ++ bytes).length = cap then grow cap else cap := by
  have hle : (b ++ bytes).length ≤ cap := by
    rw [List.length_append]
    omega
  split_ifs with hfull
  · exact hfull ▸ hgrow cap
  · omega

theorem addInt64_lt (a b : ℤ) : addInt64 a b < 2 ^ 63 := by
  have h := Int.emod_lt_of_pos (a + b + 2 ^ 63) (by norm_num : (0 : ℤ) < 2 ^ 64)
  rw [addInt64]
  omega

/-! ### Seeking readers -/

/-- `io.SeekStart`, `io.SeekCurrent` and `io.SeekEnd`. -/
def seekStart : ℤ := 0

def seekCurrent : ℤ := 1

def seekEnd : ℤ := 2

/-- A call on an `io.ReadSeeker`: `Read` into a buffer of `m` bytes, or
`Seek(offset, whence)`. -/
inductive Op where
  | read (m : ℕ)
  | seek (offset whence : ℤ)
  deriving DecidableEq, Repr

/-- A call Go can make: a `Seek` has an `int64` offset, and any whence. -/
def Op.Valid : Op → Prop
  | .read _ => True
  | .seek offset _ => -2 ^ 63 ≤ offset ∧ offset < 2 ^ 63

/-- What a call returns: the bytes read and the error, or the offset and the error. -/
inductive Answer where
  | read (bytes : List UInt8) (err : Option Error)
  | seek (pos : ℤ) (err : Option Error)
  deriving DecidableEq, Repr

/-- `bytes.Reader` over `s`, at index `i`. -/
structure BytesReader where
  s : List UInt8
  i : ℤ
  deriving DecidableEq, Repr

/-- `bytes.Reader.Read` into a buffer of `m` bytes; `i` stays within `len(s)`, so
`r.i += n` does not wrap. -/
def BytesReader.read (br : BytesReader) (m : ℕ) : (List UInt8 × Option Error) × BytesReader :=
  if (br.s.length : ℤ) ≤ br.i then (([], some .eof), br)
  else
    let bytes := (br.s.drop br.i.toNat).take m
    ((bytes, none), { br with i := br.i + bytes.length })

/-- The position a `Seek(offset, whence)` of `bytes.Reader` asks for, from index
`i` in `size` bytes; `none` for a whence that is none of `io`'s. -/
def seekAbs (i size offset whence : ℤ) : Option ℤ :=
  if whence = seekStart then some offset
  else if whence = seekCurrent then some (addInt64 i offset)
  else if whence = seekEnd then some (addInt64 size offset) else none

def BytesReader.seek (br : BytesReader) (offset whence : ℤ) : (ℤ × Option Error) × BytesReader :=
  match seekAbs br.i br.s.length offset whence with
  | none => ((0, some (.msg "bytes.Reader.Seek: invalid whence")), br)
  | some abs =>
    if abs < 0 then ((0, some (.msg "bytes.Reader.Seek: negative position")), br)
    else ((abs, none), { br with i := abs })

def BytesReader.step (br : BytesReader) : Op → Answer × BytesReader
  | .read m => ((.read (br.read m).1.1 (br.read m).1.2), (br.read m).2)
  | .seek offset whence =>
    ((.seek (br.seek offset whence).1.1 (br.seek offset whence).1.2), (br.seek offset whence).2)

def BytesReader.run (br : BytesReader) : List Op → List Answer × BytesReader
  | [] => ([], br)
  | op :: ops => ((br.step op).1 :: ((br.step op).2.run ops).1, ((br.step op).2.run ops).2)

/-- The answer of a reader over `C` at offset `o` that serves `n` bytes of a
`Read`: what `bytes.Reader` answers to a buffer of `n` bytes, but with `io.EOF`
as soon as the last byte is given; and the offset after it. -/
def serveRead (C : List UInt8) (o : ℤ) (n : ℕ) : Answer × ℤ :=
  let bytes := ((BytesReader.mk C o).read n).1.1
  (.read bytes (if (C.length : ℤ) ≤ o + bytes.length then some .eof else none), ((BytesReader.mk C o).read n).2.i)

/-- The answer to a `Seek`: what `bytes.Reader` answers, but a failed seek answers
`err` and the offset it leaves. -/
def serveSeek (C : List UInt8) (err : Error) (o offset whence : ℤ) : Answer × ℤ :=
  match ((BytesReader.mk C o).seek offset whence).1 with
  | (pos, none) => (.seek pos none, pos)
  | (_, some _) => (.seek o (some err), o)

/-- The answers of a reader over `C` from offset `o`: each `Read` of `m` bytes
serves `n ≤ m` of them, one at least while any are left, each `Seek` with a
whence of `io` answers as `serveSeek`, and one with another whence answers the
offset and no error, and stays. -/
inductive Serves (C : List UInt8) (err : Error) : ℤ → List Op → List Answer → Prop
  | nil (o : ℤ) : Serves C err o [] []
  | read {o : ℤ} {m n : ℕ} {ops : List Op} {answers : List Answer} (hn : n ≤ m)
      (hpos : 0 < m → o < C.length → 0 < n) (h : Serves C err (serveRead C o n).2 ops answers) :
      Serves C err o (.read m :: ops) ((serveRead C o n).1 :: answers)
  | seek {o offset whence : ℤ} {ops : List Op} {answers : List Answer}
      (hwhence : whence = seekStart ∨ whence = seekCurrent ∨ whence = seekEnd)
      (h : Serves C err (serveSeek C err o offset whence).2 ops answers) :
      Serves C err o (.seek offset whence :: ops) ((serveSeek C err o offset whence).1 :: answers)
  | keep {o offset whence : ℤ} {ops : List Op} {answers : List Answer}
      (hwhence : ¬(whence = seekStart ∨ whence = seekCurrent ∨ whence = seekEnd)) (h : Serves C err o ops answers) :
      Serves C err o (.seek offset whence :: ops) (.seek o none :: answers)

theorem serveRead_of_le {C : List UInt8} {o : ℤ} (ho : 0 ≤ o) {n : ℕ} (hn : o + n ≤ C.length ∨ n = 0) :
    serveRead C o n =
      (.read ((C.drop o.toNat).take n) (if (C.length : ℤ) ≤ o + n then some .eof else none), o + n) := by
  have hlen : ((C.drop o.toNat).take n).length = n := by
    rw [List.length_take, List.length_drop]
    omega
  by_cases hend : (C.length : ℤ) ≤ o
  · have hn0 : n = 0 := by omega
    subst hn0
    simp [serveRead, BytesReader.read, hend]
  · simp only [serveRead, BytesReader.read, if_neg hend, hlen]

theorem seekAbs_isSome (i size offset : ℤ) {whence : ℤ}
    (hwhence : whence = seekStart ∨ whence = seekCurrent ∨ whence = seekEnd) :
    ∃ pos, seekAbs i size offset whence = some pos := by
  rcases hwhence with rfl | rfl | rfl <;> simp [seekAbs, seekStart, seekCurrent, seekEnd]

theorem lt_of_seekAbs {i size offset whence pos : ℤ} (h : seekAbs i size offset whence = some pos)
    (hoffset : offset < 2 ^ 63) : pos < 2 ^ 63 := by
  unfold seekAbs at h
  split_ifs at h <;> cases h
  · exact hoffset
  · exact addInt64_lt _ _
  · exact addInt64_lt _ _

theorem serveSeek_of_nonneg {C : List UInt8} {err : Error} {o offset whence pos : ℤ}
    (habs : seekAbs o C.length offset whence = some pos) (hpos : 0 ≤ pos) :
    serveSeek C err o offset whence = (.seek pos none, pos) := by
  simp only [serveSeek, BytesReader.seek, habs, if_neg (not_lt.mpr hpos)]

theorem serveSeek_of_neg {C : List UInt8} {err : Error} {o offset whence pos : ℤ}
    (habs : seekAbs o C.length offset whence = some pos) (hpos : pos < 0) :
    serveSeek C err o offset whence = (.seek o (some err), o) := by
  simp only [serveSeek, BytesReader.seek, habs, if_pos hpos]

end GoIo
