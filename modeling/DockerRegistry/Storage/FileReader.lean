import DockerRegistry.Lib.GoBufio

/-!
# The storage file reader

`fileReader` of `registry/storage/filereader.go`: an `io.ReadSeeker` over a file
of the storage driver, through which blobs are served. It opens the driver's
reader at its offset on the first read, reads through a `bufio.Reader` of 4 MiB,
drops the driver's reader when a seek moves the offset, and simulates `io.EOF`
once the offset reaches the recorded size.

`rc` and `brd` are kept as one field: `brd` is used only while `rc` is open, and
`reader` resets it whenever it opens a new `rc`, so a closed `rc` is `brd = none`.

Against `bytes.Reader` over the file's bytes `C` (`GoIo.Serves`): when the
driver opens the file at every offset and its reads yield at least one byte, the
file reader answers every run of reads and seeks with the bytes of `C` from its
offset, at least one while any are left, and with `io.EOF` exactly when they
reach the end; seeks answer as `bytes.Reader`'s, except that a seek to a negative
position answers the offset it leaves. A read may serve fewer bytes than
`bytes.Reader` would: `fileReader_short_read`.
-/

namespace DockerRegistry.Storage

open GoIo

def fileReaderBufferSize : ℕ := 4 * 1024 * 1024

/-- The error of the driver's `Reader`: `PathNotFoundError`, or another. -/
inductive OpenError where
  | pathNotFound
  | other (e : Error)

variable {σ : Type}

/-- `fileReader`: the size recorded at its creation, the buffered reader of the
open driver reader, the offset and the terminal error. -/
structure FileReader (σ : Type) where
  size : ℤ
  brd : Option (BufReader σ)
  offset : ℤ
  err : Option Error

def newFileReader (size : ℤ) : FileReader σ := ⟨size, none, 0, none⟩

/-- The reader `reader` hands out: the buffered driver reader, or for a file not
found an empty `bytes.Reader` that is not kept. -/
inductive Source (σ : Type) where
  | buffered (b : BufReader σ)
  | empty

/-- `fileReader.reader`: the driver's reader is opened at the offset, through
`openAt`, when none is open. -/
def FileReader.reader (openAt : ℤ → Except OpenError σ) (fr : FileReader σ) :
    Except Error (Source σ × FileReader σ) :=
  match fr.err with
  | some e => .error e
  | none =>
    match fr.brd with
    | some b => .ok (.buffered b, fr)
    | none =>
      match openAt fr.offset with
      -- a missing file reads as empty, and a later read tries again
      | .error .pathNotFound => .ok (.empty, fr)
      | .error (.other e) => .error e
      | .ok rc => .ok (.buffered (BufReader.new rc), { fr with brd := some (BufReader.new rc) })

/-- The end of `fileReader.Read`: the offset moves past the bytes read, and
`io.EOF` is simulated once it reaches the size. -/
def FileReader.advance (fr : FileReader σ) (bytes : List UInt8) (err : Option Error) :
    (List UInt8 × Option Error) × FileReader σ :=
  let fr := { fr with offset := addInt64 fr.offset bytes.length }
  ((bytes, if err = none ∧ fr.size ≤ fr.offset then some .eof else err), fr)

/-- `fileReader.Read` into a buffer of `m` bytes; `r` reads the driver's reader. -/
def FileReader.read (r : Reader σ) (openAt : ℤ → Except OpenError σ) (fr : FileReader σ) (m : ℕ) :
    Except String ((List UInt8 × Option Error) × FileReader σ) :=
  match fr.err with
  | some e => .ok (([], some e), fr)
  | none =>
    match fr.reader openAt with
    | .error e => .ok (([], some e), fr)
    | .ok (.empty, fr) => .ok (fr.advance ((BytesReader.mk [] 0).read m).1.1 ((BytesReader.mk [] 0).read m).1.2)
    | .ok (.buffered b, fr) =>
      match b.read r fileReaderBufferSize m with
      | .error e => .error e
      | .ok ((bytes, err), b) => .ok ({ fr with brd := some b }.advance bytes err)

def FileReader.reset (fr : FileReader σ) : FileReader σ :=
  match fr.err with
  | some _ => fr
  | none => { fr with brd := none }

def errNegativeSeek : Error := .msg "cannot seek to negative position"

/-- `fileReader.Seek`; a whence that is none of `io`'s leaves the offset. -/
def FileReader.seek (fr : FileReader σ) (offset whence : ℤ) : (ℤ × Option Error) × FileReader σ :=
  match fr.err with
  | some e => ((0, some e), fr)
  | none =>
    let newOffset :=
      if whence = seekCurrent then addInt64 fr.offset offset
      else if whence = seekEnd then addInt64 fr.size offset
      else if whence = seekStart then offset else fr.offset
    if newOffset < 0 then ((fr.offset, some errNegativeSeek), fr)
    else
      let fr := if fr.offset ≠ newOffset then fr.reset else fr
      ((newOffset, none), { fr with offset := newOffset })

def FileReader.closeWithErr (fr : FileReader σ) (err : Error) : Error × FileReader σ :=
  match fr.err with
  | some e => (e, fr)
  | none => (err, { fr with err := some err, brd := none })

def FileReader.close (fr : FileReader σ) : Error × FileReader σ :=
  fr.closeWithErr (.msg "fileReader: closed")

def FileReader.step (r : Reader σ) (openAt : ℤ → Except OpenError σ) (fr : FileReader σ) :
    Op → Except String (Answer × FileReader σ)
  | .read m => (fr.read r openAt m).map fun res => (.read res.1.1 res.1.2, res.2)
  | .seek offset whence =>
    .ok (.seek (fr.seek offset whence).1.1 (fr.seek offset whence).1.2, (fr.seek offset whence).2)

def FileReader.run (r : Reader σ) (openAt : ℤ → Except OpenError σ) (fr : FileReader σ) :
    List Op → Except String (List Answer × FileReader σ)
  | [] => .ok ([], fr)
  | op :: ops =>
    match fr.step r openAt op with
    | .error e => .error e
    | .ok (a, fr) =>
      match fr.run r openAt ops with
      | .error e => .error e
      | .ok (answers, fr) => .ok (a :: answers, fr)

section Refinement

variable {r : Reader σ} {content : σ → List UInt8} {C : List UInt8} {openAt : ℤ → Except OpenError σ}

/-- The driver opens the file at every offset and yields its bytes from there. -/
def Opens (content : σ → List UInt8) (C : List UInt8) (openAt : ℤ → Except OpenError σ) : Prop :=
  ∀ k, 0 ≤ k → ∃ s, openAt k = .ok s ∧ content s = C.drop k.toNat

/-- What holds between calls on a file reader over `C`: it is open, at an offset
of `int64`, and while a driver reader is open, the bytes it still yields through
the buffer are those of `C` from the offset. -/
structure FileReader.Good (content : σ → List UInt8) (C : List UInt8) (fr : FileReader σ) : Prop where
  size : fr.size = C.length
  err : fr.err = none
  offset_nonneg : 0 ≤ fr.offset
  offset_lt : fr.offset < 2 ^ 63
  brd : ∀ b, fr.brd = some b → b.Good content ∧ b.rest content = C.drop fr.offset.toNat

theorem good_newFileReader (content : σ → List UInt8) (C : List UInt8) :
    (newFileReader C.length : FileReader σ).Good content C :=
  ⟨rfl, rfl, le_rfl, by norm_num [newFileReader], fun _ h => by simp [newFileReader] at h⟩

theorem FileReader.reader_of_good (hopen : Opens content C openAt) {fr : FileReader σ}
    (hfr : fr.Good content C) :
    ∃ b, fr.reader openAt = .ok (.buffered b, { fr with brd := some b }) ∧ b.Good content ∧
      b.rest content = C.drop fr.offset.toNat := by
  cases hb : fr.brd with
  | some b =>
    obtain ⟨hgood, hrest⟩ := hfr.brd b hb
    have hkeep : ({ fr with brd := some b } : FileReader σ) = fr := by
      rw [← hb]
    refine ⟨b, ?_, hgood, hrest⟩
    rw [hkeep]
    simp [FileReader.reader, hfr.err, hb]
  | none =>
    obtain ⟨s, hs, hcontent⟩ := hopen fr.offset hfr.offset_nonneg
    exact ⟨BufReader.new s, by simp [FileReader.reader, hfr.err, hb, hs], BufReader.good_new content s,
      by simp [hcontent]⟩

theorem drop_of_served {o : ℤ} (ho : 0 ≤ o) {bytes rest : List UInt8} (h : C.drop o.toNat = bytes ++ rest) :
    (C.drop o.toNat).take bytes.length = bytes ∧ C.drop (o + bytes.length).toNat = rest ∧
      (o + bytes.length ≤ C.length ∨ bytes.length = 0) := by
  have hlen := congrArg List.length h
  rw [List.length_drop, List.length_append] at hlen
  refine ⟨by rw [h, List.take_left' rfl], ?_, by omega⟩
  have htoNat : (o + bytes.length).toNat = o.toNat + bytes.length := by omega
  rw [htoNat, ← List.drop_drop, h, List.drop_left' rfl]

/-- One read of a file reader in `Good` state serves the next `n` bytes of `C`,
at least one while any are left, and keeps the state `Good`. -/
theorem FileReader.read_of_good (hr : YieldsChunks r content) (hopen : Opens content C openAt)
    (hC : C.length < 2 ^ 63) {fr : FileReader σ} (hfr : fr.Good content C) (m : ℕ) :
    ∃ n fr', n ≤ m ∧ (0 < m → fr.offset < C.length → 0 < n) ∧
      fr.step r openAt (.read m) = .ok ((serveRead C fr.offset n).1, fr') ∧
      fr'.offset = (serveRead C fr.offset n).2 ∧ fr'.Good content C := by
  obtain ⟨b, hreader, hb, hrest⟩ := FileReader.reader_of_good hopen hfr
  obtain ⟨bytes, err, b', hread, hgood', hsplit, hlen, hpos, herr⟩ :=
    b.read_spec hr (show 0 < fileReaderBufferSize by norm_num [fileReaderBufferSize]) hb m
  have ho := hfr.offset_nonneg
  obtain ⟨htake, hdrop, hwithin⟩ := drop_of_served ho (hrest.symm.trans hsplit)
  have hadd : addInt64 fr.offset bytes.length = fr.offset + bytes.length :=
    addInt64_of_lt (by omega) (by have := hfr.offset_lt; omega)
  have hserve := serveRead_of_le (C := C) ho hwithin
  have herr' : (if err = none ∧ fr.size ≤ fr.offset + bytes.length then some Error.eof else err) =
      if (C.length : ℤ) ≤ fr.offset + bytes.length then some .eof else none := by
    rcases herr with rfl | ⟨rfl, hend⟩
    · simp [hfr.size]
    · have hlast : C.drop fr.offset.toNat = bytes := by simpa [hend] using hrest.symm.trans hsplit
      have := congrArg List.length hlast
      rw [List.length_drop] at this
      have hle : (C.length : ℤ) ≤ fr.offset + bytes.length := by omega
      simp [hle]
  have hstep : fr.step r openAt (.read m) = .ok (.read bytes
      (if (C.length : ℤ) ≤ fr.offset + bytes.length then some .eof else none),
      { fr with brd := some b', offset := fr.offset + bytes.length }) := by
    rw [← herr', ← hadd]
    simp [FileReader.step, FileReader.read, hfr.err, hreader, hread, FileReader.advance, Except.map]
  refine ⟨bytes.length, { fr with brd := some b', offset := fr.offset + bytes.length }, hlen,
    fun hm ho' => List.length_pos_iff.mpr (hpos hm ?_), by rw [hstep, hserve, htake], by rw [hserve], ?_⟩
  · rw [hrest]
    exact List.ne_nil_of_length_pos (by rw [List.length_drop]; omega)
  · refine ⟨hfr.size, hfr.err, by dsimp only; omega, ?_, fun b'' hb'' => ?_⟩
    · have := hfr.offset_lt
      dsimp only
      omega
    · cases hb''
      exact ⟨hgood', hdrop ▸ rfl⟩

/-- One seek with a whence of `io` of a file reader in `Good` state answers as
`bytes.Reader` does, or for a negative position the offset it leaves, and keeps
the state `Good`. -/
theorem FileReader.seek_of_good (r : Reader σ) (openAt : ℤ → Except OpenError σ) {fr : FileReader σ}
    (hfr : fr.Good content C) {offset whence : ℤ} (hhi : offset < 2 ^ 63)
    (hwhence : whence = seekStart ∨ whence = seekCurrent ∨ whence = seekEnd) :
    ∃ fr', fr.step r openAt (.seek offset whence) = .ok ((serveSeek C errNegativeSeek fr.offset offset whence).1, fr') ∧
      fr'.offset = (serveSeek C errNegativeSeek fr.offset offset whence).2 ∧ fr'.Good content C := by
  obtain ⟨pos, habs⟩ := seekAbs_isSome fr.offset C.length offset hwhence
  have hnew : (if whence = seekCurrent then addInt64 fr.offset offset
      else if whence = seekEnd then addInt64 fr.size offset
      else if whence = seekStart then offset else fr.offset) = pos := by
    rcases hwhence with rfl | rfl | rfl <;>
      simp_all [seekAbs, seekStart, seekCurrent, seekEnd, hfr.size]
  by_cases hneg : pos < 0
  · refine ⟨fr, ?_, by rw [serveSeek_of_neg habs hneg], hfr⟩
    rw [serveSeek_of_neg habs hneg]
    simp [FileReader.step, FileReader.seek, hfr.err, hnew, hneg]
  · refine ⟨{ (if fr.offset ≠ pos then fr.reset else fr) with offset := pos }, ?_,
      by rw [serveSeek_of_nonneg habs (not_lt.mp hneg)], ?_⟩
    · rw [serveSeek_of_nonneg habs (not_lt.mp hneg)]
      simp [FileReader.step, FileReader.seek, hfr.err, hnew, hneg]
    · by_cases hmove : fr.offset = pos
      · subst hmove
        simpa using hfr
      · have hreset : (if fr.offset ≠ pos then fr.reset else fr) = { fr with brd := none } := by
          simp [hmove, FileReader.reset, hfr.err]
        rw [hreset]
        exact ⟨hfr.size, hfr.err, not_lt.mp hneg, lt_of_seekAbs habs hhi, fun b hb => by simp at hb⟩

theorem FileReader.seek_other (r : Reader σ) (openAt : ℤ → Except OpenError σ) {fr : FileReader σ}
    (hfr : fr.Good content C) {offset whence : ℤ}
    (hwhence : ¬(whence = seekStart ∨ whence = seekCurrent ∨ whence = seekEnd)) :
    fr.step r openAt (.seek offset whence) = .ok (.seek fr.offset none, fr) := by
  obtain ⟨size, brd, o, err⟩ := fr
  obtain rfl : err = none := hfr.err
  have hnew : (if whence = seekCurrent then addInt64 o offset
      else if whence = seekEnd then addInt64 size offset
      else if whence = seekStart then offset else o) = o := by
    simp only [not_or] at hwhence
    simp [hwhence.1, hwhence.2.1, hwhence.2.2]
  simp [FileReader.step, FileReader.seek, hnew, not_lt.mpr hfr.offset_nonneg]

/-- Every run of reads and seeks of a file reader in `Good` state at offset `o`
answers as a reader over `C` that `Serves` from `o`. -/
theorem FileReader.run_of_good (hr : YieldsChunks r content) (hopen : Opens content C openAt)
    (hC : C.length < 2 ^ 63) (ops : List Op) (hops : ∀ op ∈ ops, op.Valid) {fr : FileReader σ}
    (hfr : fr.Good content C) :
    ∃ answers fr', fr.run r openAt ops = .ok (answers, fr') ∧ Serves C errNegativeSeek fr.offset ops answers := by
  induction ops generalizing fr with
  | nil => exact ⟨[], fr, rfl, .nil _⟩
  | cons op ops ih =>
    have hops' : ∀ op ∈ ops, op.Valid := fun op hop => hops op (List.mem_cons_of_mem _ hop)
    cases op with
    | read m =>
      obtain ⟨n, fr₁, hn, hpos, hstep, hoff, hgood⟩ := FileReader.read_of_good hr hopen hC hfr m
      obtain ⟨answers, fr', hrun, hserves⟩ := ih hops' hgood
      exact ⟨_, fr', by simp [FileReader.run, hstep, hrun], .read hn hpos (hoff ▸ hserves)⟩
    | seek offset whence =>
      have hop := hops _ List.mem_cons_self
      by_cases hwhence : whence = seekStart ∨ whence = seekCurrent ∨ whence = seekEnd
      · obtain ⟨fr₁, hstep, hoff, hgood⟩ := FileReader.seek_of_good r openAt hfr hop.2 hwhence
        obtain ⟨answers, fr', hrun, hserves⟩ := ih hops' hgood
        exact ⟨_, fr', by simp [FileReader.run, hstep, hrun], .seek hwhence (hoff ▸ hserves)⟩
      · obtain ⟨answers, fr', hrun, hserves⟩ := ih hops' hfr
        exact ⟨_, fr', by simp [FileReader.run, FileReader.seek_other r openAt hfr hwhence, hrun],
          .keep hwhence hserves⟩

theorem fileReader_serves (hr : YieldsChunks r content) (hopen : Opens content C openAt)
    (hC : C.length < 2 ^ 63) (ops : List Op) (hops : ∀ op ∈ ops, op.Valid) :
    ∃ answers fr, (newFileReader C.length : FileReader σ).run r openAt ops = .ok (answers, fr) ∧
      Serves C errNegativeSeek 0 ops answers :=
  FileReader.run_of_good hr hopen hC ops hops (good_newFileReader content C)

/-- Over `"ab"`, with a driver that yields a byte a read, a read, a seek with the
whence 7, a seek back and a read to the end. -/
theorem fileReader_serves_ab : ∃ answers fr,
    (newFileReader ([0x61, 0x62] : List UInt8).length).run (chunkReader (fun _ => 1) false)
      (fun k => .ok (([0x61, 0x62] : List UInt8).drop k.toNat, 0)) [.read 1, .seek 1 7, .seek 0 seekStart, .read 4] =
      .ok (answers, fr) ∧
      Serves [0x61, 0x62] errNegativeSeek 0 [.read 1, .seek 1 7, .seek 0 seekStart, .read 4] answers :=
  fileReader_serves (yieldsChunks_chunkReader _ _) (fun _ _ => ⟨_, rfl, rfl⟩) (by norm_num) _
    (by simp [Op.Valid, seekStart])

/-- With a driver that yields a byte a read, a read of two bytes of `"ab"` serves
one, where `bytes.Reader` serves both. -/
theorem fileReader_short_read :
    ((newFileReader 2).run (chunkReader (fun _ => 1) false)
      (fun k => .ok (([0x61, 0x62] : List UInt8).drop k.toNat, 0)) [.read 2]).map Prod.fst =
      .ok [.read [0x61] none] ∧
    (BytesReader.run ⟨[0x61, 0x62], 0⟩ [.read 2]).1 = [.read [0x61, 0x62] none] := by
  constructor <;> rfl

end Refinement

end DockerRegistry.Storage
