import DockerRegistry.Storage.Driver.Inmemory

/-!
# Resumable blob uploads

`blobWriter` of `registry/storage/blobwriter.go` and `blobwriter_resumable.go`,
over the in-memory driver, for one upload in a fresh registry.

The digester is a streaming SHA-256 whose state after a reset is a function of
the bytes fed to it since; `MarshalBinary` and `UnmarshalBinary` move that state
in and out of the hash-state files. The model keeps exactly those bytes as the
digester's state, so the digester's `Digest()` is `fromBytes digester` and a
hash-state file holds the bytes whose state it records.

`resumeDigest` compares the writer's offset `fileWriter.Size()` with the count
`written` of bytes hashed. The in-memory writer counts only flushed bytes, so the
two agree across sessions (each request resumes, writes once, closes) but not
between two writes of one session: the second write finds them apart, resets the
digester and keeps `written`. Part of the theorems below are for the first shape,
which is how the blob upload handler drives an upload.
-/

namespace DockerRegistry.Storage

open Driver.Inmemory

/-- `blobWriter`: the digester's bytes, the count `written`, the driver's file
writer and the `committed` flag. -/
structure BlobWriter where
  digester : Bytes := []
  written : ℕ := 0
  fileWriter : Writer := {}
  committed : Bool := false
  deriving DecidableEq, Repr

/-- The driver's files that one upload touches, with the current `blobWriter`.
`data` is `_uploads/<id>/data`, `hashStates` the files
`_uploads/<id>/hashstates/sha256/<offset>`, `blobs` the files
`blobs/sha256/<xx>/<hex>/data` and `layers` the repository's `_layers` links. -/
structure Session where
  data : Bytes := []
  hashStates : List (ℕ × Bytes) := []
  writer : BlobWriter := {}
  blobs : List (Digest × Bytes) := []
  layers : List Digest := []
  uploadRemoved : Bool := false
  deriving DecidableEq, Repr

/-- The errors a blob writer call returns. -/
inductive BlobError
  /-- an error of the driver's file writer -/
  | writer (e : WriterError)
  /-- `blobwriter close after commit` -/
  | closeAfterCommit
  /-- `ErrBlobInvalidDigest` -/
  | invalidDigest
  /-- `ErrBlobInvalidLength` -/
  | invalidLength
  /-- `ErrBlobUploadUnknown` -/
  | uploadUnknown
  /-- a `go-digest` method panicked on a malformed digest -/
  | panic
  deriving DecidableEq, Repr

namespace Session

def blobData (s : Session) (d : Digest) : Option Bytes := (s.blobs.find? (·.1 = d)).map (·.2)

/-- `PutContent` of a hash-state file: it replaces the file of the same offset. -/
def putHashState (s : Session) (offset : ℕ) (state : Bytes) : Session :=
  { s with hashStates := (offset, state) :: s.hashStates.filter (·.1 ≠ offset) }

end Session

variable (enabled : Bool)

/-- `resumeDigest`. The flag is `true` when it returns nil and `false` when it
returns `errResumableDigestNotAvailable`; the in-memory driver gives it no other
error. The hash-state file chosen is the one named by the current offset. -/
def resumeDigest (s : Session) : BlobWriter × Bool :=
  let bw := s.writer
  if !enabled then (bw, false)
  else
    let offset := bw.fileWriter.size s.data
    if offset = bw.written then (bw, true)
    else
      let bw := match s.hashStates.find? (·.1 = offset) with
        | some (n, state) => if n = 0 then { bw with digester := [] }
            else { bw with digester := state, written := n }
        | none => { bw with digester := [] }
      -- "Mind the gap."
      (bw, !decide (bw.written < offset))

def storeHashState (s : Session) : Session :=
  if enabled then s.putHashState s.writer.written s.writer.digester else s

/-- Feed one buffer to the file writer and then to the digester, as `Write` does
after `resumeDigest` and as `io.Copy` does for each chunk of `ReadFrom`. -/
def BlobWriter.feed (bw : BlobWriter) (p : Bytes) : Except WriterError BlobWriter :=
  match bw.fileWriter.write p with
  | .error e => .error e
  | .ok fw => .ok { bw with fileWriter := fw, digester := bw.digester ++ p }

/-- The `io.Copy` loop of `ReadFrom`: the writer after the chunks it took, the
bytes it took, and the error that stopped it. -/
def copyChunks (bw : BlobWriter) : List Bytes → BlobWriter × Bytes × Option WriterError
  | [] => (bw, [], none)
  | p :: ps =>
    match bw.feed p with
    | .error e => (bw, [], some e)
    | .ok bw' =>
      let r := copyChunks bw' ps
      (r.1, p ++ r.2.1, r.2.2)

/-- `Write`: the new session, and the count written or the error. -/
def write (p : Bytes) (s : Session) : Session × Except BlobError ℕ :=
  let bw := (resumeDigest enabled s).1
  match bw.feed p with
  | .error e => ({ s with writer := bw }, .error (.writer e))
  | .ok bw' => ({ s with writer := { bw' with written := bw'.written + p.length } }, .ok p.length)

/-- `ReadFrom` of a reader that yields `chunks` and then EOF: the bytes copied,
and the error that stopped the copy. -/
def readFrom (chunks : List Bytes) (s : Session) : Session × Bytes × Option BlobError :=
  let r := copyChunks (resumeDigest enabled s).1 chunks
  ({ s with writer := { r.1 with written := r.1.written + r.2.1.length } }, r.2.1, r.2.2.map .writer)

/-- `Close`: refuse after commit, save the hash state, then close the file writer. -/
def close (s : Session) : Session × Except BlobError Unit :=
  if s.writer.committed then (s, .error .closeAfterCommit)
  else
    let s := storeHashState enabled s
    match s.writer.fileWriter.close s.data with
    | .error e => (s, .error (.writer e))
    | .ok (fw, data) => ({ s with data := data, writer := { s.writer with fileWriter := fw } }, .ok ())

/-- `linkedBlobStore.Resume`: a new `blobWriter` over the same file, opened for
appending; an upload whose directory was removed is unknown. -/
def resume (s : Session) : Session × Except BlobError Unit :=
  if s.uploadRemoved then (s, .error .uploadUnknown) else ({ s with writer := {} }, .ok ())

/-- The steps a client may take on an upload before committing it. -/
inductive Step
  | write (p : Bytes)
  | readFrom (chunks : List Bytes)
  | close
  | resume
  deriving DecidableEq, Repr

def applyStep : Step → Session → Session × Bytes
  | .write p, s =>
    let r := write enabled p s
    (r.1, match r.2 with | .ok _ => p | .error _ => [])
  | .readFrom chunks, s =>
    let r := readFrom enabled chunks s
    (r.1, r.2.1)
  | .close, s => ((close enabled s).1, [])
  | .resume, s => ((resume s).1, [])

def run : List Step → Session → Session × Bytes
  | [], s => (s, [])
  | st :: sts, s =>
    let r := applyStep enabled st s
    let r' := run sts r.1
    (r'.1, r.2 ++ r'.2)

/-- `linkedBlobStore.Create` in a fresh registry: an empty data file, a fresh
`blobWriter`, nothing stored yet. -/
def create : Session := {}

/-- The full-hash path of `validateBlob`: the shortcut when the digester saw as
many bytes as the file holds (`bw.written == size && Canonical ==
desc.Digest.Algorithm()`), else rehashing the file with the provided digest's
own algorithm. The canonical digest and whether the provided one verified; `none`
where a digest method panics. -/
def fullHash (bw : BlobWriter) (size : ℤ) (d : Digest) (content : Bytes) : Option (Digest × Bool) :=
  let shortcut : Option Bool :=
    if (bw.written : ℤ) = size then d.algorithm?.map (· = Algorithm.canonical) else some false
  shortcut.bind fun useDigester =>
    if useDigester ∧ d = fromBytes bw.digester then some (fromBytes bw.digester, true)
    else (d.verified? content).map fun v => (fromBytes content, v)

/-- The digest check of `validateBlob` after `resumeDigest`: when the digester
caught up and both sides use SHA-256, a comparison with the digester's digest,
else the full-hash path. The canonical digest and whether the provided digest
verified; `none` where a digest method panics. -/
def checkDigest (resumed : Bool) (bw : BlobWriter) (size : ℤ) (d : Digest) (content : Bytes) :
    Option (Digest × Bool) :=
  if resumed then
    d.algorithm?.bind fun a =>
      if a = Algorithm.canonical then some (fromBytes bw.digester, d == fromBytes bw.digester)
      else fullHash bw size d content
  else fullHash bw size d content

/-- `validateBlob`: check the size and the digest and return the canonical
descriptor. The data file always exists here, so `Stat` gives its length. -/
def validateBlob (desc : Descriptor) (s : Session) : Session × Except BlobError Descriptor :=
  if desc.digest = "" then (s, .error .invalidDigest)
  else
    let size : ℤ := s.data.length
    if 0 < desc.size ∧ desc.size ≠ size then (s, .error .invalidLength)
    else
      let desc := if 0 < desc.size then desc else { desc with size := size }
      let r := resumeDigest enabled s
      let s := { s with writer := r.1 }
      match checkDigest r.2 r.1 size desc.digest s.data with
      | none => (s, .error .panic)
      | some (_, false) => (s, .error .invalidDigest)
      | some (canonical, true) =>
        (s, .ok { desc with
          digest := canonical
          mediaType := if desc.mediaType = "" then "application/octet-stream" else desc.mediaType })

/-- `moveBlob`: an existing blob is kept, as the store is content addressed;
otherwise the data file moves to the blob's data path. -/
def moveBlob (canonical : Descriptor) (s : Session) : Session :=
  match s.blobData canonical.digest with
  | some _ => s
  | none => { s with blobs := (canonical.digest, s.data) :: s.blobs }

/-- `linkBlob`: the repository's layer links for the canonical digest and the
provided one. -/
def linkBlob (canonical : Descriptor) (provided : Digest) (s : Session) : Session :=
  { s with layers := canonical.digest :: (if provided = canonical.digest then [] else [provided]) ++ s.layers }

def removeResources (s : Session) : Session :=
  { s with data := [], hashStates := [], uploadRemoved := true }

/-- `Commit`: commit the file writer, close, take the size, validate, move,
link and clean up. Without a descriptor cache `SetDescriptor` does nothing. -/
def commit (desc : Descriptor) (s : Session) : Session × Except BlobError Descriptor :=
  match s.writer.fileWriter.commit s.data with
  | .error e => (s, .error (.writer e))
  | .ok (fw, data) =>
    let s := (close enabled { s with data := data, writer := { s.writer with fileWriter := fw } }).1
    let desc := { desc with size := (s.writer.fileWriter.size s.data : ℤ) }
    match validateBlob enabled desc s with
    | (s, .error e) => (s, .error e)
    | (s, .ok canonical) =>
      let s := removeResources (linkBlob canonical desc.digest (moveBlob canonical s))
      ({ s with writer := { s.writer with committed := true } }, .ok canonical)

/-! ## Uploads driven one request at a time -/

/-- One request's data: a single `Write` or a single `ReadFrom`. -/
inductive Chunk
  | write (p : Bytes)
  | readFrom (chunks : List Bytes)
  deriving DecidableEq, Repr

def Chunk.step : Chunk → Step
  | .write p => .write p
  | .readFrom chunks => .readFrom chunks

def Chunk.bytes : Chunk → Bytes
  | .write p => p
  | .readFrom chunks => chunks.flatten

/-- The steps of an upload driven as the blob upload handler drives it: every
session makes at most one data step, and every session but the last is closed
before the next one resumes the upload. -/
def requestSteps : List (Option Chunk) → Option Chunk → List Step
  | [], last => last.toList.map Chunk.step
  | c :: cs, last => c.toList.map Chunk.step ++ .close :: .resume :: requestSteps cs last

/-- Every hash-state file holds the prefix of the data file that its name gives. -/
def StatesArePrefixes (s : Session) : Prop :=
  ∀ e ∈ s.hashStates, e.1 ≤ s.data.length ∧ e.2 = s.data.take e.1

/-- A hash-state file is named by the data file's length, unless the file is empty. -/
def StateAtEnd (s : Session) : Prop :=
  s.data = [] ∨ ∃ state, (s.data.length, state) ∈ s.hashStates

/-- A session at the start of a request: a fresh blob writer over an upload whose
hash-state files are right, and nothing committed yet. -/
structure Ready (s : Session) : Prop where
  fresh : s.writer = {}
  prefixes : StatesArePrefixes s
  atEnd : StateAtEnd s
  noBlobs : s.blobs = []
  present : s.uploadRemoved = false

def fed (s : Session) (p : Bytes) : Session :=
  { s with writer := { digester := s.data ++ p, written := s.data.length + p.length, fileWriter := { buffer := p } } }

theorem ready_create : Ready create :=
  ⟨rfl, by simp [StatesArePrefixes, create], by simp [StateAtEnd, create], rfl, rfl⟩

theorem find?_of_prefixes {s : Session} (hp : StatesArePrefixes s)
    (he : ∃ state, (s.data.length, state) ∈ s.hashStates) :
    s.hashStates.find? (·.1 = s.data.length) = some (s.data.length, s.data) := by
  obtain ⟨state, hmem⟩ := he
  have hsome : (s.hashStates.find? (·.1 = s.data.length)).isSome :=
    List.find?_isSome.mpr ⟨_, hmem, by simp⟩
  obtain ⟨e, hfind⟩ := Option.isSome_iff_exists.mp hsome
  have hname : e.1 = s.data.length := by simpa using List.find?_some hfind
  have hstate := (hp e (List.mem_of_find?_eq_some hfind)).2
  rw [hfind]
  exact congrArg some (Prod.ext hname (by rw [hstate, hname, List.take_length]))

theorem resumeDigest_of_synced {s : Session} (hw : s.writer.written = s.data.length)
    (hd : s.writer.digester = s.data) :
    resumeDigest true s = ({ s.writer with digester := s.data, written := s.data.length }, true) := by
  have hself : ({ s.writer with digester := s.data, written := s.data.length } : BlobWriter) = s.writer := by
    rw [← hw, ← hd]
  simp [resumeDigest, Writer.size, hw, hself]

theorem resumeDigest_of_fresh {s : Session} (hw : s.writer.written = 0) (hd : s.writer.digester = [])
    (hp : StatesArePrefixes s) (he : StateAtEnd s) :
    resumeDigest true s = ({ s.writer with digester := s.data, written := s.data.length }, true) := by
  rcases he with hnil | hend
  · exact resumeDigest_of_synced (by simp [hw, hnil]) (by simp [hd, hnil])
  · by_cases hnil : s.data.length = 0
    · exact resumeDigest_of_synced (by simp [hw, hnil]) (by simp [hd, List.length_eq_zero_iff.mp hnil])
    · have hfind := find?_of_prefixes hp hend
      have hsize : s.writer.fileWriter.size s.data = s.data.length := rfl
      dsimp only [resumeDigest]
      rw [hsize]
      simp [hw, hnil, hfind]

theorem resumeDigest_ready {s : Session} (h : Ready s) :
    resumeDigest true s = ({ digester := s.data, written := s.data.length }, true) := by
  have hfresh := h.fresh
  rw [resumeDigest_of_fresh (by simp [hfresh]) (by simp [hfresh]) h.prefixes h.atEnd, hfresh]

def BlobWriter.fed (bw : BlobWriter) (p : Bytes) : BlobWriter :=
  { bw with digester := bw.digester ++ p, fileWriter := { bw.fileWriter with buffer := bw.fileWriter.buffer ++ p } }

theorem feed_of_isOpen {bw : BlobWriter} (h : bw.fileWriter.IsOpen) (p : Bytes) :
    bw.feed p = .ok (bw.fed p) := by
  simp [BlobWriter.feed, Writer.write_of_isOpen h, BlobWriter.fed]

theorem copyChunks_of_isOpen {bw : BlobWriter} (h : bw.fileWriter.IsOpen) (chunks : List Bytes) :
    copyChunks bw chunks = (bw.fed chunks.flatten, chunks.flatten, none) := by
  induction chunks generalizing bw with
  | nil => simp [copyChunks, BlobWriter.fed]
  | cons p ps ih =>
    have hfed : (bw.fed p).fileWriter.IsOpen := h
    simp only [copyChunks, feed_of_isOpen h]
    rw [ih hfed]
    simp [BlobWriter.fed]

theorem readFrom_ready {s : Session} (h : Ready s) (chunks : List Bytes) :
    readFrom true chunks s = (fed s chunks.flatten, chunks.flatten, none) := by
  have hopen : ({ digester := s.data, written := s.data.length } : BlobWriter).fileWriter.IsOpen :=
    ⟨rfl, rfl, rfl⟩
  simp [readFrom, resumeDigest_ready h, copyChunks_of_isOpen hopen, BlobWriter.fed, fed]

theorem applyStep_ready {s : Session} (h : Ready s) (c : Chunk) :
    applyStep true c.step s = (fed s c.bytes, c.bytes) := by
  have hopen : ({ digester := s.data, written := s.data.length } : BlobWriter).fileWriter.IsOpen :=
    ⟨rfl, rfl, rfl⟩
  cases c with
  | write p =>
    simp [applyStep, Chunk.step, Chunk.bytes, write, resumeDigest_ready h, feed_of_isOpen hopen,
      BlobWriter.fed, fed]
  | readFrom chunks =>
    simp [applyStep, Chunk.step, Chunk.bytes, readFrom_ready h]

theorem prefixes_putHashState {s : Session} (hp : StatesArePrefixes s) {n : ℕ}
    (hn : n ≤ s.data.length) : StatesArePrefixes (s.putHashState n (s.data.take n)) := by
  intro e he
  simp only [Session.putHashState, List.mem_cons, List.mem_filter] at he
  rcases he with rfl | ⟨he, -⟩
  · exact ⟨hn, rfl⟩
  · exact hp e he

theorem prefixes_append {s : Session} (hp : StatesArePrefixes s) (p : Bytes) :
    StatesArePrefixes { s with data := s.data ++ p } := by
  intro e he
  obtain ⟨hle, hstate⟩ := hp e he
  refine ⟨by simp; omega, ?_⟩
  simp [hstate, List.take_append_of_le_length hle]

theorem atEnd_putHashState_zero {s : Session} (he : StateAtEnd s) (state : Bytes) :
    StateAtEnd (s.putHashState 0 state) := by
  rcases he with hnil | ⟨st, hmem⟩
  · exact .inl hnil
  · by_cases hlen : s.data.length = 0
    · exact .inl (List.length_eq_zero_iff.mp hlen)
    · exact .inr ⟨st, by simp [Session.putHashState, hmem, hlen]⟩

theorem resume_close_fed {s : Session} (h : Ready s) (p : Bytes) :
    (resume (close true (fed s p)).1).1 =
      { s with data := s.data ++ p }.putHashState (s.data ++ p).length (s.data ++ p) := by
  have hw := h.fresh
  have hr := h.present
  cases s
  simp_all [resume, close, storeHashState, fed, Session.putHashState, Writer.close, Writer.flush]

theorem resume_close_ready {s : Session} (h : Ready s) :
    (resume (close true s).1).1 = s.putHashState 0 [] := by
  have hw := h.fresh
  have hr := h.present
  cases s
  simp_all [resume, close, storeHashState, Session.putHashState, Writer.close, Writer.flush]

/-- Closing a request's session a second time, as the handler's deferred `Close`
does, saves the same hash state again and changes nothing. -/
theorem close_close_fed {s : Session} (h : Ready s) (p : Bytes) :
    (close true (close true (fed s p)).1).1 = (close true (fed s p)).1 := by
  have hw := h.fresh
  obtain ⟨data, hashStates, writer, blobs, layers, removed⟩ := s
  simp_all [close, storeHashState, fed, Session.putHashState, Writer.close, Writer.flush]
  congr 1
  funext x
  by_cases hx : x.1 = data.length + p.length <;> simp [hx]

theorem resume_data (s : Session) : (resume s).1.data = s.data := by
  unfold resume
  split_ifs <;> rfl

theorem close_fed_data {s : Session} (h : Ready s) (p : Bytes) : (close true (fed s p)).1.data = s.data ++ p := by
  rw [← resume_data, resume_close_fed h]
  simp [Session.putHashState]

theorem close_ready_data {s : Session} (h : Ready s) : (close true s).1.data = s.data := by
  rw [← resume_data, resume_close_ready h]
  rfl

theorem ready_resume_close_fed {s : Session} (h : Ready s) (p : Bytes) :
    Ready (resume (close true (fed s p)).1).1 := by
  rw [resume_close_fed h]
  have hp := prefixes_putHashState (prefixes_append h.prefixes p) (le_refl (s.data ++ p).length)
  rw [List.take_length] at hp
  exact ⟨h.fresh, hp, .inr ⟨_, List.mem_cons_self ..⟩, h.noBlobs, h.present⟩

theorem ready_resume_close {s : Session} (h : Ready s) : Ready (resume (close true s).1).1 := by
  rw [resume_close_ready h]
  exact ⟨h.fresh, prefixes_putHashState h.prefixes (Nat.zero_le _), atEnd_putHashState_zero h.atEnd [],
    h.noBlobs, h.present⟩

theorem run_append (xs ys : List Step) (s : Session) :
    run enabled (xs ++ ys) s =
      ((run enabled ys (run enabled xs s).1).1, (run enabled xs s).2 ++ (run enabled ys (run enabled xs s).1).2) := by
  induction xs generalizing s with
  | nil => simp [run]
  | cons st sts ih => simp [run, ih]

theorem run_closedRequest {s : Session} (h : Ready s) (c : Option Chunk) :
    Ready (run true (c.toList.map Chunk.step ++ [.close, .resume]) s).1 ∧
      (run true (c.toList.map Chunk.step ++ [.close, .resume]) s).1.data =
        s.data ++ (run true (c.toList.map Chunk.step ++ [.close, .resume]) s).2 := by
  cases c with
  | none =>
    simp only [Option.toList_none, List.map_nil, List.nil_append, run, applyStep, List.append_nil]
    exact ⟨ready_resume_close h, by rw [resume_close_ready h]; simp [Session.putHashState]⟩
  | some c =>
    simp only [Option.toList_some, List.map_cons, List.map_nil, List.cons_append, List.nil_append, run]
    rw [applyStep_ready h]
    simp only [applyStep, List.append_nil]
    exact ⟨ready_resume_close_fed h c.bytes, by rw [resume_close_fed h]; simp [Session.putHashState]⟩

/-- The closed requests of an upload, from a ready session: the last request
starts from a ready session whose data file holds everything written before it. -/
theorem run_requestSteps {s : Session} (h : Ready s) (closed : List (Option Chunk)) (last : Option Chunk) :
    ∃ s₀ pre, Ready s₀ ∧ s₀.data = s.data ++ pre ∧
      run true (requestSteps closed last) s =
        ((run true (last.toList.map Chunk.step) s₀).1, pre ++ (run true (last.toList.map Chunk.step) s₀).2) := by
  induction closed generalizing s with
  | nil => exact ⟨s, [], h, by simp, by simp [requestSteps]⟩
  | cons c cs ih =>
    obtain ⟨hready, hdata⟩ := run_closedRequest h c
    obtain ⟨s₀, pre, h₀, hd₀, hrun⟩ := ih hready
    refine ⟨s₀, (run true (c.toList.map Chunk.step ++ [.close, .resume]) s).2 ++ pre, h₀, ?_, ?_⟩
    · rw [hd₀, hdata, List.append_assoc]
    · have hsteps : requestSteps (c :: cs) last =
          (c.toList.map Chunk.step ++ [.close, .resume]) ++ requestSteps cs last := by
        simp [requestSteps]
      rw [hsteps, run_append, hrun]
      simp

/-! ## Committing -/

/-- The digest check, once the digester has hashed exactly the data: a verified
result names the data's digest, and the provided digest verifies the data. -/
theorem checkDigest_synced {bw : BlobWriter} {content : Bytes} (hd : bw.digester = content)
    (hw : bw.written = content.length) {d canonical : Digest}
    (hc : checkDigest true bw content.length d content = some (canonical, true)) :
    canonical = fromBytes content ∧ d.verified? content = some true := by
  cases ha : d.algorithm? with
  | none => simp [checkDigest, ha] at hc
  | some a =>
    by_cases hcan : a = Algorithm.canonical
    · simp only [checkDigest, ha, hcan, hd, Option.bind_some, if_true, Option.some.injEq,
        Prod.mk.injEq, beq_iff_eq] at hc
      obtain ⟨rfl, rfl⟩ := hc
      exact ⟨rfl, verified_fromBytes content⟩
    · simp only [checkDigest, ha, hcan, Option.bind_some, if_true, if_false, fullHash, hw,
        Option.map_some, decide_false] at hc
      cases hver : d.verified? content with
      | none => simp [hver] at hc
      | some v => simp_all

theorem checkDigest_fromBytes {bw : BlobWriter} {content : Bytes} (hd : bw.digester = content) :
    checkDigest true bw content.length (fromBytes content) content = some (fromBytes content, true) := by
  simp [checkDigest, hd, Algorithm.canonical]

theorem validateBlob_synced {s : Session} {desc : Descriptor}
    (hr : resumeDigest true s = ({ s.writer with digester := s.data, written := s.data.length }, true))
    (hsize : desc.size = s.data.length) {s' : Session} {c : Descriptor}
    (hv : validateBlob true desc s = (s', .ok c)) :
    c.digest = fromBytes s.data ∧ c.size = s.data.length ∧ desc.digest.verified? s.data = some true ∧
      s'.data = s.data ∧ s'.blobs = s.blobs := by
  have hne : desc.digest ≠ "" := by
    rintro hempty
    simp [validateBlob, hempty] at hv
  have hsz : ¬(0 < desc.size ∧ desc.size ≠ (s.data.length : ℤ)) := by simp [hsize]
  have hdesc : (if 0 < desc.size then desc else { desc with size := (s.data.length : ℤ) }) = desc := by
    split_ifs <;> cases desc <;> simp_all
  simp only [validateBlob, hne, hsz, if_false, hdesc, hr] at hv
  split at hv
  · simp at hv
  · simp at hv
  · rename_i canonical hc
    obtain ⟨hcan, hver⟩ := checkDigest_synced rfl rfl hc
    simp only [Prod.mk.injEq, Except.ok.injEq] at hv
    obtain ⟨rfl, rfl⟩ := hv
    exact ⟨hcan, hsize, hver, rfl, rfl⟩

theorem validateBlob_fromBytes {s : Session} {desc : Descriptor}
    (hr : resumeDigest true s = ({ s.writer with digester := s.data, written := s.data.length }, true))
    (hsize : desc.size = s.data.length) (hd : desc.digest = fromBytes s.data) :
    ∃ s' c, validateBlob true desc s = (s', .ok c) := by
  have hne : desc.digest ≠ "" := hd ▸ fromBytes_ne_empty s.data
  have hsz : ¬(0 < desc.size ∧ desc.size ≠ (s.data.length : ℤ)) := by simp [hsize]
  have hdesc : (if 0 < desc.size then desc else { desc with size := (s.data.length : ℤ) }) = desc := by
    split_ifs <;> cases desc <;> simp_all
  have hc := checkDigest_fromBytes (show ({ s.writer with digester := s.data, written := s.data.length } :
    BlobWriter).digester = s.data from rfl)
  simp only [validateBlob, hne, hsz, if_false, hdesc, hr]
  rw [hd, hc]
  exact ⟨_, _, rfl⟩

/-- A session ready to commit: its file writer is open, and its digester either
is fresh or has hashed exactly the data file and the buffered bytes. -/
structure Committable (s : Session) : Prop where
  writerOpen : s.writer.fileWriter = { buffer := s.writer.fileWriter.buffer }
  notCommitted : s.writer.committed = false
  prefixes : StatesArePrefixes s
  noBlobs : s.blobs = []
  synced : (s.writer.digester = s.data ++ s.writer.fileWriter.buffer ∧
      s.writer.written = (s.data ++ s.writer.fileWriter.buffer).length) ∨ (s.writer = {} ∧ StateAtEnd s)

theorem committable_ready {s : Session} (h : Ready s) : Committable s := by
  have hw := h.fresh
  exact ⟨by rw [hw], by rw [hw], h.prefixes, h.noBlobs, .inr ⟨hw, h.atEnd⟩⟩

theorem committable_fed {s : Session} (h : Ready s) (p : Bytes) : Committable (fed s p) :=
  ⟨rfl, rfl, h.prefixes, h.noBlobs, .inl ⟨rfl, by simp [fed]⟩⟩

/-- The session `Commit` validates: the file writer committed and flushed its
buffer, and `Close` saved the digester's state. -/
def committedSession (s : Session) : Session :=
  { s.putHashState s.writer.written s.writer.digester with
    data := s.data ++ s.writer.fileWriter.buffer
    writer := { s.writer with fileWriter := { committed := true, closed := true } } }

theorem commit_committable_eq {s : Session} (h : Committable s) (desc : Descriptor) :
    commit true desc s =
      match validateBlob true { desc with size := ((s.data ++ s.writer.fileWriter.buffer).length : ℤ) }
          (committedSession s) with
      | (s, .error e) => (s, .error e)
      | (s, .ok canonical) =>
        let s := removeResources (linkBlob canonical desc.digest (moveBlob canonical s))
        ({ s with writer := { s.writer with committed := true } }, .ok canonical) := by
  obtain ⟨data, hs, ⟨dig, wr, ⟨buf, cl, fcm, ca⟩, cm⟩, blobs, layers, rem⟩ := s
  obtain ⟨hopen, hnc, -, -, -⟩ := h
  simp only [Writer.mk.injEq] at hopen hnc
  obtain ⟨-, rfl, rfl, rfl⟩ := hopen
  subst hnc
  simp [commit, Writer.commit, close, storeHashState, Writer.close, Writer.flush, Writer.size,
    committedSession, Session.putHashState]

/-- After the commit's flush and close, the digester has caught up with the data
file: it hashed exactly the data, or it is fresh and the saved state at the data
file's end restores it. -/
theorem resumeDigest_committedSession {s : Session} (h : Committable s) :
    let t := committedSession s
    resumeDigest true t = ({ t.writer with digester := t.data, written := t.data.length }, true) := by
  rcases h.synced with ⟨hd, hw⟩ | ⟨hfresh, he⟩
  · exact resumeDigest_of_synced (by simp [committedSession, hw]) (by simp [committedSession, hd])
  · have hbuf : s.writer.fileWriter.buffer = [] := by rw [hfresh]
    have hp : StatesArePrefixes (committedSession s) := by
      have := prefixes_putHashState h.prefixes (Nat.zero_le s.data.length)
      simpa [StatesArePrefixes, committedSession, hbuf, hfresh, Session.putHashState] using this
    have he' : StateAtEnd (committedSession s) := by
      have := atEnd_putHashState_zero he []
      simpa [StateAtEnd, committedSession, hbuf, hfresh, Session.putHashState] using this
    exact resumeDigest_of_fresh (by simp [committedSession, hfresh]) (by simp [committedSession, hfresh]) hp he'

/-- `Commit` on a committable session: a successful commit stores the data file
and the buffered bytes as the blob of the canonical digest, which is their
digest, with their length, and the provided digest verifies them; and a commit
whose provided digest is the bytes' digest succeeds. -/
theorem commit_committable {s : Session} (h : Committable s) (desc : Descriptor) :
    (∀ s' c, commit true desc s = (s', .ok c) →
      s'.blobData c.digest = some (s.data ++ s.writer.fileWriter.buffer) ∧
        c.digest = fromBytes (s.data ++ s.writer.fileWriter.buffer) ∧
        c.size = (s.data ++ s.writer.fileWriter.buffer).length ∧
        desc.digest.verified? (s.data ++ s.writer.fileWriter.buffer) = some true) ∧
    (desc.digest = fromBytes (s.data ++ s.writer.fileWriter.buffer) → ∃ s' c, commit true desc s = (s', .ok c)) := by
  have hr := resumeDigest_committedSession h
  have hdata : (committedSession s).data = s.data ++ s.writer.fileWriter.buffer := rfl
  have hblobs : (committedSession s).blobs = [] := h.noBlobs
  rw [commit_committable_eq h]
  constructor
  · intro s' c hc
    split at hc
    · simp at hc
    · rename_i s₄ canonical hv
      obtain ⟨hcan, hsize, hver, hd₄, hb₄⟩ := validateBlob_synced hr (by simp [hdata]) hv
      simp only [Prod.mk.injEq, Except.ok.injEq] at hc
      obtain ⟨rfl, rfl⟩ := hc
      refine ⟨?_, hdata ▸ hcan, by rw [hsize, hdata], by simpa [hdata] using hver⟩
      simp [Session.blobData, moveBlob, linkBlob, removeResources, hb₄, hblobs, hd₄, hdata]
  · intro hd
    have hsize : ({ desc with size := ((s.data ++ s.writer.fileWriter.buffer).length : ℤ) } : Descriptor).size =
        (committedSession s).data.length := by simp [hdata]
    obtain ⟨s', c, hv⟩ := validateBlob_fromBytes hr hsize (by simpa [hdata] using hd)
    exact ⟨_, c, by rw [hv]⟩

/-- The last request of an upload leaves a committable session, whose data file
and buffer hold the bytes written before and during it. -/
theorem run_lastRequest {s : Session} (h : Ready s) (last : Option Chunk) :
    Committable (run true (last.toList.map Chunk.step) s).1 ∧
      (run true (last.toList.map Chunk.step) s).1.data ++
          (run true (last.toList.map Chunk.step) s).1.writer.fileWriter.buffer =
        s.data ++ (run true (last.toList.map Chunk.step) s).2 := by
  cases last with
  | none =>
    have hbuf : s.writer.fileWriter.buffer = [] := by rw [h.fresh]
    simp [run, committable_ready h, hbuf]
  | some c =>
    simp only [Option.toList_some, List.map_cons, List.map_nil, run, applyStep_ready h, List.append_nil]
    exact ⟨committable_fed h c.bytes, rfl⟩

/-- Uploads driven one request at a time are content-addressed correctly: after
any closed requests and a last one, a successful `Commit` stores exactly the
bytes written, in order, under their digest and with their length, and the
provided digest verifies them; and a `Commit` whose digest is that of the bytes
written succeeds. -/
theorem commit_requestSteps (closed : List (Option Chunk)) (last : Option Chunk) (desc : Descriptor) :
    let r := run true (requestSteps closed last) create
    (∀ s' c, commit true desc r.1 = (s', .ok c) →
      s'.blobData c.digest = some r.2 ∧ c.digest = fromBytes r.2 ∧ c.size = r.2.length ∧
        desc.digest.verified? r.2 = some true) ∧
    (desc.digest = fromBytes r.2 → ∃ s' c, commit true desc r.1 = (s', .ok c)) := by
  obtain ⟨s₀, pre, h₀, hd₀, hrun⟩ := run_requestSteps ready_create closed last
  obtain ⟨hcommit, hbytes⟩ := run_lastRequest h₀ last
  have hall : (run true (last.toList.map Chunk.step) s₀).1.data ++
      (run true (last.toList.map Chunk.step) s₀).1.writer.fileWriter.buffer =
        pre ++ (run true (last.toList.map Chunk.step) s₀).2 := by
    rw [hbytes, hd₀]
    rfl
  intro r
  have hr : r = ((run true (last.toList.map Chunk.step) s₀).1, pre ++ (run true (last.toList.map Chunk.step) s₀).2) :=
    hrun
  rw [hr, ← hall]
  exact commit_committable hcommit desc

set_option maxRecDepth 20000 in
/-- Two writes in one session: the second finds the writer's flushed size behind
`written`, resets the digester and keeps `written`. The commit then refuses the
digest of the bytes written, and accepts the digest of the second write alone,
filing both writes' bytes under it with size 2. -/
theorem commit_two_writes :
    (run true [.write [0x61], .write [0x62]] create).2 = [0x61, 0x62] ∧
      (commit true { digest := fromBytes [0x61, 0x62] } (run true [.write [0x61], .write [0x62]] create).1).2 =
        .error .invalidDigest ∧
      (commit true { digest := fromBytes [0x62] } (run true [.write [0x61], .write [0x62]] create).1).2 =
        .ok { mediaType := "application/octet-stream", digest := fromBytes [0x62], size := 2 } ∧
      (commit true { digest := fromBytes [0x62] } (run true [.write [0x61], .write [0x62]] create).1).1.blobData
        (fromBytes [0x62]) = some [0x61, 0x62] := by
  decide

end DockerRegistry.Storage
