import DockerRegistry.Storage.BlobWriter
import DockerRegistry.Lib.GoDecimal
import DockerRegistry.Lib.GoPath

/-!
# The blob upload handler's PATCH

`ResumeBlobUpload` and `PatchBlobData` of `registry/handlers/blobupload.go`,
with `blobUploadResponse` and the helpers `parseContentRange` and
`copyFullPayload` of `helpers.go`, over one upload of the in-memory driver with
resumable digests (the default). A PATCH resumes the upload that its `_state`
token names, checks the Content-Range and Content-Length headers when it has
both, copies the body into the upload, closes it, and answers with a new token
and the range `0-<size-1>` of everything the upload holds, not of the bytes the
request added.

The URL's repository and upload id must be those the token names; a request
the dispatcher lets through has its upload closed again after the handler.
-/

namespace DockerRegistry.Handlers

open Storage GoDecimal GoPath

/-- `blobUploadState` without `StartedAt`, which no handler compares. -/
structure BlobUploadState where
  name : String
  uuid : String
  offset : ℕ
  deriving DecidableEq, Repr

/-- `blobUploadHandler` of a request: the repository of its URL and `UUID`. -/
structure BlobUploadHandler where
  name : String
  uuid : String
  deriving DecidableEq, Repr

/-- A PATCH of an upload: its `_state` token as `unpackUploadState` reads it
(`none` for a token it refuses), the headers the handler reads, and the chunks
its body yields. -/
structure Request where
  state : Option BlobUploadState
  contentRange : String
  contentLength : String
  contentType : String
  body : List Bytes
  deriving DecidableEq, Repr

/-- The headers of a 202 answer that a client reads: the token of Location and Range. -/
structure Response where
  location : BlobUploadState
  range : String
  deriving DecidableEq, Repr

/-- The error codes a PATCH answers with. -/
inductive ErrorCode
  | blobUploadInvalid
  | blobUploadUnknown
  | rangeInvalid
  | sizeInvalid
  /-- `ErrorCodeUnknown` with a text as detail -/
  | unknown (detail : String)
  /-- `ErrorCodeUnknown` with an error of the upload as detail -/
  | unknownUpload (e : BlobError)
  deriving DecidableEq, Repr

/-- The text of the error `strconv.ParseInt` returns for a string it does not read. -/
def parseIntError (s : String) : String := "strconv.ParseInt: parsing " ++ quote s ++ ": invalid syntax"

def parseContentRange (cr : String) : Except String (ℤ × ℤ) :=
  match cut cr '-' with
  | none => .error ("invalid content range format, " ++ cr)
  | some (rStart, rEnd) =>
    match parseInt rStart with
    | none => .error (parseIntError rStart)
    | some start =>
      match parseInt rEnd with
      | none => .error (parseIntError rEnd)
      | some stop => .ok (start, stop)

/-- The header check of `PatchBlobData` against the upload's size, made when the
request has both a Content-Range and a Content-Length. -/
def checkContentRange (cr cl : String) (size : ℕ) : Except ErrorCode Unit :=
  if cr ≠ "" ∧ cl ≠ "" then
    match parseContentRange cr with
    | .error msg => .error (.unknown msg)
    | .ok (start, stop) =>
      if start > stop ∨ start ≠ size then .error .rangeInvalid
      else
        match parseInt cl with
        | none => .error (.unknown (parseIntError cl))
        | some clInt => if clInt ≠ stop - start + 1 then .error .sizeInvalid else .ok ()
  else .ok ()

/-- `ResumeBlobUpload`: the token must unpack and name the URL's repository and
upload; then resume the upload, which must hold as many bytes as the token says. -/
def resumeBlobUpload (buh : BlobUploadHandler) (token : Option BlobUploadState) (s : Session) :
    Session × Except ErrorCode Unit :=
  match token with
  | none => (s, .error .blobUploadInvalid)
  | some state =>
    if state.name ≠ buh.name then (s, .error .blobUploadInvalid)
    else if state.uuid ≠ buh.uuid then (s, .error .blobUploadInvalid)
    else
      match resume s with
      | (s, .error .uploadUnknown) => (s, .error .blobUploadUnknown)
      | (s, .error e) => (s, .error (.unknownUpload e))
      | (s, .ok ()) =>
        if s.writer.fileWriter.size s.data ≠ state.offset then (s, .error .rangeInvalid) else (s, .ok ())

/-- `blobUploadResponse` for the repository `name` and the upload `Upload.ID()`:
close the upload, dropping the error of `Close`, and report its size in the new
token and as the range `0-<size-1>`. -/
def blobUploadResponse (name uploadID : String) (s : Session) : Session × Response :=
  let s := (close true s).1
  let size : ℤ := s.writer.fileWriter.size s.data
  let endRange := if size > 0 then size - 1 else size
  (s, { location := ⟨name, uploadID, s.writer.fileWriter.size s.data⟩, range := "0-" ++ formatInt endRange })

def patchBlobData (buh : BlobUploadHandler) (req : Request) (s : Session) : Session × Except ErrorCode Response :=
  if req.contentType ≠ "" ∧ req.contentType ≠ "application/octet-stream" then
    (s, .error (.unknown "bad Content-Type"))
  else
    match checkContentRange req.contentRange req.contentLength (s.writer.fileWriter.size s.data) with
    | .error e => (s, .error e)
    | .ok () =>
      -- `copyFullPayload`: `io.Copy` into the upload goes through its `ReadFrom`
      match readFrom true req.body s with
      | (s, _, some e) => (s, .error (.unknownUpload e))
      | (s, _, none) =>
        let r := blobUploadResponse buh.name buh.uuid s
        (r.1, .ok r.2)

/-- A PATCH as `blobUploadDispatcher` serves it: the handler `ResumeBlobUpload`
returns on a refusal; otherwise `PatchBlobData` under `closeResources`, whose
deferred `Close` has its error dropped. -/
def patch (buh : BlobUploadHandler) (req : Request) (s : Session) : Session × Except ErrorCode Response :=
  match resumeBlobUpload buh req.state s with
  | (s, .error e) => (s, .error e)
  | (s, .ok ()) =>
    let r := patchBlobData buh req s
    ((close true r.1).1, r.2)

/-- `StartBlobUpload` of a POST that neither mounts nor completes: create the
upload `uploadID` and answer with its location. -/
def startBlobUpload (name uploadID : String) : Session × Response := blobUploadResponse name uploadID create

/-- The range a PATCH answers with for an upload of `size` bytes. -/
def uploadRange (size : ℕ) : String := "0-" ++ formatInt (if (size : ℤ) > 0 then (size : ℤ) - 1 else size)

/-- An upload between two requests: the next resume finds it ready, and the
token the client holds names its repository, its id and its size. -/
structure Between (buh : BlobUploadHandler) (s : Session) (state : BlobUploadState) : Prop where
  ready : Ready (resume s).1
  name : state.name = buh.name
  uuid : state.uuid = buh.uuid
  offset : state.offset = s.data.length

theorem between_startBlobUpload (name uploadID : String) :
    Between ⟨name, uploadID⟩ (startBlobUpload name uploadID).1 (startBlobUpload name uploadID).2.location :=
  ⟨ready_resume_close ready_create, rfl, rfl, rfl⟩

@[simp] theorem startBlobUpload_data (name uploadID : String) : (startBlobUpload name uploadID).1.data = [] := rfl

/-! ## One request -/

section Request

variable {buh : BlobUploadHandler} {s : Session} {req : Request}

theorem resume_of_ready (h : Ready (resume s).1) : resume s = ({ s with writer := {} }, .ok ()) := by
  unfold resume at h ⊢
  split_ifs with hremoved
  · simp only [hremoved] at h
    exact absurd h.present (by simp [hremoved])
  · rfl

theorem close_resume_data (h : Ready (resume s).1) : (close true (resume s).1).1.data = s.data := by
  rw [close_ready_data h, resume_data]

theorem resumeBlobUpload_of_names {state : BlobUploadState} (h : Ready (resume s).1)
    (hn : state.name = buh.name) (hu : state.uuid = buh.uuid) :
    resumeBlobUpload buh (some state) s =
      ((resume s).1, if state.offset = s.data.length then .ok () else .error .rangeInvalid) := by
  have hsize : ({ s with writer := {} } : Session).writer.fileWriter.size s.data = s.data.length := rfl
  by_cases hoff : state.offset = s.data.length
  · simp [resumeBlobUpload, hn, hu, resume_of_ready h, hsize, hoff]
  · simp [resumeBlobUpload, hn, hu, resume_of_ready h, hsize, hoff, Ne.symm hoff]

theorem not_badContentType (hct : req.contentType = "" ∨ req.contentType = "application/octet-stream") :
    ¬(req.contentType ≠ "" ∧ req.contentType ≠ "application/octet-stream") :=
  fun h => hct.elim h.1 h.2

theorem patchBlobData_rejected (hct : req.contentType = "" ∨ req.contentType = "application/octet-stream")
    {e : ErrorCode} (hcheck : checkContentRange req.contentRange req.contentLength s.data.length = .error e) :
    patchBlobData buh req s = (s, .error e) := by
  have hsize : s.writer.fileWriter.size s.data = s.data.length := rfl
  rw [patchBlobData, if_neg (not_badContentType hct), hsize, hcheck]

/-- The answer to a request that passed its checks on a ready upload: the body
is appended, and the range covers the whole upload. -/
theorem patchBlobData_ready (h : Ready s) (hct : req.contentType = "" ∨ req.contentType = "application/octet-stream")
    (hcheck : checkContentRange req.contentRange req.contentLength s.data.length = .ok ()) :
    patchBlobData buh req s =
      ((close true (fed s req.body.flatten)).1,
        .ok ⟨⟨buh.name, buh.uuid, s.data.length + req.body.flatten.length⟩,
          uploadRange (s.data.length + req.body.flatten.length)⟩) := by
  have hsize : s.writer.fileWriter.size s.data = s.data.length := rfl
  have hdata := close_fed_data h req.body.flatten
  rw [patchBlobData, if_neg (not_badContentType hct), hsize, hcheck]
  simp only [readFrom_ready h, blobUploadResponse, Driver.Inmemory.Writer.size, hdata, uploadRange,
    List.length_append]

theorem patch_of_names {state : BlobUploadState} (h : Ready (resume s).1) (htoken : req.state = some state)
    (hn : state.name = buh.name) (hu : state.uuid = buh.uuid) (hoff : state.offset = s.data.length) :
    patch buh req s = ((close true (patchBlobData buh req (resume s).1).1).1, (patchBlobData buh req (resume s).1).2) := by
  rw [patch, htoken, resumeBlobUpload_of_names h hn hu, if_pos hoff]

end Request

/-! ## One request on an upload between requests -/

section Between

variable {buh : BlobUploadHandler} {s : Session} {req : Request} {state : BlobUploadState}

theorem patch_between (h : Between buh s state) (htoken : req.state = some state)
    (hct : req.contentType = "" ∨ req.contentType = "application/octet-stream")
    (hcheck : checkContentRange req.contentRange req.contentLength s.data.length = .ok ()) :
    patch buh req s =
      ((close true (fed (resume s).1 req.body.flatten)).1,
        .ok ⟨⟨buh.name, buh.uuid, s.data.length + req.body.flatten.length⟩,
          uploadRange (s.data.length + req.body.flatten.length)⟩) := by
  have hcheck' : checkContentRange req.contentRange req.contentLength (resume s).1.data.length = .ok () := by
    rwa [resume_data]
  rw [patch_of_names h.ready htoken h.name h.uuid h.offset, patchBlobData_ready h.ready hct hcheck', resume_data,
    close_close_fed h.ready]

/-- A PATCH with the upload's token whose headers fail the check leaves the data
as it was; the deferred `Close` saves the resumed writer's empty hash state. -/
theorem patch_rejected (h : Between buh s state) (htoken : req.state = some state)
    (hct : req.contentType = "" ∨ req.contentType = "application/octet-stream") {e : ErrorCode}
    (hcheck : checkContentRange req.contentRange req.contentLength s.data.length = .error e) :
    patch buh req s = ((close true (resume s).1).1, .error e) := by
  have hcheck' : checkContentRange req.contentRange req.contentLength (resume s).1.data.length = .error e := by
    rwa [resume_data]
  rw [patch_of_names h.ready htoken h.name h.uuid h.offset, patchBlobData_rejected hct hcheck']

theorem between_close_fed (h : Between buh s state) (p : Bytes) :
    Between buh (close true (fed (resume s).1 p)).1 ⟨buh.name, buh.uuid, s.data.length + p.length⟩ := by
  refine ⟨ready_resume_close_fed h.ready _, rfl, rfl, ?_⟩
  rw [close_fed_data h.ready, resume_data, List.length_append]

theorem between_close_resume (h : Between buh s state) : Between buh (close true (resume s).1).1 state :=
  ⟨ready_resume_close h.ready, h.name, h.uuid, by rw [close_resume_data h.ready]; exact h.offset⟩

theorem close_fed_resume_data (h : Between buh s state) (p : Bytes) :
    (close true (fed (resume s).1 p)).1.data = s.data ++ p := by
  rw [close_fed_data h.ready, resume_data]

end Between

/-! ## Runs of requests -/

theorem minus_not_mem_formatInt {n : ℤ} (hn : 0 ≤ n) : '-' ∉ (formatInt n).toList := by
  rw [formatInt, if_neg (not_lt.mpr hn)]
  exact not_mem_formatNat rfl _

theorem formatInt_ne_empty (n : ℤ) : formatInt n ≠ "" := by
  intro h
  have hparse := parseInt_formatInt n
  have hempty : parseInt "" = none := by decide
  rw [h, hempty] at hparse
  cases hparse

theorem parseContentRange_format {start : ℤ} (hstart : 0 ≤ start) (stop : ℤ) :
    parseContentRange (formatInt start ++ "-" ++ formatInt stop) = .ok (start, stop) := by
  have hsep : formatInt start ++ "-" ++ formatInt stop = formatInt start ++ String.singleton '-' ++ formatInt stop :=
    rfl
  rw [hsep, parseContentRange, cut_append (minus_not_mem_formatInt hstart)]
  simp [parseInt_formatInt]

theorem checkContentRange_chunk (offset : ℕ) {n : ℕ} (hn : 0 < n) (size : ℕ) :
    checkContentRange (formatInt offset ++ "-" ++ formatInt (offset + ((n : ℤ) - 1))) (formatInt n) size =
      if offset = size then .ok () else .error .rangeInvalid := by
  have hne : formatInt offset ++ "-" ++ formatInt (offset + ((n : ℤ) - 1)) ≠ "" := by
    intro h
    have hlen := congrArg (fun s => s.toList.length) h
    simp at hlen
  rw [checkContentRange, if_pos ⟨hne, formatInt_ne_empty _⟩, parseContentRange_format (Int.natCast_nonneg offset)]
  simp only [parseInt_formatInt]
  by_cases hoff : offset = size
  · simp [hoff]
    omega
  · simp [hoff]

/-- `Sscanf(rng, "%d-%d")` reads the range of an upload of `size` bytes as
`(0, size - 1)`, and as `(0, 0)` for an empty upload. -/
theorem scanRange_uploadRange (size : ℕ) : scanRange (uploadRange size) = some (0, ((size - 1 : ℕ) : ℤ)) := by
  have hend : (if (size : ℤ) > 0 then (size : ℤ) - 1 else size) = ((size - 1 : ℕ) : ℤ) := by
    split_ifs with hpos <;> omega
  rw [uploadRange, hend, formatInt_natCast, scanRange_zero]

end DockerRegistry.Handlers
