import DockerRegistry.Handlers.BlobUpload

/-!
# The client's chunked upload

`httpBlobUpload` of `internal/client/blob_writer.go` against the PATCH handler.
`Write(p)` sends `p` with the Content-Range `<offset>-<offset+len(p)-1>` and a
Content-Length; `ReadFrom(r)` streams its reader with neither. Both take the
Location of the answer for the next request, read its Range with
`Sscanf("%d-%d")`, add `end-start+1` to the offset that `Size()` returns, and
return the same count.

The handler answers with the range of the whole upload, `0-<size-1>`, so from
the second request on the count returned is the total size and not the bytes
sent: the offset runs ahead of the server's size, and the next `Write` is
refused with `RANGE_INVALID`.
-/

namespace DockerRegistry.Client

open Storage Handlers GoDecimal

/-- `httpBlobUpload`: the last Location, as the token it carries, and the offset. -/
structure HttpBlobUpload where
  location : BlobUploadState
  offset : ℤ
  deriving DecidableEq, Repr

/-- The handler that a request to the Location reaches: the server builds the
URL's repository and upload id and the token's from the same two values. -/
def HttpBlobUpload.handler (hbu : HttpBlobUpload) : BlobUploadHandler := ⟨hbu.location.name, hbu.location.uuid⟩

/-- The errors the upload's calls return. -/
inductive ClientError
  /-- `distribution.ErrBlobUploadUnknown`, for a 404 -/
  | blobUploadUnknown
  /-- `HandleHTTPResponseError` of an error answer -/
  | response (code : ErrorCode)
  /-- the error of `fmt.Sscanf` -/
  | scan
  /-- an error made with `fmt.Errorf` -/
  | other (msg : String)
  deriving DecidableEq, Repr

/-- `handleErrorResponse`: only `BLOB_UPLOAD_UNKNOWN` answers 404. -/
def handleErrorResponse : ErrorCode → ClientError
  | .blobUploadUnknown => .blobUploadUnknown
  | code => .response code

namespace HttpBlobUpload

/-- The part of `Write` and `ReadFrom` after the request: take the Location,
read the Range, and advance the offset by its length. -/
def accept (hbu : HttpBlobUpload) : Except ErrorCode Response → HttpBlobUpload × Except ClientError ℤ
  | .error code => (hbu, .error (handleErrorResponse code))
  | .ok resp =>
    let hbu := { hbu with location := resp.location }
    match scanRange resp.range with
    | none => (hbu, .error .scan)
    | some (start, stop) =>
      if stop < start then (hbu, .error (.other ("bad range format: " ++ resp.range)))
      else ({ hbu with offset := hbu.offset + (stop - start + 1) }, .ok (stop - start + 1))

def writeRequest (hbu : HttpBlobUpload) (p : Bytes) : Request :=
  { state := some hbu.location
    contentRange := formatInt hbu.offset ++ "-" ++ formatInt (hbu.offset + ((p.length : ℤ) - 1))
    contentLength := formatInt p.length
    contentType := "application/octet-stream"
    body := [p] }

/-- `Write(p)`: the client after it, the upload after the PATCH, and the count or error. -/
def write (hbu : HttpBlobUpload) (s : Session) (p : Bytes) : HttpBlobUpload × Session × Except ClientError ℤ :=
  let r := patch hbu.handler (hbu.writeRequest p) s
  let a := hbu.accept r.2
  (a.1, r.1, a.2)

/-- The PATCH that `ReadFrom(r)` sends for a reader that yields `chunks`: a
streamed body has no Content-Length, and no Content-Range is set. -/
def readFromRequest (hbu : HttpBlobUpload) (chunks : List Bytes) : Request :=
  { state := some hbu.location
    contentRange := ""
    contentLength := ""
    contentType := "application/octet-stream"
    body := chunks }

def readFrom (hbu : HttpBlobUpload) (s : Session) (chunks : List Bytes) :
    HttpBlobUpload × Session × Except ClientError ℤ :=
  let r := patch hbu.handler (hbu.readFromRequest chunks) s
  let a := hbu.accept r.2
  (a.1, r.1, a.2)

end HttpBlobUpload

/-- The calls a caller makes on an upload. -/
inductive Call
  | write (p : Bytes)
  | readFrom (chunks : List Bytes)
  deriving DecidableEq, Repr

namespace HttpBlobUpload

def call (hbu : HttpBlobUpload) (s : Session) : Call → HttpBlobUpload × Session × Except ClientError ℤ
  | .write p => hbu.write s p
  | .readFrom chunks => hbu.readFrom s chunks

/-- Calls one after another, each on the client and upload the last one left,
with what each returned. -/
def calls : HttpBlobUpload → Session → List Call → HttpBlobUpload × Session × List (Except ClientError ℤ)
  | hbu, s, [] => (hbu, s, [])
  | hbu, s, c :: cs =>
    let r := hbu.call s c
    let rs := r.1.calls r.2.1 cs
    (rs.1, rs.2.1, r.2.2 :: rs.2.2)

/-- The client that `Create` returns for the answer to its POST, at offset 0. -/
def created (resp : Response) : HttpBlobUpload := ⟨resp.location, 0⟩

/-! ## One call -/

/-- An accepted PATCH on an upload of `size` bytes moves the client to the new
token and returns the length of the whole upload, at least 1. -/
theorem accept_uploadRange (hbu : HttpBlobUpload) (name uuid : String) (size : ℕ) :
    hbu.accept (.ok ⟨⟨name, uuid, size⟩, uploadRange size⟩) =
      (⟨⟨name, uuid, size⟩, hbu.offset + ((size - 1 : ℕ) + 1)⟩, .ok ((size - 1 : ℕ) + 1)) := by
  simp only [accept, scanRange_uploadRange]
  rw [if_neg (by omega)]
  simp

variable {hbu : HttpBlobUpload} {s : Session}

theorem write_between (h : Between hbu.handler s hbu.location) (hsync : hbu.offset = s.data.length) {p : Bytes}
    (hp : p ≠ []) :
    hbu.write s p =
      (⟨⟨hbu.location.name, hbu.location.uuid, s.data.length + p.length⟩,
          hbu.offset + ((s.data.length + p.length : ℕ) : ℤ)⟩,
        (close true (fed (resume s).1 p)).1, .ok ((s.data.length + p.length : ℕ) : ℤ)) := by
  have hlen : 0 < p.length := List.length_pos_of_ne_nil hp
  have hcheck := checkContentRange_chunk s.data.length hlen s.data.length
  rw [if_pos rfl, ← hsync] at hcheck
  have hpatch : patch hbu.handler (hbu.writeRequest p) s = _ := patch_between h rfl (.inr rfl) hcheck
  have hbody : (hbu.writeRequest p).body.flatten = p := by simp [writeRequest]
  have hsize : ((s.data.length + p.length - 1 : ℕ) : ℤ) + 1 = ((s.data.length + p.length : ℕ) : ℤ) := by omega
  simp only [write, hpatch, hbody, accept_uploadRange, hsize]
  rfl

/-- A `Write` of a non-empty chunk at another offset is refused with
`RANGE_INVALID`; the client is unchanged and the upload keeps its data. -/
theorem write_out_of_sync (h : Between hbu.handler s hbu.location) (hoff : 0 ≤ hbu.offset)
    (hne : hbu.offset ≠ s.data.length) {p : Bytes} (hp : p ≠ []) :
    hbu.write s p = (hbu, (close true (resume s).1).1, .error (.response .rangeInvalid)) := by
  obtain ⟨k, hk⟩ := Int.eq_ofNat_of_zero_le hoff
  have hlen : 0 < p.length := List.length_pos_of_ne_nil hp
  have hk' : k ≠ s.data.length := fun e => hne (by rw [hk, e])
  have hcheck := checkContentRange_chunk k hlen s.data.length
  rw [if_neg hk', ← hk] at hcheck
  have hpatch : patch hbu.handler (hbu.writeRequest p) s = _ := patch_rejected h rfl (.inr rfl) hcheck
  simp only [write, hpatch, accept, handleErrorResponse]

/-! ## Runs of calls -/

theorem calls_out_of_sync (h : Between hbu.handler s hbu.location) (hoff : 0 ≤ hbu.offset)
    (hne : hbu.offset ≠ s.data.length) {ps : List Bytes} (hps : ∀ p ∈ ps, p ≠ []) :
    (hbu.calls s (ps.map .write)).1 = hbu ∧ (hbu.calls s (ps.map .write)).2.1.data = s.data ∧
      (hbu.calls s (ps.map .write)).2.2 = ps.map fun _ => .error (.response .rangeInvalid) := by
  induction ps generalizing s with
  | nil => exact ⟨rfl, rfl, rfl⟩
  | cons p ps ih =>
    have hwrite := write_out_of_sync h hoff hne (hps p (List.mem_cons_self ..))
    have hb := between_close_resume h
    have hdata := close_resume_data h.ready
    have hne' : hbu.offset ≠ (close true (resume s).1).1.data.length := by rwa [hdata]
    obtain ⟨h₁, h₂, h₃⟩ := ih hb hne' (fun q hq => hps q (List.mem_cons_of_mem _ hq))
    simp only [List.map_cons, calls, call, hwrite]
    exact ⟨h₁, by rw [h₂, hdata], by rw [h₃]⟩

/-- Non-empty chunks written one `Write` after another to a new upload: the
first call returns its length, the second the length of both, and the client's
offset is then twice the first length plus the second, past the upload's size,
so every later `Write` is refused with `RANGE_INVALID` and the upload keeps
the first two chunks only. -/
theorem writes_offset_runs_ahead (name uploadID : String) {p₁ p₂ : Bytes} (h₁ : p₁ ≠ []) (h₂ : p₂ ≠ [])
    {rest : List Bytes} (hrest : ∀ p ∈ rest, p ≠ []) :
    let r := (created (startBlobUpload name uploadID).2).calls (startBlobUpload name uploadID).1
      ((p₁ :: p₂ :: rest).map .write)
    r.2.2 = .ok (p₁.length : ℤ) :: .ok ((p₁.length + p₂.length : ℕ) : ℤ) ::
        rest.map (fun _ => .error (.response .rangeInvalid)) ∧
      r.1.offset = 2 * p₁.length + p₂.length ∧ r.2.1.data = p₁ ++ p₂ := by
  intro r
  have h₀ := between_startBlobUpload name uploadID
  have hw₁ := @write_between (created (startBlobUpload name uploadID).2) _ h₀ (by simp [created]) _ h₁
  set s₁ := (close true (fed (resume (startBlobUpload name uploadID).1).1 p₁)).1 with hs₁
  have hb₁ : Between ⟨name, uploadID⟩ s₁ ⟨name, uploadID, p₁.length⟩ := by
    simpa using between_close_fed h₀ p₁
  have hd₁ : s₁.data = p₁ := by simpa using close_fed_resume_data h₀ p₁
  have hloc : (created (startBlobUpload name uploadID).2).location = ⟨name, uploadID, 0⟩ := rfl
  simp only [startBlobUpload_data, List.length_nil, zero_add, hloc] at hw₁
  have hw₂ := @write_between ⟨⟨name, uploadID, p₁.length⟩, (created (startBlobUpload name uploadID).2).offset +
    (p₁.length : ℤ)⟩ _ hb₁ (by simp [created, hd₁]) _ h₂
  set s₂ := (close true (fed (resume s₁).1 p₂)).1 with hs₂
  have hb₂ : Between ⟨name, uploadID⟩ s₂ ⟨name, uploadID, p₁.length + p₂.length⟩ := by
    simpa [hd₁] using between_close_fed hb₁ p₂
  have hd₂ : s₂.data = p₁ ++ p₂ := by rw [close_fed_resume_data hb₁, hd₁]
  rw [hd₁] at hw₂
  have hlen₁ : 0 < p₁.length := List.length_pos_of_ne_nil h₁
  have hoff : (created (startBlobUpload name uploadID).2).offset + (p₁.length : ℤ) +
      ((p₁.length + p₂.length : ℕ) : ℤ) = 2 * p₁.length + p₂.length := by
    simp only [created]
    push_cast
    ring
  obtain ⟨hc, hd, hres⟩ := @calls_out_of_sync ⟨⟨name, uploadID, p₁.length + p₂.length⟩, 2 * p₁.length + p₂.length⟩
    _ hb₂ (by positivity) (by rw [hd₂, List.length_append]; push_cast; omega) _ hrest
  simp only [r, List.map_cons, calls, call, hw₁, hw₂, hoff, hc, hd, hres, hd₂]
  exact ⟨trivial, trivial, trivial⟩

theorem writes_offset_runs_ahead_abc :
    let r := (created (startBlobUpload "library/ubuntu" "u1").2).calls (startBlobUpload "library/ubuntu" "u1").1
      ([[0x61], [0x62], [0x63]].map .write)
    r.2.2 = [.ok 1, .ok 2, .error (.response .rangeInvalid)] ∧ r.1.offset = 3 ∧ r.2.1.data = [0x61, 0x62] :=
  writes_offset_runs_ahead "library/ubuntu" "u1" (by decide) (by decide) (by decide)

end HttpBlobUpload

end DockerRegistry.Client
