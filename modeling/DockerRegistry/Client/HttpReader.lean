import DockerRegistry.Configuration.Parser
import DockerRegistry.Lib.GoIo

/-!
# The client's HTTP blob reader

`HTTPReadSeeker` of `internal/client/transport/http_reader.go`: an
`io.ReadSeeker` over a blob fetched with GET. A read opens the connection at
the offset the reader was sought to, with a `Range: bytes=k-` request when that
offset is positive; a seek only moves the offset the next read starts from, but
makes a request when no connection is open, to learn the size. The size comes
from the `Content-Length` of a 200 answer or the total of the `Content-Range` of
a 206 answer, and the body is decoded by the codings of `Content-Encoding`.

The offsets count decoded bytes, but the size is the length of the coded
representation, and a range request asks for coded bytes: under a content
coding, `Seek(0, io.SeekEnd)` answers the coded length (`seek_end_contentLength`).

The server, the client's `Do` and the decoders of `zstd`, `gzip` and `flate` are
parameters: `Endpoint`.
-/

namespace DockerRegistry.Client.Transport

open GoIo GoDecimal GoPath DockerRegistry.Configuration

/-- A response to the reader's GET: the status code and line, the
`Content-Length` (`-1` when unknown), the `Content-Range` and `Content-Encoding`
headers (`""` when absent), and the body. -/
structure Response (β : Type) where
  statusCode : ℕ
  status : String
  contentLength : ℤ
  contentRange : String
  contentEncoding : String
  body : β

/-- The decoders of the codings the reader accepts: `zstd.NewReader` and
`gzip.NewReader` read from the body and may fail; `flate.NewReader` does not. -/
structure Codecs (β : Type) where
  zstd : β → Except Error β
  gzip : β → Except Error β
  flate : β → β

/-- What the reader talks to: the client's `Do` of the GET, with the header
`Range: bytes=k-` when `some k`, the decoders, and the `errorHandler`, if any,
which may return a nil error. -/
structure Endpoint (β : Type) where
  get : Option ℕ → Except Error (Response β)
  codecs : Codecs β
  errorHandler : Option (Response β → Option Error)

variable {β : Type}

/-- `HTTPReadSeeker`: the size, the open body, the offset of the last read and
the offset a seek asks for, and the terminal error. The size is set with every
request; one whose body cannot be decoded leaves no body open, so the next call
makes a request again before the size is read. -/
structure HTTPReadSeeker (β : Type) where
  size : ℤ
  rc : Option β
  readerOffset : ℤ
  seekOffset : ℤ
  err : Option Error

def newHTTPReadSeeker : HTTPReadSeeker β := ⟨0, none, 0, 0, none⟩

/-! ### The answer of the server -/

/-- `contentRangeRegexp` matched at the start of `s`:
`bytes ([0-9]+)-([0-9]+)/([0-9]+|\\*)`. In the raw string the last group is
digits, or else a run of backslashes, which may be empty. -/
def matchContentRange (s : List Char) : Option (List Char × List Char × List Char) :=
  match s with
  | 'b' :: 'y' :: 't' :: 'e' :: 's' :: ' ' :: rest =>
    let startByte := rest.takeWhile Char.isDigit
    match rest.dropWhile Char.isDigit with
    | '-' :: rest =>
      let endByte := rest.takeWhile Char.isDigit
      match rest.dropWhile Char.isDigit with
      | '/' :: rest =>
        if startByte = [] ∨ endByte = [] then none
        else
          let total := rest.takeWhile Char.isDigit
          some (startByte, endByte, if total ≠ [] then total else rest.takeWhile (· = '\\'))
      | _ => none
    | _ => none
  | _ => none

/-- `contentRangeRegexp.FindStringSubmatch`: the leftmost match. -/
def findContentRange : List Char → Option (List Char × List Char × List Char)
  | [] => none
  | c :: cs =>
    match matchContentRange (c :: cs) with
    | some m => some m
    | none => findContentRange cs

def parseUint (cs : List Char) : Option ℕ := (parseNatChars cs).filter fun n => decide (n < 2 ^ 64)

theorem parseUint_formatNat {n : ℕ} (hn : n < 2 ^ 64) : parseUint (formatNat n).toList = some n := by
  rw [parseUint, parseNatChars_formatNat, Option.filter_some, if_pos (decide_eq_true hn)]

def errWrongCodeForByteRange : Error := .msg "expected HTTP 206 from byte range request"

/-- The checks of the `Content-Range` of a 206 answer to a range request from
`offset`, and the size it gives. -/
def rangeSize (contentRange : String) (offset : ℤ) : Except Error ℤ :=
  if contentRange = "" then .error (.msg "no Content-Range header found in HTTP 206 response")
  else
    match findContentRange contentRange.toList with
    | none => .error (.msg ("could not parse Content-Range header: " ++ contentRange))
    | some (s, e, t) =>
      match parseUint s with
      | none => .error (.msg ("could not parse start of range in Content-Range header: " ++ contentRange))
      | some startByte =>
        if (startByte : ℤ) ≠ offset then
          .error (.msg ("received Content-Range starting at offset " ++ formatNat startByte ++
            " instead of requested " ++ formatInt offset))
        else
          match parseUint e with
          | none => .error (.msg ("could not parse end of range in Content-Range header: " ++ contentRange))
          | some endByte =>
            if t = ['*'] then .ok (-1)
            else
              match parseUint t with
              | none => .error (.msg ("could not parse total size in Content-Range header: " ++ contentRange))
              | some size =>
                -- `endByte+1` is a `uint64` sum
                if (endByte + 1) % 2 ^ 64 ≠ size then
                  .error (.msg ("range in Content-Range stops before the end of the content: " ++ contentRange))
                else if 2 ^ 63 - 1 < size then
                  .error (.msg ("Content-Range size: " ++ formatNat size ++ " exceeds max allowed size"))
                else .ok size

/-- `strings.FieldsFunc`: the non-empty runs of characters outside `f`. -/
def fieldsFunc (f : Char → Bool) (s : List Char) : List (List Char) :=
  (s.splitOnP f).filter fun w => !w.isEmpty

def decodeOne (codecs : Codecs β) (algorithm : String) (body : β) : Except Error β :=
  if algorithm = "zstd" then codecs.zstd body
  else if algorithm = "gzip" then codecs.gzip body
  else if algorithm = "deflate" then .ok (codecs.flate body)
  else if algorithm = "" then .ok body
  else .error (.msg ("unsupported Content-Encoding algorithm: " ++ algorithm))

/-- The body decoded by the codings of `Content-Encoding`, from the last to the
first. -/
def decodeBody (codecs : Codecs β) (encoding : String) (body : β) : Except Error β :=
  (fieldsFunc (fun c => isSpace c || c == ',') encoding.toList).foldr
    (fun coding acc => acc.bind (decodeOne codecs (toLower (String.ofList coding)))) (.ok body)

/-- `HTTPReadSeeker.reader`: the open body, or a new request from
`readerOffset`. An `errorHandler` that returns nil makes it return a nil reader
(`none`) and no error. -/
def HTTPReadSeeker.reader (ep : Endpoint β) (hrs : HTTPReadSeeker β) :
    Except Error (Option β × HTTPReadSeeker β) :=
  match hrs.err with
  | some e => .error e
  | none =>
    match hrs.rc with
    | some rc => .ok (some rc, hrs)
    | none =>
      match ep.get (if 0 < hrs.readerOffset then some hrs.readerOffset.toNat else none) with
      | .error e => .error e
      | .ok resp =>
        if 200 ≤ resp.statusCode ∧ resp.statusCode ≤ 399 then
          let size : Except Error ℤ :=
            if 0 < hrs.readerOffset then
              if resp.statusCode ≠ 206 then .error errWrongCodeForByteRange
              else rangeSize resp.contentRange hrs.readerOffset
            else if resp.statusCode = 200 then .ok resp.contentLength else .ok (-1)
          match size with
          | .error e => .error e
          | .ok size =>
            match decodeBody ep.codecs resp.contentEncoding resp.body with
            | .error e => .error e
            | .ok body => .ok (some body, { hrs with size := size, rc := some body })
        else
          match ep.errorHandler with
          | some handler =>
            match handler resp with
            | some e => .error e
            | none => .ok (none, hrs)
          | none => .error (.msg ("unexpected status resolving reader: " ++ resp.status))

def HTTPReadSeeker.reset (hrs : HTTPReadSeeker β) : HTTPReadSeeker β :=
  match hrs.err with
  | some _ => hrs
  | none => { hrs with rc := none }

/-! ### Read, Seek and Close -/

/-- `HTTPReadSeeker.Read` into a buffer of `m` bytes; `r` reads the body. A seek
to another offset closes the body first; a nil reader panics on its `Read`. -/
def HTTPReadSeeker.read (ep : Endpoint β) (r : Reader β) (hrs : HTTPReadSeeker β) (m : ℕ) :
    Except String ((List UInt8 × Option Error) × HTTPReadSeeker β) :=
  match hrs.err with
  | some e => .ok (([], some e), hrs)
  | none =>
    let hrs := if hrs.readerOffset ≠ hrs.seekOffset then hrs.reset else hrs
    let hrs := { hrs with readerOffset := hrs.seekOffset }
    match hrs.reader ep with
    | .error e => .ok (([], some e), hrs)
    | .ok (none, _) => .error "runtime error: invalid memory address or nil pointer dereference"
    | .ok (some rd, hrs) =>
      match r rd m with
      | .error e => .error e
      | .ok ((bytes, err), rd) =>
        let seekOffset := addInt64 hrs.seekOffset bytes.length
        let readerOffset := addInt64 hrs.readerOffset bytes.length
        .ok ((bytes, err), { hrs with rc := some rd, seekOffset := seekOffset, readerOffset := readerOffset })

def errSeekNegative : Error := .msg "cannot seek to negative position"

/-- `HTTPReadSeeker.Seek`: a request is made when no body is open, from the
sought offset for `io.SeekStart`; a failed one restores `readerOffset`. -/
def HTTPReadSeeker.seek (ep : Endpoint β) (hrs : HTTPReadSeeker β) (offset whence : ℤ) :
    (ℤ × Option Error) × HTTPReadSeeker β :=
  match hrs.err with
  | some e => ((0, some e), hrs)
  | none =>
    let lastReaderOffset := hrs.readerOffset
    let hrs := if whence = seekStart ∧ hrs.rc.isNone then { hrs with readerOffset := offset } else hrs
    match hrs.reader ep with
    | .error e => ((0, some e), { hrs with readerOffset := lastReaderOffset })
    | .ok (_, hrs) =>
      let newOffset : Except Error ℤ :=
        if whence = seekCurrent then .ok (addInt64 hrs.seekOffset offset)
        else if whence = seekEnd then
          if hrs.size < 0 then .error (.msg "content length not known") else .ok (addInt64 hrs.size offset)
        else if whence = seekStart then .ok offset else .ok hrs.seekOffset
      match newOffset with
      | .error e => ((0, some e), hrs)
      | .ok newOffset =>
        if newOffset < 0 then ((hrs.seekOffset, some errSeekNegative), hrs)
        else ((newOffset, none), { hrs with seekOffset := newOffset })

def HTTPReadSeeker.close (hrs : HTTPReadSeeker β) : Option Error × HTTPReadSeeker β :=
  match hrs.err with
  | some e => (some e, hrs)
  | none => (none, { hrs with rc := none, err := some (.msg "httpLayer: closed") })

theorem matchContentRange_digits {s e : List Char} (hs : s ≠ []) (hsd : ∀ c ∈ s, c.isDigit = true)
    (he : e ≠ []) (hed : ∀ c ∈ e, c.isDigit = true) (rest : List Char) :
    matchContentRange ('b' :: 'y' :: 't' :: 'e' :: 's' :: ' ' :: (s ++ '-' :: (e ++ '/' :: rest))) =
      some (s, e, if rest.takeWhile Char.isDigit ≠ [] then rest.takeWhile Char.isDigit
        else rest.takeWhile (· = '\\')) := by
  have hstart : (s ++ '-' :: (e ++ '/' :: rest)).takeWhile Char.isDigit = s := by
    rw [List.takeWhile_append_of_pos hsd, List.takeWhile_cons_of_neg (by decide), List.append_nil]
  have hstart' : (s ++ '-' :: (e ++ '/' :: rest)).dropWhile Char.isDigit = '-' :: (e ++ '/' :: rest) := by
    rw [List.dropWhile_append_of_pos hsd, List.dropWhile_cons_of_neg (by decide)]
  have hend : (e ++ '/' :: rest).takeWhile Char.isDigit = e := by
    rw [List.takeWhile_append_of_pos hed, List.takeWhile_cons_of_neg (by decide), List.append_nil]
  have hend' : (e ++ '/' :: rest).dropWhile Char.isDigit = '/' :: rest := by
    rw [List.dropWhile_append_of_pos hed, List.dropWhile_cons_of_neg (by decide)]
  simp [matchContentRange, hstart, hstart', hend, hend', hs, he]

theorem findContentRange_of_match {c : Char} {cs : List Char} {m : List Char × List Char × List Char}
    (h : matchContentRange (c :: cs) = some m) : findContentRange (c :: cs) = some m := by
  simp [findContentRange, h]

/-- A total size `*` is never matched as such: the last group of
`contentRangeRegexp` is digits or backslashes, so for `*` it is empty and
`ParseUint` refuses it. A 206 answer of unknown total size is refused. -/
theorem rangeSize_unknown_total {k n : ℕ} (hk64 : k < 2 ^ 64) (hn : n < 2 ^ 64) :
    rangeSize ("bytes " ++ formatNat k ++ "-" ++ formatNat n ++ "/*") k =
      .error (.msg ("could not parse total size in Content-Range header: " ++
        ("bytes " ++ formatNat k ++ "-" ++ formatNat n ++ "/*"))) := by
  have hdigits : ∀ m : ℕ, ∀ c ∈ (formatNat m).toList, c.isDigit = true :=
    fun m => List.all_eq_true.mp (all_isDigit_formatNat m)
  have hlist : ("bytes " ++ formatNat k ++ "-" ++ formatNat n ++ "/*").toList =
      'b' :: 'y' :: 't' :: 'e' :: 's' :: ' ' :: ((formatNat k).toList ++ '-' :: ((formatNat n).toList ++ ['/', '*'])) := by
    simp
  have hmatch := matchContentRange_digits (formatNat_ne_nil k) (hdigits k) (formatNat_ne_nil n) (hdigits n) ['*']
  have hlast : (if List.takeWhile Char.isDigit ['*'] ≠ [] then List.takeWhile Char.isDigit ['*']
      else List.takeWhile (· = '\\') ['*']) = [] := by decide
  rw [hlast] at hmatch
  have hfind : findContentRange ("bytes " ++ formatNat k ++ "-" ++ formatNat n ++ "/*").toList =
      some ((formatNat k).toList, (formatNat n).toList, []) := by
    rw [hlist]
    exact findContentRange_of_match hmatch
  have hne : ("bytes " ++ formatNat k ++ "-" ++ formatNat n ++ "/*") ≠ "" := by
    intro h
    simpa using congrArg String.length h
  have hnil : parseUint [] = none := rfl
  rw [rangeSize, if_neg hne, hfind]
  simp [parseUint_formatNat hk64, parseUint_formatNat hn, hnil]

/-- A range request answered with 206 and a `Content-Range` that gives the
total size as unknown, `bytes k-n/*`, fails. -/
theorem reader_unknown_total (ep : Endpoint β) {hrs : HTTPReadSeeker β} (herr : hrs.err = none)
    (hrc : hrs.rc = none) {k n : ℕ} (hk : 0 < k) (hk64 : k < 2 ^ 64) (hn : n < 2 ^ 64)
    (hoff : hrs.readerOffset = k) (resp : Response β) (hget : ep.get (some k) = .ok resp)
    (h206 : resp.statusCode = 206) (hrange : resp.contentRange = "bytes " ++ formatNat k ++ "-" ++ formatNat n ++ "/*") :
    hrs.reader ep = .error (.msg ("could not parse total size in Content-Range header: " ++ resp.contentRange)) := by
  have hpos : 0 < hrs.readerOffset := by omega
  have hreq : (if 0 < hrs.readerOffset then some hrs.readerOffset.toNat else none) = some k := by
    rw [if_pos hpos, hoff, Int.toNat_natCast]
  have hsize : rangeSize resp.contentRange hrs.readerOffset =
      .error (.msg ("could not parse total size in Content-Range header: " ++ resp.contentRange)) := by
    rw [hrange, hoff]
    exact rangeSize_unknown_total hk64 hn
  simp only [HTTPReadSeeker.reader, herr, hrc, hreq, hget]
  simp [h206, hpos, hsize]

/-- A read from offset 5 of a blob of ten bytes whose server gives the total
size as unknown. -/
theorem reader_unknown_total_five :
    ({ newHTTPReadSeeker with readerOffset := 5 } : HTTPReadSeeker Unit).reader
      ⟨fun _ => .ok ⟨206, "206 Partial Content", 5, "bytes 5-9/*", "", ()⟩, ⟨.ok, .ok, id⟩, none⟩ =
      .error (.msg ("could not parse total size in Content-Range header: " ++ "bytes 5-9/*")) :=
  reader_unknown_total _ rfl rfl (k := 5) (n := 9) (by norm_num) (by norm_num) (by norm_num) rfl
    ⟨206, "206 Partial Content", 5, "bytes 5-9/*", "", ()⟩ rfl rfl (by decide)

/-! ### The size under a content coding -/

theorem decodeBody_deflate (codecs : Codecs β) (body : β) :
    decodeBody codecs "deflate" body = .ok (codecs.flate body) := by
  rfl

/-- The first request of a fresh reader is a plain GET; a 200 answer whose body
can be decoded opens it, with the `Content-Length` as the size. -/
theorem reader_new_ok (ep : Endpoint β) {resp : Response β} {body : β} (hget : ep.get none = .ok resp)
    (h200 : resp.statusCode = 200) (hdecode : decodeBody ep.codecs resp.contentEncoding resp.body = .ok body) :
    (newHTTPReadSeeker : HTTPReadSeeker β).reader ep =
      .ok (some body, { (newHTTPReadSeeker : HTTPReadSeeker β) with size := resp.contentLength, rc := some body }) := by
  simp [HTTPReadSeeker.reader, newHTTPReadSeeker, hget, h200, hdecode]

/-- `Seek(0, io.SeekEnd)` of a fresh reader answers the `Content-Length` of the
200 answer, the length of the coded body, whatever the body decodes to. -/
theorem seek_end_contentLength (ep : Endpoint β) {resp : Response β} {body : β}
    (hget : ep.get none = .ok resp) (h200 : resp.statusCode = 200)
    (hdecode : decodeBody ep.codecs resp.contentEncoding resp.body = .ok body)
    (hlen : 0 ≤ resp.contentLength) (hlt : resp.contentLength < 2 ^ 63) :
    ((newHTTPReadSeeker : HTTPReadSeeker β).seek ep 0 seekEnd).1 = (resp.contentLength, none) := by
  have hopen := reader_new_ok ep hget h200 hdecode
  have hadd : addInt64 resp.contentLength 0 = resp.contentLength := by
    rw [addInt64_of_lt (by omega) (by omega), add_zero]
  simp only [HTTPReadSeeker.seek, newHTTPReadSeeker] at hopen ⊢
  simp [seekStart, seekEnd, seekCurrent, hopen, not_lt.mpr hlen, hadd]

/-- The empty blob served with the coding `deflate`: the two bytes of a final
block that holds only the end of block, which the decoder reads as no bytes. -/
def deflatedEmptyBlob : Endpoint (List UInt8) :=
  ⟨fun _ => .ok ⟨200, "200 OK", 2, "", "deflate", [0x03, 0x00]⟩, ⟨.ok, .ok, fun _ => []⟩, none⟩

/-- Over the empty blob served deflated, `Seek(0, io.SeekEnd)` answers 2, where
`bytes.Reader` answers 0. -/
theorem seek_end_contentLength_deflate :
    ((newHTTPReadSeeker : HTTPReadSeeker (List UInt8)).seek deflatedEmptyBlob 0 seekEnd).1 = (2, none) ∧
      ((BytesReader.mk [] 0).seek 0 seekEnd).1 = (0, none) :=
  ⟨seek_end_contentLength deflatedEmptyBlob rfl rfl (decodeBody_deflate _ _) (by norm_num) (by norm_num), rfl⟩

end DockerRegistry.Client.Transport
