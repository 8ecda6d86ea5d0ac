import DockerRegistry.Storage.TagList
import DockerRegistry.Lib.Uuid
import DockerRegistry.Lib.GoTime

/-!
# Purging uploads

`PurgeUploads` of `registry/storage/purgeuploads.go`. `getOutstandingUploads`
walks the repositories directory once. Directories whose name starts with an
underscore are skipped, except `_uploads`; the flag `inUploadDir` is set on every
such name and read on the next. Every other path is classified by
`uuidFromPath`: the last of its components that `uuid.Parse` accepts names an
upload, and the path is that upload's containing directory when the component
is its last. Entries are merged by the canonical form of the UUID; a startedat
file gives the entry its start time, and an entry without one starts ten
thousand hours after the purge began. `PurgeUploads` then deletes the
containing directory of every entry that started before the cut-off.

Nothing restricts the classification to paths below `_uploads`: a repository
whose name has a component that parses as a UUID, such as 32 hex digits, is an
entry of its own, with its repository directory as the containing directory.

Times are `GoTime` instants; `now` is the `time.Now()` of the purge. The map of
entries is a list in the order the walk first reached each UUID, and the purge
visits it in that order, where Go's map iteration order is unspecified.
-/

namespace DockerRegistry.Storage

open GoPath Driver KeyStore

structure UploadData where
  containingDir : String
  startedAt : ℤ
  deriving DecidableEq, Repr

/-- `newUploadData`: a start time far in the future, against a missing startedat
file. -/
def newUploadData (now : ℤ) : UploadData := ⟨"", now + 10000 * GoTime.hour⟩

/-- The errors `PurgeUploads` returns. -/
inductive PurgeError
  /-- `pushError(errors, path, err)`: the error prefixed with a path -/
  | atPath (path : String) (err : Error)
  /-- an error as a callee returned it -/
  | error (err : Error)
  deriving DecidableEq, Repr

/-- The loop of `uuidFromPath` over the components from the last: the first one
`uuid.Parse` accepts, canonical, and whether it was the last component. -/
def uuidFromComponents (isLast : Bool) : List (List Char) → String × Bool
  | [] => ("", false)
  | component :: rest =>
    match Uuid.parse (component.flatMap String.utf8EncodeChar) with
    | some u => (Uuid.toString u, isLast)
    | none => uuidFromComponents false rest

def uuidFromPath (path : String) : String × Bool := uuidFromComponents true (elements path.toList).reverse

def readStartedAtFile (getContent : String → Except Error String) (path : String) : Except Error ℤ :=
  match getContent path with
  | .error e => .error e
  | .ok startedAt =>
    match GoTime.parseRFC3339 startedAt with
    | some t => .ok t
    | none => .error (.other ("parsing time " ++ GoDecimal.quote startedAt))

/-- `uploads[uuid] = ud`: the entry replaced where it stands, or added last. -/
def setUpload (uploads : List (String × UploadData)) (uuid : String) (ud : UploadData) :
    List (String × UploadData) :=
  if uploads.any (·.1 = uuid) then uploads.map fun e => if e.1 = uuid then (uuid, ud) else e
  else uploads ++ [(uuid, ud)]

/-- The variables of `getOutstandingUploads` that its walk function updates. -/
structure Outstanding where
  uploads : List (String × UploadData)
  inUploadDir : Bool
  errors : List PurgeError
  deriving DecidableEq, Repr

section Outstanding

variable (getContent : String → Except Error String) (now : ℤ)

/-- The entry of `uuid` after the walk reached `filePath`, with any error of its
startedat file. -/
def recordUpload (st : Outstanding) (filePath file uuid : String) (isContainingDir : Bool) :
    UploadData × List PurgeError :=
  let ud := (st.uploads.lookup uuid).getD (newUploadData now)
  let ud := if isContainingDir then { ud with containingDir := filePath } else ud
  if file = "startedat" then
    match readStartedAtFile getContent filePath with
    | .ok t => ({ ud with startedAt := t }, st.errors)
    | .error e => (ud, st.errors ++ [.atPath filePath e])
  else (ud, st.errors)

def outstandingWalkFn : WalkFn Outstanding := fun st fileInfo =>
  let filePath := fileInfo.path
  let file := (split filePath).2
  match file.toList with
  -- `file[0]` is out of range for an empty name
  | [] => (st, some .panic)
  | c :: _ =>
    let st := if c = '_' then { st with inUploadDir := file = "_uploads" } else st
    if c = '_' ∧ fileInfo.isDir ∧ !st.inUploadDir then (st, some .skipDir)
    else
      match uuidFromPath filePath with
      | ("", _) => (st, none)
      | (uuid, isContainingDir) =>
        let (ud, errors) := recordUpload getContent now st filePath file uuid isContainingDir
        ({ st with uploads := setUpload st.uploads uuid ud, errors }, none)

def getOutstandingUploads (walk : Walker) : List (String × UploadData) × List PurgeError :=
  match pathFor .repositoriesRoot with
  | .error e => ([], [.error (.digest e)])
  | .ok root =>
    match walk (outstandingWalkFn getContent now) root "" ⟨[], false, []⟩ with
    | (st, some e) => (st.uploads, st.errors ++ [.atPath root e])
    | (st, none) => (st.uploads, st.errors)

/-- One entry of the loop of `PurgeUploads`: an upload that started before
`olderThan` has its containing directory deleted, when `actuallyDelete`. -/
def purgeEntry (olderThan : ℤ) (actuallyDelete : Bool) (acc : KeyStore × List String × List PurgeError)
    (ud : UploadData) : KeyStore × List String × List PurgeError :=
  let (ks, deleted, errors) := acc
  if ud.startedAt < olderThan then
    let (ks, err) := if actuallyDelete then ks.delete ud.containingDir else (ks, none)
    match err with
    | none => (ks, deleted ++ [ud.containingDir], errors)
    | some e => (ks, deleted, errors ++ [.error e])
  else (ks, deleted, errors)

/-- `PurgeUploads` on a store: the store afterwards, the directories deleted and
the errors. -/
def purgeUploads (ks : KeyStore) (olderThan : ℤ) (actuallyDelete : Bool) :
    KeyStore × List String × List PurgeError :=
  let (uploads, errors) := getOutstandingUploads getContent now ks.walk
  uploads.foldl (fun acc e => purgeEntry olderThan actuallyDelete acc e.2) (ks, [], errors)

end Outstanding

/-! ## A repository named by a UUID -/

namespace TagStore

/-- A repository whose last name component is 32 hex digits, which `uuid.Parse`
accepts. -/
def uuidNamed : String := "library/0123456789abcdef0123456789abcdef"

/-- `GetContent` of a store whose files are all links to `dgst`, as those `Tag`
writes. -/
def linksTo (dgst : String) (ks : KeyStore) (p : String) : Except Error String :=
  if p ∈ ks.keys then .ok dgst else .error (.pathNotFound p)

def purgeStart : ℤ := 1704067200 * GoTime.second

/-- The repository `uuidNamed` with one tag and no upload is an entry of its own,
with no startedat file: a purge whose cut-off lies more than ten thousand hours
after it started deletes the whole repository, and reports it as an upload
directory. -/
theorem purge_deletes_uuid_repository :
    purgeUploads (linksTo zeroDigest.digest (runOps uuidNamed [.tag "latest" zeroDigest] ⟨[]⟩)) purgeStart
        (runOps uuidNamed [.tag "latest" zeroDigest] ⟨[]⟩) (purgeStart + 10001 * GoTime.hour) true =
      (⟨[]⟩, ["/docker/registry/v2/repositories/library/0123456789abcdef0123456789abcdef"], []) := by
  have hstore : runOps uuidNamed [.tag "latest" zeroDigest] ⟨[]⟩ =
      ⟨["/docker/registry/v2/repositories/library/0123456789abcdef0123456789abcdef/_manifests/tags/" ++
          "latest/index/sha256/0000000000000000000000000000000000000000000000000000000000000000/link",
        "/docker/registry/v2/repositories/library/0123456789abcdef0123456789abcdef/_manifests/tags/" ++
          "latest/current/link"]⟩ := by
    decide +kernel
  rw [hstore]
  decide +kernel

end TagStore

end DockerRegistry.Storage
