import DockerRegistry.Digest

/-!
# The image index handler

`manifestListHandler.Put` of `registry/storage/manifestlisthandler.go`, with
`verifyManifest` and `platformMustExist`, over the two image-index types its
decoders produce. A Docker manifest list gives every reference a platform; an
OCI image index passes its descriptors through, and a descriptor may have none.

With existence checks on, `platformMustExist` reads the platform's architecture
and OS through the descriptor's pointer as soon as a platform list is
configured: an OCI index entry without a platform is a nil dereference.
-/

namespace DockerRegistry.Storage

/-- `manifestlist.ManifestDescriptor`: a descriptor and its platform, a value. -/
structure ManifestDescriptor where
  descriptor : Descriptor
  platform : Platform
  deriving DecidableEq, Repr

/-- What the handler is given to put: an image index of either kind, with its
schema version, references, media type and canonical bytes, or another manifest. -/
inductive ManifestList
  /-- `manifestlist.DeserializedManifestList` -/
  | manifestList (schemaVersion : ℤ) (manifests : List ManifestDescriptor) (mediaType : String) (canonical : Bytes)
  /-- `ocischema.DeserializedImageIndex` -/
  | imageIndex (schemaVersion : ℤ) (manifests : List Descriptor) (mediaType : String) (canonical : Bytes)
  /-- a manifest of another type -/
  | other
  deriving DecidableEq, Repr

namespace ManifestList

/-- `References`: a manifest list gives each reference its platform, an image
index returns its descriptors as they are. -/
def references : ManifestList → List Descriptor
  | .manifestList _ ms _ _ => ms.map fun m => { m.descriptor with platform := some m.platform }
  | .imageIndex _ ms _ _ => ms
  | .other => []

/-- `Payload`: the media type, the image-index type when empty, and the canonical bytes. -/
def payload : ManifestList → String × Bytes
  | .manifestList _ _ mediaType canonical | .imageIndex _ _ mediaType canonical =>
    (if mediaType = "" then "application/vnd.oci.image.index.v1+json" else mediaType, canonical)
  | .other => ("", [])

/-- The schema version of the types `Put` accepts. -/
def schemaVersion? : ManifestList → Option ℤ
  | .manifestList v _ _ _ | .imageIndex v _ _ _ => some v
  | .other => none

end ManifestList

/-- `validateImageIndexes`: whether children must exist, and on which platforms. -/
structure ValidateImageIndexes where
  imagesExist : Bool := false
  imagePlatforms : List Platform := []
  deriving DecidableEq, Repr

/-- The errors of the manifest service's `Exists`. -/
inductive ExistsError
  | blobUnknown
  | other (msg : String)
  deriving DecidableEq, Repr

/-- The entries of `ErrManifestVerification` that `verifyManifest` makes. -/
inductive VerificationError
  /-- an error of `Exists` other than `ErrBlobUnknown` -/
  | exists (msg : String)
  /-- `ErrManifestBlobUnknown` -/
  | manifestBlobUnknown (digest : Digest)
  deriving DecidableEq, Repr

/-- What `Put` returns instead of a digest. -/
inductive PutError
  /-- `wrong type put to manifestListHandler` -/
  | wrongType
  /-- `unrecognized manifest list schema version %d, expected 2` -/
  | schemaVersion (v : ℤ)
  | verification (errs : List VerificationError)
  /-- a nil pointer dereference -/
  | panic
  deriving DecidableEq, Repr

section Handler

variable (config : ValidateImageIndexes) (manifestExists : Digest → Except ExistsError Bool)

/-- `platformMustExist`: every child when no platform is configured, otherwise
the children whose platform is configured, read through the descriptor's pointer. -/
def platformMustExist (d : Descriptor) : Except PutError Bool :=
  if config.imagePlatforms = [] then .ok true
  else
    match d.platform with
    | none => .error .panic
    | some p => .ok (config.imagePlatforms.any fun q => p.architecture == q.architecture && p.os == q.os)

def existsErrors (d : Descriptor) : List VerificationError :=
  match manifestExists d.digest with
  | .ok true => []
  | .ok false => [.manifestBlobUnknown d.digest]
  | .error .blobUnknown => [.manifestBlobUnknown d.digest]
  | .error (.other msg) => [.exists msg, .manifestBlobUnknown d.digest]

def verifyReferences : List Descriptor → Except PutError (List VerificationError)
  | [] => .ok []
  | d :: ds =>
    match platformMustExist config d with
    | .error e => .error e
    | .ok false => verifyReferences ds
    | .ok true =>
      match verifyReferences ds with
      | .error e => .error e
      | .ok errs => .ok (existsErrors manifestExists d ++ errs)

/-- `verifyManifest`: the errors found, none when the checks are off. -/
def verifyManifest (m : ManifestList) (skipDependencyVerification : Bool) : Except PutError (List VerificationError) :=
  if config.imagesExist && !skipDependencyVerification then verifyReferences config manifestExists m.references
  else .ok []

/-- `Put`: the blobs stored, the index's payload added on success, and its digest. -/
def put (m : ManifestList) (skipDependencyVerification : Bool) (blobs : List (String × Bytes)) :
    List (String × Bytes) × Except PutError Digest :=
  match m.schemaVersion? with
  | none => (blobs, .error .wrongType)
  | some v =>
    if v ≠ 2 then (blobs, .error (.schemaVersion v))
    else
      match verifyManifest config manifestExists m skipDependencyVerification with
      | .error e => (blobs, .error e)
      | .ok [] => (blobs ++ [m.payload], .ok (fromBytes m.payload.2))
      | .ok errs => (blobs, .error (.verification errs))

/-! ## Children without a platform -/

theorem verifyReferences_panic (hplatforms : config.imagePlatforms ≠ []) :
    ∀ {ds : List Descriptor}, (∃ d ∈ ds, d.platform = none) →
      verifyReferences config manifestExists ds = .error .panic
  | [], ⟨_, hd, _⟩ => absurd hd List.not_mem_nil
  | d :: ds, ⟨d', hd', hnone⟩ => by
    unfold verifyReferences
    cases hp : d.platform with
    | none => simp [platformMustExist, hplatforms, hp]
    | some p =>
      have hrest : ∃ d ∈ ds, d.platform = none := by
        rcases List.mem_cons.mp hd' with rfl | hmem
        · rw [hp] at hnone
          cases hnone
        · exact ⟨d', hmem, hnone⟩
      have ih := verifyReferences_panic hplatforms hrest
      cases hmust : platformMustExist config d with
      | error e => simp [platformMustExist, hplatforms, hp] at hmust
      | ok b =>
        cases b with
        | false => exact ih
        | true => simp [ih]

/-- With existence checks on and a platform list configured, `Put` of an OCI
image index of schema version 2 with an entry that has no platform panics,
whatever the other entries and the repository's manifests. -/
theorem put_imageIndex_panics (hexist : config.imagesExist = true) (hplatforms : config.imagePlatforms ≠ [])
    {manifests : List Descriptor} (hnone : ∃ d ∈ manifests, d.platform = none) (mediaType : String) (canonical : Bytes)
    (blobs : List (String × Bytes)) :
    put config manifestExists (.imageIndex 2 manifests mediaType canonical) false blobs = (blobs, .error .panic) := by
  have hverify : verifyManifest config manifestExists (.imageIndex 2 manifests mediaType canonical) false =
      .error .panic := by
    simp only [verifyManifest, hexist, Bool.not_false, Bool.and_self, if_true, ManifestList.references]
    exact verifyReferences_panic config manifestExists hplatforms hnone
  simp [put, ManifestList.schemaVersion?, hverify]

/-! ## Indexes whose children can be checked -/

/-- The children that must be manifests of the repository: every one when no
platform is configured, otherwise those on a configured platform. -/
def mustExist (d : Descriptor) : Bool :=
  config.imagePlatforms = [] ||
    match d.platform with
    | none => false
    | some p => config.imagePlatforms.any fun q => p.architecture == q.architecture && p.os == q.os

def missing (isManifest : Digest → Bool) (m : ManifestList) : List Digest :=
  (m.references.filter fun d => mustExist config d && !isManifest d.digest).map (·.digest)

theorem manifestList_references_platform {v : ℤ} {ms : List ManifestDescriptor} {mediaType : String}
    {canonical : Bytes} : ∀ d ∈ (ManifestList.manifestList v ms mediaType canonical).references, d.platform.isSome := by
  intro d hd
  simp only [ManifestList.references, List.mem_map] at hd
  obtain ⟨m, -, rfl⟩ := hd
  rfl

theorem platformMustExist_checked {d : Descriptor} (hd : config.imagePlatforms = [] ∨ d.platform.isSome) :
    platformMustExist config d = .ok (mustExist config d) := by
  unfold platformMustExist mustExist
  by_cases hempty : config.imagePlatforms = []
  · simp [hempty]
  · have hsome : d.platform.isSome := hd.resolve_left hempty
    obtain ⟨p, hp⟩ := Option.isSome_iff_exists.mp hsome
    simp [hempty, hp]

theorem verifyReferences_checked (isManifest : Digest → Bool) :
    ∀ {ds : List Descriptor}, (config.imagePlatforms = [] ∨ ∀ d ∈ ds, d.platform.isSome) →
      verifyReferences config (fun d => .ok (isManifest d)) ds =
        .ok (((ds.filter fun d => mustExist config d && !isManifest d.digest).map (·.digest)).map
          .manifestBlobUnknown)
  | [], _ => rfl
  | d :: ds, hds => by
    have hd : config.imagePlatforms = [] ∨ d.platform.isSome :=
      hds.imp id fun h => h d List.mem_cons_self
    have ih := verifyReferences_checked isManifest (hds.imp id fun h d' hd' => h d' (List.mem_cons_of_mem _ hd'))
    unfold verifyReferences
    rw [platformMustExist_checked config hd]
    cases hmust : mustExist config d with
    | false => simp [ih, hmust]
    | true =>
      cases hman : isManifest d.digest with
      | true => simp [ih, hmust, hman, existsErrors]
      | false => simp [ih, hmust, hman, existsErrors]

/-- With existence checks on and a repository that answers `Exists` by whether
a digest is one of its manifests, `Put` of an image index of schema version 2
whose children can all be checked (every Docker manifest list; an OCI index
when no platform is configured or all its entries have one) refuses it with one
`ErrManifestBlobUnknown` for each child that must exist and is missing, in
order, and otherwise stores its payload and returns its digest. -/
theorem put_verified (hexist : config.imagesExist = true) {m : ManifestList} (hv : m.schemaVersion? = some 2)
    (hplat : config.imagePlatforms = [] ∨ ∀ d ∈ m.references, d.platform.isSome) (isManifest : Digest → Bool)
    (blobs : List (String × Bytes)) :
    put config (fun d => .ok (isManifest d)) m false blobs =
      if missing config isManifest m = [] then (blobs ++ [m.payload], .ok (fromBytes m.payload.2))
      else (blobs, .error (.verification ((missing config isManifest m).map .manifestBlobUnknown))) := by
  have hverify : verifyManifest config (fun d => .ok (isManifest d)) m false =
      .ok ((missing config isManifest m).map .manifestBlobUnknown) := by
    simp only [verifyManifest, hexist, Bool.not_false, Bool.and_self, if_true]
    exact verifyReferences_checked config isManifest hplat
  simp only [put, hv, ne_eq, not_true_eq_false, if_false, hverify]
  cases hmissing : missing config isManifest m with
  | nil => rfl
  | cons d ds => rfl

end Handler

theorem put_verified_manifestList :
    put { imagesExist := true, imagePlatforms := [⟨"amd64", "linux"⟩] } (fun d => .ok (d == "a"))
        (.manifestList 2 [⟨{ digest := "a" }, ⟨"amd64", "linux"⟩⟩, ⟨{ digest := "b" }, ⟨"amd64", "linux"⟩⟩,
          ⟨{ digest := "c" }, ⟨"arm64", "linux"⟩⟩] "" []) false [] =
      ([], .error (.verification [.manifestBlobUnknown "b"])) := by
  rw [put_verified _ rfl rfl (.inr manifestList_references_platform) _ []]
  decide

theorem put_imageIndex_panics_amd64 :
    put { imagesExist := true, imagePlatforms := [⟨"amd64", "linux"⟩] } (fun _ => .ok true)
        (.imageIndex 2 [{ digest := fromBytes [] }] "" []) false [] = ([], .error .panic) :=
  put_imageIndex_panics _ _ rfl (by decide) ⟨_, List.mem_singleton_self _, rfl⟩ "" [] []

end DockerRegistry.Storage
