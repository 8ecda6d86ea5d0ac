import DockerRegistry.Storage.Paths

/-!
# The blob descriptor cache in front of a repository's link statters

`repository.Blobs` and `repository.Manifests` each build a linked blob store
whose access controller is a `linkedBlobStatter`: the first reads the
repository's `_layers` links, the second its `_manifests/revisions` links. With a
blob descriptor cache provider configured, both are wrapped by a
`cachedBlobStatter` over one repository-scoped cache, keyed by digest and
repository only, and the global statter that resolves link targets is wrapped
by the provider itself.

The world holds the driver's files as the statters read them (link files by
link set, repository and digest; blob data by digest, with its size) and the
in-memory cache as a map from keys to descriptors. A file is named by its path
spec: `PathLayout` is where the specs' paths are compared. Every service call
returns its result and the world it leaves.

Over every run of the storage API the cache stays coherent: each entry is the
descriptor of blob data that exists, and a repository's entry is linked into
that repository by one of its two link sets. A cached statter therefore finds
everything the uncached one finds, with the same descriptor, and nothing that
the repository does not link; but it answers for both link sets at once.
-/

namespace DockerRegistry.Storage.DescriptorCache

/-- The errors the descriptor services return. -/
inductive ServiceError
  /-- `distribution.ErrBlobUnknown` -/
  | blobUnknown
  /-- `distribution.ErrUnsupported` -/
  | unsupported
  /-- a digest that does not `Validate` -/
  | digest (e : DigestError)
  /-- `cache: invalid length in descriptor: %v < 0` -/
  | invalidLength (size : ℤ)
  /-- `cache: empty mediatype on descriptor: %v` -/
  | emptyMediaType
  /-- the `PathNotFoundError` of the driver's `Delete` -/
  | pathNotFound (spec : PathSpec)
  deriving DecidableEq, Repr

/-- The `linkPathFunc`s of a linked blob store. -/
inductive LinkPath
  | blobLinkPath
  | manifestRevisionLinkPath
  deriving DecidableEq, Repr

def LinkPath.spec : LinkPath → String → Digest → PathSpec
  | .blobLinkPath, name, dgst => .layerLink name dgst
  | .manifestRevisionLinkPath, name, dgst => .manifestRevisionLink name dgst

/-- The files the statters read: the digest written in each link file, and the
size of each blob's data file. -/
structure Files where
  links : LinkPath → String → Digest → Option Digest
  data : Digest → Option ℕ

/-- `descriptorCacheKey`; the provider files its own entries under the empty
repository. -/
structure DescriptorCacheKey where
  digest : Digest
  repo : String
  deriving DecidableEq, Repr

structure World where
  files : Files
  lru : DescriptorCacheKey → Option Descriptor

namespace World

def empty : World := ⟨⟨fun _ _ _ => none, fun _ => none⟩, fun _ => none⟩

def add (w : World) (key : DescriptorCacheKey) (desc : Descriptor) : World :=
  { w with lru := Function.update w.lru key (some desc) }

def remove (w : World) (key : DescriptorCacheKey) : World :=
  { w with lru := Function.update w.lru key none }

def link (w : World) (k : LinkPath) (name : String) (dgst target : Digest) : World :=
  { w with files := { w.files with links := fun k' name' dgst' =>
      if k' = k ∧ name' = name ∧ dgst' = dgst then some target else w.files.links k' name' dgst' } }

def unlink (w : World) (k : LinkPath) (name : String) (dgst : Digest) : World :=
  { w with files := { w.files with links := fun k' name' dgst' =>
      if k' = k ∧ name' = name ∧ dgst' = dgst then none else w.files.links k' name' dgst' } }

def putData (w : World) (dgst : Digest) (size : ℕ) : World :=
  { w with files := { w.files with data := Function.update w.files.data dgst (some size) } }

end World

def validateDescriptor (desc : Descriptor) : Option ServiceError :=
  match desc.digest.validate with
  | some e => some (.digest e)
  | none =>
    if desc.size < 0 then some (.invalidLength desc.size)
    else if desc.mediaType = "" then some .emptyMediaType
    else none

structure DescriptorService where
  stat : Digest → World → Except ServiceError Descriptor × World
  clear : Digest → World → Option ServiceError × World
  setDescriptor : Digest → Descriptor → World → Option ServiceError × World

namespace Provider

def stat (dgst : Digest) (w : World) : Except ServiceError Descriptor :=
  match dgst.validate with
  | some e => .error (.digest e)
  | none =>
    match w.lru ⟨dgst, ""⟩ with
    | some descriptor => .ok descriptor
    | none => .error .blobUnknown

/-- `inMemoryBlobDescriptorCacheProvider.SetDescriptor`. A descriptor given
under a digest of another algorithm is first set under its own digest; that
inner call has the two digests equal, so it does not recurse again. `Algorithm()`
of a digest without a colon, where Go panics, is `none`: no caller passes one. -/
def setDescriptor (dgst : Digest) (desc : Descriptor) (w : World) : Option ServiceError × World :=
  match stat dgst w with
  | .error .blobUnknown =>
    let other : Option ServiceError × World :=
      if _h : dgst.algorithm? ≠ desc.digest.algorithm? ∧ dgst ≠ desc.digest then
        setDescriptor desc.digest desc w
      else (none, w)
    match other with
    | (some err, w) => (some err, w)
    | (none, w) =>
      match dgst.validate with
      | some e => (some (.digest e), w)
      | none =>
        match validateDescriptor desc with
        | some err => (some err, w)
        | none => (none, w.add ⟨dgst, ""⟩ desc)
  -- we already know it, do nothing
  | .ok _ => (none, w)
  | .error err => (some err, w)
termination_by if dgst = desc.digest then 0 else 1
decreasing_by simp [_h.2]

end Provider

def provider : DescriptorService where
  stat dgst w := (Provider.stat dgst w, w)
  clear dgst w := (none, w.remove ⟨dgst, ""⟩)
  setDescriptor := Provider.setDescriptor

def repositoryScoped (repo : String) : DescriptorService where
  stat dgst w :=
    match dgst.validate with
    | some e => (.error (.digest e), w)
    | none =>
      match w.lru ⟨dgst, repo⟩ with
      | some descriptor => (.ok descriptor, w)
      | none => (.error .blobUnknown, w)
  clear dgst w := (none, w.remove ⟨dgst, repo⟩)
  setDescriptor dgst desc w :=
    match dgst.validate with
    | some e => (some (.digest e), w)
    | none =>
      match validateDescriptor desc with
      | some err => (some err, w)
      | none => Provider.setDescriptor dgst desc (w.add ⟨dgst, repo⟩ desc)

/-- `blobStatter`, the global statter over the blob data. A data path that is a
directory is not modelled: the files hold no directories. -/
def blobStatter : DescriptorService where
  stat dgst w :=
    match pathFor (.blobData dgst) with
    | .error e => (.error (.digest e), w)
    | .ok _ =>
      match w.files.data dgst with
      | none => (.error .blobUnknown, w)
      | some size => (.ok { size := size, mediaType := "application/octet-stream", digest := dgst }, w)
  clear _ w := (some .unsupported, w)
  setDescriptor _ _ w := (some .unsupported, w)

/-- `cachedBlobStatter` (`NewCachedBlobStatter`). Errors of the cache's
`SetDescriptor` are only logged, and a `Stat` error of the cache other than
`ErrBlobUnknown` keeps the backend's answer out of the cache. -/
def cachedBlobStatter (cache backend : DescriptorService) : DescriptorService where
  stat dgst w :=
    match cache.stat dgst w with
    | (.ok desc, w) => (.ok desc, w)
    | (.error cacheErr, w) =>
      match backend.stat dgst w with
      | (.error err, w) => (.error err, w)
      | (.ok desc, w) =>
        if cacheErr = .blobUnknown then (.ok desc, (cache.setDescriptor dgst desc w).2)
        else (.ok desc, w)
  clear dgst w :=
    match cache.clear dgst w with
    | (some err, w) => (some err, w)
    | (none, w) => backend.clear dgst w
  setDescriptor dgst desc w := (none, (cache.setDescriptor dgst desc w).2)

/-- `linkedBlobStatter`: read the repository's link and stat its target with the
global statter. A missing link file is `ErrBlobUnknown`. -/
def linkedBlobStatter (statter : DescriptorService) (linkPath : LinkPath) (name : String) :
    DescriptorService where
  stat dgst w :=
    match pathFor (linkPath.spec name dgst) with
    | .error e => (.error (.digest e), w)
    | .ok _ =>
      match w.files.links linkPath name dgst with
      | none => (.error .blobUnknown, w)
      | some target => statter.stat target w
  clear dgst w :=
    match pathFor (linkPath.spec name dgst) with
    | .error e => (some (.digest e), w)
    | .ok _ =>
      match w.files.links linkPath name dgst with
      | none => (some (.pathNotFound (linkPath.spec name dgst)), w)
      | some _ => (none, w.unlink linkPath name dgst)
  -- the canonical descriptor for a blob is set at the commit phase of upload
  setDescriptor _ _ w := (none, w)

/-- The registry options the statters depend on: a blob descriptor cache provider
(`BlobDescriptorCacheProvider`) and `EnableDelete`. -/
structure Registry where
  cached : Bool
  deleteEnabled : Bool
  deriving DecidableEq, Repr

/-- `registry.blobStore.statter`: the global statter, behind the provider when
one is configured. -/
def Registry.statter (reg : Registry) : DescriptorService :=
  if reg.cached then cachedBlobStatter provider blobStatter else blobStatter

/-- `blobStore.Put`. The media type is not stored: the central store firewalls
media types. -/
def blobStorePut (statter : DescriptorService) (_mediaType : String) (p : Bytes) (w : World) :
    Except ServiceError Descriptor × World :=
  let dgst := fromBytes p
  match statter.stat dgst w with
  -- content already present
  | (.ok desc, w) => (.ok desc, w)
  | (.error .blobUnknown, w) =>
    match pathFor (.blobData dgst) with
    | .error e => (.error (.digest e), w)
    | .ok _ => (.ok { size := p.length, mediaType := "application/octet-stream", digest := dgst }, w.putData dgst p.length)
  | (.error err, w) => (.error err, w)

/-- The linked blob store of a repository: `repository.Blobs` dispatches to the
`_layers` links, `repository.Manifests` to the revision links. -/
structure LinkedBlobStore where
  registry : Registry
  name : String
  linkPath : LinkPath
  deriving DecidableEq, Repr

def Registry.blobs (reg : Registry) (name : String) : LinkedBlobStore := ⟨reg, name, .blobLinkPath⟩

def Registry.manifests (reg : Registry) (name : String) : LinkedBlobStore :=
  ⟨reg, name, .manifestRevisionLinkPath⟩

namespace LinkedBlobStore

/-- The access controller: the link statter, behind the repository-scoped cache
when the registry has a provider. -/
def blobAccessController (lbs : LinkedBlobStore) : DescriptorService :=
  let statter := linkedBlobStatter lbs.registry.statter lbs.linkPath lbs.name
  if lbs.registry.cached then cachedBlobStatter (repositoryScoped lbs.name) statter else statter

def stat (lbs : LinkedBlobStore) (dgst : Digest) (w : World) : Except ServiceError Descriptor × World :=
  lbs.blobAccessController.stat dgst w

/-- `linkBlob` with no aliases: link the canonical digest to itself. -/
def linkBlob (lbs : LinkedBlobStore) (canonical : Descriptor) (w : World) : Option ServiceError × World :=
  match pathFor (lbs.linkPath.spec lbs.name canonical.digest) with
  | .error e => (some (.digest e), w)
  | .ok _ => (none, w.link lbs.linkPath lbs.name canonical.digest canonical.digest)

/-- `linkedBlobStore.Put`: store the data, set the descriptor, link it. -/
def put (lbs : LinkedBlobStore) (mediaType : String) (p : Bytes) (w : World) :
    Except ServiceError Descriptor × World :=
  let dgst := fromBytes p
  match blobStorePut lbs.registry.statter mediaType p w with
  | (.error err, w) => (.error err, w)
  | (.ok desc, w) =>
    match lbs.blobAccessController.setDescriptor dgst desc w with
    | (some err, w) => (.error err, w)
    | (none, w) =>
      match lbs.linkBlob desc w with
      | (some err, w) => (.error err, w)
      | (none, w) => (.ok desc, w)

/-- `linkedBlobStore.Delete`: check that the blob is there, then clear it. -/
def delete (lbs : LinkedBlobStore) (dgst : Digest) (w : World) : Option ServiceError × World :=
  if !lbs.registry.deleteEnabled then (some .unsupported, w)
  else
    match lbs.blobAccessController.stat dgst w with
    | (.error err, w) => (some err, w)
    | (.ok _, w) => lbs.blobAccessController.clear dgst w

/-- `linkedBlobStore.mount` with no descriptor given: stat the blob through the
source repository's `Blobs`, then link it here. -/
def mount (lbs : LinkedBlobStore) (sourceRepo : String) (dgst : Digest) (w : World) :
    Except ServiceError Descriptor × World :=
  match (lbs.registry.blobs sourceRepo).stat dgst w with
  | (.error err, w) => (.error err, w)
  | (.ok stat, w) =>
    let desc : Descriptor := { size := stat.size, mediaType := "application/octet-stream", digest := dgst }
    match lbs.linkBlob desc w with
    | (some err, w) => (.error err, w)
    | (none, w) => (.ok desc, w)

def manifestExists (ms : LinkedBlobStore) (dgst : Digest) (w : World) : Except ServiceError Bool × World :=
  match ms.stat dgst w with
  | (.ok _, w) => (.ok true, w)
  | (.error .blobUnknown, w) => (.ok false, w)
  | (.error err, w) => (.error err, w)

end LinkedBlobStore

/-- The storage-API calls that read or write links, blob data or the cache. -/
inductive Op
  | stat (linkPath : LinkPath) (name : String) (dgst : Digest)
  | put (linkPath : LinkPath) (name mediaType : String) (p : Bytes)
  | delete (linkPath : LinkPath) (name : String) (dgst : Digest)
  | mount (name sourceRepo : String) (dgst : Digest)

def Op.apply (reg : Registry) : Op → World → World
  | .stat k name dgst, w => ((LinkedBlobStore.mk reg name k).stat dgst w).2
  | .put k name mediaType p, w => ((LinkedBlobStore.mk reg name k).put mediaType p w).2
  | .delete k name dgst, w => ((LinkedBlobStore.mk reg name k).delete dgst w).2
  | .mount name sourceRepo dgst, w => ((reg.blobs name).mount sourceRepo dgst w).2

def run (reg : Registry) (ops : List Op) (w : World) : World :=
  ops.foldl (fun w op => op.apply reg w) w

/-! ## The world's operations -/

namespace World

variable (w : World) (key : DescriptorCacheKey) (desc : Descriptor) (k k' : LinkPath)
  (name name' : String) (dgst dgst' target : Digest) (size : ℕ)

@[simp] theorem add_files : (w.add key desc).files = w.files := rfl
@[simp] theorem add_lru : (w.add key desc).lru = Function.update w.lru key (some desc) := rfl
@[simp] theorem remove_files : (w.remove key).files = w.files := rfl
@[simp] theorem remove_lru : (w.remove key).lru = Function.update w.lru key none := rfl
@[simp] theorem link_lru : (w.link k name dgst target).lru = w.lru := rfl
@[simp] theorem link_data : (w.link k name dgst target).files.data = w.files.data := rfl
@[simp] theorem link_links : (w.link k name dgst target).files.links k' name' dgst' =
    if k' = k ∧ name' = name ∧ dgst' = dgst then some target else w.files.links k' name' dgst' := rfl
@[simp] theorem unlink_lru : (w.unlink k name dgst).lru = w.lru := rfl
@[simp] theorem unlink_data : (w.unlink k name dgst).files.data = w.files.data := rfl
@[simp] theorem unlink_links : (w.unlink k name dgst).files.links k' name' dgst' =
    if k' = k ∧ name' = name ∧ dgst' = dgst then none else w.files.links k' name' dgst' := rfl
@[simp] theorem putData_lru : (w.putData dgst size).lru = w.lru := rfl
@[simp] theorem putData_links : (w.putData dgst size).files.links = w.files.links := rfl
@[simp] theorem putData_data : (w.putData dgst size).files.data = Function.update w.files.data dgst (some size) := rfl

theorem add_link : (w.add key desc).link k name dgst target = (w.link k name dgst target).add key desc := rfl

end World

/-! ## What the uncached statters answer -/

/-- The descriptor the global statter gives a blob: its digest and size, and the
media type of the central store. -/
def blobDesc (dgst : Digest) (size : ℕ) : Descriptor :=
  { size := size, mediaType := "application/octet-stream", digest := dgst }

@[simp] theorem blobDesc_digest (dgst : Digest) (size : ℕ) : (blobDesc dgst size).digest = dgst := rfl

namespace Files

def statData (f : Files) (dgst : Digest) : Except ServiceError Descriptor :=
  match dgst.validate with
  | some e => .error (.digest e)
  | none =>
    match f.data dgst with
    | some size => .ok (blobDesc dgst size)
    | none => .error .blobUnknown

def statLink (f : Files) (k : LinkPath) (name : String) (dgst : Digest) : Except ServiceError Descriptor :=
  match dgst.validate with
  | some e => .error (.digest e)
  | none =>
    match f.links k name dgst with
    | some target => f.statData target
    | none => .error .blobUnknown

end Files

/-- The answer of a linked blob store: the repository's cache entry first when
the registry caches, the link otherwise. -/
def World.answer (w : World) (cached : Bool) (k : LinkPath) (name : String) (dgst : Digest) :
    Except ServiceError Descriptor :=
  match dgst.validate, cached, w.lru ⟨dgst, name⟩ with
  | some e, _, _ => .error (.digest e)
  | none, true, some desc => .ok desc
  | none, _, _ => w.files.statLink k name dgst

section Paths

variable {dgst : Digest} {e : DigestError}

theorem pathFor_blobData_ok (h : dgst.validate = none) : ∃ p, pathFor (.blobData dgst) = .ok p := by
  simp [pathFor, digestPathComponents, h]

theorem pathFor_blobData_error (h : dgst.validate = some e) : pathFor (.blobData dgst) = .error e := by
  simp [pathFor, digestPathComponents, h]

theorem pathFor_spec_ok (k : LinkPath) (name : String) (h : dgst.validate = none) :
    ∃ p, pathFor (k.spec name dgst) = .ok p := by
  cases k <;> simp [LinkPath.spec, pathFor, manifestRevisionPath, digestPathComponents, h]

theorem pathFor_spec_error (k : LinkPath) (name : String) (h : dgst.validate = some e) :
    pathFor (k.spec name dgst) = .error e := by
  cases k <;> simp [LinkPath.spec, pathFor, manifestRevisionPath, digestPathComponents, h]

end Paths

theorem validateDescriptor_blobDesc {dgst : Digest} (h : dgst.validate = none) (size : ℕ) :
    validateDescriptor (blobDesc dgst size) = none := by
  simp [validateDescriptor, blobDesc, h]

theorem blobStatter_stat (dgst : Digest) (w : World) : blobStatter.stat dgst w = (w.files.statData dgst, w) := by
  cases hv : dgst.validate with
  | some e => simp [blobStatter, pathFor_blobData_error hv, Files.statData, hv]
  | none =>
    obtain ⟨p, hp⟩ := pathFor_blobData_ok hv
    cases hd : w.files.data dgst <;> simp [blobStatter, hp, Files.statData, hv, hd, blobDesc]

/-- The provider given the global statter's descriptor of a valid digest files it
under that digest, unless it already holds one. -/
theorem Provider.setDescriptor_blobDesc {dgst : Digest} (h : dgst.validate = none) (size : ℕ) (w : World) :
    Provider.setDescriptor dgst (blobDesc dgst size) w =
      (none, if w.lru ⟨dgst, ""⟩ = none then w.add ⟨dgst, ""⟩ (blobDesc dgst size) else w) := by
  rw [Provider.setDescriptor]
  cases he : w.lru ⟨dgst, ""⟩ <;> simp [Provider.stat, h, he, validateDescriptor_blobDesc h]

theorem repositoryScoped_setDescriptor_blobDesc {dgst : Digest} (h : dgst.validate = none) (repo : String)
    (size : ℕ) (w : World) :
    (repositoryScoped repo).setDescriptor dgst (blobDesc dgst size) w =
      (none, let w' := w.add ⟨dgst, repo⟩ (blobDesc dgst size)
        if w'.lru ⟨dgst, ""⟩ = none then w'.add ⟨dgst, ""⟩ (blobDesc dgst size) else w') := by
  simp only [repositoryScoped, h, validateDescriptor_blobDesc h, Provider.setDescriptor_blobDesc h]

namespace Files

variable {f : Files} {k : LinkPath} {name : String} {dgst : Digest} {desc : Descriptor}

theorem statData_ok (h : f.statData dgst = .ok desc) :
    dgst.validate = none ∧ ∃ size, f.data dgst = some size ∧ desc = blobDesc dgst size := by
  unfold statData at h
  split at h
  · cases h
  · split at h
    · cases h
      exact ⟨‹_›, _, ‹_›, rfl⟩
    · cases h

theorem statLink_ok (h : f.statLink k name dgst = .ok desc) :
    dgst.validate = none ∧ ∃ target, f.links k name dgst = some target ∧ f.statData target = .ok desc := by
  unfold statLink at h
  split at h
  · cases h
  · split at h
    · exact ⟨‹_›, _, ‹_›, h⟩
    · cases h

end Files

theorem World.answer_false (w : World) (k : LinkPath) (name : String) (dgst : Digest) :
    w.answer false k name dgst = w.files.statLink k name dgst := by
  unfold World.answer Files.statLink
  cases dgst.validate <;> rfl

theorem World.answer_of_entry {w : World} {k : LinkPath} {name : String} {dgst : Digest}
    {desc : Descriptor} (hv : dgst.validate = none) (he : w.lru ⟨dgst, name⟩ = some desc) :
    w.answer true k name dgst = .ok desc := by
  simp [World.answer, hv, he]

theorem World.answer_of_miss {w : World} {cached : Bool} {k : LinkPath} {name : String} {dgst : Digest}
    (he : w.lru ⟨dgst, name⟩ = none) : w.answer cached k name dgst = w.files.statLink k name dgst := by
  unfold World.answer Files.statLink
  cases dgst.validate <;> cases cached <;> simp [he]

theorem repositoryScoped_setDescriptor_files {dgst : Digest} (h : dgst.validate = none) (repo : String)
    (size : ℕ) (w : World) : ((repositoryScoped repo).setDescriptor dgst (blobDesc dgst size) w).2.files = w.files := by
  rw [repositoryScoped_setDescriptor_blobDesc h]
  dsimp only
  split_ifs <;> rfl

theorem repositoryScoped_setDescriptor_lru {dgst : Digest} (h : dgst.validate = none) (repo : String)
    (size : ℕ) (w : World) :
    ((repositoryScoped repo).setDescriptor dgst (blobDesc dgst size) w).2.lru ⟨dgst, repo⟩ = some (blobDesc dgst size) := by
  rw [repositoryScoped_setDescriptor_blobDesc h]
  dsimp only
  split_ifs <;> simp [Function.update_apply]

theorem LinkedBlobStore.stat_uncached (lbs : LinkedBlobStore) (hc : lbs.registry.cached = false)
    (dgst : Digest) (w : World) : lbs.stat dgst w = (w.files.statLink lbs.linkPath lbs.name dgst, w) := by
  simp only [LinkedBlobStore.stat, LinkedBlobStore.blobAccessController, Registry.statter, hc,
    Bool.false_eq_true, if_false, linkedBlobStatter]
  cases hv : dgst.validate with
  | some e => simp [pathFor_spec_error _ _ hv, Files.statLink, hv]
  | none =>
    obtain ⟨p, hp⟩ := pathFor_spec_ok lbs.linkPath lbs.name hv
    cases hl : w.files.links lbs.linkPath lbs.name dgst <;> simp [hp, hl, Files.statLink, hv, blobStatter_stat]

/-! ## The coherence of the cache -/

/-- What every run of the storage API keeps: blob data exists only under valid
digests; a link holds its own digest, and that blob's data exists; every cache
entry is the global statter's descriptor of existing data, and an entry of a
repository is linked into it by one of its two link sets. -/
structure Coherent (w : World) : Prop where
  data_valid : ∀ dgst size, w.files.data dgst = some size → dgst.validate = none
  links : ∀ k name dgst target, w.files.links k name dgst = some target →
    target = dgst ∧ ∃ size, w.files.data dgst = some size
  entries : ∀ key desc, w.lru key = some desc →
    ∃ size, w.files.data key.digest = some size ∧ desc = blobDesc key.digest size ∧
      (key.repo = "" ∨ ∃ k, w.files.links k key.repo key.digest = some key.digest)

namespace Coherent

variable {w : World}

theorem empty : Coherent World.empty where
  data_valid := by simp [World.empty]
  links := by simp [World.empty]
  entries := by simp [World.empty]

theorem add (hw : Coherent w) {key : DescriptorCacheKey} {size : ℕ} (hd : w.files.data key.digest = some size)
    (hrepo : key.repo = "" ∨ ∃ k, w.files.links k key.repo key.digest = some key.digest) :
    Coherent (w.add key (blobDesc key.digest size)) where
  data_valid := hw.data_valid
  links := hw.links
  entries key' desc h := by
    by_cases hk : key' = key
    · subst hk
      simp only [World.add_lru, Function.update_self, Option.some.injEq] at h
      exact ⟨size, hd, h.symm, hrepo⟩
    · rw [World.add_lru, Function.update_of_ne hk] at h
      exact hw.entries key' desc h

theorem remove (hw : Coherent w) (key : DescriptorCacheKey) : Coherent (w.remove key) where
  data_valid := hw.data_valid
  links := hw.links
  entries key' desc h := by
    by_cases hk : key' = key
    · subst hk
      simp at h
    · rw [World.remove_lru, Function.update_of_ne hk] at h
      exact hw.entries key' desc h

theorem link (hw : Coherent w) {k : LinkPath} {name : String} {dgst : Digest} {size : ℕ}
    (hd : w.files.data dgst = some size) : Coherent (w.link k name dgst dgst) where
  data_valid := hw.data_valid
  links k' name' dgst' target h := by
    simp only [World.link_links, World.link_data] at h ⊢
    split_ifs at h with heq
    · obtain ⟨-, -, rfl⟩ := heq
      cases h
      exact ⟨rfl, size, hd⟩
    · exact hw.links k' name' dgst' target h
  entries key desc h := by
    obtain ⟨size', hd', hdesc, hrepo⟩ := hw.entries key desc h
    refine ⟨size', hd', hdesc, ?_⟩
    rcases hrepo with hrepo | ⟨k', hk'⟩
    · exact .inl hrepo
    · refine .inr ⟨k', ?_⟩
      simp only [World.link_links]
      split_ifs with heq
      · rw [heq.2.2]
      · exact hk'

theorem unlink (hw : Coherent w) {k : LinkPath} {name : String} {dgst : Digest}
    (hfree : w.lru ⟨dgst, name⟩ = none) : Coherent (w.unlink k name dgst) where
  data_valid := hw.data_valid
  links k' name' dgst' target h := by
    simp only [World.unlink_links] at h
    split_ifs at h
    exact hw.links k' name' dgst' target h
  entries key desc h := by
    obtain ⟨size, hd, hdesc, hrepo⟩ := hw.entries key desc h
    refine ⟨size, hd, hdesc, ?_⟩
    rcases hrepo with hrepo | ⟨k', hk'⟩
    · exact .inl hrepo
    · refine .inr ⟨k', ?_⟩
      simp only [World.unlink_links]
      split_ifs with heq
      · have hkey : key = ⟨dgst, name⟩ := by rw [← heq.2.1, ← heq.2.2]
        rw [hkey] at h
        simp [hfree] at h
      · exact hk'

theorem putData (hw : Coherent w) {dgst : Digest} {size : ℕ} (hv : dgst.validate = none)
    (hnew : w.files.data dgst = none) : Coherent (w.putData dgst size) where
  data_valid d n h := by
    by_cases hd : d = dgst
    · rw [hd]
      exact hv
    · rw [World.putData_data, Function.update_of_ne hd] at h
      exact hw.data_valid d n h
  links k name d target h := by
    obtain ⟨rfl, n, hn⟩ := hw.links k name d target h
    have hne : target ≠ dgst := by
      rintro rfl
      rw [hnew] at hn
      cases hn
    exact ⟨rfl, n, by rw [World.putData_data, Function.update_of_ne hne]; exact hn⟩
  entries key desc h := by
    obtain ⟨n, hn, hdesc, hrepo⟩ := hw.entries key desc h
    have hne : key.digest ≠ dgst := by
      intro heq
      rw [heq, hnew] at hn
      cases hn
    exact ⟨n, by rw [World.putData_data, Function.update_of_ne hne]; exact hn, hdesc, hrepo⟩

theorem statData_of_data (hw : Coherent w) {dgst : Digest} {size : ℕ} (hd : w.files.data dgst = some size) :
    w.files.statData dgst = .ok (blobDesc dgst size) := by
  simp [Files.statData, hw.data_valid dgst size hd, hd]

theorem statLink_ok (hw : Coherent w) {k : LinkPath} {name : String} {dgst : Digest} {desc : Descriptor}
    (h : w.files.statLink k name dgst = .ok desc) :
    w.files.links k name dgst = some dgst ∧ ∃ size, w.files.data dgst = some size ∧ desc = blobDesc dgst size := by
  obtain ⟨-, target, hl, hdata⟩ := Files.statLink_ok h
  obtain ⟨rfl, -⟩ := hw.links k name dgst target hl
  exact ⟨hl, (Files.statData_ok hdata).2⟩

theorem setDescriptor (hw : Coherent w) {repo : String} {dgst : Digest} {size : ℕ}
    (hd : w.files.data dgst = some size) (hl : ∃ k, w.files.links k repo dgst = some dgst) :
    Coherent ((repositoryScoped repo).setDescriptor dgst (blobDesc dgst size) w).2 := by
  rw [repositoryScoped_setDescriptor_blobDesc (hw.data_valid dgst size hd)]
  have hrepo : Coherent (w.add ⟨dgst, repo⟩ (blobDesc dgst size)) := hw.add hd (.inr hl)
  dsimp only
  split_ifs
  · exact hrepo.add hd (.inl rfl)
  · exact hrepo

theorem setDescriptor_link (hw : Coherent w) {repo : String} {dgst : Digest} {size : ℕ}
    (hd : w.files.data dgst = some size) (k : LinkPath) :
    Coherent (((repositoryScoped repo).setDescriptor dgst (blobDesc dgst size) w).2.link k repo dgst dgst) := by
  have hlinked : Coherent (w.link k repo dgst dgst) := hw.link hd
  have hl : ∃ k', (w.link k repo dgst dgst).files.links k' repo dgst = some dgst := ⟨k, by simp⟩
  have hsize : (w.link k repo dgst dgst).files.data dgst = some size := hd
  rw [repositoryScoped_setDescriptor_blobDesc (hw.data_valid dgst size hd)]
  dsimp only
  split_ifs
  · rw [World.add_link, World.add_link]
    exact (hlinked.add hsize (.inr hl)).add hsize (.inl rfl)
  · rw [World.add_link]
    exact hlinked.add hsize (.inr hl)

/-! ### The services of a coherent world -/

theorem statter_stat (hw : Coherent w) (reg : Registry) (dgst : Digest) :
    ∃ w', reg.statter.stat dgst w = (w.files.statData dgst, w') ∧ w'.files = w.files ∧ Coherent w' := by
  cases hc : reg.cached
  case false => exact ⟨w, by simp [Registry.statter, hc, blobStatter_stat], rfl, hw⟩
  case true =>
    simp only [Registry.statter, hc, if_true, cachedBlobStatter, provider]
    cases hv : dgst.validate with
    | some e =>
      exact ⟨w, by simp [Provider.stat, hv, blobStatter_stat, Files.statData], rfl, hw⟩
    | none =>
      cases he : w.lru ⟨dgst, ""⟩ with
      | some desc =>
        obtain ⟨size, hd, rfl, -⟩ := hw.entries _ desc he
        exact ⟨w, by simp [Provider.stat, hv, he, hw.statData_of_data hd], rfl, hw⟩
      | none =>
        cases hd : w.files.data dgst with
        | none => exact ⟨w, by simp [Provider.stat, hv, he, blobStatter_stat, Files.statData, hd], rfl, hw⟩
        | some size =>
          refine ⟨w.add ⟨dgst, ""⟩ (blobDesc dgst size), ?_, rfl, hw.add hd (.inl rfl)⟩
          simp [Provider.stat, hv, he, blobStatter_stat, Files.statData, hd, Provider.setDescriptor_blobDesc hv]

theorem linked_stat (hw : Coherent w) (reg : Registry) (k : LinkPath) (name : String) (dgst : Digest) :
    ∃ w', (linkedBlobStatter reg.statter k name).stat dgst w = (w.files.statLink k name dgst, w') ∧
      w'.files = w.files ∧ Coherent w' := by
  cases hv : dgst.validate with
  | some e => exact ⟨w, by simp [linkedBlobStatter, pathFor_spec_error k name hv, Files.statLink, hv], rfl, hw⟩
  | none =>
    obtain ⟨p, hp⟩ := pathFor_spec_ok k name hv
    cases hl : w.files.links k name dgst with
    | none => exact ⟨w, by simp [linkedBlobStatter, hp, hl, Files.statLink, hv], rfl, hw⟩
    | some target =>
      obtain ⟨w', hstat, hfiles, hw'⟩ := hw.statter_stat reg target
      exact ⟨w', by simp [linkedBlobStatter, hp, hl, Files.statLink, hv, hstat], hfiles, hw'⟩

theorem stat (hw : Coherent w) (lbs : LinkedBlobStore) (dgst : Digest) :
    ∃ w', lbs.stat dgst w = (w.answer lbs.registry.cached lbs.linkPath lbs.name dgst, w') ∧
      w'.files = w.files ∧ Coherent w' := by
  obtain ⟨w₁, hlinked, hf₁, hw₁⟩ := hw.linked_stat lbs.registry lbs.linkPath lbs.name dgst
  cases hc : lbs.registry.cached
  case false =>
    exact ⟨w₁, by simp [LinkedBlobStore.stat, LinkedBlobStore.blobAccessController, hc, hlinked,
      World.answer_false], hf₁, hw₁⟩
  case true =>
    simp only [LinkedBlobStore.stat, LinkedBlobStore.blobAccessController, hc, if_true, cachedBlobStatter]
    cases hv : dgst.validate with
    | some e =>
      refine ⟨w₁, ?_, hf₁, hw₁⟩
      simp [repositoryScoped, hlinked, World.answer, Files.statLink, hv]
    | none =>
      cases he : w.lru ⟨dgst, lbs.name⟩ with
      | some desc => exact ⟨w, by simp [repositoryScoped, World.answer, hv, he], rfl, hw⟩
      | none =>
        cases hs : w.files.statLink lbs.linkPath lbs.name dgst with
        | error err => exact ⟨w₁, by simp [repositoryScoped, hlinked, World.answer, hv, he, hs], hf₁, hw₁⟩
        | ok desc =>
          obtain ⟨hl, size, hd, rfl⟩ := hw.statLink_ok hs
          refine ⟨((repositoryScoped lbs.name).setDescriptor dgst (blobDesc dgst size) w₁).2, ?_, ?_, ?_⟩
          · simp [repositoryScoped, hlinked, World.answer, hv, he, hs]
          · rw [repositoryScoped_setDescriptor_blobDesc hv]
            dsimp only
            split_ifs <;> simp [hf₁]
          · exact hw₁.setDescriptor (by rw [hf₁]; exact hd) ⟨lbs.linkPath, by rw [hf₁]; exact hl⟩

theorem stat_fst (hw : Coherent w) (lbs : LinkedBlobStore) (dgst : Digest) :
    (lbs.stat dgst w).1 = w.answer lbs.registry.cached lbs.linkPath lbs.name dgst := by
  obtain ⟨w', h, -, -⟩ := hw.stat lbs dgst
  rw [h]

/-! ### What a store finds -/

variable {cached : Bool} {k : LinkPath} {name : String} {dgst : Digest} {desc : Descriptor}

theorem statLink_of_link (hw : Coherent w) {size : ℕ} (hl : w.files.links k name dgst = some dgst)
    (hd : w.files.data dgst = some size) : w.files.statLink k name dgst = .ok (blobDesc dgst size) := by
  simp [Files.statLink, hw.data_valid dgst size hd, hl, hw.statData_of_data hd]

theorem answer_ok (hw : Coherent w) (h : w.answer cached k name dgst = .ok desc) :
    ∃ size, w.files.data dgst = some size ∧ desc = blobDesc dgst size := by
  cases he : w.lru ⟨dgst, name⟩ with
  | none =>
    rw [World.answer_of_miss he] at h
    exact (hw.statLink_ok h).2
  | some entry =>
    cases cached
    case false =>
      rw [World.answer_false] at h
      exact (hw.statLink_ok h).2
    case true =>
      cases hv : dgst.validate with
      | some e => simp [World.answer, hv] at h
      | none =>
        rw [World.answer_of_entry hv he] at h
        cases h
        obtain ⟨size, hd, hdesc, -⟩ := hw.entries _ _ he
        exact ⟨size, hd, hdesc⟩

theorem answer_of_statLink (hw : Coherent w) (h : w.files.statLink k name dgst = .ok desc) (cached : Bool) :
    w.answer cached k name dgst = .ok desc := by
  cases cached
  case false => rwa [World.answer_false]
  case true =>
    cases he : w.lru ⟨dgst, name⟩ with
    | none => rwa [World.answer_of_miss he]
    | some entry =>
      obtain ⟨-, size, hd, rfl⟩ := hw.statLink_ok h
      obtain ⟨size', hd', rfl, -⟩ := hw.entries _ _ he
      have hsize : size' = size := Option.some.inj (hd'.symm.trans hd)
      rw [World.answer_of_entry (hw.data_valid dgst size hd) he, hsize]

theorem statLink_of_answer (hw : Coherent w) (hname : name ≠ "") (h : w.answer cached k name dgst = .ok desc) :
    ∃ k', w.files.statLink k' name dgst = .ok desc := by
  cases he : w.lru ⟨dgst, name⟩ with
  | none => exact ⟨k, by rwa [World.answer_of_miss he] at h⟩
  | some entry =>
    cases cached
    case false => exact ⟨k, by rwa [World.answer_false] at h⟩
    case true =>
      cases hv : dgst.validate with
      | some e => simp [World.answer, hv] at h
      | none =>
        rw [World.answer_of_entry hv he] at h
        cases h
        obtain ⟨size, hd, rfl, hrepo⟩ := hw.entries _ _ he
        obtain ⟨k', hl⟩ := hrepo.resolve_left hname
        exact ⟨k', hw.statLink_of_link hl hd⟩

/-! ### The calls that change the world -/

theorem blobStore_put (hw : Coherent w) (reg : Registry) (mediaType : String) (p : Bytes) :
    ∃ size w', blobStorePut reg.statter mediaType p w = (.ok (blobDesc (fromBytes p) size), w') ∧
      Coherent w' ∧ w'.files.links = w.files.links ∧ w'.files.data (fromBytes p) = some size ∧
      size = (w.files.data (fromBytes p)).getD p.length := by
  have hv := validate_fromBytes p
  obtain ⟨w₁, hstat, hf₁, hw₁⟩ := hw.statter_stat reg (fromBytes p)
  cases hd : w.files.data (fromBytes p) with
  | some size =>
    refine ⟨size, w₁, ?_, hw₁, by rw [hf₁], by rw [hf₁]; exact hd, by simp⟩
    simp [blobStorePut, hstat, hw.statData_of_data hd]
  | none =>
    obtain ⟨path, hpath⟩ := pathFor_blobData_ok hv
    have hnew : w₁.files.data (fromBytes p) = none := by rw [hf₁]; exact hd
    refine ⟨p.length, w₁.putData (fromBytes p) p.length, ?_, hw₁.putData hv hnew, by simp [hf₁], by simp,
      by simp⟩
    simp [blobStorePut, hstat, Files.statData, hv, hd, hpath, blobDesc]

/-- A put from a coherent world succeeds: the data is stored unless present, the
blob is linked, and a caching registry files its descriptor under the
repository. -/
theorem put (hw : Coherent w) (lbs : LinkedBlobStore) (mediaType : String) (p : Bytes) :
    ∃ size w', lbs.put mediaType p w = (.ok (blobDesc (fromBytes p) size), w') ∧ Coherent w' ∧
      w'.files.links = (w.link lbs.linkPath lbs.name (fromBytes p) (fromBytes p)).files.links ∧
      w'.files.data (fromBytes p) = some size ∧ size = (w.files.data (fromBytes p)).getD p.length ∧
      (lbs.registry.cached = true → w'.lru ⟨fromBytes p, lbs.name⟩ = some (blobDesc (fromBytes p) size)) := by
  have hv := validate_fromBytes p
  obtain ⟨size, w₁, hput, hw₁, hl₁, hd₁, hlen⟩ := hw.blobStore_put lbs.registry mediaType p
  obtain ⟨path, hpath⟩ := pathFor_spec_ok lbs.linkPath lbs.name hv
  have hlinks : ∀ w' : World, w'.files.links = w₁.files.links →
      (w'.link lbs.linkPath lbs.name (fromBytes p) (fromBytes p)).files.links =
        (w.link lbs.linkPath lbs.name (fromBytes p) (fromBytes p)).files.links := by
    intro w' hw'
    funext k' name' dgst'
    simp [hw', hl₁]
  cases hc : lbs.registry.cached
  case false =>
    refine ⟨size, w₁.link lbs.linkPath lbs.name (fromBytes p) (fromBytes p), ?_, hw₁.link hd₁,
      hlinks w₁ rfl, hd₁, hlen, by simp⟩
    simp [LinkedBlobStore.put, hput, LinkedBlobStore.blobAccessController, hc, linkedBlobStatter,
      LinkedBlobStore.linkBlob, hpath]
  case true =>
    have hf₂ := repositoryScoped_setDescriptor_files hv lbs.name size w₁
    refine ⟨size, ((repositoryScoped lbs.name).setDescriptor (fromBytes p) (blobDesc (fromBytes p) size) w₁).2.link
      lbs.linkPath lbs.name (fromBytes p) (fromBytes p), ?_, hw₁.setDescriptor_link hd₁ _,
      hlinks _ (by rw [hf₂]), by simp [hf₂, hd₁], hlen, fun _ => ?_⟩
    · simp [LinkedBlobStore.put, hput, LinkedBlobStore.blobAccessController, hc, cachedBlobStatter,
        LinkedBlobStore.linkBlob, hpath]
    · simpa using repositoryScoped_setDescriptor_lru hv lbs.name size w₁

/-- A delete through a caching registry drops the repository's entry before the
link, so the cache stays coherent; a delete that succeeds leaves neither. -/
theorem delete (hw : Coherent w) (lbs : LinkedBlobStore) (hc : lbs.registry.cached = true) (dgst : Digest) :
    Coherent (lbs.delete dgst w).2 ∧ (lbs.delete dgst w).2.files.data = w.files.data ∧
      ((lbs.delete dgst w).1 = none → dgst.validate = none ∧ (lbs.delete dgst w).2.lru ⟨dgst, lbs.name⟩ = none ∧
        (lbs.delete dgst w).2.files.links lbs.linkPath lbs.name dgst = none) := by
  cases hen : lbs.registry.deleteEnabled
  case false => simp [LinkedBlobStore.delete, hen, hw]
  case true =>
    obtain ⟨w₁, hstat, hf₁, hw₁⟩ := hw.stat lbs dgst
    rw [LinkedBlobStore.stat] at hstat
    cases ha : w.answer lbs.registry.cached lbs.linkPath lbs.name dgst with
    | error err => simp [LinkedBlobStore.delete, hen, hstat, ha, hw₁, hf₁]
    | ok desc =>
      obtain ⟨size, hd, rfl⟩ := hw.answer_ok ha
      have hv := hw.data_valid _ _ hd
      obtain ⟨path, hpath⟩ := pathFor_spec_ok lbs.linkPath lbs.name hv
      have hw₂ := hw₁.remove ⟨dgst, lbs.name⟩
      simp only [LinkedBlobStore.delete, hen, Bool.not_true, Bool.false_eq_true, if_false, hstat, ha]
      simp only [LinkedBlobStore.blobAccessController, hc, if_true, cachedBlobStatter, repositoryScoped,
        linkedBlobStatter, hpath]
      cases hl : (w₁.remove ⟨dgst, lbs.name⟩).files.links lbs.linkPath lbs.name dgst with
      | none => simp [hw₂, hf₁]
      | some target =>
        have hfree : (w₁.remove ⟨dgst, lbs.name⟩).lru ⟨dgst, lbs.name⟩ = none := by simp
        exact ⟨hw₂.unlink hfree, by simp [hf₁], fun _ => ⟨hv, by simp, by simp⟩⟩

theorem mount (hw : Coherent w) (lbs : LinkedBlobStore) (sourceRepo : String) (dgst : Digest) :
    Coherent (lbs.mount sourceRepo dgst w).2 := by
  obtain ⟨w₁, hstat, hf₁, hw₁⟩ := hw.stat (lbs.registry.blobs sourceRepo) dgst
  cases ha : w.answer (lbs.registry.blobs sourceRepo).registry.cached (lbs.registry.blobs sourceRepo).linkPath
      (lbs.registry.blobs sourceRepo).name dgst with
  | error err => simpa [LinkedBlobStore.mount, hstat, ha] using hw₁
  | ok stat =>
    obtain ⟨size, hd, rfl⟩ := hw.answer_ok ha
    obtain ⟨path, hpath⟩ := pathFor_spec_ok lbs.linkPath lbs.name (hw.data_valid _ _ hd)
    simp only [LinkedBlobStore.mount, hstat, ha, LinkedBlobStore.linkBlob, hpath]
    exact hw₁.link (by rw [hf₁]; exact hd)

theorem apply (hw : Coherent w) {reg : Registry} (hc : reg.cached = true) : ∀ op : Op, Coherent (op.apply reg w)
  | .stat k name dgst => by
    obtain ⟨w', h, -, hw'⟩ := hw.stat ⟨reg, name, k⟩ dgst
    simp only [Op.apply, h]
    exact hw'
  | .put k name mediaType p => by
    obtain ⟨_, w', h, hw', -⟩ := hw.put ⟨reg, name, k⟩ mediaType p
    simp only [Op.apply, h]
    exact hw'
  | .delete k name dgst => (hw.delete ⟨reg, name, k⟩ hc dgst).1
  | .mount name sourceRepo dgst => hw.mount (reg.blobs name) sourceRepo dgst

theorem of_run (hw : Coherent w) {reg : Registry} (hc : reg.cached = true) (ops : List Op) :
    Coherent (run reg ops w) := by
  induction ops generalizing w with
  | nil => exact hw
  | cons op ops ih => exact ih (hw.apply hc op)

end Coherent

/-! ## The cached registry against the uncached one -/

/-- A put into an empty registry stores the content under its digest and links it
into the store's link set only; a caching registry files the descriptor under
the repository. -/
theorem put_empty (lbs : LinkedBlobStore) (mediaType : String) (p : Bytes) :
    ∃ w', lbs.put mediaType p World.empty = (.ok (blobDesc (fromBytes p) p.length), w') ∧ Coherent w' ∧
      w'.files.links = (World.empty.link lbs.linkPath lbs.name (fromBytes p) (fromBytes p)).files.links ∧
      (lbs.registry.cached = true → w'.lru ⟨fromBytes p, lbs.name⟩ = some (blobDesc (fromBytes p) p.length)) := by
  obtain ⟨size, w', hput, hw', hl, -, hsize, he⟩ := Coherent.empty.put lbs mediaType p
  simp only [World.empty, Option.getD_none] at hsize
  subst hsize
  exact ⟨w', hput, hw', hl, he⟩

theorem statLink_other_empty {k k' : LinkPath} (hk : k' ≠ k) {w : World} (name name' : String) {p : Bytes}
    (hl : w.files.links = (World.empty.link k name (fromBytes p) (fromBytes p)).files.links) :
    w.files.statLink k' name' (fromBytes p) = .error .blobUnknown := by
  simp [Files.statLink, validate_fromBytes, hl, hk, World.empty]

theorem manifestExists_fst (ms : LinkedBlobStore) (dgst : Digest) (w : World) :
    (ms.manifestExists dgst w).1 = match (ms.stat dgst w).1 with
      | .ok _ => .ok true
      | .error .blobUnknown => .ok false
      | .error err => .error err := by
  unfold LinkedBlobStore.manifestExists
  rcases ms.stat dgst w with ⟨r, w'⟩
  rcases r with (_ | _ | _ | _ | _ | _) | _ <;> rfl

theorem Coherent.stat_of_entry {w : World} (hw : Coherent w) (lbs : LinkedBlobStore) (hc : lbs.registry.cached = true)
    {dgst : Digest} {desc : Descriptor} (hv : dgst.validate = none) (he : w.lru ⟨dgst, lbs.name⟩ = some desc) :
    (lbs.stat dgst w).1 = .ok desc := by
  rw [hw.stat_fst, hc]
  exact World.answer_of_entry hv he

section Divergence

variable (deleteEnabled : Bool) (name sourceRepo mediaType : String) (p : Bytes)

theorem layer_exists_as_manifest :
    ((Registry.manifests ⟨true, deleteEnabled⟩ name).manifestExists (fromBytes p)
        ((Registry.blobs ⟨true, deleteEnabled⟩ name).put mediaType p World.empty).2).1 = .ok true ∧
      ((Registry.manifests ⟨false, deleteEnabled⟩ name).manifestExists (fromBytes p)
        ((Registry.blobs ⟨false, deleteEnabled⟩ name).put mediaType p World.empty).2).1 = .ok false := by
  obtain ⟨w₁, hput₁, hw₁, -, he₁⟩ := put_empty (Registry.blobs ⟨true, deleteEnabled⟩ name) mediaType p
  obtain ⟨w₂, hput₂, -, hl₂, -⟩ := put_empty (Registry.blobs ⟨false, deleteEnabled⟩ name) mediaType p
  have hk : LinkPath.manifestRevisionLinkPath ≠ LinkPath.blobLinkPath := by decide
  have hfound := hw₁.stat_of_entry (Registry.manifests ⟨true, deleteEnabled⟩ name) rfl (validate_fromBytes p) (he₁ rfl)
  have hmissing : ((Registry.manifests ⟨false, deleteEnabled⟩ name).stat (fromBytes p) w₂).1 = .error .blobUnknown := by
    rw [LinkedBlobStore.stat_uncached _ rfl]
    exact statLink_other_empty hk name name hl₂
  simp only [hput₁, hput₂, manifestExists_fst, hfound, hmissing, and_self]

theorem manifest_found_as_layer :
    ((Registry.blobs ⟨true, deleteEnabled⟩ name).stat (fromBytes p)
        ((Registry.manifests ⟨true, deleteEnabled⟩ name).put mediaType p World.empty).2).1 =
        .ok (blobDesc (fromBytes p) p.length) ∧
      ((Registry.blobs ⟨false, deleteEnabled⟩ name).stat (fromBytes p)
        ((Registry.manifests ⟨false, deleteEnabled⟩ name).put mediaType p World.empty).2).1 = .error .blobUnknown := by
  obtain ⟨w₁, hput₁, hw₁, -, he₁⟩ := put_empty (Registry.manifests ⟨true, deleteEnabled⟩ name) mediaType p
  obtain ⟨w₂, hput₂, -, hl₂, -⟩ := put_empty (Registry.manifests ⟨false, deleteEnabled⟩ name) mediaType p
  have hk : LinkPath.blobLinkPath ≠ LinkPath.manifestRevisionLinkPath := by decide
  have hfound := hw₁.stat_of_entry (Registry.blobs ⟨true, deleteEnabled⟩ name) rfl (validate_fromBytes p) (he₁ rfl)
  have hmissing : ((Registry.blobs ⟨false, deleteEnabled⟩ name).stat (fromBytes p) w₂).1 = .error .blobUnknown := by
    rw [LinkedBlobStore.stat_uncached _ rfl]
    exact statLink_other_empty hk name name hl₂
  simp only [hput₁, hput₂]
  exact ⟨hfound, hmissing⟩

/-- A manifest of one repository can be mounted as a layer into another only when
the registry caches: the source repository's `Blobs` finds it in the cache. -/
theorem manifest_mounts_as_layer :
    ((Registry.blobs ⟨true, deleteEnabled⟩ name).mount sourceRepo (fromBytes p)
        ((Registry.manifests ⟨true, deleteEnabled⟩ sourceRepo).put mediaType p World.empty).2).1 =
        .ok (blobDesc (fromBytes p) p.length) ∧
      ((Registry.blobs ⟨false, deleteEnabled⟩ name).mount sourceRepo (fromBytes p)
        ((Registry.manifests ⟨false, deleteEnabled⟩ sourceRepo).put mediaType p World.empty).2).1 =
        .error .blobUnknown := by
  obtain ⟨w₁, hput₁, hw₁, -, he₁⟩ := put_empty (Registry.manifests ⟨true, deleteEnabled⟩ sourceRepo) mediaType p
  obtain ⟨w₂, hput₂, -, hl₂, -⟩ := put_empty (Registry.manifests ⟨false, deleteEnabled⟩ sourceRepo) mediaType p
  have hk : LinkPath.blobLinkPath ≠ LinkPath.manifestRevisionLinkPath := by decide
  obtain ⟨w₁', hstat₁, -, -⟩ := hw₁.stat (Registry.blobs ⟨true, deleteEnabled⟩ sourceRepo) (fromBytes p)
  have hanswer : w₁.answer true LinkPath.blobLinkPath sourceRepo (fromBytes p) = .ok (blobDesc (fromBytes p) p.length) :=
    World.answer_of_entry (validate_fromBytes p) (he₁ rfl)
  have hstat₂ := LinkedBlobStore.stat_uncached (Registry.blobs ⟨false, deleteEnabled⟩ sourceRepo) rfl (fromBytes p) w₂
  have hmissing : w₂.files.statLink LinkPath.blobLinkPath sourceRepo (fromBytes p) = .error .blobUnknown :=
    statLink_other_empty hk sourceRepo sourceRepo hl₂
  obtain ⟨path, hpath⟩ := pathFor_spec_ok LinkPath.blobLinkPath name (validate_fromBytes p)
  simp only [hput₁, hput₂, LinkedBlobStore.mount]
  refine ⟨?_, ?_⟩
  · simp only [Registry.blobs] at hstat₁ ⊢
    simp [hstat₁, hanswer, LinkedBlobStore.linkBlob, hpath, blobDesc]
  · simp only [Registry.blobs] at hstat₂ ⊢
    simp [hstat₂, hmissing]

/-- The cache does not keep the registry's answers: from an empty registry, a
blob put through a repository's `Blobs` exists as a manifest of it, a manifest
put through its `Manifests` is found by its `Blobs`, and a manifest of a source
repository can be mounted as a layer, all only when the registry caches. -/
theorem descriptorCache_merges_link_sets :
    ((Registry.manifests ⟨true, deleteEnabled⟩ name).manifestExists (fromBytes p)
        ((Registry.blobs ⟨true, deleteEnabled⟩ name).put mediaType p World.empty).2).1 = .ok true ∧
      ((Registry.manifests ⟨false, deleteEnabled⟩ name).manifestExists (fromBytes p)
        ((Registry.blobs ⟨false, deleteEnabled⟩ name).put mediaType p World.empty).2).1 = .ok false ∧
      ((Registry.blobs ⟨true, deleteEnabled⟩ name).stat (fromBytes p)
        ((Registry.manifests ⟨true, deleteEnabled⟩ name).put mediaType p World.empty).2).1 =
        .ok (blobDesc (fromBytes p) p.length) ∧
      ((Registry.blobs ⟨false, deleteEnabled⟩ name).stat (fromBytes p)
        ((Registry.manifests ⟨false, deleteEnabled⟩ name).put mediaType p World.empty).2).1 = .error .blobUnknown ∧
      ((Registry.blobs ⟨true, deleteEnabled⟩ name).mount sourceRepo (fromBytes p)
        ((Registry.manifests ⟨true, deleteEnabled⟩ sourceRepo).put mediaType p World.empty).2).1 =
        .ok (blobDesc (fromBytes p) p.length) ∧
      ((Registry.blobs ⟨false, deleteEnabled⟩ name).mount sourceRepo (fromBytes p)
        ((Registry.manifests ⟨false, deleteEnabled⟩ sourceRepo).put mediaType p World.empty).2).1 =
        .error .blobUnknown := by
  obtain ⟨hexists, hmissing⟩ := layer_exists_as_manifest deleteEnabled name mediaType p
  obtain ⟨hfound, hunknown⟩ := manifest_found_as_layer deleteEnabled name mediaType p
  obtain ⟨hmounted, hrefused⟩ := manifest_mounts_as_layer deleteEnabled name sourceRepo mediaType p
  exact ⟨hexists, hmissing, hfound, hunknown, hmounted, hrefused⟩

end Divergence

/-! ## Runs of a caching registry -/

section Runs

variable (deleteEnabled : Bool) (ops : List Op) (k : LinkPath) (name : String) (dgst : Digest) (desc : Descriptor)

theorem coherent_run : Coherent (run ⟨true, deleteEnabled⟩ ops World.empty) :=
  Coherent.empty.of_run (show (⟨true, deleteEnabled⟩ : Registry).cached = true from rfl) ops

/-- After any run of a caching registry, its stores find every blob that the
uncached statters find on the same files, with the same descriptor. -/
theorem cache_keeps_uncached_answers :
    (LinkedBlobStore.stat ⟨⟨false, deleteEnabled⟩, name, k⟩ dgst (run ⟨true, deleteEnabled⟩ ops World.empty)).1 =
        .ok desc →
      (LinkedBlobStore.stat ⟨⟨true, deleteEnabled⟩, name, k⟩ dgst (run ⟨true, deleteEnabled⟩ ops World.empty)).1 =
        .ok desc := by
  intro h
  have hw := coherent_run deleteEnabled ops
  rw [LinkedBlobStore.stat_uncached _ rfl] at h
  rw [hw.stat_fst]
  exact hw.answer_of_statLink h true

/-- After any run of a caching registry, a store of a named repository finds only
blobs that one of the repository's two link sets holds: the cache answers
nothing across repositories. -/
theorem cache_answers_only_linked (hname : name ≠ "") :
    (LinkedBlobStore.stat ⟨⟨true, deleteEnabled⟩, name, k⟩ dgst (run ⟨true, deleteEnabled⟩ ops World.empty)).1 =
        .ok desc →
      ∃ k', (LinkedBlobStore.stat ⟨⟨false, deleteEnabled⟩, name, k'⟩ dgst
        (run ⟨true, deleteEnabled⟩ ops World.empty)).1 = .ok desc := by
  intro h
  have hw := coherent_run deleteEnabled ops
  rw [hw.stat_fst] at h
  obtain ⟨k', hk'⟩ := hw.statLink_of_answer hname h
  exact ⟨k', by rw [LinkedBlobStore.stat_uncached _ rfl]; exact hk'⟩

/-- After a put through a caching registry's `Blobs`, into a coherent world that
holds the content with its length or not at all, the uncached `Blobs` finds the
blob through its link and the cached `Manifests` finds it in the cache. -/
theorem put_found {w : World} (hw : Coherent w) (p : Bytes)
    (hd : (w.files.data (fromBytes p)).getD p.length = p.length) :
    (LinkedBlobStore.stat ⟨⟨false, deleteEnabled⟩, name, .blobLinkPath⟩ (fromBytes p)
        ((LinkedBlobStore.mk ⟨true, deleteEnabled⟩ name .blobLinkPath).put "application/octet-stream" p w).2).1 =
        .ok (blobDesc (fromBytes p) p.length) ∧
      (LinkedBlobStore.stat ⟨⟨true, deleteEnabled⟩, name, .manifestRevisionLinkPath⟩ (fromBytes p)
        ((LinkedBlobStore.mk ⟨true, deleteEnabled⟩ name .blobLinkPath).put "application/octet-stream" p w).2).1 =
        .ok (blobDesc (fromBytes p) p.length) := by
  obtain ⟨size, w', hput, hw', hl, hdata, hsize, he⟩ :=
    hw.put (LinkedBlobStore.mk ⟨true, deleteEnabled⟩ name .blobLinkPath) "application/octet-stream" p
  rw [hd] at hsize
  subst hsize
  have hlink : w'.files.links .blobLinkPath name (fromBytes p) = some (fromBytes p) := by
    rw [hl]
    simp
  rw [hput]
  refine ⟨?_, hw'.stat_of_entry _ rfl (validate_fromBytes p) (he rfl)⟩
  rw [LinkedBlobStore.stat_uncached _ rfl]
  exact hw'.statLink_of_link hlink hdata

theorem put_delete_put_found (p : Bytes) :
    let ops : List Op := [.put .blobLinkPath name "application/octet-stream" p,
      .delete .blobLinkPath name (fromBytes p), .put .blobLinkPath name "application/octet-stream" p]
    (LinkedBlobStore.stat ⟨⟨false, deleteEnabled⟩, name, .blobLinkPath⟩ (fromBytes p)
        (run ⟨true, deleteEnabled⟩ ops World.empty)).1 = .ok (blobDesc (fromBytes p) p.length) ∧
      (LinkedBlobStore.stat ⟨⟨true, deleteEnabled⟩, name, .manifestRevisionLinkPath⟩ (fromBytes p)
        (run ⟨true, deleteEnabled⟩ ops World.empty)).1 = .ok (blobDesc (fromBytes p) p.length) := by
  intro ops
  obtain ⟨size, w₁, hput₁, hw₁, -, hd₁, hsize, -⟩ :=
    Coherent.empty.put (LinkedBlobStore.mk ⟨true, deleteEnabled⟩ name .blobLinkPath) "application/octet-stream" p
  simp only [World.empty, Option.getD_none] at hsize
  subst hsize
  obtain ⟨hw₂, hdata₂, -⟩ := hw₁.delete (LinkedBlobStore.mk ⟨true, deleteEnabled⟩ name .blobLinkPath) rfl (fromBytes p)
  have hd₂ : (((LinkedBlobStore.mk ⟨true, deleteEnabled⟩ name .blobLinkPath).delete (fromBytes p) w₁).2.files.data
      (fromBytes p)).getD p.length = p.length := by
    rw [hdata₂, hd₁]
    rfl
  have hrun : run ⟨true, deleteEnabled⟩ ops World.empty =
      ((LinkedBlobStore.mk ⟨true, deleteEnabled⟩ name .blobLinkPath).put "application/octet-stream" p
        ((LinkedBlobStore.mk ⟨true, deleteEnabled⟩ name .blobLinkPath).delete (fromBytes p) w₁).2).2 := by
    simp only [ops, run, List.foldl_cons, List.foldl_nil, Op.apply, hput₁]
  rw [hrun]
  exact put_found deleteEnabled name hw₂ p hd₂

theorem cache_keeps_uncached_answers_put :
    let ops : List Op := [.put .blobLinkPath "library/ubuntu" "application/octet-stream" [0x61, 0x62],
      .delete .blobLinkPath "library/ubuntu" (fromBytes [0x61, 0x62]),
      .put .blobLinkPath "library/ubuntu" "application/octet-stream" [0x61, 0x62]]
    (LinkedBlobStore.stat ⟨⟨false, true⟩, "library/ubuntu", .blobLinkPath⟩ (fromBytes [0x61, 0x62])
        (run ⟨true, true⟩ ops World.empty)).1 = .ok (blobDesc (fromBytes [0x61, 0x62]) 2) ∧
      (LinkedBlobStore.stat ⟨⟨true, true⟩, "library/ubuntu", .blobLinkPath⟩ (fromBytes [0x61, 0x62])
        (run ⟨true, true⟩ ops World.empty)).1 = .ok (blobDesc (fromBytes [0x61, 0x62]) 2) := by
  intro ops
  have hfound := (put_delete_put_found true "library/ubuntu" [0x61, 0x62]).1
  exact ⟨hfound, cache_keeps_uncached_answers true ops .blobLinkPath "library/ubuntu" (fromBytes [0x61, 0x62])
    (blobDesc (fromBytes [0x61, 0x62]) 2) hfound⟩

theorem cache_answers_only_linked_put :
    let ops : List Op := [.put .blobLinkPath "library/ubuntu" "application/octet-stream" [0x61, 0x62],
      .delete .blobLinkPath "library/ubuntu" (fromBytes [0x61, 0x62]),
      .put .blobLinkPath "library/ubuntu" "application/octet-stream" [0x61, 0x62]]
    "library/ubuntu" ≠ "" ∧
      (LinkedBlobStore.stat ⟨⟨true, true⟩, "library/ubuntu", .manifestRevisionLinkPath⟩ (fromBytes [0x61, 0x62])
        (run ⟨true, true⟩ ops World.empty)).1 = .ok (blobDesc (fromBytes [0x61, 0x62]) 2) ∧
      ∃ k', (LinkedBlobStore.stat ⟨⟨false, true⟩, "library/ubuntu", k'⟩ (fromBytes [0x61, 0x62])
        (run ⟨true, true⟩ ops World.empty)).1 = .ok (blobDesc (fromBytes [0x61, 0x62]) 2) := by
  intro ops
  have hname : "library/ubuntu" ≠ "" := by simp
  have hfound := (put_delete_put_found true "library/ubuntu" [0x61, 0x62]).2
  exact ⟨hname, hfound, cache_answers_only_linked true ops .manifestRevisionLinkPath "library/ubuntu"
    (fromBytes [0x61, 0x62]) (blobDesc (fromBytes [0x61, 0x62]) 2) hname hfound⟩

end Runs

end DockerRegistry.Storage.DescriptorCache
