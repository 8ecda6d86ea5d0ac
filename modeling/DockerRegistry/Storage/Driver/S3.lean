import DockerRegistry.Storage.Driver.Walk

/-!
# The S3 driver's read side

`Stat`, `List` and `Walk` of `registry/storage/driver/s3-aws/s3.go`, over a
bucket whose `ListObjectsV2` returns the stored keys under a prefix after
`StartAfter`, in byte order, and whose `HeadObject` succeeds on stored keys.
All pages of a listing are taken together: the walk builds the entries of a page
from its keys alone, so splitting the keys into pages changes nothing.

`Walk` does not list directory by directory: it lists every key below the root
once, infers the directories between consecutive keys with `directoryDiff`, and
skips the entries that start with the last directory the walk function skipped.
Key order is byte order, in which `foo-bar/x` comes before `foo/y`; the walks
of `WalkFallback` order siblings with `sort.Strings`, where `/foo` comes first.
-/

namespace DockerRegistry.Storage.S3

open GoPath Driver

/-- The driver's root directory and the keys stored in its bucket. -/
structure Driver where
  rootDirectory : String
  keys : List String
  deriving DecidableEq, Repr

namespace Driver

variable (d : Driver)

def s3Path (path : String) : String := trimLeft (trimRight d.rootDirectory "/" ++ path) "/"

/-- `ListObjectsV2` without a delimiter, all pages together: the stored keys
that start with `pre` and come after `startAfter`, in byte order. -/
def listObjects (pre startAfter : String) : List String :=
  sortStrings (d.keys.dedup.filter fun key => hasPrefix key pre && decide (startAfter < key))

/-- `ListObjectsV2` with the delimiter `/`: the keys with no slash after `pre`,
and the common prefixes up to the first slash after it. -/
def listObjectsDelimited (pre : String) : List String × List String :=
  let objects := d.listObjects pre ""
  let contents := objects.filter fun key => '/' ∉ key.toList.drop pre.toList.length
  let commonPrefixes := (objects.filterMap fun key =>
    let rest := key.toList.drop pre.toList.length
    if '/' ∈ rest then some (String.ofList (pre.toList ++ rest.takeWhile (· ≠ '/') ++ ['/'])) else none).dedup
  (contents, commonPrefixes)

/-- `statHead`: a stored key is a file; `HeadObject` fails otherwise. -/
def statHead (path : String) : Option FileInfo :=
  if d.s3Path path ∈ d.keys then some ⟨path, false⟩ else none

/-- `statList`: the first key that starts with the path's key, which makes the path
a directory unless it is that key. -/
def statList (path : String) : Except Error FileInfo :=
  match d.listObjects (d.s3Path path) "" with
  | key :: _ => if key ≠ d.s3Path path then .ok ⟨path, true⟩ else .ok ⟨path, false⟩
  | [] => .error (.pathNotFound path)

/-- `Stat`: `HeadObject`, and on its failure `statList`. -/
def stat (path : String) : Except Error FileInfo :=
  match d.statHead path with
  | some fileInfo => .ok fileInfo
  | none => d.statList path

/-- The prefix `List` and `Walk` put before a key when the root directory is empty. -/
def keyPrefix : String := if d.s3Path "" = "" then "/" else ""

/-- `List`: the files and directories one level below `opath`. -/
def list (opath : String) : Except Error (List String) :=
  -- `path[len(path)-1]` is out of range for the empty path
  if opath = "" then .error .panic
  else
    let path := if opath ≠ "/" ∧ opath.toList.getLast? ≠ some '/' then opath ++ "/" else opath
    let listing := d.listObjectsDelimited (d.s3Path path)
    let files := listing.1.map fun key => replaceFirst key (d.s3Path "") d.keyPrefix
    let directories := listing.2.map fun commonPrefix =>
      replaceFirst (String.ofList commonPrefix.toList.dropLast) (d.s3Path "") d.keyPrefix
    if opath ≠ "/" ∧ files = [] ∧ directories = [] then .error (.pathNotFound opath)
    else .ok (files ++ directories)

def storageDriver : StorageDriver := ⟨d.list, d.stat⟩

end Driver

/-- The loop of `directoryDiff`: go up from `parent` until the root, `prev`, or a
directory `prev` lies in; at most `fuel` steps. -/
def directoryDiffLoop (prev : String) : ℕ → String → List String → List String
  | 0, _, paths => paths
  | fuel + 1, parent, paths =>
    let parent := dir parent
    if parent = "/" ∨ parent = prev ∨ hasPrefix (prev ++ "/") (parent ++ "/") = true then paths
    else directoryDiffLoop prev fuel parent (paths ++ [parent])

/-- `directoryDiff`: the directories of `current` that `prev` is not in, from the
outermost. -/
def directoryDiff (prev current : String) : List String :=
  if prev = "" ∨ current = "" then []
  else (directoryDiffLoop prev current.toList.length current []).reverse

theorem directoryDiffLoop_succ (prev : String) (fuel : ℕ) (parent : String) (paths : List String) :
    directoryDiffLoop prev (fuel + 1) parent paths =
      if dir parent = "/" ∨ dir parent = prev ∨ hasPrefix (prev ++ "/") (dir parent ++ "/") = true then paths
      else directoryDiffLoop prev fuel (dir parent) (paths ++ [dir parent]) := rfl

section DirectoryDiff

variable {ps : List (List Char)} (hps : ∀ e ∈ ps, PlainElement e)
include hps

theorem directoryDiff_stop_iff {bs : List (List Char)} (hbs : ∀ e ∈ bs, PlainElement e) :
    (String.ofList (rooted bs) = "/" ∨ String.ofList (rooted bs) = String.ofList (rooted ps) ∨
      hasPrefix (String.ofList (rooted ps) ++ "/") (String.ofList (rooted bs) ++ "/") = true) ↔
      bs = [] ∨ bs <+: ps := by
  have hroot : String.ofList (rooted bs) = "/" ↔ bs = [] := by
    rw [← ofList_rooted_nil, ofList_rooted_inj hbs (by simp)]
  rw [hroot, ofList_rooted_inj hbs hps]
  rcases eq_or_ne bs [] with rfl | hne
  · simp
  · rw [hasPrefix_rooted_slash_iff hbs hps hne]
    constructor
    · rintro (h | rfl | h)
      · exact absurd h hne
      · exact .inr (List.prefix_refl _)
      · exact .inr h
    · rintro (h | h)
      · exact absurd h hne
      · exact .inr (.inr h)

/-- From a clean rooted `parent` with at least as much fuel as it has elements,
the loop adds the ancestors of `parent` other than the root, `prev` and those
of `prev`, the deepest first. -/
theorem directoryDiffLoop_rooted {fuel : ℕ} {as : List (List Char)} (has : ∀ e ∈ as, PlainElement e)
    (hfuel : as.length ≤ fuel) (acc : List String) :
    directoryDiffLoop (String.ofList (rooted ps)) fuel (String.ofList (rooted as)) acc =
      acc ++ (((properPrefixes as).filter fun bs => bs ≠ [] ∧ ¬ bs <+: ps).map
        fun bs => String.ofList (rooted bs)).reverse := by
  induction fuel generalizing as acc with
  | zero =>
    rw [List.length_eq_zero_iff.mp (Nat.le_zero.mp hfuel)]
    simp [directoryDiffLoop, properPrefixes]
  | succ fuel ih =>
    rcases List.eq_nil_or_concat' as with rfl | ⟨bs, x, rfl⟩
    · rw [directoryDiffLoop_succ, ofList_rooted_nil, dir_root, if_pos (.inl rfl)]
      simp [properPrefixes]
    · have hbs : ∀ e ∈ bs, PlainElement e := fun e he => has e (List.mem_append_left _ he)
      have hx : PlainElement x := has x (List.mem_append_right _ (List.mem_singleton_self x))
      rw [directoryDiffLoop_succ, dir_rooted_concat hbs hx, properPrefixes_concat]
      by_cases hstop : bs = [] ∨ bs <+: ps
      · have hnone : ∀ cs ∈ properPrefixes bs ++ [bs], ¬ (cs ≠ [] ∧ ¬ cs <+: ps) := by
          intro cs hcs hcond
          obtain ⟨hne, hnot⟩ := hcond
          have hcs' : cs <+: bs := by
            rcases List.mem_append.mp hcs with hcs | hcs
            · exact (mem_properPrefixes.mp hcs).1
            · exact (List.mem_singleton.mp hcs) ▸ List.prefix_refl _
          rcases hstop with rfl | hbs'
          · exact hne (List.prefix_nil.mp hcs')
          · exact hnot (hcs'.trans hbs')
        rw [if_pos ((directoryDiff_stop_iff hps hbs).mpr hstop), List.filter_eq_nil_iff.mpr
          fun cs hcs => by simpa using hnone cs hcs]
        simp
      · have hlen : bs.length ≤ fuel := by
          simp only [List.length_append, List.length_singleton] at hfuel
          omega
        have hkeep : bs ≠ [] ∧ ¬ bs <+: ps := by tauto
        rw [if_neg (mt (directoryDiff_stop_iff hps hbs).mp hstop), ih hbs hlen]
        simp [List.filter_append, hkeep]

/-- The directories `prev` is not in, among the ancestors of `current`, by their
elements: `prev` and its ancestors are the prefixes of its elements. -/
theorem filter_ancestors_rooted {cs : List (List Char)} (hcs : ∀ e ∈ cs, PlainElement e) :
    (ancestors (String.ofList (rooted cs))).filter (fun a => a ≠ "/" ∧ a ≠ String.ofList (rooted ps) ∧
      a ∉ ancestors (String.ofList (rooted ps))) =
      ((properPrefixes cs).filter fun bs => bs ≠ [] ∧ ¬ bs <+: ps).map fun bs => String.ofList (rooted bs) := by
  have hcurrent : ancestors (String.ofList (rooted cs)) = (properPrefixes cs).map fun bs => String.ofList (rooted bs) := by
    rw [ancestors, components_rooted hcs]
  rw [hcurrent, List.filter_map]
  refine congrArg _ (List.filter_congr fun bs hbs => ?_)
  have hbs' : ∀ e ∈ bs, PlainElement e := fun e he => hcs e ((mem_properPrefixes.mp hbs).1.subset he)
  have hroot : String.ofList (rooted bs) = "/" ↔ bs = [] := by
    rw [← ofList_rooted_nil, ofList_rooted_inj hbs' (by simp)]
  rw [Function.comp_apply, decide_eq_decide, ne_eq, hroot, ne_eq, ofList_rooted_inj hbs' hps,
    mem_ancestors_rooted hbs' hps]
  constructor
  · rintro ⟨hne, hprev, habove⟩
    exact ⟨hne, fun h => habove ⟨h, hprev⟩⟩
  · rintro ⟨hne, hnot⟩
    exact ⟨hne, fun h => hnot (h ▸ List.prefix_refl _), fun h => hnot h.1⟩

end DirectoryDiff

/-- `directoryDiff` of clean absolute paths: the loop stops by its own test once it
has gone up as many times as `current` has elements, and returns the proper
ancestors of `current` other than the root, `prev` and the ancestors of `prev`,
the root's children first. -/
theorem directoryDiff_ancestors {prev current : String} (hprev : isAbs prev = true ∧ clean prev = prev)
    (hcurrent : isAbs current = true ∧ clean current = current) :
    (∀ fuel, (components current).length ≤ fuel →
      (directoryDiffLoop prev fuel current []).reverse = directoryDiff prev current) ∧
      directoryDiff prev current =
        (ancestors current).filter fun a => a ≠ "/" ∧ a ≠ prev ∧ a ∉ ancestors prev := by
  obtain ⟨ps, hps, rfl⟩ := exists_rooted_of_clean hprev.1 hprev.2
  obtain ⟨cs, hcs, rfl⟩ := exists_rooted_of_clean hcurrent.1 hcurrent.2
  have hloop : ∀ fuel, cs.length ≤ fuel →
      (directoryDiffLoop (String.ofList (rooted ps)) fuel (String.ofList (rooted cs)) []).reverse =
        ((properPrefixes cs).filter fun bs => bs ≠ [] ∧ ¬ bs <+: ps).map fun bs => String.ofList (rooted bs) := by
    intro fuel hfuel
    rw [directoryDiffLoop_rooted hps hcs hfuel, List.nil_append, List.reverse_reverse]
  have hne : ∀ es : List (List Char), String.ofList (rooted es) ≠ "" := fun es h => by
    simpa [rooted] using congrArg String.toList h
  have hdiff : directoryDiff (String.ofList (rooted ps)) (String.ofList (rooted cs)) =
      ((properPrefixes cs).filter fun bs => bs ≠ [] ∧ ¬ bs <+: ps).map fun bs => String.ofList (rooted bs) := by
    rw [directoryDiff, if_neg (by simp [hne]), String.toList_ofList]
    exact hloop _ (length_le_length_rooted cs)
  rw [components_rooted hcs, hdiff, filter_ancestors_rooted hps hcs]
  exact ⟨fun fuel hfuel => hloop fuel hfuel, rfl⟩

/-- The first example of the source's comment on `directoryDiff`. -/
theorem directoryDiff_folder2 :
    directoryDiff "/path/to/folder/folder1/file" "/path/to/folder/folder2/folder1/file" =
        ["/path/to/folder/folder2", "/path/to/folder/folder2/folder1"] ∧
      directoryDiff "/path/to/folder/folder1/file" "/path/to/folder/folder2/folder1/file" =
        (ancestors "/path/to/folder/folder2/folder1/file").filter fun a =>
          a ≠ "/" ∧ a ≠ "/path/to/folder/folder1/file" ∧ a ∉ ancestors "/path/to/folder/folder1/file" :=
  ⟨by decide, (directoryDiff_ancestors (by decide) (by decide)).2⟩

/-- The entries of a listing: before each file the directories inferred since the
previous one, `prevDir` being the last directory inferred. -/
def walkInfos (keyPrefix root : String) : String → List String → List FileInfo
  | _, [] => []
  | prevDir, key :: keys =>
    let filePath := replaceFirst key root keyPrefix
    let dirs := directoryDiff prevDir filePath
    dirs.map (fun dir => ⟨dir, true⟩) ++
      -- an empty directory object, with a trailing slash, is not a file
      (if hasSuffix filePath "/" then [] else [⟨filePath, false⟩]) ++
      walkInfos keyPrefix root (dirs.getLastD prevDir) keys

/-- The walk function over the entries, skipping those that start with the last
directory it skipped. -/
def walkEntries {σ : Type} (f : WalkFn σ) : String → List FileInfo → σ → σ × Option Error
  | _, [], s => (s, none)
  | prevSkipDir, fileInfo :: rest, s =>
    if prevSkipDir ≠ "" ∧ hasPrefix fileInfo.path prevSkipDir = true then walkEntries f prevSkipDir rest s
    else
      match f s fileInfo with
      | (s, none) => walkEntries f prevSkipDir rest s
      | (s, some .skipDir) => walkEntries f fileInfo.path rest s
      | (s, some .filledBuffer) => (s, none)
      | (s, some e) => (s, some e)

/-- `doWalk`: one listing of every key below `fromPath` after the hint. -/
def doWalk (d : Driver) {σ : Type} (f : WalkFn σ) (fromPath startAfter : String) (s : σ) : σ × Option Error :=
  let path := if hasSuffix fromPath "/" then fromPath else fromPath ++ "/"
  let objects := d.listObjects (d.s3Path path) (d.s3Path startAfter)
  walkEntries f "" (walkInfos d.keyPrefix (d.s3Path "") fromPath objects) s

def Driver.walk (d : Driver) : Walker := fun f fromPath startAfterHint s => doWalk d f fromPath startAfterHint s

/-- Keys `foo-bar/x` and `foo/y` in a bucket with no root directory: `Walk` visits
`/foo-bar` and its file before `/foo`, where `WalkFallback` over the same
driver's `List` and `Stat` visits `/foo` first; and `Stat` calls `/fo` a
directory, as a key starts with `fo` though none with `fo/`. -/
theorem walk_keyOrder :
    ((⟨"", ["foo-bar/x", "foo/y"]⟩ : Driver).walk record "/" "" []).1 = ["/foo-bar", "/foo-bar/x", "/foo", "/foo/y"] ∧
      (WalkFallback (⟨"", ["foo-bar/x", "foo/y"]⟩ : Driver).storageDriver record 3 "/" "" []).1 =
        ["/foo", "/foo/y", "/foo-bar", "/foo-bar/x"] ∧
      (⟨"", ["foo-bar/x", "foo/y"]⟩ : Driver).stat "/fo" = .ok ⟨"/fo", true⟩ := by
  refine ⟨?_, ?_, ?_⟩ <;> decide

end DockerRegistry.Storage.S3
