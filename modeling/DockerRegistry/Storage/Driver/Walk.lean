import DockerRegistry.Digest
import DockerRegistry.Lib.GoPath
import DockerRegistry.Lib.ListOrder

/-!
# Walking a storage driver

`WalkFallback` and `doWalkFallback` of `registry/storage/driver/walk.go`, over
the two calls of a storage driver that they make, `List` and `Stat`.

`doWalkFallback` lists a directory, sorts the children with `sort.Strings`,
skips those at or before the start-after hint, and calls the walk function on
each of the others, entering a directory when the walk function returns nil.
Its recursion is bounded by a fuel argument. The walk function is a Go closure
over variables of its caller; here it takes and returns that state.

`WalkFallback` classifies the hint with `filepath.Rel`: a hint outside the root
either comes before the whole root, which is then walked, or after it; a hint
inside the root is walked up to the root, one `doWalkFallback` per ancestor,
each starting after the previous ancestor.

`KeyStore` is a driver whose directories are the paths leading to its files, as
in the object-store drivers; it is the reference tree the walks are compared
with.
-/

namespace DockerRegistry.Storage.Driver

open GoPath

/-- The Go error values that the walks and their callers create or test for. -/
inductive Error
  /-- `PathNotFoundError` -/
  | pathNotFound (path : String)
  /-- `ErrSkipDir` -/
  | skipDir
  /-- `ErrFilledBuffer` -/
  | filledBuffer
  /-- `io.EOF` -/
  | eof
  /-- `distribution.ErrRepositoryUnknown` -/
  | repositoryUnknown (name : String)
  /-- an error of `Digest.Validate` -/
  | digest (e : DigestError)
  /-- a runtime panic, which no caller recovers -/
  | panic
  /-- any other error, by its message -/
  | other (msg : String)
  deriving DecidableEq, Repr

/-- The fields of `FileInfo` the walks read. -/
structure FileInfo where
  path : String
  isDir : Bool
  deriving DecidableEq, Repr

/-- The read side of a `StorageDriver` that a walk uses. -/
structure StorageDriver where
  list : String → Except Error (List String)
  stat : String → Except Error FileInfo

/-- A `WalkFn` with the state of the closure: called on a file, it returns the
new state and nil or an error. -/
abbrev WalkFn (σ : Type) := σ → FileInfo → σ × Option Error

def sortStrings (l : List String) : List String := l.insertionSort (· ≤ ·)

def childPath (p e : String) : String := String.ofList (p.toList ++ '/' :: e.toList)

theorem childPath_strictMono (p : String) : StrictMono (childPath p) := by
  intro a b hab
  have hsplit : ∀ e : String, p.toList ++ '/' :: e.toList = (p.toList ++ ['/']) ++ e.toList := by simp
  simp only [childPath]
  rw [hsplit, hsplit, ListOrder.ofList_append_lt_iff, ← String.lt_iff_toList_lt]
  exact hab

theorem childPath_toList (p e : String) : (childPath p e).toList = p.toList ++ '/' :: e.toList :=
  String.toList_ofList

theorem split_childPath (p : String) {e : String} (he : '/' ∉ e.toList) :
    split (childPath p e) = (String.ofList (p.toList ++ ['/']), e) := by
  rw [childPath, split_append_slash _ he, String.ofList_toList]

section Walk

variable {σ : Type} (d : StorageDriver) (f : WalkFn σ)

/-- The loop of `doWalkFallback` over the sorted children of a directory;
`descend` is the recursive call for a child directory. The flag is `ok`: false
when the walk function filled its buffer. -/
def walkChildren (descend : String → σ → σ × Except Error Bool) (startAfterHint : String) :
    List String → σ → σ × Except Error Bool
  | [], s => (s, .ok true)
  | child :: rest, s =>
    if child ≤ startAfterHint then walkChildren descend startAfterHint rest s
    else
      match d.stat child with
      -- a path deleted between `List` and `Stat` is ignored
      | .error (.pathNotFound _) => walkChildren descend startAfterHint rest s
      | .error e => (s, .error e)
      | .ok fileInfo =>
        match f s fileInfo with
        | (s, none) =>
          if fileInfo.isDir then
            match descend child s with
            | (s, .ok true) => walkChildren descend startAfterHint rest s
            | r => r
          else walkChildren descend startAfterHint rest s
        | (s, some .skipDir) => walkChildren descend startAfterHint rest s
        | (s, some .filledBuffer) => (s, .ok false)
        | (s, some e) => (s, .error e)

/-- `doWalkFallback`, entering at most `fuel` levels of directories. -/
def doWalkFallback : ℕ → String → String → σ → σ × Except Error Bool
  | 0, _, _, s => (s, .ok true)
  | fuel + 1, fromPath, startAfterHint, s =>
    match d.list fromPath with
    | .error e => (s, .error e)
    | .ok children =>
      walkChildren d f (fun child => doWalkFallback fuel child startAfterHint) startAfterHint
        (sortStrings children) s

/-- The loop of `WalkFallback` for a hint inside the root: walk `base` after the
hint, then make `base` the hint and its parent the new `base`, while `base`
starts with the root. `n` bounds the number of rounds. -/
def climb (fuel : ℕ) (fromPath : String) : ℕ → String → String → σ → σ × Option Error
  | 0, _, _, s => (s, none)
  | n + 1, base, startAfterHint, s =>
    if hasPrefix base fromPath then
      match doWalkFallback d f fuel base startAfterHint s with
      | (s, .error (.pathNotFound _)) | (s, .ok _) =>
        if base = fromPath then (s, none)
        else
          let parent := (split base).1
          let parent := if parent.toList.length > 1 then trimSuffix parent "/" else parent
          climb fuel fromPath n parent base s
      | (s, .error e) => (s, some e)
    else (s, none)

/-- Whether `WalkFallback` takes the hint for one outside the root. -/
def hintOutside (fromPath startAfterHint : String) : Bool :=
  match rel fromPath startAfterHint with
  | .ok r => hasPrefix r ".."
  | .error _ => true

/-- `WalkFallback` with the option `WithStartAfterHint(startAfterHint)`; the empty
hint is no option. -/
def WalkFallback (fuel : ℕ) (fromPath startAfterHint : String) (s : σ) : σ × Option Error :=
  if hintOutside fromPath startAfterHint then
    -- a slash sorts before every other character, as in a depth-first order
    if replaceAll startAfterHint '/' '\x00' < replaceAll fromPath '/' '\x00' then
      match doWalkFallback d f fuel fromPath "" s with
      | (s, .error e) => (s, some e)
      | (s, .ok _) => (s, none)
    else (s, none)
  else climb d f fuel fromPath (startAfterHint.toList.length + 1) startAfterHint startAfterHint s

end Walk

/-- The depth-first pre-order of the paths below `p` in a tree whose directories
list as `children`, siblings in `sort.Strings` order: the order in which
`doWalkFallback` reaches them. -/
def preorderOf (children : String → List String) : ℕ → String → List String
  | 0, _ => []
  | n + 1, p => (sortStrings (children p)).flatMap fun c => c :: preorderOf children n c

/-- A driver's `Walk`, for walk functions of any state: the root, the start-after
hint and the initial state give the final state and the error. -/
abbrev Walker := ∀ {σ : Type}, WalkFn σ → String → String → σ → σ × Option Error

/-- A walk function that records the path of every file it is called on and
returns nil. -/
def record : WalkFn (List String) := fun seen fileInfo => (seen ++ [fileInfo.path], none)

/-! ## Stores of files -/

/-- A driver's files, named by absolute paths; a directory is a path that leads
to a file. -/
structure KeyStore where
  keys : List String
  deriving DecidableEq, Repr

namespace KeyStore

def dirPrefix (p : String) : List Char := if p = "/" then ['/'] else p.toList ++ ['/']

/-- The child of `p` on the way to `key`, when `key` lies below `p`. -/
def childToward (p key : String) : Option String :=
  let pre := dirPrefix p
  if pre.isPrefixOf key.toList then
    some (String.ofList (pre ++ (key.toList.drop pre.length).takeWhile (· ≠ '/')))
  else none

/-- `List`: the children of a directory; a file is not a directory, and a path
that leads nowhere does not exist. The root always exists. -/
def list (ks : KeyStore) (p : String) : Except Error (List String) :=
  match (ks.keys.filterMap (childToward p)).dedup with
  | [] =>
    if p = "/" then .ok []
    else if p ∈ ks.keys then .error (.other "not a directory")
    else .error (.pathNotFound p)
  | children => .ok children

def stat (ks : KeyStore) (p : String) : Except Error FileInfo :=
  if p ∈ ks.keys then .ok ⟨p, false⟩
  else if p = "/" ∨ ks.keys.any (fun key => (dirPrefix p).isPrefixOf key.toList) then .ok ⟨p, true⟩
  else .error (.pathNotFound p)

def driver (ks : KeyStore) : StorageDriver := ⟨ks.list, ks.stat⟩

/-- Enough fuel for every walk: each level of directories adds at least two
characters to a path. -/
def fuel (ks : KeyStore) : ℕ := ks.keys.foldr (fun key n => max key.toList.length n) 0 + 1

/-- The depth-first pre-order of the paths below `p`, siblings in `sort.Strings`
order. -/
def preorder (ks : KeyStore) : ℕ → String → List String
  | 0, _ => []
  | n + 1, p =>
    match ks.list p with
    | .ok children => (sortStrings children).flatMap fun c => c :: preorder ks n c
    | .error _ => []

def walk (ks : KeyStore) : Walker := fun f fromPath startAfterHint s =>
  WalkFallback ks.driver f ks.fuel fromPath startAfterHint s

/-- The paths a recording walk of `fromPath` after `startAfterHint` visits. -/
def walkPaths (ks : KeyStore) (fromPath startAfterHint : String) : List String :=
  (ks.walk record fromPath startAfterHint []).1

/-- `PutContent`: afterwards the file exists. Contents are not kept. -/
def putContent (ks : KeyStore) (p : String) : KeyStore := if p ∈ ks.keys then ks else ⟨ks.keys ++ [p]⟩

/-- `Delete`: remove a file, or a directory and everything below it; a path that
names nothing does not exist. -/
def delete (ks : KeyStore) (p : String) : KeyStore × Option Error :=
  let kept := ks.keys.filter fun key => !(key = p || (dirPrefix p).isPrefixOf key.toList)
  if kept.length = ks.keys.length then (ks, some (.pathNotFound p)) else (⟨kept⟩, none)

theorem list_of_ne_nil {ks : KeyStore} {p : String} (h : (ks.keys.filterMap (childToward p)).dedup ≠ []) :
    ks.list p = .ok (ks.keys.filterMap (childToward p)).dedup := by
  unfold list
  split
  · contradiction
  · rfl

theorem list_of_nil {ks : KeyStore} {p : String} (h : (ks.keys.filterMap (childToward p)).dedup = [])
    (hroot : p ≠ "/") (hfile : p ∉ ks.keys) : ks.list p = .error (.pathNotFound p) := by
  simp [list, h, hroot, hfile]

theorem mem_list_children {ks : KeyStore} {p c : String} :
    c ∈ (ks.keys.filterMap (childToward p)).dedup ↔ ∃ key ∈ ks.keys, childToward p key = some c := by
  simp [List.mem_dedup, List.mem_filterMap]

theorem stat_of_dir {ks : KeyStore} {p : String} (hfile : p ∉ ks.keys) {key : String}
    (hkey : key ∈ ks.keys) (hpre : (dirPrefix p).isPrefixOf key.toList = true) :
    ks.stat p = .ok ⟨p, true⟩ := by
  have hany : ks.keys.any (fun key => (dirPrefix p).isPrefixOf key.toList) = true :=
    List.any_eq_true.mpr ⟨key, hkey, hpre⟩
  simp [stat, hfile, hany]

theorem stat_cases (ks : KeyStore) (p : String) :
    (∃ isDir, ks.stat p = .ok ⟨p, isDir⟩) ∨ ks.stat p = .error (.pathNotFound p) := by
  unfold stat
  split_ifs
  · exact .inl ⟨false, rfl⟩
  · exact .inl ⟨true, rfl⟩
  · exact .inr rfl

theorem mem_putContent {ks : KeyStore} {p key : String} :
    key ∈ (ks.putContent p).keys ↔ key = p ∨ key ∈ ks.keys := by
  unfold putContent
  split_ifs with h
  · constructor
    · exact Or.inr
    · rintro (rfl | hk)
      · exact h
      · exact hk
  · simp [or_comm]

theorem delete_keys (ks : KeyStore) (p : String) :
    (ks.delete p).1.keys = ks.keys.filter fun key => !(key = p || (dirPrefix p).isPrefixOf key.toList) := by
  simp only [delete]
  split_ifs with h
  · exact (List.filter_eq_self.mpr (List.length_filter_eq_length_iff.mp h)).symm
  · rfl

theorem childToward_of_toList {p key : String} {e rest : List Char} (he : '/' ∉ e)
    (h : key.toList = dirPrefix p ++ e ++ '/' :: rest) :
    childToward p key = some (String.ofList (dirPrefix p ++ e)) := by
  have hpre : (dirPrefix p).isPrefixOf key.toList = true := by
    rw [h, List.isPrefixOf_iff_prefix, List.append_assoc]
    exact List.prefix_append _ _
  simp only [childToward]
  rw [if_pos hpre, h, List.append_assoc, List.drop_left, takeWhile_append_sep he]

theorem childToward_eq_some {p key c : String} (h : childToward p key = some c) :
    (dirPrefix p).isPrefixOf key.toList = true ∧ ∃ x, c.toList = dirPrefix p ++ x := by
  simp only [childToward] at h
  split_ifs at h with hpre
  refine ⟨hpre, (key.toList.drop (dirPrefix p).length).takeWhile (· ≠ '/'), ?_⟩
  rw [← Option.some.inj h, String.toList_ofList]

theorem dirPrefix_childPath {p : String} (hp : p ≠ "") (e : String) :
    dirPrefix (childPath p e) = p.toList ++ '/' :: (e.toList ++ ['/']) := by
  have hne : childPath p e ≠ "/" := by
    intro h
    have hchars := congrArg String.toList h
    rw [childPath_toList] at hchars
    obtain ⟨c, cs, hcs⟩ := List.exists_cons_of_ne_nil (String.toList_eq_nil_iff.not.mpr hp)
    rw [hcs] at hchars
    simp at hchars
  simp [dirPrefix, hne, childPath_toList]

end KeyStore

/-! ## Walk lemmas -/

section WalkLemmas

variable {σ : Type} {d : StorageDriver} {f : WalkFn σ}
  {descend : String → σ → σ × Except Error Bool} {hint c : String} {rest : List String} {s s' : σ}
  {fi : FileInfo}

theorem walkChildren_nil : walkChildren d f descend hint [] s = (s, .ok true) := rfl

theorem walkChildren_cons :
    walkChildren d f descend hint (c :: rest) s =
      if c ≤ hint then walkChildren d f descend hint rest s
      else
        match d.stat c with
        | .error (.pathNotFound _) => walkChildren d f descend hint rest s
        | .error e => (s, .error e)
        | .ok fileInfo =>
          match f s fileInfo with
          | (s, none) =>
            if fileInfo.isDir then
              match descend c s with
              | (s, .ok true) => walkChildren d f descend hint rest s
              | r => r
            else walkChildren d f descend hint rest s
          | (s, some .skipDir) => walkChildren d f descend hint rest s
          | (s, some .filledBuffer) => (s, .ok false)
          | (s, some e) => (s, .error e) :=
  rfl

theorem walkChildren_cons_of_le (h : c ≤ hint) :
    walkChildren d f descend hint (c :: rest) s = walkChildren d f descend hint rest s := by
  rw [walkChildren_cons, if_pos h]

theorem walkChildren_cons_notFound {q : String} (hle : ¬c ≤ hint) (hstat : d.stat c = .error (.pathNotFound q)) :
    walkChildren d f descend hint (c :: rest) s = walkChildren d f descend hint rest s := by
  rw [walkChildren_cons, if_neg hle, hstat]

theorem walkChildren_cons_skipDir (hle : ¬c ≤ hint) (hstat : d.stat c = .ok fi) (hf : f s fi = (s', some .skipDir)) :
    walkChildren d f descend hint (c :: rest) s = walkChildren d f descend hint rest s' := by
  rw [walkChildren_cons, if_neg hle, hstat]
  simp only [hf]

theorem walkChildren_cons_filledBuffer (hle : ¬c ≤ hint) (hstat : d.stat c = .ok fi)
    (hf : f s fi = (s', some .filledBuffer)) :
    walkChildren d f descend hint (c :: rest) s = (s', .ok false) := by
  rw [walkChildren_cons, if_neg hle, hstat]
  simp only [hf]

/-- Children that the hint skips, that are gone, or on which the walk function
returns `ErrSkipDir` and keeps its state, leave the walk as it was. -/
theorem walkChildren_of_skip {children : List String}
    (h : ∀ c ∈ children, c ≤ hint ∨ (∃ q, d.stat c = .error (.pathNotFound q)) ∨
      ∃ fi, d.stat c = .ok fi ∧ f s fi = (s, some .skipDir)) :
    walkChildren d f descend hint children s = (s, .ok true) := by
  induction children with
  | nil => exact walkChildren_nil
  | cons c rest ih =>
    have ih' := ih (fun c' hc' => h c' (List.mem_cons_of_mem _ hc'))
    by_cases hle : c ≤ hint
    · rw [walkChildren_cons_of_le hle, ih']
    rcases (h c (List.mem_cons_self ..)).resolve_left hle with ⟨q, hstat⟩ | ⟨fi, hstat, hf⟩
    · rw [walkChildren_cons_notFound hle hstat, ih']
    · rw [walkChildren_cons_skipDir hle hstat hf, ih']

theorem doWalkFallback_succ {n : ℕ} {p : String} :
    doWalkFallback d f (n + 1) p hint s =
      match d.list p with
      | .error e => (s, .error e)
      | .ok children =>
        walkChildren d f (fun child => doWalkFallback d f n child hint) hint (sortStrings children) s :=
  rfl

theorem doWalkFallback_of_list_ok {n : ℕ} {p : String} {cs : List String} (h : d.list p = .ok cs) :
    doWalkFallback d f (n + 1) p hint s =
      walkChildren d f (fun child => doWalkFallback d f n child hint) hint (sortStrings cs) s := by
  rw [doWalkFallback_succ, h]

theorem doWalkFallback_of_list_error {n : ℕ} {p : String} {e : Error} (h : d.list p = .error e) :
    doWalkFallback d f (n + 1) p hint s = (s, .error e) := by
  rw [doWalkFallback_succ, h]

def ClimbOn (r : Except Error Bool) : Prop := (∃ b, r = .ok b) ∨ ∃ q, r = .error (.pathNotFound q)

variable {fuel n : ℕ} {fromPath base : String} {r : Except Error Bool}

theorem climb_succ_of_on (hpre : hasPrefix base fromPath = true)
    (hwalk : doWalkFallback d f fuel base hint s = (s', r)) (hr : ClimbOn r) :
    climb d f fuel fromPath (n + 1) base hint s =
      if base = fromPath then (s', none)
      else
        climb d f fuel fromPath n
          (if (split base).1.toList.length > 1 then trimSuffix (split base).1 "/" else (split base).1) base s' := by
  show (if hasPrefix base fromPath then _ else _) = _
  rw [if_pos hpre, hwalk]
  rcases hr with ⟨b, rfl⟩ | ⟨q, rfl⟩ <;> rfl

theorem climb_succ_of_eq (hpre : hasPrefix base fromPath = true) (hwalk : doWalkFallback d f fuel base hint s = (s', r))
    (hr : ClimbOn r) (hbase : base = fromPath) :
    climb d f fuel fromPath (n + 1) base hint s = (s', none) := by
  rw [climb_succ_of_on hpre hwalk hr, if_pos hbase]

theorem climb_succ_of_ne (hpre : hasPrefix base fromPath = true) (hwalk : doWalkFallback d f fuel base hint s = (s', r))
    (hr : ClimbOn r) (hbase : base ≠ fromPath) :
    climb d f fuel fromPath (n + 1) base hint s =
      climb d f fuel fromPath n
        (if (split base).1.toList.length > 1 then trimSuffix (split base).1 "/" else (split base).1) base s' := by
  rw [climb_succ_of_on hpre hwalk hr, if_neg hbase]

theorem WalkFallback_of_before (ho : hintOutside fromPath hint = true)
    (hlt : replaceAll hint '/' '\x00' < replaceAll fromPath '/' '\x00') :
    WalkFallback d f fuel fromPath hint s =
      match doWalkFallback d f fuel fromPath "" s with
      | (s, .error e) => (s, some e)
      | (s, .ok _) => (s, none) := by
  show (if hintOutside fromPath hint then _ else _) = _
  rw [if_pos ho, if_pos hlt]

theorem WalkFallback_of_inside (ho : hintOutside fromPath hint = false) :
    WalkFallback d f fuel fromPath hint s = climb d f fuel fromPath (hint.toList.length + 1) hint hint s := by
  show (if hintOutside fromPath hint then _ else _) = _
  rw [if_neg (by simp [ho])]

end WalkLemmas

theorem head?_cleanChars {p : List Char} (h : p.head? = some '/') : (cleanChars p).head? = some '/' := by
  simp [cleanChars, h]

theorem hintOutside_empty {fromPath : String} (h : fromPath.toList.head? = some '/') :
    hintOutside fromPath "" = true := by
  have hbase := head?_cleanChars h
  have htarg : cleanChars [] = ['.'] := rfl
  have hne : ['.'] ≠ cleanChars fromPath.toList := fun heq => by simp [← heq] at hbase
  simp [hintOutside, rel, htarg, hbase, hne, Ne.symm hne]

theorem hintOutside_child {ps : List (List Char)} (hne : ps ≠ []) (hps : ∀ e ∈ ps, PlainElement e)
    {x : List Char} (hx : PlainElement x) (hdot : x.head? ≠ some '.') :
    hintOutside (String.ofList (rooted ps)) (String.ofList (rooted (ps ++ [x]))) = false := by
  rw [hintOutside, rel_rooted_child hne hps hx]
  cases x with
  | nil => exact absurd rfl hx.1
  | cons c cs =>
    have hc : c ≠ '.' := fun h => hdot (by simp [h])
    simp [hasPrefix, List.isPrefixOf, Ne.symm hc]

end DockerRegistry.Storage.Driver
