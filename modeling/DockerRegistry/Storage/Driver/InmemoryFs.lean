import DockerRegistry.Storage.Driver.Walk
import DockerRegistry.Storage.Driver.Inmemory
import DockerRegistry.Lib.GoDecimal

/-!
# The in-memory driver's tree

`dir`, `file` and their methods of `registry/storage/driver/inmemory/mfs.go`, and
the calls of `driver.go` over them, behind the path check of `base.Base`.

The Go tree is made of pointers: `find` returns a node, and the caller changes
that node in place. Here the tree is a value, `find` returns the route to the
node it found (the names taken from the root) with a copy of it, and a change is
made at a route. Every call returns the new tree, also when it fails: `mkdirs`
keeps the directories it made before a failure, and `move` keeps the ones it
made for the destination. Strings are kept as their characters, and the driver's
calls take and give `String`s.

A directory's children are a list of names and nodes standing for the Go map;
adding replaces the entry of the same name and removing drops it. Each node
keeps the path it was created with, as `common.p` does; `name()` is the last
element of that path.

`find` walks the query one component at a time. When the last component names a
directory it goes into that directory with the same query (`q[i+1:]` with `i`
equal to `-1`), so a directory that has a child of its own name is never found:
`find` returns the child, or a node further down.

`Writer`, `Write` and `Commit` are taken together, with no other call between
them: `Writer` makes or opens the file and truncates it unless appending, the
writer buffers what it is given, and `Commit` writes the buffer at the file's
end (`Storage.Driver.Inmemory.Writer`).
-/

namespace DockerRegistry.Storage.Driver.Inmemory

open GoPath

/-- A node of the tree: a directory with its children by name, or a file with its
data. -/
inductive Node where
  | dir (p : List Char) (children : List (List Char × Node))
  | file (p : List Char) (data : Bytes)
  deriving Repr, Inhabited

namespace Node

def path : Node → List Char
  | .dir p _ => p
  | .file p _ => p

def isdir : Node → Bool
  | .dir _ _ => true
  | .file _ _ => false

def name (n : Node) : List Char := (splitChars n.path).2

def size : Node → ℕ
  | .dir _ _ => 0
  | .file _ data => data.length

def lookupChild (k : List Char) : List (List Char × Node) → Option Node
  | [] => none
  | (k', c) :: cs => if k' = k then some c else lookupChild k cs

/-- `dir.add`: the node under its name, replacing the entry of that name. -/
def setChild : List (List Char × Node) → List Char → Node → List (List Char × Node)
  | [], k, n => [(k, n)]
  | (k', m) :: cs, k, n => if k' = k then (k, n) :: cs else (k', m) :: setChild cs k n

def add (n : Node) : Node → Node
  | .dir p cs => .dir p (setChild cs n.name n)
  | f => f

def remove (k : List Char) : Node → Node
  | .dir p cs => .dir p (cs.filter (·.1 ≠ k))
  | f => f

def setPath (dst : List Char) : Node → Node
  | .dir _ cs => .dir dst cs
  | .file _ data => .file dst data

def truncate : Node → Node
  | .file p _ => .file p []
  | d => d

/-- `file.WriteAt(b, offset)` for an offset within the data, the only ones the
driver uses: the data up to the offset, then `b`. -/
def writeAt (b : Bytes) (offset : ℕ) : Node → Node
  | .file p data => .file p (data.take offset ++ b)
  | d => d

/-- The component `find` looks up and the query it goes on with: up to the first
slash and after it, or, with no slash, the whole query both times. -/
def splitQuery (q : List Char) : List Char × List Char :=
  if '/' ∈ q then (q.takeWhile (· ≠ '/'), (q.dropWhile (· ≠ '/')).drop 1) else (q, q)

mutual

/-- `dir.find`: the route to the node found for the query and the node; when
nothing is found, the closest existing parent. Go calls it on directories only;
a file answers itself. After the trim the query does not start with a slash, so
the `i == 0` panic cannot happen. -/
def find : Node → List Char → List (List Char) × Node
  | .file p data, _ => ([], .file p data)
  | .dir p cs, q =>
    let q := trimChars q ['/']
    if q = [] then ([], .dir p cs) else findIn (.dir p cs) q cs

/-- The lookup of `d.children[component]` and what `find` does with the child. -/
def findIn (d : Node) (q : List Char) : List (List Char × Node) → List (List Char) × Node
  | [] => ([], d)
  | (k, child) :: cs =>
    if k = (splitQuery q).1 then
      match child with
      | .dir _ _ =>
        -- traverse down, with the rest of the query or, after the last component, the same query
        let r := child.find (splitQuery q).2
        (k :: r.1, r.2)
      | .file _ _ => ([k], child)
    else findIn d q cs

end

mutual

def get : Node → List (List Char) → Option Node
  | n, [] => some n
  | .file _ _, _ :: _ => none
  | .dir _ cs, k :: ks => getIn k ks cs

def getIn (k : List Char) (ks : List (List Char)) : List (List Char × Node) → Option Node
  | [] => none
  | (k', c) :: cs => if k' = k then c.get ks else getIn k ks cs

end

mutual

/-- A change of the node at a route; the tree is unchanged where the route leads
nowhere. -/
def modify : Node → List (List Char) → (Node → Node) → Node
  | n, [], f => f n
  | .file p data, _ :: _, _ => .file p data
  | .dir p cs, k :: ks, f => .dir p (modifyIn k ks f cs)

def modifyIn (k : List Char) (ks : List (List Char)) (f : Node → Node) :
    List (List Char × Node) → List (List Char × Node)
  | [] => []
  | (k', c) :: cs => if k' = k then (k', c.modify ks f) :: cs else (k', c) :: modifyIn k ks f cs

end

end Node

/-- The errors of `mfs.go`, with their texts. -/
inductive MfsError
  | exists
  | notExists
  | isNotDir
  | isDir
  | invalidDirname
  deriving DecidableEq, Repr

def MfsError.msg : MfsError → String
  | .exists => "exists"
  | .notExists => "notexists"
  | .isNotDir => "notdir"
  | .isDir => "isdir"
  | .invalidDirname => "invalid dirname"

def normalize (p : List Char) : List Char := '/' :: trimChars p ['/']

open Node

/-- `dir.list` of the directory `d`: `find` from `d` again, with the whole path. -/
def Node.list (d : Node) (p : List Char) : Except MfsError (List String) :=
  let n := (d.find p).2
  if n.path ≠ p then .error .notExists
  else
    match n with
    | .file _ _ => .error .isNotDir
    | .dir _ cs => .ok (sortStrings (cs.map fun c => String.ofList c.2.path))

def mkdir (root : Node) (r : List (List Char)) (nm : List Char) : Node × Except MfsError (List (List Char)) :=
  if nm = [] then (root, .error .invalidDirname)
  else
    match root.get r with
    | some (.dir p cs) =>
      if (lookupChild nm cs).isSome then (root, .error .exists)
      else
        let child := Node.dir (joinChars [p, nm]) []
        (root.modify r (add child), .ok (r ++ [child.name]))
    -- the route of `mkdirs` always leads to a directory
    | _ => (root, .error .isNotDir)

def mkdirLoop (root : Node) (r : List (List Char)) :
    List (List Char) → Node × Except MfsError (List (List Char))
  | [] => (root, .ok r)
  | c :: cs =>
    match mkdir root r c with
    | (root, .error e) => (root, .error e)
    | (root, .ok r) => mkdirLoop root r cs

/-- `dir.mkdirs`: the route to the directory at `p`, made with its missing
parents. What follows the path of the node `find` returns is made below that
node; when that node is not a prefix of `p`, all of `p` is. -/
def mkdirs (root : Node) (p : List Char) : Node × Except MfsError (List (List Char)) :=
  let p := normalize p
  let (r, n) := root.find p
  if !n.isdir then (root, .error .isNotDir)
  else if n.path = p then (root, .ok r)
  else
    let relative := trimChars (trimPrefixChars p n.path) ['/']
    if relative = [] then (root, .ok r)
    else mkdirLoop root r (elements relative)

/-- `dir.mkfile`: the route to the file at `p`, made empty in the directory
`mkdirs` gives for its parent when `find` does not find it. -/
def mkfile (root : Node) (p : List Char) : Node × Except MfsError (List (List Char)) :=
  let (r, n) := root.find p
  if n.path = p then
    if n.isdir then (root, .error .isDir) else (root, .ok r)
  else
    let (dirpath, filename) := splitChars p
    match mkdirs root dirpath with
    | (root, .error e) => (root, .error e)
    | (root, .ok rd) =>
      match root.get rd with
      | some dd =>
        let f := Node.file (joinChars [dd.path, filename]) []
        (root.modify rd (add f), .ok (rd ++ [f.name]))
      -- `mkdirs` returns the route of a directory of the tree
      | none => (root, .error .notExists)

/-- `dir.move`: the destination's directories are made first; then the node
named by `src` leaves its parent and joins the destination's directory under the
name of `dst`, with `dst` as its path. -/
def move (root : Node) (src dst : List Char) : Node × Option MfsError :=
  let (dstDirname, _) := splitChars dst
  match mkdirs root dstDirname with
  | (root, .error e) => (root, some e)
  | (root, .ok rdp) =>
    let (srcDirname, srcFilename) := splitChars src
    let (rsp, sp) := root.find srcDirname
    if normalize srcDirname ≠ normalize sp.path then (root, some .notExists)
    else
      match sp with
      | .file _ _ => (root, some .isNotDir)
      | .dir _ cs =>
        match lookupChild srcFilename cs with
        | none => (root, some .notExists)
        | some s =>
          let root := root.modify rsp (remove srcFilename)
          (root.modify rdp (add (s.setPath dst)), none)

/-- `dir.delete`: the entry of `p` leaves its parent, with everything below it. -/
def delete (root : Node) (p : List Char) : Node × Option MfsError :=
  let (dirname, filename) := splitChars p
  let (rparent, parent) := root.find dirname
  if normalize dirname ≠ normalize parent.path then (root, some .notExists)
  else
    match parent with
    | .file _ _ => (root, some .isNotDir)
    | .dir _ cs =>
      if (lookupChild filename cs).isNone then (root, some .notExists)
      else (root.modify rparent (remove filename), none)

/-! ## The driver -/

/-- `storagedriver.PathRegexp`, `^(/[A-Za-z0-9._-]+)+$`: one or more components,
each a slash and at least one of those characters. -/
def pathRegexpMatch (p : String) : Bool :=
  match elements p.toList with
  | [] :: c :: cs => (c :: cs).all fun e => !e.isEmpty && e.all fun ch =>
      ch.isAlphanum || ch = '.' || ch = '_' || ch = '-'
  | _ => false

def invalidPath (p : String) : Error := .other ("inmemory: invalid path: " ++ p)

def new : Node := .dir ['/'] []

def getContent (root : Node) (path : String) : Except Error Bytes :=
  if !pathRegexpMatch path then .error (invalidPath path)
  else
    let normalized := normalize path.toList
    let found := (root.find normalized).2
    if found.path ≠ normalized then .error (.pathNotFound path)
    else
      match found with
      | .dir _ _ => .error (.other (GoDecimal.quote path ++ " is a directory"))
      | .file _ data => .ok data

/-- `PutContent` behind `base.Base`: open or make the file, truncate it and write
the content at offset 0. -/
def putContent (root : Node) (path : String) (contents : Bytes) : Node × Option Error :=
  if !pathRegexpMatch path then (root, some (invalidPath path))
  else
    match mkfile root (normalize path.toList) with
    | (root, .error _) => (root, some (.other "not a file"))
    | (root, .ok r) => (root.modify r fun f => f.truncate.writeAt contents 0, none)

/-- `Writer(path, append)` behind `base.Base`, `Write` of each buffer and `Commit`:
open or make the file, truncate it unless appending, and write the buffered bytes
at its end. -/
def writeFile (root : Node) (path : String) (append : Bool) (writes : List Bytes) : Node × Option Error :=
  if !pathRegexpMatch path then (root, some (invalidPath path))
  else
    match mkfile root (normalize path.toList) with
    | (root, .error _) => (root, some (.other "not a file"))
    | (root, .ok r) =>
      let root := if append then root else root.modify r truncate
      (root.modify r fun f => f.writeAt writes.flatten f.size, none)

/-- `Stat` behind `base.Base`: the path as given, whether it is a directory, and
the size of a file. -/
def stat (root : Node) (path : String) : Except Error (FileInfo × ℕ) :=
  if !pathRegexpMatch path && path ≠ "/" then .error (invalidPath path)
  else
    let normalized := normalize path.toList
    let found := (root.find normalized).2
    if found.path ≠ normalized then .error (.pathNotFound path)
    else .ok (⟨path, found.isdir⟩, found.size)

/-- `List` behind `base.Base`: the directory `find` gives lists itself, with the
whole path. -/
def list (root : Node) (path : String) : Except Error (List String) :=
  if !pathRegexpMatch path && path ≠ "/" then .error (invalidPath path)
  else
    let normalized := normalize path.toList
    let found := (root.find normalized).2
    if !found.isdir then .error (.other "not a directory")
    else
      match found.list normalized with
      | .error .notExists => .error (.pathNotFound path)
      | .error .isNotDir => .error (.other "not a directory")
      | .error e => .error (.other e.msg)
      | .ok entries => .ok entries

def move' (root : Node) (sourcePath destPath : String) : Node × Option Error :=
  if !pathRegexpMatch sourcePath then (root, some (invalidPath sourcePath))
  else if !pathRegexpMatch destPath then (root, some (invalidPath destPath))
  else
    match move root (normalize sourcePath.toList) (normalize destPath.toList) with
    | (root, some .notExists) => (root, some (.pathNotFound destPath))
    | (root, some e) => (root, some (.other e.msg))
    | (root, none) => (root, none)

def delete' (root : Node) (path : String) : Node × Option Error :=
  if !pathRegexpMatch path then (root, some (invalidPath path))
  else
    match delete root (normalize path.toList) with
    | (root, some .notExists) => (root, some (.pathNotFound path))
    | (root, some e) => (root, some (.other e.msg))
    | (root, none) => (root, none)

end DockerRegistry.Storage.Driver.Inmemory
