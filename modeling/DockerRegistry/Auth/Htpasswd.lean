import DockerRegistry.Lib.GoPath
import DockerRegistry.Lib.GoDecimal

/-!
# The htpasswd access controller

`accessController.Authorized` of `registry/auth/htpasswd/access.go` with the
parser of `htpasswd.go`. Each request with Basic credentials stats the file and,
when nothing is cached or the file's modification time differs from the cached
one, records the new time and parses the file again; a parse that fails returns
its error and keeps the entries parsed before, under the new time. The next
request then finds the time unchanged and authenticates against the old entries.

The file is a version: its modification time and its lines as `bufio.Scanner`
yields them. `bcrypt.CompareHashAndPassword` is a parameter, `compare hash
password` being true when it returns nil.
-/

namespace DockerRegistry.Auth.Htpasswd

open GoPath GoDecimal

/-- One line of the loop of `parseHTPasswd`, numbered from 1: blank and comment
lines keep the entries, an entry line sets its user's hash, any other line is an
error. The newest entry of a user comes first. -/
def parseLine (entries : List (String × String)) (line : ℕ) (text : String) :
    Except String (List (String × String)) :=
  let t := (trimSpace text).toList
  if t = [] then .ok entries
  else if t.head? = some '#' then .ok entries
  else if ':' ∉ t then .error ("htpasswd: invalid entry at line " ++ formatNat line ++ ": " ++ quote text)
  else .ok ((String.ofList (t.takeWhile (· ≠ ':')), String.ofList ((t.dropWhile (· ≠ ':')).drop 1)) :: entries)

def parseLines : List (String × String) → ℕ → List String → Except String (List (String × String))
  | entries, _, [] => .ok entries
  | entries, line, text :: texts =>
    match parseLine entries (line + 1) text with
    | .error e => .error e
    | .ok entries => parseLines entries (line + 1) texts

def parseHTPasswd (lines : List String) : Except String (List (String × String)) := parseLines [] 0 lines

/-- `htpasswd`: the entries, user to hash. -/
structure HTPasswd where
  entries : List (String × String)
  deriving DecidableEq, Repr

def newHTPasswd (lines : List String) : Except String HTPasswd :=
  match parseHTPasswd lines with
  | .error e => .error e
  | .ok entries => .ok ⟨entries⟩

/-- The errors of `registry/auth` that the controller returns in a challenge. -/
inductive AuthError
  /-- `ErrInvalidCredential` -/
  | invalidCredential
  /-- `ErrAuthenticationFailure` -/
  | authenticationFailure
  deriving DecidableEq, Repr

/-- A version of the htpasswd file. -/
structure FileVersion where
  modtime : ℕ
  lines : List String
  deriving DecidableEq, Repr

/-- `accessController`: the realm, the cached modification time and entries. -/
structure AccessController where
  realm : String
  modtime : ℕ := 0
  htpasswd : Option HTPasswd := none
  deriving DecidableEq, Repr

/-- What `Authorized` returns on a refusal. -/
inductive Error
  /-- a `challenge` for the realm -/
  | challenge (realm : String) (err : AuthError)
  /-- the error of parsing the file -/
  | parse (msg : String)
  deriving DecidableEq, Repr

/-- `auth.Grant`: the user. -/
structure Grant where
  user : String
  deriving DecidableEq, Repr

section Compare

variable (compare : String → String → Bool)

def authenticateUser (h : HTPasswd) (username password : String) : Except AuthError Unit :=
  match h.entries.lookup username with
  | none => .error .authenticationFailure
  | some credentials => if compare credentials password then .ok () else .error .authenticationFailure

/-- Record the file's time, then parse it; a failed parse keeps the entries. -/
def reload (file : FileVersion) (ac : AccessController) : AccessController × Except String HTPasswd :=
  let ac := { ac with modtime := file.modtime }
  match newHTPasswd file.lines with
  | .error e => (ac, .error e)
  | .ok h => ({ ac with htpasswd := some h }, .ok h)

/-- The entries `Authorized` checks against: the cached ones when the file's
time is the cached time, those of a reload otherwise. -/
def loadHTPasswd (file : FileVersion) (ac : AccessController) : AccessController × Except String HTPasswd :=
  match ac.htpasswd with
  | some h => if ac.modtime = file.modtime then (ac, .ok h) else reload file ac
  | none => reload file ac

/-- `Authorized` of a request with Basic credentials `basicAuth`, while the file
is `file`. -/
def authorized (file : FileVersion) (basicAuth : Option (String × String)) (ac : AccessController) :
    AccessController × Except Error Grant :=
  match basicAuth with
  | none => (ac, .error (.challenge ac.realm .invalidCredential))
  | some (username, password) =>
    match loadHTPasswd file ac with
    | (ac, .error e) => (ac, .error (.parse e))
    | (ac, .ok h) =>
      match authenticateUser compare h username password with
      | .error err => (ac, .error (.challenge ac.realm err))
      | .ok () => (ac, .ok ⟨username⟩)

/-- What happens to the controller: the file is replaced, or a request arrives. -/
inductive Event
  | replace (file : FileVersion)
  | request (basicAuth : Option (String × String))
  deriving DecidableEq, Repr

def run : FileVersion → AccessController → List Event → List (Except Error Grant)
  | _, _, [] => []
  | _, ac, .replace file :: events => run file ac events
  | file, ac, .request basicAuth :: events =>
    let r := authorized compare file basicAuth ac
    r.2 :: run file r.1 events

/-- The answers of a controller that keeps no cache: each request against the
file current when it arrives. -/
def runUncached (realm : String) : FileVersion → List Event → List (Except Error Grant)
  | _, [] => []
  | _, .replace file :: events => runUncached realm file events
  | file, .request basicAuth :: events =>
    (authorized compare file basicAuth { realm }).2 :: runUncached realm file events

/-! ## One request -/

theorem loadHTPasswd_cached {ac : AccessController} {h : HTPasswd} (hcached : ac.htpasswd = some h)
    {file : FileVersion} (htime : ac.modtime = file.modtime) : loadHTPasswd file ac = (ac, .ok h) := by
  simp [loadHTPasswd, hcached, htime]

theorem loadHTPasswd_changed {ac : AccessController} {file : FileVersion} (htime : ac.modtime ≠ file.modtime) :
    loadHTPasswd file ac = reload file ac := by
  unfold loadHTPasswd
  cases ac.htpasswd with
  | none => rfl
  | some h => simp [htime]

theorem reload_error {ac : AccessController} {file : FileVersion} {msg : String}
    (hbad : newHTPasswd file.lines = .error msg) :
    reload file ac = ({ ac with modtime := file.modtime }, .error msg) := by
  simp [reload, hbad]

theorem authorized_loaded {ac ac' : AccessController} {file : FileVersion} {h : HTPasswd}
    (hload : loadHTPasswd file ac = (ac', .ok h)) (username password : String) :
    (authorized compare file (some (username, password)) ac).1 = ac' ∧
      ((authorized compare file (some (username, password)) ac).2 = .ok ⟨username⟩ ↔
        authenticateUser compare h username password = .ok ()) := by
  simp only [authorized, hload]
  cases authenticateUser compare h username password with
  | error err => simp
  | ok u => simp

/-- A reload that fails to parse keeps the cached entries under the new file's
time: the request that saw it is refused with the parse error, and every later
request while that file stays is granted exactly when the old entries
authenticate it. -/
theorem failed_reload_keeps_old_entries {ac : AccessController} {h : HTPasswd} (hcached : ac.htpasswd = some h)
    {file : FileVersion} (hnew : ac.modtime ≠ file.modtime) {msg : String}
    (hbad : newHTPasswd file.lines = .error msg) (username password : String) :
    let r := authorized compare file (some (username, password)) ac
    r.2 = .error (.parse msg) ∧ r.1 = { ac with modtime := file.modtime } ∧
      ∀ username' password', (authorized compare file (some (username', password')) r.1).2 = .ok ⟨username'⟩ ↔
        authenticateUser compare h username' password' = .ok () := by
  intro r
  have hload : loadHTPasswd file ac = ({ ac with modtime := file.modtime }, .error msg) := by
    rw [loadHTPasswd_changed hnew, reload_error hbad]
  have hr : r = ({ ac with modtime := file.modtime }, .error (.parse msg)) := by
    simp only [r, authorized, hload]
  refine ⟨by rw [hr], by rw [hr], fun username' password' => ?_⟩
  have hcached' : loadHTPasswd file { ac with modtime := file.modtime } = ({ ac with modtime := file.modtime }, .ok h) :=
    @loadHTPasswd_cached { ac with modtime := file.modtime } h hcached file rfl
  rw [hr]
  exact (authorized_loaded compare hcached' username' password').2

theorem failed_reload_keeps_old_entries_alice :
    let r := authorized (· == ·) ⟨2, ["alice"]⟩ (some ("alice", "secret"))
      { realm := "r", modtime := 1, htpasswd := some ⟨[("alice", "secret")]⟩ }
    r.2 = .error (.parse ("htpasswd: invalid entry at line " ++ formatNat 1 ++ ": " ++ quote "alice")) ∧
      r.1 = { realm := "r", modtime := 2, htpasswd := some ⟨[("alice", "secret")]⟩ } ∧
      ∀ username' password', (authorized (· == ·) ⟨2, ["alice"]⟩ (some (username', password')) r.1).2 =
          .ok ⟨username'⟩ ↔
        authenticateUser (· == ·) ⟨[("alice", "secret")]⟩ username' password' = .ok () :=
  failed_reload_keeps_old_entries (· == ·) rfl (by decide) rfl "alice" "secret"

/-! ## Runs whose every version parses -/

def replacements : List Event → List FileVersion
  | [] => []
  | .replace file :: events => file :: replacements events
  | .request _ :: events => replacements events

/-- The cached entries are those of a version seen so far, under its time. -/
structure Cached (seen : List FileVersion) (ac : AccessController) : Prop where
  entries : ∀ h, ac.htpasswd = some h → ∃ w ∈ seen, w.modtime = ac.modtime ∧ newHTPasswd w.lines = .ok h

theorem Cached.mono {seen seen' : List FileVersion} {ac : AccessController} (hc : Cached seen ac)
    (hsub : seen ⊆ seen') : Cached seen' ac := by
  constructor
  intro h hh
  obtain ⟨w, hw, htime, hparse⟩ := hc.entries h hh
  exact ⟨w, hsub hw, htime, hparse⟩

theorem loadHTPasswd_realm (file : FileVersion) (ac : AccessController) :
    (loadHTPasswd file ac).1.realm = ac.realm := by
  unfold loadHTPasswd reload
  cases ac.htpasswd with
  | none => cases newHTPasswd file.lines <;> rfl
  | some h =>
    dsimp only
    split_ifs
    · rfl
    · cases newHTPasswd file.lines <;> rfl

theorem reload_ok {ac : AccessController} {file : FileVersion} {h : HTPasswd}
    (hparse : newHTPasswd file.lines = .ok h) :
    reload file ac = ({ ac with modtime := file.modtime, htpasswd := some h }, .ok h) := by
  simp [reload, hparse]

section Seen

variable {seen : List FileVersion} {file : FileVersion}

theorem loadHTPasswd_current {ac : AccessController} (hinv : Cached seen ac) (hfile : file ∈ seen)
    (hnodup : (seen.map (·.modtime)).Nodup) {h : HTPasswd} (hparse : newHTPasswd file.lines = .ok h) :
    (loadHTPasswd file ac).2 = .ok h ∧ Cached seen (loadHTPasswd file ac).1 := by
  have hreload : (reload file ac).2 = .ok h ∧ Cached seen (reload file ac).1 := by
    rw [reload_ok hparse]
    refine ⟨rfl, ⟨fun h' hh' => ?_⟩⟩
    cases hh'
    exact ⟨file, hfile, rfl, hparse⟩
  unfold loadHTPasswd
  cases hcached : ac.htpasswd with
  | none => exact hreload
  | some h₀ =>
    dsimp only
    split_ifs with htime
    · obtain ⟨w, hw, hwtime, hwparse⟩ := hinv.entries h₀ hcached
      have hweq : w = file := List.inj_on_of_nodup_map hnodup hw hfile (hwtime.trans htime)
      rw [hweq, hparse] at hwparse
      cases hwparse
      exact ⟨rfl, hinv⟩
    · exact hreload

theorem authorized_current {ac : AccessController} (hinv : Cached seen ac) (hfile : file ∈ seen)
    (hnodup : (seen.map (·.modtime)).Nodup) {h : HTPasswd} (hparse : newHTPasswd file.lines = .ok h)
    (basicAuth : Option (String × String)) :
    (authorized compare file basicAuth ac).2 = (authorized compare file basicAuth { realm := ac.realm }).2 ∧
      Cached seen (authorized compare file basicAuth ac).1 ∧
      (authorized compare file basicAuth ac).1.realm = ac.realm := by
  cases basicAuth with
  | none => exact ⟨rfl, hinv, rfl⟩
  | some cred =>
    obtain ⟨username, password⟩ := cred
    obtain ⟨hload, hcached⟩ := loadHTPasswd_current hinv hfile hnodup hparse
    have hfresh : loadHTPasswd file { realm := ac.realm } =
        ({ realm := ac.realm, modtime := file.modtime, htpasswd := some h }, .ok h) :=
      reload_ok hparse
    have hrealm := loadHTPasswd_realm file ac
    obtain ⟨ac', hac'⟩ : ∃ ac', loadHTPasswd file ac = (ac', .ok h) :=
      ⟨_, Prod.ext rfl hload⟩
    rw [hac'] at hcached hrealm
    cases hauth : authenticateUser compare h username password with
    | error err =>
      simp only [authorized, hac', hfresh, hauth]
      exact ⟨by rw [hrealm], hcached, hrealm⟩
    | ok u =>
      simp only [authorized, hac', hfresh, hauth]
      exact ⟨trivial, hcached, hrealm⟩

end Seen

theorem run_eq_runUncached : ∀ (events : List Event) {seen : List FileVersion} {file : FileVersion}
    {ac : AccessController}, Cached seen ac → file ∈ seen →
    (∀ w ∈ seen ++ replacements events, ∃ h, newHTPasswd w.lines = .ok h) →
    ((seen ++ replacements events).map (·.modtime)).Nodup →
    run compare file ac events = runUncached compare ac.realm file events
  | [], _, _, _, _, _, _, _ => rfl
  | .replace file' :: events, seen, _, ac, hinv, _, hparse, hnodup => by
    have hseen : seen ++ replacements (.replace file' :: events) = (seen ++ [file']) ++ replacements events := by
      simp [replacements]
    rw [hseen] at hparse hnodup
    exact run_eq_runUncached events (hinv.mono (List.subset_append_left _ _)) (by simp) hparse hnodup
  | .request basicAuth :: events, seen, file, ac, hinv, hfile, hparse, hnodup => by
    have hnodup' : (seen.map (·.modtime)).Nodup := by
      rw [List.map_append] at hnodup
      exact hnodup.sublist (List.sublist_append_left _ _)
    obtain ⟨h, hh⟩ := hparse file (List.mem_append_left _ hfile)
    obtain ⟨hanswer, hinv', hrealm⟩ := authorized_current compare hinv hfile hnodup' hh basicAuth
    have hrest := run_eq_runUncached events hinv' hfile (by simpa [replacements] using hparse)
      (by simpa [replacements] using hnodup)
    simp only [run, runUncached, hanswer, hrest, hrealm]

/-- When every version of the file parses and the versions have distinct
modification times, the caching controller answers every request as one that
parses the current file for each request. -/
theorem run_uncached_of_parse (realm : String) (file : FileVersion) (events : List Event)
    (hparse : ∀ w ∈ file :: replacements events, ∃ h, newHTPasswd w.lines = .ok h)
    (hnodup : ((file :: replacements events).map (·.modtime)).Nodup) :
    run compare file { realm } events = runUncached compare realm file events := by
  have hempty : Cached [file] { realm } := ⟨fun _ hh => by cases hh⟩
  exact run_eq_runUncached compare events hempty (List.mem_singleton_self file) hparse hnodup

theorem run_uncached_of_parse_bob :
    run (· == ·) ⟨1, ["alice:secret"]⟩ { realm := "r" }
        [.request (some ("alice", "secret")), .replace ⟨2, ["# users", "bob:pw"]⟩, .request (some ("alice", "secret"))] =
      runUncached (· == ·) "r" ⟨1, ["alice:secret"]⟩
        [.request (some ("alice", "secret")), .replace ⟨2, ["# users", "bob:pw"]⟩, .request (some ("alice", "secret"))] := by
  apply run_uncached_of_parse
  · intro w hw
    simp only [replacements, List.mem_cons, List.not_mem_nil, or_false] at hw
    rcases hw with rfl | rfl
    · exact ⟨_, rfl⟩
    · exact ⟨_, rfl⟩
  · decide

/-- A bad edit after a good version: the third request is granted by the caching
controller and refused by one without cache. -/
example :
    run (· == ·) ⟨1, ["alice:secret"]⟩ { realm := "r" }
        [.request (some ("alice", "secret")), .replace ⟨2, ["alice"]⟩, .request (some ("alice", "secret")),
          .request (some ("alice", "secret"))] ≠
      runUncached (· == ·) "r" ⟨1, ["alice:secret"]⟩
        [.request (some ("alice", "secret")), .replace ⟨2, ["alice"]⟩, .request (some ("alice", "secret")),
          .request (some ("alice", "secret"))] := by
  decide

end Compare

end DockerRegistry.Auth.Htpasswd
