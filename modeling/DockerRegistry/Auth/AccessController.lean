import DockerRegistry.Auth.Challenge
import DockerRegistry.Lib.GoMap

/-!
# Token authorization

`accessController.Authorized` of `registry/auth/token/accesscontroller.go`. It
reads the bearer token of the `Authorization` header, parses and verifies it
(`NewToken`, `Token.Verify`: a parameter here, `verify`, which gives the claim
set or the error), and checks each requested access item against the claim
set's `accessSet`. It grants with the claim set's `resources`, or denies with a
challenge that carries the requested access set.

Both access sets are Go maps keyed by `auth.Resource`, but they are built with
keys of type and name only: the class of a requested item and of a claimed entry
is dropped. The lookup in `accessSet.contains` is by the requested item's whole
resource, class included, so an item with a class is never found
(`authorized_scope_check`).

Maps and sets are entry lists (`Lib/GoMap.lean`) in the order of their keys'
first insertion; the runtime's order differs, and the results here are about
membership only.
-/

namespace DockerRegistry.Auth.Token

open GoMap Challenge

structure Resource where
  type : String
  resourceClass : String
  name : String
  deriving DecidableEq, Repr

structure Access where
  resource : Resource
  action : String
  deriving DecidableEq, Repr

structure ResourceActions where
  type : String
  resourceClass : String
  name : String
  actions : List String
  deriving DecidableEq, Repr

def ResourceActions.resource (ra : ResourceActions) : Resource := ⟨ra.type, ra.resourceClass, ra.name⟩

/-- The fields of a verified `ClaimSet` that authorization reads. -/
structure ClaimSet where
  subject : String
  access : List ResourceActions
  deriving DecidableEq, Repr

/-- `accessSet`: each resource with its `actionSet`. -/
abbrev AccessSet := List (Resource × List String)

def newAccessSet (accessItems : List Access) : AccessSet :=
  accessItems.foldl (fun s access => alter [] (addAll · [access.action]) s
    ⟨access.resource.type, "", access.resource.name⟩) []

def actionSetContains (set : List String) (action : String) : Bool :=
  set.contains "*" || set.contains action

/-- `accessSet.contains`: the lookup is by the item's whole resource. -/
def AccessSet.contains (s : AccessSet) (access : Access) : Bool :=
  match get? s access.resource with
  | some set => actionSetContains set access.action
  | none => false

/-- `ClaimSet.accessSet`: the claimed entries under their type and name. -/
def ClaimSet.accessSet (c : ClaimSet) : AccessSet :=
  c.access.foldl (fun s ra => alter [] (addAll · ra.actions) s ⟨ra.type, "", ra.name⟩) []

/-- `ClaimSet.resources`: the set of the entries' resources, class included. -/
def ClaimSet.resources (c : ClaimSet) : List Resource :=
  addAll [] (c.access.map ResourceActions.resource)

structure Grant where
  user : String
  resources : List Resource
  deriving DecidableEq, Repr

/-- The configuration `Authorized` puts in its challenges. -/
structure AccessController where
  realm : String
  autoRedirect : Bool
  service : String

def scopes (s : AccessSet) : Challenge.AccessSet :=
  s.map fun e => (⟨e.1.type, e.1.name⟩, e.2)

/-- `strings.Cut(s, " ")`: the text before the first space and after it. -/
def cutSpace (s : List Char) : Option (List Char × List Char) :=
  if ' ' ∈ s then some (s.takeWhile (· ≠ ' '), (s.dropWhile (· ≠ ' ')).drop 1) else none

/-- `strings.EqualFold(scheme, "bearer")`. No letter of `bearer` folds to a
character outside ASCII, so lowering ASCII letters decides it. -/
def isBearer (scheme : List Char) : Bool := scheme.map Char.toLower == "bearer".toList

/-- The token of an `Authorization` header: `Bearer` in any case, a space, and a
token that is not empty. -/
def bearerToken (authorization : String) : Option String :=
  match cutSpace authorization.toList with
  | some (scheme, rawToken) => if rawToken = [] ∨ isBearer scheme = false then none else some (String.ofList rawToken)
  | none => none

/-- `accessController.Authorized`. `verify` is `NewToken` followed by
`Token.Verify` with the controller's options. -/
def authorized (ac : AccessController) (verify : String → Except ChallengeError ClaimSet)
    (authorization : String) (accessItems : List Access) : Except AuthChallenge Grant :=
  let challenge := fun err =>
    { err, realm := ac.realm, autoRedirect := ac.autoRedirect, service := ac.service,
      accessSet := scopes (newAccessSet accessItems) : AuthChallenge }
  match bearerToken authorization with
  | none => .error (challenge .tokenRequired)
  | some rawToken =>
    match verify rawToken with
    | .error err => .error (challenge err)
    | .ok claims =>
      -- the loop stops at the first item the claims do not contain
      if accessItems.all claims.accessSet.contains then
        .ok { user := claims.subject, resources := claims.resources }
      else .error (challenge .insufficientScope)

/-! ## What the decision is -/

section Lookup

end Lookup

/-- A token that grants `pull` on the repository `foo` of class `image`, and a
request for exactly that: `Authorized` denies it for want of scope. -/
theorem authorized_denies_image_class :
    let c : ClaimSet := ⟨"alice", [⟨"repository", "image", "foo", ["pull"]⟩]⟩
    let access : Access := ⟨⟨"repository", "image", "foo"⟩, "pull"⟩
    (∃ ra ∈ c.access, ra.type = access.resource.type ∧ ra.name = access.resource.name ∧ access.action ∈ ra.actions) ∧
      authorized ⟨"https://auth", false, "registry"⟩ (fun _ => .ok c) "Bearer tok" [access] =
        .error ⟨.insufficientScope, "https://auth", false, "registry", [(⟨"repository", "foo"⟩, ["pull"])]⟩ := by
  intro c access
  exact ⟨⟨_, List.mem_singleton_self _, rfl, rfl, List.mem_singleton_self _⟩, by decide⟩

end DockerRegistry.Auth.Token
