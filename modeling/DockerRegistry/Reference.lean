import DockerRegistry.Lib.GoPath

/-!
# Repository names

`reference.WithName` of the vendored `distribution/reference` package: a name is
`anchoredNameRegexp`, `^(?:(domainAndPort)/)?(remoteName)$`, and its remote name
has at most 255 bytes. The regular expressions of `regexp.go` are written here as
matchers on the elements between slashes. Neither the domain nor a path
component holds a slash, so the optional domain is the whole first element;
Go's matcher prefers to take it, and falls back to reading the whole name as a
remote name.

The grammar is ASCII, so characters are bytes.
-/

namespace DockerRegistry.Reference

open GoPath

def isLowerAlnum (c : Char) : Bool := ('a' ≤ c && c ≤ 'z') || ('0' ≤ c && c ≤ '9')

mutual

/-- The rest of a path component after an alphanumeric character: more of them,
or a `separator` (`[._]`, `__` or `[-]+`) and an alphanumeric character. -/
def componentTail : List Char → Bool
  | [] => true
  | c :: cs =>
    if isLowerAlnum c then componentTail cs
    else
      match c, cs with
      | '.', d :: ds => isLowerAlnum d && componentTail ds
      | '_', '_' :: d :: ds => isLowerAlnum d && componentTail ds
      | '_', d :: ds => isLowerAlnum d && componentTail ds
      | '-', ds => dashTail ds
      | _, _ => false

def dashTail : List Char → Bool
  | [] => false
  | c :: cs => if c = '-' then dashTail cs else isLowerAlnum c && componentTail cs

end

def pathComponent : List Char → Bool
  | [] => false
  | c :: cs => isLowerAlnum c && componentTail cs

/-- `domainNameComponent`, `[a-zA-Z0-9]|[a-zA-Z0-9][a-zA-Z0-9-]*[a-zA-Z0-9]`. -/
def domainNameComponent : List Char → Bool
  | [] => false
  | c :: cs => c.isAlphanum && cs.all (fun d => d.isAlphanum || d = '-') && ((c :: cs).getLast?.all Char.isAlphanum)

def domainName (l : List Char) : Bool := (l.splitOn '.').all domainNameComponent

def ipv6address : List Char → Bool
  | '[' :: rest =>
    match rest.reverse with
    | ']' :: inner => !inner.isEmpty && inner.all fun c =>
        ('0' ≤ c && c ≤ '9') || ('a' ≤ c && c ≤ 'f') || ('A' ≤ c && c ≤ 'F') || c = ':'
    | _ => false
  | _ => false

def host (l : List Char) : Bool := domainName l || ipv6address l

/-- `domainAndPort`, a host and an optional `:port`. The digits of a port hold no
colon, so the port starts after the last colon. -/
def domainAndPort (l : List Char) : Bool :=
  host l ||
    (':' ∈ l &&
      let port := (l.reverse.takeWhile (· ≠ ':')).reverse
      let hostPart := ((l.reverse.dropWhile (· ≠ ':')).drop 1).reverse
      host hostPart && !port.isEmpty && port.all Char.isDigit)

/-- The errors of `WithName`. -/
inductive ReferenceError where
  /-- `ErrReferenceInvalidFormat` -/
  | invalidFormat
  /-- `ErrNameTooLong` -/
  | nameTooLong
  deriving DecidableEq, Repr

def repositoryNameTotalLengthMax : ℕ := 255

/-- The domain and the remote name `anchoredNameRegexp` captures, if it matches. -/
def matchName (name : List Char) : Option (List Char × List Char) :=
  let comps := elements name
  let whole := if comps.all pathComponent then some ([], name) else none
  match comps with
  | c :: d :: ds => if domainAndPort c && (d :: ds).all pathComponent then some (c, joinElements (d :: ds)) else whole
  | _ => whole

def withName (name : String) : Except ReferenceError (String × String) :=
  match matchName name.toList with
  | none => .error .invalidFormat
  | some (domain, path) =>
    if path.length > repositoryNameTotalLengthMax then .error .nameTooLong
    else .ok (String.ofList domain, String.ofList path)

theorem plainElement_of_match {e : List Char} (hslash : '/' ∉ e)
    (h : pathComponent e = true ∨ domainAndPort e = true) : PlainElement e := by
  refine ⟨?_, hslash, ?_, ?_⟩
  · rintro rfl
    revert h
    decide
  · rintro rfl
    revert h
    decide
  · rintro rfl
    revert h
    decide

theorem matchName_plain {name : List Char} (hmatch : (matchName name).isSome) :
    ∀ e ∈ elements name, PlainElement e := by
  have hwhole : (elements name).all pathComponent = true → ∀ e ∈ elements name, PlainElement e :=
    fun hall e he => plainElement_of_match (mem_elements he).1 (.inl (List.all_eq_true.mp hall e he))
  unfold matchName at hmatch
  dsimp only at hmatch
  split at hmatch
  · rename_i c d ds hcomps
    by_cases hdom : (domainAndPort c && (d :: ds).all pathComponent) = true
    · intro e he
      rw [hcomps] at he
      simp only [Bool.and_eq_true, List.all_eq_true] at hdom
      rcases List.mem_cons.mp he with rfl | he
      · exact plainElement_of_match (mem_elements (by rw [hcomps]; exact List.mem_cons_self)).1 (.inr hdom.1)
      · exact plainElement_of_match (mem_elements (by rw [hcomps]; exact List.mem_cons_of_mem _ he)).1
          (.inl (hdom.2 e he))
    · rw [if_neg hdom] at hmatch
      by_cases hall : (elements name).all pathComponent = true
      · exact hwhole hall
      · simp [hall] at hmatch
  · by_cases hall : (elements name).all pathComponent = true
    · exact hwhole hall
    · simp [hall] at hmatch

theorem withName_plain {name : String} {r : String × String} (h : withName name = .ok r) :
    ∀ e ∈ elements name.toList, PlainElement e := by
  apply matchName_plain
  unfold withName at h
  cases hm : matchName name.toList with
  | none => simp [hm] at h
  | some _ => rfl

end DockerRegistry.Reference
