import DockerRegistry.Lib.Mux
import DockerRegistry.Reference
import DockerRegistry.Digest

/-!
# The API router and the URL builder

`RouterWithPrefix` of `registry/api/v2/routes.go` adds one gorilla/mux route
per entry of `routeDescriptors`, in order, with `StrictSlash`. The `URLBuilder`
of `urls.go` builds URLs from the routes of `Router()`, the router without a
prefix; in relative mode a URL is the route's path. A client sends the URL
back, and the server's router sees the path again, with its percent encoding
undone.

With no prefix, a path built for a route is served by that route, and every
split its regular expression allows gives back the values the path was built
from (`urlBuilder_router_agree`). No name element, tag, digest or upload id
holds a slash, so the literal elements before a route's last variable tell
the routes apart: `segmentsFromEnd` reads a path's elements from its end. An
upload id `.` or `..` is an exception, since mux cleans the path before
routing. Relative URLs never carry the router's prefix.
-/

namespace DockerRegistry.Api

open GoPath Mux

/-- The route names of `routes.go`. -/
inductive RouteName where
  | base
  | tags
  | manifest
  | blob
  | blobUpload
  | blobUploadChunk
  | catalog
  deriving DecidableEq, Repr

/-! ## Patterns -/

def isWordChar (c : Char) : Bool := c.isAlphanum || c = '_'

/-- `reference.TagRegexp`, `[\w][\w.-]{0,127}`. -/
def tagRegexp : List Char → Bool
  | [] => false
  | c :: cs => isWordChar c && cs.all (fun d => isWordChar d || d = '.' || d = '-') && decide (cs.length ≤ 127)

/-- The upload id pattern `[a-zA-Z0-9-_.=]+`. -/
def uuidRegexp (l : List Char) : Bool :=
  !l.isEmpty && l.all fun c => c.isAlphanum || c = '-' || c = '_' || c = '.' || c = '='

/-- `reference.NameRegexp`: an optional domain, then the remote name. -/
def nameRegexp (l : List Char) : Bool := (Reference.matchName l).isSome

/-- `TagRegexp|DigestRegexp`, the pattern of the manifest route's reference;
`digestFormat` is `DigestRegexp` anchored. -/
def referenceRegexp (l : List Char) : Bool := tagRegexp l || digestFormat l

/-- The validator `^TagRegexp|DigestRegexp$` that `Route.URL` makes of it. The
`^` binds to the tag and the `$` to the digest, so it accepts a value that
starts with a word character or ends with a digest. -/
def referenceAnchored (l : List Char) : Bool := l.head?.any isWordChar || l.tails.any digestFormat

/-! ## Routes -/

def nameVar : Part := .var "name" nameRegexp nameRegexp

/-- The path template of each route of `routeDescriptors`. -/
def RouteName.template : RouteName → List Part
  | .base => [.lit "/v2/".toList]
  | .tags => [.lit "/v2/".toList, nameVar, .lit "/tags/list".toList]
  | .manifest =>
    [.lit "/v2/".toList, nameVar, .lit "/manifests/".toList, .var "reference" referenceRegexp referenceAnchored]
  | .blob => [.lit "/v2/".toList, nameVar, .lit "/blobs/".toList, .var "digest" digestFormat digestFormat]
  | .blobUpload => [.lit "/v2/".toList, nameVar, .lit "/blobs/uploads/".toList]
  | .blobUploadChunk => [.lit "/v2/".toList, nameVar, .lit "/blobs/uploads/".toList, .var "uuid" uuidRegexp uuidRegexp]
  | .catalog => [.lit "/v2/_catalog".toList]

def routeDescriptors : List RouteName := [.base, .tags, .manifest, .blob, .blobUpload, .blobUploadChunk, .catalog]

/-- `RouterWithPrefix`: a route per descriptor, added under `PathPrefix` when
the prefix is not empty, with `StrictSlash`. -/
def routerWithPrefix (pre : List Char) : Router RouteName :=
  routeDescriptors.foldl (fun r name => r.path name name.template)
    (if pre = [] then Router.new true else Router.withPrefix pre true)

/-- The path regular expression of a route of `Router()`. -/
def RouteName.regexp (name : RouteName) : RouteRegexp := newRouteRegexp name.template true

/-! ## The URL builder -/

/-- The errors of the `Build*URL` methods. -/
inductive BuildError where
  /-- `reference must have a tag or digest` -/
  | noTagOrDigest
  | url (e : UrlError)
  deriving DecidableEq, Repr

/-- `cloneRoute(name).URL(pairs...)` in relative mode: the path of the route
of `Router()`. -/
def routeURL (name : RouteName) (pairs : Vars) : Except BuildError (List Char) :=
  (name.regexp.url pairs).mapError .url

def buildTagsURL (name : List Char) : Except BuildError (List Char) := routeURL .tags [("name", name)]

/-- A reference as `BuildManifestURL` reads it: a tagged reference has a tag,
a digested one a digest. -/
structure ManifestReference where
  name : List Char
  tag : Option (List Char)
  digest : Option (List Char)

/-- `BuildManifestURL`: the tag if the reference has one, else the digest. -/
def buildManifestURL (ref : ManifestReference) : Except BuildError (List Char) :=
  match ref.tag, ref.digest with
  | some t, _ => routeURL .manifest [("name", ref.name), ("reference", t)]
  | none, some d => routeURL .manifest [("name", ref.name), ("reference", d)]
  | none, none => .error .noTagOrDigest

def buildBlobURL (name digest : List Char) : Except BuildError (List Char) :=
  routeURL .blob [("name", name), ("digest", digest)]

def buildBlobUploadURL (name : List Char) : Except BuildError (List Char) := routeURL .blobUpload [("name", name)]

def buildBlobUploadChunkURL (name uuid : List Char) : Except BuildError (List Char) :=
  routeURL .blobUploadChunk [("name", name), ("uuid", uuid)]

/-! ## What the patterns accept -/

theorem plain_of_tagRegexp {t : List Char} (h : tagRegexp t = true) : PlainElement t := by
  cases t with
  | nil => simp [tagRegexp] at h
  | cons c cs =>
    simp only [tagRegexp, Bool.and_eq_true, List.all_eq_true, decide_eq_true_eq] at h
    obtain ⟨⟨hc, hcs⟩, -⟩ := h
    have hslash : '/' ∉ c :: cs := by
      intro hmem
      rcases List.mem_cons.mp hmem with h | h
      · rw [← h] at hc
        revert hc
        decide
      · have := hcs '/' h
        revert this
        decide
    have hdot : c ≠ '.' := by
      rintro rfl
      revert hc
      decide
    exact ⟨List.cons_ne_nil _ _, hslash, by simp [hdot], by simp [hdot]⟩

theorem plain_of_digestFormat {d : List Char} (h : digestFormat d = true) : PlainElement d := by
  obtain ⟨hcolon, hslash⟩ := digestFormat_spec h
  refine ⟨List.ne_nil_of_mem hcolon, hslash, ?_, ?_⟩ <;>
  · rintro rfl
    simp at hcolon

theorem plain_of_referenceRegexp {v : List Char} (h : referenceRegexp v = true) : PlainElement v := by
  rcases Bool.or_eq_true_iff.mp h with h | h
  · exact plain_of_tagRegexp h
  · exact plain_of_digestFormat h

theorem uuidRegexp_spec {u : List Char} (h : uuidRegexp u = true) : u ≠ [] ∧ '/' ∉ u := by
  simp only [uuidRegexp, Bool.and_eq_true, Bool.not_eq_true', List.isEmpty_eq_false_iff, List.all_eq_true] at h
  refine ⟨h.1, fun hm => ?_⟩
  have := h.2 '/' hm
  revert this
  decide

/-! ## Paths read from their end -/

def segmentsFromEnd (p : List Char) : List (List Char) := (elements p).reverse

/-- The elements of the name and of `/v2/`, last first: how every repository
route's path ends when read from its end. -/
def nameEnd (n : List Char) : List (List Char) := (elements n).reverse ++ ["v2".toList, []]

theorem elements_ne_nil (p : List Char) : elements p ≠ [] := List.splitOn_ne_nil _ _

theorem v2_append_rooted (n : List Char) (segs : List (List Char)) (hsegs : segs ≠ []) :
    "/v2/".toList ++ n ++ rooted segs = rooted ("v2".toList :: (elements n ++ segs)) := by
  have hne : elements n ++ segs ≠ [] := by simp [hsegs]
  have hjoin : joinElements ("v2".toList :: (elements n ++ segs)) = "v2".toList ++ '/' :: (n ++ '/' :: joinElements segs) := by
    rw [joinElements_cons _ hne, joinElements_append (elements_ne_nil n) hsegs, joinElements_elements]
  simp only [rooted, hjoin]
  simp

theorem segmentsFromEnd_v2 (n : List Char) (segs : List (List Char)) (hsegs : ∀ s ∈ segs, '/' ∉ s)
    (hne : segs ≠ []) : segmentsFromEnd ("/v2/".toList ++ n ++ rooted segs) = segs.reverse ++ nameEnd n := by
  have hslash : ∀ e ∈ "v2".toList :: (elements n ++ segs), '/' ∉ e := by
    intro e he
    simp only [List.mem_cons, List.mem_append] at he
    rcases he with rfl | he | he
    · simp
    · exact (mem_elements he).1
    · exact hsegs e he
  rw [segmentsFromEnd, v2_append_rooted n segs hne, elements_rooted hslash (List.cons_ne_nil _ _)]
  simp [nameEnd]

theorem rooted_slash_append {segs : List (List Char)} (hne : segs ≠ []) (v : List Char) :
    rooted segs ++ ['/'] ++ v = rooted (segs ++ [v]) := by
  simp [rooted_append hne (List.cons_ne_nil v [])]

theorem segmentsFromEnd_v2_var (n : List Char) (segs : List (List Char)) {v : List Char} (hsegs : ∀ s ∈ segs, '/' ∉ s)
    (hne : segs ≠ []) (hv : '/' ∉ v) :
    segmentsFromEnd ("/v2/".toList ++ n ++ (rooted segs ++ ['/']) ++ v) = v :: (segs.reverse ++ nameEnd n) := by
  have hslash : ∀ s ∈ segs ++ [v], '/' ∉ s := by
    intro s hs
    rcases List.mem_append.mp hs with hs | hs
    · exact hsegs s hs
    · rw [List.mem_singleton.mp hs]
      exact hv
  rw [List.append_assoc _ (rooted segs ++ ['/']), rooted_slash_append hne, segmentsFromEnd_v2 n _ hslash (by simp)]
  simp

theorem segmentsFromEnd_slash (p : List Char) : segmentsFromEnd (p ++ ['/']) = [] :: segmentsFromEnd p := by
  rw [segmentsFromEnd, segmentsFromEnd, elements_append_slash]
  simp [elements]

theorem nameEnd_inj {n n' : List Char} (h : nameEnd n = nameEnd n') : n = n' := by
  simp only [nameEnd, List.append_cancel_right_eq, List.reverse_inj] at h
  rw [← joinElements_elements n, h, joinElements_elements]

theorem length_nameEnd (n : List Char) : 3 ≤ (nameEnd n).length := by
  have := List.length_pos_of_ne_nil (elements_ne_nil n)
  simp [nameEnd]
  omega

theorem v2_plain {n : List Char} (hn : nameRegexp n = true) (segs : List (List Char))
    (hsegs : ∀ s ∈ segs, PlainElement s) : ∀ e ∈ "v2".toList :: (elements n ++ segs), PlainElement e := by
  intro e he
  simp only [List.mem_cons, List.mem_append] at he
  rcases he with rfl | he | he
  · decide
  · exact Reference.matchName_plain hn e he
  · exact hsegs e he

/-! ## The routes' regular expressions -/

theorem regexp_base : RouteName.base.regexp = ⟨[.lit "/v2".toList], true, true⟩ := rfl

theorem regexp_tags :
    RouteName.tags.regexp = ⟨[.lit "/v2/".toList, nameVar, .lit (rooted ["tags".toList, "list".toList])], true, false⟩ :=
  rfl

theorem regexp_manifest :
    RouteName.manifest.regexp = ⟨[.lit "/v2/".toList, nameVar, .lit (rooted ["manifests".toList] ++ ['/']),
      .var "reference" referenceRegexp referenceAnchored], true, false⟩ := rfl

theorem regexp_blob :
    RouteName.blob.regexp = ⟨[.lit "/v2/".toList, nameVar, .lit (rooted ["blobs".toList] ++ ['/']),
      .var "digest" digestFormat digestFormat], true, false⟩ := rfl

theorem regexp_blobUpload :
    RouteName.blobUpload.regexp =
      ⟨[.lit "/v2/".toList, nameVar, .lit (rooted ["blobs".toList, "uploads".toList])], true, true⟩ := rfl

theorem regexp_blobUploadChunk :
    RouteName.blobUploadChunk.regexp = ⟨[.lit "/v2/".toList, nameVar, .lit (rooted ["blobs".toList, "uploads".toList] ++ ['/']),
      .var "uuid" uuidRegexp uuidRegexp], true, false⟩ := rfl

theorem routerWithPrefix_nil :
    routerWithPrefix [] = ⟨none, true, routeDescriptors.map fun name => (name, name.regexp)⟩ := rfl

/-! ## Matches, read from the end of the path -/

theorem mem_matchParts_name {rest : List Part} {p : List Char} {c : Vars} :
    c ∈ matchParts (.lit "/v2/".toList :: nameVar :: rest) p ↔
      ∃ n r d, p = "/v2/".toList ++ n ++ r ∧ nameRegexp n = true ∧ c = ("name", n) :: d ∧ d ∈ matchParts rest r := by
  simp only [nameVar, mem_matchParts_lit, mem_matchParts_var]
  constructor
  · rintro ⟨r₀, rfl, n, r, d, rfl, hn, rfl, hd⟩
    exact ⟨n, r, d, by simp, hn, rfl, hd⟩
  · rintro ⟨n, r, d, rfl, hn, rfl, hd⟩
    exact ⟨n ++ r, by simp, n, r, d, rfl, hn, rfl, hd⟩

section Inversion

variable {segs : List (List Char)} {e : Bool} {p : List Char} {c : Vars}

theorem matchPath_lit (hsegs : ∀ s ∈ segs, '/' ∉ s) (hne : segs ≠ [])
    (h : c ∈ (⟨[.lit "/v2/".toList, nameVar, .lit (rooted segs)], true, e⟩ : RouteRegexp).matchPath p) :
    ∃ n, nameRegexp n = true ∧ c = [("name", n)] ∧
      (segmentsFromEnd p = segs.reverse ++ nameEnd n ∨ segmentsFromEnd p = [] :: (segs.reverse ++ nameEnd n)) := by
  have hsplit : ∀ {q}, c ∈ matchParts [.lit "/v2/".toList, nameVar, .lit (rooted segs)] q →
      ∃ n, nameRegexp n = true ∧ c = [("name", n)] ∧ segmentsFromEnd q = segs.reverse ++ nameEnd n := by
    intro q hq
    obtain ⟨n, r, d, rfl, hn, rfl, hd⟩ := mem_matchParts_name.mp hq
    simp only [mem_matchParts_lit, mem_matchParts_nil] at hd
    obtain ⟨r', rfl, rfl, rfl⟩ := hd
    exact ⟨n, hn, rfl, by simpa using segmentsFromEnd_v2 n segs hsegs hne⟩
  rcases RouteRegexp.mem_matchPath.mp h with hp | ⟨-, q, rfl, hq⟩
  · obtain ⟨n, hn, hc, hs⟩ := hsplit hp
    exact ⟨n, hn, hc, .inl hs⟩
  · obtain ⟨n, hn, hc, hs⟩ := hsplit hq
    exact ⟨n, hn, hc, .inr (by rw [segmentsFromEnd_slash, hs])⟩

/-- A route whose template ends in a variable: the path ends in its value after
the text's elements, or in these and an end slash. -/
theorem matchPath_var (hsegs : ∀ s ∈ segs, '/' ∉ s) (hne : segs ≠ []) {x : String} {pat a : List Char → Bool}
    (hpat : ∀ v, pat v = true → '/' ∉ v)
    (h : c ∈ (⟨[.lit "/v2/".toList, nameVar, .lit (rooted segs ++ ['/']), .var x pat a], true, e⟩ : RouteRegexp).matchPath p) :
    ∃ n v, nameRegexp n = true ∧ pat v = true ∧ c = [("name", n), (x, v)] ∧
      (segmentsFromEnd p = v :: (segs.reverse ++ nameEnd n) ∨
        segmentsFromEnd p = [] :: v :: (segs.reverse ++ nameEnd n)) := by
  have hsplit : ∀ {q}, c ∈ matchParts [.lit "/v2/".toList, nameVar, .lit (rooted segs ++ ['/']), .var x pat a] q →
      ∃ n v, nameRegexp n = true ∧ pat v = true ∧ c = [("name", n), (x, v)] ∧
        segmentsFromEnd q = v :: (segs.reverse ++ nameEnd n) := by
    intro q hq
    obtain ⟨n, r, d, rfl, hn, rfl, hd⟩ := mem_matchParts_name.mp hq
    simp only [mem_matchParts_lit, mem_matchParts_var, mem_matchParts_nil] at hd
    obtain ⟨r', rfl, v, r'', d', rfl, hv, rfl, rfl, rfl⟩ := hd
    refine ⟨n, v, hn, hv, rfl, ?_⟩
    rw [List.append_nil, ← List.append_assoc]
    exact segmentsFromEnd_v2_var n segs hsegs hne (hpat v hv)
  rcases RouteRegexp.mem_matchPath.mp h with hp | ⟨-, q, rfl, hq⟩
  · obtain ⟨n, v, hn, hv, hc, hs⟩ := hsplit hp
    exact ⟨n, v, hn, hv, hc, .inl hs⟩
  · obtain ⟨n, v, hn, hv, hc, hs⟩ := hsplit hq
    exact ⟨n, v, hn, hv, hc, .inr (by rw [segmentsFromEnd_slash, hs])⟩

end Inversion

theorem length_of_base {p : List Char} {c : Vars} (h : c ∈ RouteName.base.regexp.matchPath p) :
    (segmentsFromEnd p).length ≤ 3 := by
  rw [regexp_base] at h
  rcases RouteRegexp.mem_matchPath.mp h with hp | ⟨-, q, rfl, hq⟩
  · simp only [mem_matchParts_lit, mem_matchParts_nil] at hp
    obtain ⟨r, rfl, rfl, -⟩ := hp
    decide
  · simp only [mem_matchParts_lit, mem_matchParts_nil] at hq
    obtain ⟨r, rfl, rfl, -⟩ := hq
    rw [segmentsFromEnd_slash]
    decide

theorem tags_inv {p : List Char} {c : Vars} (h : c ∈ RouteName.tags.regexp.matchPath p) :
    ∃ n, nameRegexp n = true ∧ c = [("name", n)] ∧
      (segmentsFromEnd p = "list".toList :: "tags".toList :: nameEnd n ∨
        segmentsFromEnd p = [] :: "list".toList :: "tags".toList :: nameEnd n) := by
  rw [regexp_tags] at h
  simpa using matchPath_lit (by simp) (by simp) h

theorem manifest_inv {p : List Char} {c : Vars} (h : c ∈ RouteName.manifest.regexp.matchPath p) :
    ∃ n v, nameRegexp n = true ∧ referenceRegexp v = true ∧ c = [("name", n), ("reference", v)] ∧
      (segmentsFromEnd p = v :: "manifests".toList :: nameEnd n ∨
        segmentsFromEnd p = [] :: v :: "manifests".toList :: nameEnd n) := by
  rw [regexp_manifest] at h
  simpa using matchPath_var (by simp) (by simp) (fun v hv => (plain_of_referenceRegexp hv).2.1) h

theorem blob_inv {p : List Char} {c : Vars} (h : c ∈ RouteName.blob.regexp.matchPath p) :
    ∃ n v, nameRegexp n = true ∧ digestFormat v = true ∧ c = [("name", n), ("digest", v)] ∧
      (segmentsFromEnd p = v :: "blobs".toList :: nameEnd n ∨
        segmentsFromEnd p = [] :: v :: "blobs".toList :: nameEnd n) := by
  rw [regexp_blob] at h
  simpa using matchPath_var (by simp) (by simp) (fun v hv => (digestFormat_spec hv).2) h

theorem blobUpload_inv {p : List Char} {c : Vars} (h : c ∈ RouteName.blobUpload.regexp.matchPath p) :
    ∃ n, nameRegexp n = true ∧ c = [("name", n)] ∧
      (segmentsFromEnd p = "uploads".toList :: "blobs".toList :: nameEnd n ∨
        segmentsFromEnd p = [] :: "uploads".toList :: "blobs".toList :: nameEnd n) := by
  rw [regexp_blobUpload] at h
  simpa using matchPath_lit (by simp) (by simp) h

theorem blobUploadChunk_inv {p : List Char} {c : Vars} (h : c ∈ RouteName.blobUploadChunk.regexp.matchPath p) :
    ∃ n v, nameRegexp n = true ∧ uuidRegexp v = true ∧ c = [("name", n), ("uuid", v)] ∧
      (segmentsFromEnd p = v :: "uploads".toList :: "blobs".toList :: nameEnd n ∨
        segmentsFromEnd p = [] :: v :: "uploads".toList :: "blobs".toList :: nameEnd n) := by
  rw [regexp_blobUploadChunk] at h
  simpa using matchPath_var (by simp) (by simp) (fun v hv => (uuidRegexp_spec hv).2) h

/-! ## Built paths -/

section Build

variable {L n : List Char} {e : Bool}

theorem mem_matchPath_lit_self (hn : nameRegexp n = true) :
    [("name", n)] ∈ (⟨[.lit "/v2/".toList, nameVar, .lit L], true, e⟩ : RouteRegexp).matchPath
      (if e then "/v2/".toList ++ n ++ L ++ ['/'] else "/v2/".toList ++ n ++ L) := by
  have hmem : [("name", n)] ∈ matchParts [.lit "/v2/".toList, nameVar, .lit L] ("/v2/".toList ++ n ++ L) :=
    mem_matchParts_name.mpr ⟨n, L, [], rfl, hn, rfl, by simp⟩
  rw [RouteRegexp.mem_matchPath]
  cases e
  · exact .inl hmem
  · exact .inr ⟨rfl, _, rfl, hmem⟩

theorem mem_matchPath_var_self {x : String} {pat a : List Char → Bool} {v : List Char} (hn : nameRegexp n = true)
    (hv : pat v = true) :
    [("name", n), (x, v)] ∈ (⟨[.lit "/v2/".toList, nameVar, .lit L, .var x pat a], true, e⟩ : RouteRegexp).matchPath
      ("/v2/".toList ++ n ++ L ++ v) := by
  rw [RouteRegexp.mem_matchPath]
  refine .inl (mem_matchParts_name.mpr ⟨n, L ++ v, [(x, v)], by simp, hn, rfl, ?_⟩)
  simp only [mem_matchParts_lit, mem_matchParts_var, mem_matchParts_nil]
  exact ⟨v, rfl, v, [], [], by simp, hv, rfl, rfl, rfl⟩

theorem url_lit (hn : nameRegexp n = true) :
    (⟨[.lit "/v2/".toList, nameVar, .lit L], true, e⟩ : RouteRegexp).url [("name", n)] =
      .ok (if e then "/v2/".toList ++ n ++ L ++ ['/'] else "/v2/".toList ++ n ++ L) := by
  have hfill : RouteRegexp.fill [("name", n)] [.lit "/v2/".toList, nameVar, .lit L] = .ok ("/v2/".toList ++ n ++ L) := by
    simp [RouteRegexp.fill, nameVar]
  exact RouteRegexp.url_of_mem hfill (mem_matchPath_lit_self hn)

theorem url_var {x : String} (hx : x ≠ "name") {pat a : List Char → Bool} {v : List Char} (hn : nameRegexp n = true)
    (hv : pat v = true) :
    (⟨[.lit "/v2/".toList, nameVar, .lit L, .var x pat a], true, false⟩ : RouteRegexp).url [("name", n), (x, v)] =
      .ok ("/v2/".toList ++ n ++ L ++ v) := by
  have hfill : RouteRegexp.fill [("name", n), (x, v)] [.lit "/v2/".toList, nameVar, .lit L, .var x pat a] =
      .ok ("/v2/".toList ++ n ++ L ++ v) := by
    have hbeq : (x == "name") = false := by simpa using hx
    simp [RouteRegexp.fill, nameVar, List.lookup_cons, hbeq]
  exact RouteRegexp.url_of_mem hfill (mem_matchPath_var_self hn hv)

end Build

theorem serve_of_first {p : List Char} {pre post : List RouteName} {R : RouteName}
    (hsplit : routeDescriptors = pre ++ R :: post) (hclean : cleanPath p = p)
    (hslash : Router.slashMismatch R.regexp p = false)
    (hbefore : ∀ R' ∈ pre, R'.regexp.matchPath p = []) (hmatch : R.regexp.matchPath p ≠ []) :
    (routerWithPrefix []).serve p = .route R (R.regexp.matchPath p) := by
  have hroutes : (routerWithPrefix []).routes =
      pre.map (fun name => (name, name.regexp)) ++ (R, R.regexp) :: post.map fun name => (name, name.regexp) := by
    rw [routerWithPrefix_nil]
    simp [hsplit]
  exact Router.serve_of_select hclean (Router.select_of_first rfl hroutes (by simpa using hbefore) hmatch) hslash

/-- The router without a prefix serves the path by the route, and every split
the route's regular expression allows gives the values. -/
def ServedBy (p : List Char) (R : RouteName) (vars : Vars) : Prop :=
  ∃ caps, (routerWithPrefix []).serve p = .route R caps ∧ caps ≠ [] ∧ ∀ c ∈ caps, c = vars

theorem servedBy_of {p : List Char} (pre : List RouteName) {post : List RouteName} {R : RouteName} {vars : Vars}
    (hsplit : routeDescriptors = pre ++ R :: post) (hclean : cleanPath p = p)
    (hslash : Router.slashMismatch R.regexp p = false)
    (hbefore : ∀ R' ∈ pre, ∀ c, c ∉ R'.regexp.matchPath p) (hmem : vars ∈ R.regexp.matchPath p)
    (huniq : ∀ c ∈ R.regexp.matchPath p, c = vars) : ServedBy p R vars :=
  ⟨_, serve_of_first hsplit hclean hslash (fun R' hR' => List.eq_nil_iff_forall_not_mem.mpr (hbefore R' hR'))
    (List.ne_nil_of_mem hmem), List.ne_nil_of_mem hmem, huniq⟩

/-! ## Each route serves the paths built for it -/

section Served

variable {n : List Char}

theorem servedBy_tags (hn : nameRegexp n = true) :
    ServedBy ("/v2/".toList ++ n ++ rooted ["tags".toList, "list".toList]) .tags [("name", n)] := by
  have hend : segmentsFromEnd ("/v2/".toList ++ n ++ rooted ["tags".toList, "list".toList]) =
      "list".toList :: "tags".toList :: nameEnd n := by
    simpa using segmentsFromEnd_v2 n ["tags".toList, "list".toList] (by simp) (by simp)
  have hroot := v2_append_rooted n ["tags".toList, "list".toList] (by simp)
  have hplain := v2_plain hn ["tags".toList, "list".toList] (by simp [PlainElement])
  refine servedBy_of [.base] rfl ?_ ?_ ?_ ?_ ?_
  · rw [hroot]
    exact cleanPath_rooted hplain (List.cons_ne_nil _ _)
  · rw [hroot, regexp_tags]
    exact slashMismatch_rooted rfl hplain (List.cons_ne_nil _ _)
  · simp only [List.mem_singleton, forall_eq]
    intro c hc
    have hlen := length_of_base hc
    rw [hend] at hlen
    have := length_nameEnd n
    simp only [List.length_cons] at hlen
    omega
  · rw [regexp_tags]
    simpa using mem_matchPath_lit_self (L := rooted ["tags".toList, "list".toList]) (e := false) hn
  · intro c hc
    obtain ⟨n', -, rfl, h | h⟩ := tags_inv hc
    · rw [hend] at h
      simp only [List.cons.injEq, true_and] at h
      rw [nameEnd_inj h]
    · rw [hend] at h
      simp at h

theorem servedBy_manifest {v : List Char} (hn : nameRegexp n = true) (hv : referenceRegexp v = true) :
    ServedBy ("/v2/".toList ++ n ++ (rooted ["manifests".toList] ++ ['/']) ++ v) .manifest
      [("name", n), ("reference", v)] := by
  have hplain := plain_of_referenceRegexp hv
  have hend : segmentsFromEnd ("/v2/".toList ++ n ++ (rooted ["manifests".toList] ++ ['/']) ++ v) =
      v :: "manifests".toList :: nameEnd n := by
    simpa using segmentsFromEnd_v2_var n ["manifests".toList] (by simp) (by simp) hplain.2.1
  have hroot : "/v2/".toList ++ n ++ (rooted ["manifests".toList] ++ ['/']) ++ v =
      rooted ("v2".toList :: (elements n ++ ["manifests".toList, v])) := by
    rw [List.append_assoc _ (rooted _ ++ ['/']), rooted_slash_append (by simp), v2_append_rooted n _ (by simp)]
    rfl
  have hplains := v2_plain hn ["manifests".toList, v] (by simpa [PlainElement] using hplain)
  refine servedBy_of [.base, .tags] rfl ?_ ?_ ?_ ?_ ?_
  · rw [hroot]
    exact cleanPath_rooted hplains (List.cons_ne_nil _ _)
  · rw [hroot, regexp_manifest]
    exact slashMismatch_rooted rfl hplains (List.cons_ne_nil _ _)
  · simp only [List.mem_cons, List.mem_nil_iff, or_false, forall_eq_or_imp, forall_eq]
    refine ⟨fun c hc => ?_, fun c hc => ?_⟩
    · have hlen := length_of_base hc
      rw [hend] at hlen
      have := length_nameEnd n
      simp only [List.length_cons] at hlen
      omega
    · obtain ⟨n', -, -, h | h⟩ := tags_inv hc <;> rw [hend] at h <;> simp [hplain.1] at h
  · rw [regexp_manifest]
    exact mem_matchPath_var_self hn hv
  · intro c hc
    obtain ⟨n', v', -, -, rfl, h | h⟩ := manifest_inv hc
    · rw [hend] at h
      simp only [List.cons.injEq, true_and] at h
      rw [h.1, nameEnd_inj h.2]
    · rw [hend] at h
      simp [hplain.1] at h

theorem servedBy_blob {d : List Char} (hn : nameRegexp n = true) (hd : digestFormat d = true) :
    ServedBy ("/v2/".toList ++ n ++ (rooted ["blobs".toList] ++ ['/']) ++ d) .blob [("name", n), ("digest", d)] := by
  have hplain := plain_of_digestFormat hd
  have hend : segmentsFromEnd ("/v2/".toList ++ n ++ (rooted ["blobs".toList] ++ ['/']) ++ d) =
      d :: "blobs".toList :: nameEnd n := by
    simpa using segmentsFromEnd_v2_var n ["blobs".toList] (by simp) (by simp) hplain.2.1
  have hroot : "/v2/".toList ++ n ++ (rooted ["blobs".toList] ++ ['/']) ++ d =
      rooted ("v2".toList :: (elements n ++ ["blobs".toList, d])) := by
    rw [List.append_assoc _ (rooted _ ++ ['/']), rooted_slash_append (by simp), v2_append_rooted n _ (by simp)]
    rfl
  have hplains := v2_plain hn ["blobs".toList, d] (by simpa [PlainElement] using hplain)
  refine servedBy_of [.base, .tags, .manifest] rfl ?_ ?_ ?_ ?_ ?_
  · rw [hroot]
    exact cleanPath_rooted hplains (List.cons_ne_nil _ _)
  · rw [hroot, regexp_blob]
    exact slashMismatch_rooted rfl hplains (List.cons_ne_nil _ _)
  · simp only [List.mem_cons, List.mem_nil_iff, or_false, forall_eq_or_imp, forall_eq]
    refine ⟨fun c hc => ?_, fun c hc => ?_, fun c hc => ?_⟩
    · have hlen := length_of_base hc
      rw [hend] at hlen
      have := length_nameEnd n
      simp only [List.length_cons] at hlen
      omega
    · obtain ⟨n', -, -, h | h⟩ := tags_inv hc <;> rw [hend] at h <;> simp [hplain.1] at h
    · obtain ⟨n', v', -, -, -, h | h⟩ := manifest_inv hc <;> rw [hend] at h <;> simp [hplain.1] at h
  · rw [regexp_blob]
    exact mem_matchPath_var_self hn hd
  · intro c hc
    obtain ⟨n', d', -, -, rfl, h | h⟩ := blob_inv hc
    · rw [hend] at h
      simp only [List.cons.injEq, true_and] at h
      rw [h.1, nameEnd_inj h.2]
    · rw [hend] at h
      simp [hplain.1] at h

theorem servedBy_blobUpload (hn : nameRegexp n = true) :
    ServedBy ("/v2/".toList ++ n ++ rooted ["blobs".toList, "uploads".toList] ++ ['/']) .blobUpload [("name", n)] := by
  have hend : segmentsFromEnd ("/v2/".toList ++ n ++ rooted ["blobs".toList, "uploads".toList] ++ ['/']) =
      [] :: "uploads".toList :: "blobs".toList :: nameEnd n := by
    rw [segmentsFromEnd_slash]
    simpa using segmentsFromEnd_v2 n ["blobs".toList, "uploads".toList] (by simp) (by simp)
  refine servedBy_of [.base, .tags, .manifest, .blob] rfl ?_ ?_ ?_ ?_ ?_
  · rw [v2_append_rooted n _ (by simp)]
    exact cleanPath_rooted_slash (v2_plain hn _ (by simp [PlainElement])) (List.cons_ne_nil _ _)
  · rw [regexp_blobUpload]
    exact slashMismatch_slash rfl _
  · simp only [List.mem_cons, List.mem_nil_iff, or_false, forall_eq_or_imp, forall_eq]
    refine ⟨fun c hc => ?_, fun c hc => ?_, fun c hc => ?_, fun c hc => ?_⟩
    · have hlen := length_of_base hc
      rw [hend] at hlen
      have := length_nameEnd n
      simp only [List.length_cons] at hlen
      omega
    · obtain ⟨n', -, -, h | h⟩ := tags_inv hc <;> rw [hend] at h <;> simp at h
    · obtain ⟨n', v, -, hv, -, h | h⟩ := manifest_inv hc <;> rw [hend] at h
      · simp [(plain_of_referenceRegexp hv).1.symm] at h
      · simp at h
    · obtain ⟨n', v, -, hv, -, h | h⟩ := blob_inv hc <;> rw [hend] at h
      · simp [(plain_of_digestFormat hv).1.symm] at h
      · simp only [List.cons.injEq, true_and] at h
        have hcolon := (digestFormat_spec hv).1
        rw [← h.1] at hcolon
        simp at hcolon
  · rw [regexp_blobUpload]
    simpa using mem_matchPath_lit_self (L := rooted ["blobs".toList, "uploads".toList]) (e := true) hn
  · intro c hc
    obtain ⟨n', -, rfl, h | h⟩ := blobUpload_inv hc
    · rw [hend] at h
      simp at h
    · rw [hend] at h
      simp only [List.cons.injEq, true_and] at h
      rw [nameEnd_inj h]

theorem servedBy_blobUploadChunk {u : List Char} (hn : nameRegexp n = true) (hu : uuidRegexp u = true)
    (hplain : PlainElement u) :
    ServedBy ("/v2/".toList ++ n ++ (rooted ["blobs".toList, "uploads".toList] ++ ['/']) ++ u) .blobUploadChunk
      [("name", n), ("uuid", u)] := by
  have hend : segmentsFromEnd ("/v2/".toList ++ n ++ (rooted ["blobs".toList, "uploads".toList] ++ ['/']) ++ u) =
      u :: "uploads".toList :: "blobs".toList :: nameEnd n := by
    simpa using segmentsFromEnd_v2_var n ["blobs".toList, "uploads".toList] (by simp) (by simp)
      hplain.2.1
  have hroot : "/v2/".toList ++ n ++ (rooted ["blobs".toList, "uploads".toList] ++ ['/']) ++ u =
      rooted ("v2".toList :: (elements n ++ ["blobs".toList, "uploads".toList, u])) := by
    rw [List.append_assoc _ (rooted _ ++ ['/']), rooted_slash_append (by simp), v2_append_rooted n _ (by simp)]
    rfl
  have hplains := v2_plain hn ["blobs".toList, "uploads".toList, u] (by simpa [PlainElement] using hplain)
  refine servedBy_of [.base, .tags, .manifest, .blob, .blobUpload] rfl ?_ ?_ ?_ ?_ ?_
  · rw [hroot]
    exact cleanPath_rooted hplains (List.cons_ne_nil _ _)
  · rw [hroot, regexp_blobUploadChunk]
    exact slashMismatch_rooted rfl hplains (List.cons_ne_nil _ _)
  · simp only [List.mem_cons, List.mem_nil_iff, or_false, forall_eq_or_imp, forall_eq]
    refine ⟨fun c hc => ?_, fun c hc => ?_, fun c hc => ?_, fun c hc => ?_, fun c hc => ?_⟩
    · have hlen := length_of_base hc
      rw [hend] at hlen
      have := length_nameEnd n
      simp only [List.length_cons] at hlen
      omega
    · obtain ⟨n', -, -, h | h⟩ := tags_inv hc <;> rw [hend] at h <;> simp [hplain.1] at h
    · obtain ⟨n', v, -, -, -, h | h⟩ := manifest_inv hc <;> rw [hend] at h <;> simp [hplain.1] at h
    · obtain ⟨n', v, -, -, -, h | h⟩ := blob_inv hc <;> rw [hend] at h <;> simp [hplain.1] at h
    · obtain ⟨n', -, -, h | h⟩ := blobUpload_inv hc <;> rw [hend] at h <;> simp [hplain.1] at h
  · rw [regexp_blobUploadChunk]
    exact mem_matchPath_var_self hn hu
  · intro c hc
    obtain ⟨n', u', -, -, rfl, h | h⟩ := blobUploadChunk_inv hc
    · rw [hend] at h
      simp only [List.cons.injEq, true_and] at h
      rw [h.1, nameEnd_inj h.2]
    · rw [hend] at h
      simp [hplain.1] at h

end Served

/-! ## The builder and the router agree -/

/-- A URL the builder makes, and the values it is made from. -/
inductive Target where
  | tags (name : List Char)
  | manifestTag (name tag : List Char)
  | manifestDigest (name digest : List Char)
  | blob (name digest : List Char)
  | blobUpload (name : List Char)
  | blobUploadChunk (name uuid : List Char)

namespace Target

def build : Target → Except BuildError (List Char)
  | .tags n => buildTagsURL n
  | .manifestTag n t => buildManifestURL ⟨n, some t, none⟩
  | .manifestDigest n d => buildManifestURL ⟨n, none, some d⟩
  | .blob n d => buildBlobURL n d
  | .blobUpload n => buildBlobUploadURL n
  | .blobUploadChunk n u => buildBlobUploadChunkURL n u

def route : Target → RouteName
  | .tags _ => .tags
  | .manifestTag _ _ | .manifestDigest _ _ => .manifest
  | .blob _ _ => .blob
  | .blobUpload _ => .blobUpload
  | .blobUploadChunk _ _ => .blobUploadChunk

def vars : Target → Vars
  | .tags n | .blobUpload n => [("name", n)]
  | .manifestTag n r | .manifestDigest n r => [("name", n), ("reference", r)]
  | .blob n d => [("name", n), ("digest", d)]
  | .blobUploadChunk n u => [("name", n), ("uuid", u)]

/-- A name of `NameRegexp`, a tag of `TagRegexp`, a digest of `DigestRegexp`,
and an upload id of `[a-zA-Z0-9-_.=]+` other than `.` and `..`. -/
def valid : Target → Bool
  | .tags n | .blobUpload n => nameRegexp n
  | .manifestTag n t => nameRegexp n && tagRegexp t
  | .manifestDigest n d | .blob n d => nameRegexp n && digestFormat d
  | .blobUploadChunk n u => nameRegexp n && uuidRegexp u && u != ['.'] && u != ['.', '.']

end Target

section BuildPaths

variable {n : List Char}

theorem buildTagsURL_eq (hn : nameRegexp n = true) :
    buildTagsURL n = .ok ("/v2/".toList ++ n ++ rooted ["tags".toList, "list".toList]) := by
  unfold buildTagsURL routeURL
  rw [regexp_tags, url_lit hn]
  rfl

theorem routeURL_manifest {v : List Char} (hn : nameRegexp n = true) (hv : referenceRegexp v = true) :
    routeURL .manifest [("name", n), ("reference", v)] =
      .ok ("/v2/".toList ++ n ++ (rooted ["manifests".toList] ++ ['/']) ++ v) := by
  unfold routeURL
  rw [regexp_manifest, url_var (by decide) hn hv]
  rfl

theorem buildBlobURL_eq {d : List Char} (hn : nameRegexp n = true) (hd : digestFormat d = true) :
    buildBlobURL n d = .ok ("/v2/".toList ++ n ++ (rooted ["blobs".toList] ++ ['/']) ++ d) := by
  unfold buildBlobURL routeURL
  rw [regexp_blob, url_var (by decide) hn hd]
  rfl

theorem buildBlobUploadURL_eq (hn : nameRegexp n = true) :
    buildBlobUploadURL n = .ok ("/v2/".toList ++ n ++ rooted ["blobs".toList, "uploads".toList] ++ ['/']) := by
  unfold buildBlobUploadURL routeURL
  rw [regexp_blobUpload, url_lit hn]
  rfl

theorem buildBlobUploadChunkURL_eq {u : List Char} (hn : nameRegexp n = true) (hu : uuidRegexp u = true) :
    buildBlobUploadChunkURL n u =
      .ok ("/v2/".toList ++ n ++ (rooted ["blobs".toList, "uploads".toList] ++ ['/']) ++ u) := by
  unfold buildBlobUploadChunkURL routeURL
  rw [regexp_blobUploadChunk, url_var (by decide) hn hu]
  rfl

end BuildPaths

/-- With no prefix, the path the builder makes for a route is served by that
route, and every split of the path by the route's regular expression gives
back the values it was built from. -/
theorem urlBuilder_router_agree {t : Target} (ht : t.valid = true) :
    ∃ p, t.build = .ok p ∧
      ∃ caps, (routerWithPrefix []).serve p = .route t.route caps ∧ caps ≠ [] ∧ ∀ c ∈ caps, c = t.vars := by
  cases t with
  | tags n => exact ⟨_, buildTagsURL_eq ht, servedBy_tags ht⟩
  | manifestTag n tag =>
    simp only [Target.valid, Bool.and_eq_true] at ht
    have hv : referenceRegexp tag = true := by simp [referenceRegexp, ht.2]
    exact ⟨_, routeURL_manifest ht.1 hv, servedBy_manifest ht.1 hv⟩
  | manifestDigest n d =>
    simp only [Target.valid, Bool.and_eq_true] at ht
    have hv : referenceRegexp d = true := by simp [referenceRegexp, ht.2]
    exact ⟨_, routeURL_manifest ht.1 hv, servedBy_manifest ht.1 hv⟩
  | blob n d =>
    simp only [Target.valid, Bool.and_eq_true] at ht
    exact ⟨_, buildBlobURL_eq ht.1 ht.2, servedBy_blob ht.1 ht.2⟩
  | blobUpload n => exact ⟨_, buildBlobUploadURL_eq ht, servedBy_blobUpload ht⟩
  | blobUploadChunk n u =>
    simp only [Target.valid, Bool.and_eq_true, bne_iff_ne, ne_eq] at ht
    obtain ⟨⟨⟨hn, hu⟩, hdot⟩, hdotdot⟩ := ht
    have hplain : PlainElement u := ⟨(uuidRegexp_spec hu).1, (uuidRegexp_spec hu).2, hdot, hdotdot⟩
    exact ⟨_, buildBlobUploadChunkURL_eq hn hu, servedBy_blobUploadChunk hn hu hplain⟩

/-- The upload URL of an id of `distribution/uuid` form. -/
theorem urlBuilder_router_agree_chunk :
    let t := Target.blobUploadChunk "library/ubuntu".toList "f1e2-d3c4".toList
    t.valid = true ∧ ∃ p, t.build = .ok p ∧
      ∃ caps, (routerWithPrefix []).serve p = .route t.route caps ∧ caps ≠ [] ∧ ∀ c ∈ caps, c = t.vars := by
  intro t
  have ht : t.valid = true := by
    simp only [t, Target.valid, String.reduceToList]
    decide
  exact ⟨ht, urlBuilder_router_agree ht⟩

/-- An upload id `.` fits `[a-zA-Z0-9-_.=]+`, but mux cleans the chunk URL to
the upload route's path less its end slash, redirects that to the upload
route's own path, and serves it by the upload route. Under a prefix, the
relative URLs, which never carry it, are not routed. -/
theorem chunk_url_dot_upload_route :
    buildBlobUploadChunkURL "foo".toList ['.'] = .ok "/v2/foo/blobs/uploads/.".toList ∧
      (routerWithPrefix []).serve "/v2/foo/blobs/uploads/.".toList = .redirect "/v2/foo/blobs/uploads".toList ∧
      (routerWithPrefix []).serve "/v2/foo/blobs/uploads".toList = .redirect "/v2/foo/blobs/uploads/".toList ∧
      (routerWithPrefix []).serve "/v2/foo/blobs/uploads/".toList = .route .blobUpload [[("name", "foo".toList)]] ∧
      buildTagsURL "foo".toList = .ok "/v2/foo/tags/list".toList ∧
      (routerWithPrefix "/registry/".toList).serve "/v2/foo/tags/list".toList = .notFound := by
  refine ⟨by rfl, by decide, ?_, ?_, by rfl, by decide⟩ <;>
  · simp only [routerWithPrefix, routeDescriptors, RouteName.template, String.reduceToList]
    decide

end DockerRegistry.Api
