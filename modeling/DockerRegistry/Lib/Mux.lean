import DockerRegistry.Lib.GoPath

/-!
# Routing with gorilla/mux

The part of `gorilla/mux` (v1.8) that a path router is made of. A path template
is text and `{name:pattern}` variables, and `newRouteRegexp` compiles it into
an anchored regular expression. Under `StrictSlash` the template's end slash
becomes optional. A `PathPrefix` subrouter puts its prefix in front of every
template added to it. `Router.Match` tries the routes in the order they were
added, and `Router.ServeHTTP` first redirects a path that `cleanPath` changes.
`Route.URL` fills a template in.

A variable's pattern is a predicate on the text it captures. The regular
expression of a template matches a path when the path splits into the
template's texts and values that the variables' patterns accept. Go's matcher
reports one such split, so `matchParts` lists them all, and a result about
what a route captures holds of every split in the list.
-/

namespace Mux

open GoPath

/-- A piece of a path template: text, or a variable `{name:pattern}`. A
variable carries two tests. `pattern` is what the route's regular expression
lets it capture. `anchored` is the validator `^pattern$` that `Route.URL`
checks a value against; it is not `pattern` anchored when `pattern` has a
top-level `|`. -/
inductive Part where
  | lit (s : List Char)
  | var (name : String) (pattern : List Char → Bool) (anchored : List Char → Bool)

abbrev Vars := List (String × List Char)

/-- Every split by which the anchored regular expression of a template matches
a path. -/
def matchParts : List Part → List Char → List Vars
  | [], p => if p = [] then [[]] else []
  | .lit s :: ps, p => if s.isPrefixOf p then matchParts ps (p.drop s.length) else []
  | .var x pat _ :: ps, p =>
    (List.range (p.length + 1)).flatMap fun i =>
      if pat (p.take i) then (matchParts ps (p.drop i)).map ((x, p.take i) :: ·) else []

@[simp] theorem mem_matchParts_nil {p : List Char} {c : Vars} : c ∈ matchParts [] p ↔ p = [] ∧ c = [] := by
  by_cases hp : p = [] <;> simp [matchParts, hp]

@[simp] theorem mem_matchParts_lit {s p : List Char} {ps : List Part} {c : Vars} :
    c ∈ matchParts (.lit s :: ps) p ↔ ∃ r, p = s ++ r ∧ c ∈ matchParts ps r := by
  simp only [matchParts]
  constructor
  · intro h
    split at h
    · rename_i hs
      obtain ⟨r, hr⟩ := List.isPrefixOf_iff_prefix.mp hs
      subst hr
      exact ⟨r, rfl, by simpa using h⟩
    · simp at h
  · rintro ⟨r, rfl, hr⟩
    rw [if_pos (List.isPrefixOf_iff_prefix.mpr (List.prefix_append s r))]
    simpa using hr

@[simp] theorem mem_matchParts_var {x : String} {pat a : List Char → Bool} {ps : List Part} {p : List Char}
    {c : Vars} :
    c ∈ matchParts (.var x pat a :: ps) p ↔
      ∃ v r d, p = v ++ r ∧ pat v = true ∧ c = (x, v) :: d ∧ d ∈ matchParts ps r := by
  simp only [matchParts, List.mem_flatMap, List.mem_range]
  constructor
  · rintro ⟨i, -, hc⟩
    split at hc
    · rename_i hpat
      obtain ⟨d, hd, rfl⟩ := List.mem_map.mp hc
      exact ⟨p.take i, p.drop i, d, (List.take_append_drop i p).symm, hpat, rfl, hd⟩
    · simp at hc
  · rintro ⟨v, r, d, rfl, hpat, rfl, hd⟩
    refine ⟨v.length, by simp, ?_⟩
    simp [hpat, hd]

/-! ## Route regular expressions -/

/-- The path regular expression `newRouteRegexp` builds from a template. -/
structure RouteRegexp where
  /-- the template, less its end slash under `strictSlash` -/
  parts : List Part
  /-- `[/]?` before the end -/
  strictSlash : Bool
  /-- the end slash taken off the template, put back when a URL is built -/
  endSlash : Bool

def endsWithSlash (tpl : List Part) : Bool :=
  match tpl.getLast? with
  | some (.lit s) => s.getLast? == some '/'
  | _ => false

def dropEndSlash (tpl : List Part) : List Part :=
  match tpl.reverse with
  | .lit s :: ps => (Part.lit s.dropLast :: ps).reverse
  | _ => tpl

def newRouteRegexp (tpl : List Part) (strictSlash : Bool) : RouteRegexp :=
  if strictSlash && endsWithSlash tpl then ⟨dropEndSlash tpl, true, true⟩ else ⟨tpl, strictSlash, false⟩

/-- The errors of `Route.URL`. -/
inductive UrlError where
  /-- `mux: missing route variable` -/
  | missingVariable (name : String)
  /-- `mux: variable ... doesn't match` -/
  | variableMismatch (name : String)
  deriving DecidableEq, Repr

namespace RouteRegexp

/-- `routeRegexp.Match` on a path: the splits of `^template[/]?$`, or of
`^template$` without `strictSlash`. -/
def matchPath (r : RouteRegexp) (p : List Char) : List Vars :=
  matchParts r.parts p ++ if r.strictSlash && p.getLast? == some '/' then matchParts r.parts p.dropLast else []

/-- The reverse template with the values put in for its variables; the first
variable with no value is an error. -/
def fill (values : Vars) : List Part → Except UrlError (List Char)
  | [] => .ok []
  | .lit s :: ps => (s ++ ·) <$> fill values ps
  | .var x _ _ :: ps =>
    match values.lookup x with
    | none => .error (.missingVariable x)
    | some v => (v ++ ·) <$> fill values ps

def firstMismatch (values : Vars) : List Part → Option String
  | [] => none
  | .lit _ :: ps => firstMismatch values ps
  | .var x _ a :: ps => if a ((values.lookup x).getD []) then firstMismatch values ps else some x

/-- `routeRegexp.url`: the reverse template filled in. Only when the result
fails the route's regular expression is each value checked against its
validator. -/
def url (r : RouteRegexp) (values : Vars) : Except UrlError (List Char) := do
  let rv ← fill values r.parts
  let rv := if r.endSlash then rv ++ ['/'] else rv
  if (r.matchPath rv).isEmpty then
    match firstMismatch values r.parts with
    | some x => throw (UrlError.variableMismatch x)
    | none => pure rv
  else pure rv

theorem mem_matchPath {r : RouteRegexp} {p : List Char} {c : Vars} :
    c ∈ r.matchPath p ↔
      c ∈ matchParts r.parts p ∨ (r.strictSlash = true ∧ ∃ q, p = q ++ ['/'] ∧ c ∈ matchParts r.parts q) := by
  unfold matchPath
  rw [List.mem_append]
  apply or_congr Iff.rfl
  constructor
  · intro h
    split at h
    · rename_i hs
      simp only [Bool.and_eq_true, beq_iff_eq] at hs
      refine ⟨hs.1, p.dropLast, ?_, h⟩
      rw [List.dropLast_append_getLast? _ hs.2]
    · simp at h
  · rintro ⟨hs, q, rfl, hq⟩
    simpa [hs] using hq

theorem url_of_mem {r : RouteRegexp} {values : Vars} {rv : List Char} (hfill : fill values r.parts = .ok rv)
    {c : Vars} (hc : c ∈ r.matchPath (if r.endSlash then rv ++ ['/'] else rv)) :
    r.url values = .ok (if r.endSlash then rv ++ ['/'] else rv) := by
  have hne : (r.matchPath (if r.endSlash then rv ++ ['/'] else rv)).isEmpty = false :=
    List.isEmpty_eq_false_iff_exists_mem.mpr ⟨c, hc⟩
  simp only [url, hfill, bind, Except.bind, hne]
  rfl

end RouteRegexp

/-! ## Routers -/

/-- A router: its routes in the order they were added, each a name and a path
regular expression, and the `PathPrefix` of the subrouter they were added to. -/
structure Router (β : Type) where
  pathPrefix : Option (List Char)
  strictSlash : Bool
  routes : List (β × RouteRegexp)

/-- What `Router.ServeHTTP` does with a request path. -/
inductive Outcome (β : Type) where
  /-- `301 Moved Permanently` to the clean path -/
  | redirect (location : List Char)
  /-- the route's handler, with the splits its regular expression allows -/
  | route (name : β) (vars : List Vars)
  /-- `404 Not Found` -/
  | notFound
  deriving DecidableEq, Repr

/-- `cleanPath`: `path.Clean` of the path made rooted, keeping an end slash. -/
def cleanPath (p : List Char) : List Char :=
  if p = [] then ['/']
  else
    let p := if p.head? = some '/' then p else '/' :: p
    let np := cleanChars p
    if p.getLast? = some '/' ∧ np ≠ ['/'] then np ++ ['/'] else np

namespace Router

variable {β : Type}

def new (strictSlash : Bool) : Router β := ⟨none, strictSlash, []⟩

def withPrefix (pre : List Char) (strictSlash : Bool) : Router β := ⟨some pre, strictSlash, []⟩

/-- `router.Path(tpl).Name(name)`: a route added last. Under a `PathPrefix`
its template is the prefix less its end slashes, then `tpl`. -/
def path (r : Router β) (name : β) (tpl : List Part) : Router β :=
  let tpl := match r.pathPrefix with
    | some pre => .lit (pre.reverse.dropWhile (· = '/')).reverse :: tpl
    | none => tpl
  { r with routes := r.routes ++ [(name, newRouteRegexp tpl r.strictSlash)] }

/-- `Router.Match`: the first route whose regular expression matches the path.
Under a `PathPrefix`, no route matches a path that does not start with it. -/
def select (r : Router β) (p : List Char) : Option (β × RouteRegexp) :=
  if r.pathPrefix.all (·.isPrefixOf p) then r.routes.find? fun x => !(x.2.matchPath p).isEmpty else none

/-- Under `StrictSlash`, the path and the route's template differ in their end
slash (`routeRegexpGroup.setMatch`). -/
def slashMismatch (rr : RouteRegexp) (p : List Char) : Bool :=
  rr.strictSlash && ((p.getLast? == some '/') != rr.endSlash)

/-- `Router.ServeHTTP`: a path that `cleanPath` changes is redirected. Otherwise
the first matching route serves it, with the splits its regular expression
allows; under `StrictSlash`, a path whose end slash differs from the
template's is redirected to the other form. -/
def serve (r : Router β) (p : List Char) : Outcome β :=
  if cleanPath p ≠ p then .redirect (cleanPath p)
  else
    match r.select p with
    | some (b, rr) =>
      if slashMismatch rr p then .redirect (if p.getLast? == some '/' then p.dropLast else p ++ ['/'])
      else .route b (rr.matchPath p)
    | none => .notFound

theorem select_of_first {r : Router β} {p : List Char} (hpre : r.pathPrefix = none)
    {pre post : List (β × RouteRegexp)} {b : β} {rr : RouteRegexp} (hroutes : r.routes = pre ++ (b, rr) :: post)
    (hbefore : ∀ x ∈ pre, x.2.matchPath p = []) (hmatch : rr.matchPath p ≠ []) :
    r.select p = some (b, rr) := by
  have hskip : pre.find? (fun x => !(x.2.matchPath p).isEmpty) = none := by
    rw [List.find?_eq_none]
    intro x hx
    simp [hbefore x hx]
  have hfound : (rr.matchPath p).isEmpty = false := by simpa using hmatch
  simp only [select, hpre, Option.all_none, if_true, hroutes, List.find?_append, hskip, Option.none_or,
    List.find?_cons, hfound, Bool.not_false]

theorem serve_of_select {r : Router β} {p : List Char} (hclean : cleanPath p = p) {b : β} {rr : RouteRegexp}
    (hsel : r.select p = some (b, rr)) (hslash : slashMismatch rr p = false) :
    r.serve p = .route b (rr.matchPath p) := by
  simp [serve, hclean, hsel, hslash]

end Router

theorem getLast?_rooted {es : List (List Char)} (hes : ∀ e ∈ es, PlainElement e) (hne : es ≠ []) :
    (rooted es).getLast? ≠ some '/' := by
  obtain ⟨init, e, rfl⟩ := (List.eq_nil_or_concat es).resolve_left hne
  rw [List.concat_eq_append] at hes ⊢
  have he := hes e (by simp)
  obtain ⟨x, hx⟩ : ∃ x, rooted (init ++ [e]) = x ++ '/' :: e := by
    rcases eq_or_ne init [] with rfl | hinit
    · exact ⟨[], by simp [rooted]⟩
    · exact ⟨rooted init, by simpa using rooted_append hinit (List.cons_ne_nil e [])⟩
  rw [hx, List.getLast?_append, List.getLast?_cons, List.getLast?_eq_some_getLast he.1]
  intro h
  simp only [Option.getD_some, Option.some_or, Option.some.injEq] at h
  exact he.2.1 (h ▸ List.getLast_mem he.1)

theorem rooted_ne_root {es : List (List Char)} (hes : ∀ e ∈ es, PlainElement e) (hne : es ≠ []) :
    rooted es ≠ ['/'] := by
  intro h
  have hjoin : joinElements es = [] := by simpa [rooted] using h
  have helems := elements_joinElements (fun e he => (hes e he).2.1) hne
  rw [hjoin] at helems
  exact (hes [] (by rw [← helems]; simp [elements])).1 rfl

theorem cleanPath_rooted {es : List (List Char)} (hes : ∀ e ∈ es, PlainElement e) (hne : es ≠ []) :
    cleanPath (rooted es) = rooted es := by
  have hnil : rooted es ≠ [] := List.cons_ne_nil _ _
  have hhead : (rooted es).head? = some '/' := rfl
  unfold cleanPath
  rw [if_neg hnil, if_pos hhead]
  dsimp only
  rw [cleanChars_rooted hes, if_neg (fun h => getLast?_rooted hes hne h.1)]

theorem cleanPath_rooted_slash {es : List (List Char)} (hes : ∀ e ∈ es, PlainElement e) (hne : es ≠ []) :
    cleanPath (rooted es ++ ['/']) = rooted es ++ ['/'] := by
  have hnil : rooted es ++ ['/'] ≠ [] := by simp
  have hhead : (rooted es ++ ['/']).head? = some '/' := rfl
  unfold cleanPath
  rw [if_neg hnil, if_pos hhead]
  dsimp only
  rw [cleanChars_rooted_slash hes hne, if_pos ⟨by simp, rooted_ne_root hes hne⟩]

theorem slashMismatch_rooted {rr : RouteRegexp} (hend : rr.endSlash = false) {es : List (List Char)}
    (hes : ∀ e ∈ es, PlainElement e) (hne : es ≠ []) : Router.slashMismatch rr (rooted es) = false := by
  simp [Router.slashMismatch, hend, getLast?_rooted hes hne]

theorem slashMismatch_slash {rr : RouteRegexp} (hend : rr.endSlash = true) (q : List Char) :
    Router.slashMismatch rr (q ++ ['/']) = false := by
  simp [Router.slashMismatch, hend]

end Mux
