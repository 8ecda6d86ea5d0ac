import DockerRegistry.Configuration.Parser
import DockerRegistry.Lib.ListOrder

/-!
# The bearer challenge and the client's challenge parser

`authChallenge.challengeParams` of `registry/auth/token/accesscontroller.go`
writes the `WWW-Authenticate` value of a 401: `Bearer realm=%q,service=%q`, then
`scope` when the requested access set is not empty and `error` for the token
errors, every value quoted by `%q`. `parseValueAndParams` of
`internal/client/auth/challenge/authchallenge.go` reads it back: the scheme as a
token, then `,key=value` pairs, a value being a token or a quoted string with
backslash escapes. It stops at the first pair it cannot read, and at the first
empty value, which is how it reads the quoted string `""`.

The access set is a Go map, and `range` visits it in an order of the runtime's
choosing: it is the list of its resources in that order, each with its actions
in the order `keys` returns them. The parameter map is the list of its keys and
values in the order they were first set. Strings are read by character; the
parser only compares bytes with ASCII characters, and the bytes of a non-ASCII
character are all at least 128, so reading by byte gives the same.
-/

namespace DockerRegistry.Auth.Challenge

open GoDecimal DockerRegistry.Configuration

/-! ## The registry's challenge -/

structure Resource where
  type : String
  name : String
  deriving DecidableEq, Repr

/-- An `accessSet`, in the order a `range` over it visits it: each resource with
its actions. -/
abbrev AccessSet := List (Resource × List String)

def scopeParam (s : AccessSet) : String :=
  " ".intercalate (s.map fun (resource, actions) => resource.type ++ ":" ++ resource.name ++ ":" ++ ",".intercalate actions)

/-- The error a challenge carries: `ErrInvalidToken`, `ErrMalformedToken`,
`ErrInsufficientScope`, `ErrTokenRequired`, or another. -/
inductive ChallengeError where
  | invalidToken
  | malformedToken
  | insufficientScope
  | tokenRequired
  | other (msg : String)
  deriving DecidableEq, Repr

/-- `authChallenge`; the auto-redirect path enters through the URL built from the
request. -/
structure AuthChallenge where
  err : ChallengeError
  realm : String
  autoRedirect : Bool
  service : String
  accessSet : AccessSet
  deriving DecidableEq, Repr

/-- The realm of the challenge: the URL `buildAutoRedirectURL` builds from the
request, or the configured realm. -/
def AuthChallenge.realmFor (ac : AuthChallenge) (autoRedirectURL : String) : String :=
  if ac.autoRedirect then autoRedirectURL else ac.realm

def AuthChallenge.challengeParams (ac : AuthChallenge) (autoRedirectURL : String) : String :=
  let str := "Bearer realm=" ++ quote (ac.realmFor autoRedirectURL) ++ ",service=" ++ quote ac.service
  let str := if scopeParam ac.accessSet ≠ "" then str ++ ",scope=" ++ quote (scopeParam ac.accessSet) else str
  match ac.err with
  | .invalidToken | .malformedToken => str ++ ",error=" ++ quote "invalid_token"
  | .insufficientScope => str ++ ",error=" ++ quote "insufficient_scope"
  | _ => str

/-! ## The client's parser -/

def separators : List Char :=
  [' ', '\t', '"', '(', ')', ',', '/', ':', ';', '<', '=', '>', '?', '@', '[', ']', '\\', '\x7b', '\x7d']

/-- `octetTypes[c]&isToken`: a US-ASCII character that is neither a control
character nor a separator. -/
def isToken (c : Char) : Bool := c.toNat ≤ 127 && !(c.toNat ≤ 31 || c.toNat = 127) && !(separators.contains c)

def isSpace (c : Char) : Bool := [' ', '\t', '\r', '\n'].contains c

def skipSpace (s : List Char) : List Char := s.dropWhile isSpace

def expectToken (s : List Char) : List Char × List Char := (s.takeWhile isToken, s.dropWhile isToken)

/-- The loop of `expectTokenOrQuoted` after the first backslash: `p` holds the
bytes kept. -/
def unescapeLoop : Bool → List Char → List Char → List Char × List Char
  | _, _, [] => ([], [])
  | escape, p, b :: s =>
    if escape then unescapeLoop false (p ++ [b]) s
    else if b = '\\' then unescapeLoop true p s
    else if b = '"' then (p, s)
    else unescapeLoop false (p ++ [b]) s

/-- The first loop of `expectTokenOrQuoted`, up to the closing quote or the first
backslash. -/
def quotedLoop (p : List Char) : List Char → List Char × List Char
  | [] => ([], [])
  | c :: s => if c = '"' then (p, s) else if c = '\\' then unescapeLoop true p s else quotedLoop (p ++ [c]) s

def expectTokenOrQuoted : List Char → List Char × List Char
  | '"' :: s => quotedLoop [] s
  | s => expectToken s

def setParam : List (String × String) → String → String → List (String × String)
  | [], k, v => [(k, v)]
  | (k', v') :: ps, k, v => if k' = k then (k, v) :: ps else (k', v') :: setParam ps k v

/-- The loop of `parseValueAndParams` over `,key=value` pairs, for at most `fuel`
pairs. -/
def paramsLoop : ℕ → List Char → List (String × String) → List (String × String)
  | 0, _, params => params
  | fuel + 1, s, params =>
    match s with
    | ',' :: s =>
      let (pkey, s) := expectToken (skipSpace s)
      if pkey = [] then params
      else
        match s with
        | '=' :: s =>
          let (pvalue, s) := expectTokenOrQuoted s
          if pvalue = [] then params
          else paramsLoop fuel (skipSpace s) (setParam params (toLower (String.ofList pkey)) (String.ofList pvalue))
        | _ => params
    | _ => params

/-- `parseValueAndParams`: the scheme in lower case and the parameters. -/
def parseValueAndParams (header : String) : String × List (String × String) :=
  let (value, s) := expectToken header.toList
  if value = [] then ("", [])
  else (toLower (String.ofList value), paramsLoop header.length (',' :: skipSpace s) [])

/-! ## Reading a challenge back -/

/-- A printable ASCII character: `%q` writes it as itself, or after a backslash
for the quote and the backslash. (`%q` also writes the printable characters
beyond ASCII as themselves, and escapes the others, which `quote` does not
model.) -/
def Printable (c : Char) : Prop := 0x20 ≤ c.toNat ∧ c.toNat < 0x7F

instance : DecidablePred Printable := fun c => inferInstanceAs (Decidable (0x20 ≤ c.toNat ∧ c.toNat < 0x7F))

/-- The parameters a challenge carries: the realm, the service, the scope when
some access is requested, and the error code of RFC 6750 for the token errors. -/
def expectedParams (ac : AuthChallenge) (autoRedirectURL : String) : List (String × String) :=
  [("realm", ac.realmFor autoRedirectURL), ("service", ac.service)] ++
    (if ac.accessSet ≠ [] then [("scope", scopeParam ac.accessSet)] else []) ++
    match ac.err with
    | .invalidToken | .malformedToken => [("error", "invalid_token")]
    | .insufficientScope => [("error", "insufficient_scope")]
    | _ => []

def renderParams (ps : List (String × String)) : List Char :=
  ps.flatMap fun kv => ',' :: (kv.1.toList ++ '=' :: (quote kv.2).toList)

theorem quoteChar_of_printable {c : Char} (hc : Printable c) (hq : c ≠ '"') (hb : c ≠ '\\') :
    quoteChar c = [c] := by
  have hne : ∀ d : Char, d.toNat < 0x20 → c ≠ d := fun d hd h => by
    subst h
    exact absurd hc.1 (by omega)
  rw [quoteChar, if_neg hq, if_neg hb, if_neg (hne _ (by decide)), if_neg (hne _ (by decide)),
    if_neg (hne _ (by decide)), if_neg (hne _ (by decide)), if_neg (hne _ (by decide)),
    if_neg (hne _ (by decide)), if_neg (hne _ (by decide)), if_neg (by have := hc.1; have := hc.2; omega)]

section Quoted

variable {l : List Char} (hl : ∀ c ∈ l, Printable c)
include hl

theorem unescapeLoop_quote (p r : List Char) :
    unescapeLoop false p (l.flatMap quoteChar ++ '"' :: r) = (p ++ l, r) := by
  induction l generalizing p with
  | nil => simp [unescapeLoop]
  | cons c l ih =>
    have hl' : ∀ d ∈ l, Printable d := fun d hd => hl d (List.mem_cons_of_mem _ hd)
    rw [List.flatMap_cons, List.append_assoc]
    by_cases hq : c = '"'
    · subst hq
      simp [quoteChar, unescapeLoop, ih hl']
    · by_cases hb : c = '\\'
      · subst hb
        simp [quoteChar, unescapeLoop, ih hl']
      · rw [quoteChar_of_printable (hl c (List.mem_cons_self ..)) hq hb]
        simp [unescapeLoop, hq, hb, ih hl']

theorem quotedLoop_quote (p r : List Char) :
    quotedLoop p (l.flatMap quoteChar ++ '"' :: r) = (p ++ l, r) := by
  induction l generalizing p with
  | nil => simp [quotedLoop]
  | cons c l ih =>
    have hl' : ∀ d ∈ l, Printable d := fun d hd => hl d (List.mem_cons_of_mem _ hd)
    rw [List.flatMap_cons, List.append_assoc]
    by_cases hq : c = '"'
    · subst hq
      simp [quoteChar, quotedLoop, unescapeLoop, unescapeLoop_quote hl']
    · by_cases hb : c = '\\'
      · subst hb
        simp [quoteChar, quotedLoop, unescapeLoop, unescapeLoop_quote hl']
      · rw [quoteChar_of_printable (hl c (List.mem_cons_self ..)) hq hb]
        simp [quotedLoop, hq, hb, ih hl']

end Quoted

theorem expectTokenOrQuoted_quote {v : String} (hv : ∀ c ∈ v.toList, Printable c) (r : List Char) :
    expectTokenOrQuoted ((quote v).toList ++ r) = (v.toList, r) := by
  have hchars : (quote v).toList ++ r = '"' :: (v.toList.flatMap quoteChar ++ '"' :: r) := by
    simp [quote]
  rw [hchars, expectTokenOrQuoted, quotedLoop_quote hv, List.nil_append]

theorem expectToken_append {l r : List Char} (hl : ∀ c ∈ l, isToken c = true)
    (hr : ∀ c ∈ r.head?, isToken c = false) : expectToken (l ++ r) = (l, r) := by
  have hstop : r.takeWhile isToken = [] ∧ r.dropWhile isToken = r := by
    cases r with
    | nil => simp
    | cons c r => simp [hr c rfl]
  rw [expectToken, List.takeWhile_append_of_pos hl, List.dropWhile_append_of_pos hl, hstop.1, hstop.2,
    List.append_nil]

theorem skipSpace_of_head {l : List Char} (hl : ∀ c ∈ l.head?, isSpace c = false) : skipSpace l = l := by
  cases l with
  | nil => rfl
  | cons c l => simp [skipSpace, hl c rfl]

theorem isSpace_of_isToken {c : Char} (hc : isToken c = true) : isSpace c = false := by
  by_contra hs
  have hs' : isSpace c = true := by simpa using hs
  have hmem : c ∈ [' ', '\t', '\r', '\n'] := by simpa [isSpace] using hs'
  simp only [List.mem_cons, List.not_mem_nil, or_false] at hmem
  rcases hmem with rfl | rfl | rfl | rfl <;> revert hc <;> decide

def PlainKey (k : String) : Prop := k.toList ≠ [] ∧ (∀ c ∈ k.toList, isToken c = true) ∧ toLower k = k

/-- A value the loop reads back from `%q`: non-empty and printable. -/
def PlainValue (v : String) : Prop := v ≠ "" ∧ ∀ c ∈ v.toList, Printable c

instance : DecidablePred PlainKey := fun k =>
  decidable_of_iff (k.toList ≠ [] ∧ k.toList.all isToken = true ∧ toLower k = k)
    (and_congr_right fun _ => and_congr_left fun _ => List.all_eq_true)

instance : DecidablePred PlainValue := fun v =>
  decidable_of_iff (v ≠ "" ∧ (v.toList.all fun c => decide (Printable c)) = true)
    (and_congr_right fun _ => List.all_eq_true.trans (forall₂_congr fun _ _ => decide_eq_true_iff))

theorem renderParams_cons (kv : String × String) (ps : List (String × String)) :
    renderParams (kv :: ps) = ',' :: (kv.1.toList ++ '=' :: ((quote kv.2).toList ++ renderParams ps)) := by
  simp [renderParams]

theorem head?_renderParams (ps : List (String × String)) : ∀ c ∈ (renderParams ps).head?, c = ',' := by
  cases ps with
  | nil => simp [renderParams]
  | cons kv ps => simp [renderParams_cons]

theorem expectToken_key {k : String} (hk : PlainKey k) (r : List Char) :
    expectToken (skipSpace (k.toList ++ '=' :: r)) = (k.toList, '=' :: r) := by
  obtain ⟨hne, htoken, -⟩ := hk
  obtain ⟨c, cs, hkc⟩ := List.exists_cons_of_ne_nil hne
  have hskip : skipSpace (k.toList ++ '=' :: r) = k.toList ++ '=' :: r := by
    apply skipSpace_of_head
    rw [hkc]
    intro d hd
    simp only [List.cons_append, List.head?_cons, Option.mem_def, Option.some.injEq] at hd
    subst hd
    exact isSpace_of_isToken (htoken c (by simp [hkc]))
  rw [hskip]
  exact expectToken_append htoken fun d hd => by
    simp only [List.head?_cons, Option.mem_def, Option.some.injEq] at hd
    subst hd
    decide

theorem paramsLoop_pair {fuel : ℕ} {k v : String} {rest : List Char} {params : List (String × String)}
    (hk : PlainKey k) (hv : PlainValue v) (hrest : ∀ c ∈ rest.head?, c = ',') :
    paramsLoop (fuel + 1) (',' :: (k.toList ++ '=' :: ((quote v).toList ++ rest))) params =
      paramsLoop fuel rest (setParam params k v) := by
  have hvne : v.toList ≠ [] := by simpa using hv.1
  have hrest' : skipSpace rest = rest := skipSpace_of_head fun d hd => by rw [hrest d hd]; decide
  simp only [paramsLoop, expectToken_key hk, hk.1, expectTokenOrQuoted_quote hv.2, hvne, hrest', if_false,
    String.ofList_toList, hk.2.2]

theorem paramsLoop_emptyValue {fuel : ℕ} {k : String} {rest : List Char} {params : List (String × String)}
    (hk : PlainKey k) :
    paramsLoop (fuel + 1) (',' :: (k.toList ++ '=' :: ((quote "").toList ++ rest))) params = params := by
  have hempty : expectTokenOrQuoted ((quote "").toList ++ rest) = ([], rest) := rfl
  simp only [paramsLoop, expectToken_key hk, hk.1, hempty, if_false, if_true]

theorem paramsLoop_renderParams {ps : List (String × String)} (hkeys : ∀ kv ∈ ps, PlainKey kv.1)
    (hvals : ∀ kv ∈ ps, PlainValue kv.2) :
    ∀ (fuel : ℕ) (params : List (String × String)), ps.length ≤ fuel →
      paramsLoop fuel (renderParams ps) params = ps.foldl (fun acc kv => setParam acc kv.1 kv.2) params := by
  induction ps with
  | nil =>
    intro fuel params _
    cases fuel <;> rfl
  | cons kv ps ih =>
    intro fuel params hfuel
    obtain ⟨fuel, rfl⟩ : ∃ f, fuel = f + 1 := ⟨fuel - 1, by simp only [List.length_cons] at hfuel; omega⟩
    rw [renderParams_cons, paramsLoop_pair (hkeys kv (List.mem_cons_self ..)) (hvals kv (List.mem_cons_self ..))
      (head?_renderParams ps), List.foldl_cons]
    exact ih (fun kv' h => hkeys kv' (List.mem_cons_of_mem _ h)) (fun kv' h => hvals kv' (List.mem_cons_of_mem _ h))
      fuel _ (by simpa using hfuel)

theorem setParam_of_not_mem {params : List (String × String)} {k : String} (hk : k ∉ params.map Prod.fst)
    (v : String) : setParam params k v = params ++ [(k, v)] := by
  induction params with
  | nil => rfl
  | cons kv params ih =>
    have hne : kv.1 ≠ k := fun h => hk (by simp [h])
    have hk' : k ∉ params.map Prod.fst := fun h => hk (List.mem_cons_of_mem _ h)
    simp [setParam, hne, ih hk']

theorem foldl_setParam_of_nodup {ps : List (String × String)} (hps : (ps.map Prod.fst).Nodup) :
    ∀ params : List (String × String), (∀ kv ∈ ps, kv.1 ∉ params.map Prod.fst) →
      ps.foldl (fun acc kv => setParam acc kv.1 kv.2) params = params ++ ps := by
  induction ps with
  | nil => simp
  | cons kv ps ih =>
    intro params hfresh
    rw [List.map_cons, List.nodup_cons] at hps
    rw [List.foldl_cons, setParam_of_not_mem (hfresh kv (List.mem_cons_self ..)), ih hps.2]
    · simp
    · intro kv' hkv'
      have hne : kv'.1 ≠ kv.1 := fun h => hps.1 (h ▸ List.mem_map_of_mem hkv')
      simpa [hne] using hfresh kv' (List.mem_cons_of_mem _ hkv')

theorem scopeParam_eq_empty_iff (s : AccessSet) : scopeParam s = "" ↔ s = [] := by
  constructor
  · intro h
    cases s with
    | nil => rfl
    | cons e es =>
      have hlen := congrArg String.length h
      cases es with
      | nil => simp [scopeParam] at hlen
      | cons e' es => simp [scopeParam] at hlen
  · rintro rfl
    rfl

theorem printable_scopeParam {s : AccessSet}
    (hs : ∀ ra ∈ s, (∀ c ∈ ra.1.type.toList, Printable c) ∧ (∀ c ∈ ra.1.name.toList, Printable c) ∧
      ∀ a ∈ ra.2, ∀ c ∈ a.toList, Printable c) :
    ∀ c ∈ (scopeParam s).toList, Printable c := by
  rw [scopeParam, String.toList_intercalate]
  refine ListOrder.forall_mem_intercalate (ListOrder.forall_mem_of_all (by decide)) ?_
  intro l hl
  obtain ⟨str, hstr, rfl⟩ := List.mem_map.mp hl
  obtain ⟨⟨resource, actions⟩, hra, rfl⟩ := List.mem_map.mp hstr
  obtain ⟨htype, hname, hactions⟩ := hs _ hra
  have hacts : ∀ c ∈ (",".intercalate actions).toList, Printable c := by
    rw [String.toList_intercalate]
    refine ListOrder.forall_mem_intercalate (ListOrder.forall_mem_of_all (by decide)) fun l hl => ?_
    obtain ⟨a, ha, rfl⟩ := List.mem_map.mp hl
    exact hactions a ha
  have hcolon : ∀ c ∈ ":".toList, Printable c := ListOrder.forall_mem_of_all (by decide)
  intro c hc
  simp only [String.toList_append, List.mem_append] at hc
  rcases hc with (((hc | hc) | hc) | hc) | hc
  · exact htype c hc
  · exact hcolon c hc
  · exact hname c hc
  · exact hcolon c hc
  · exact hacts c hc

theorem challengeParams_toList (ac : AuthChallenge) (url : String) :
    (ac.challengeParams url).toList = "Bearer".toList ++ ' ' :: (renderParams (expectedParams ac url)).tail := by
  unfold AuthChallenge.challengeParams expectedParams
  by_cases hs : ac.accessSet = [] <;> cases ac.err <;> simp [hs, scopeParam_eq_empty_iff, renderParams]

theorem length_le_renderParams (ps : List (String × String)) : ps.length ≤ (renderParams ps).length := by
  induction ps with
  | nil => simp [renderParams]
  | cons kv ps ih =>
    rw [renderParams_cons, List.length_cons, List.length_cons, List.length_append, List.length_cons,
      List.length_append]
    omega

section RoundTrip

variable {ac : AuthChallenge} {url : String}

def PrintableAccess (s : AccessSet) : Prop :=
  ∀ ra ∈ s, (∀ c ∈ ra.1.type.toList, Printable c) ∧ (∀ c ∈ ra.1.name.toList, Printable c) ∧
    ∀ a ∈ ra.2, ∀ c ∈ a.toList, Printable c

instance : DecidablePred PrintableAccess := fun s =>
  -- the list instance for the strings, not the one over every `Char`
  have : ∀ l : List Char, Decidable (∀ c ∈ l, Printable c) := fun l => List.decidableBAll _ l
  inferInstanceAs (Decidable (∀ ra ∈ s,
  (∀ c ∈ ra.1.type.toList, Printable c) ∧ (∀ c ∈ ra.1.name.toList, Printable c) ∧ ∀ a ∈ ra.2, ∀ c ∈ a.toList, Printable c))

theorem plain_expectedParams (hrealm : PlainValue (ac.realmFor url)) (hservice : PlainValue ac.service)
    (haccess : PrintableAccess ac.accessSet) :
    (∀ kv ∈ expectedParams ac url, PlainKey kv.1) ∧ (∀ kv ∈ expectedParams ac url, PlainValue kv.2) ∧
      ((expectedParams ac url).map Prod.fst).Nodup := by
  have hscope : ac.accessSet ≠ [] → PlainValue (scopeParam ac.accessSet) := fun hs =>
    ⟨mt (scopeParam_eq_empty_iff _).mp hs, printable_scopeParam haccess⟩
  unfold expectedParams
  by_cases hs : ac.accessSet = [] <;> cases ac.err <;>
    simp [hs, hrealm, hservice, hscope] <;> decide

theorem parseValueAndParams_challengeParams_eq :
    parseValueAndParams (ac.challengeParams url) =
      ("bearer", paramsLoop (ac.challengeParams url).length (renderParams (expectedParams ac url)) []) := by
  have hrender : renderParams (expectedParams ac url) =
      ',' :: ("realm".toList ++ '=' :: ((quote (ac.realmFor url)).toList ++
        renderParams ((expectedParams ac url).tail))) := renderParams_cons _ _
  have hspace : skipSpace (' ' :: (renderParams (expectedParams ac url)).tail) =
      (renderParams (expectedParams ac url)).tail := by
    rw [hrender]
    rfl
  have hscheme : expectToken ("Bearer".toList ++ ' ' :: (renderParams (expectedParams ac url)).tail) =
      ("Bearer".toList, ' ' :: (renderParams (expectedParams ac url)).tail) :=
    expectToken_append (ListOrder.forall_mem_of_all (by decide)) fun d hd => by
      simp only [List.head?_cons, Option.mem_def, Option.some.injEq] at hd
      subst hd
      decide
  have hcomma : ',' :: (renderParams (expectedParams ac url)).tail = renderParams (expectedParams ac url) := by
    rw [hrender]
    rfl
  unfold parseValueAndParams
  rw [challengeParams_toList, hscheme]
  simp only [hspace, hcomma, String.ofList_toList]
  rw [if_neg (by decide), show toLower "Bearer" = "bearer" by decide]

/-- A challenge with a non-empty printable realm and service and a printable
access set: the client reads back the scheme `bearer` and exactly the pairs of
`expectedParams`. -/
theorem parseValueAndParams_challengeParams (hrealm : PlainValue (ac.realmFor url))
    (hservice : PlainValue ac.service) (haccess : PrintableAccess ac.accessSet) :
    parseValueAndParams (ac.challengeParams url) = ("bearer", expectedParams ac url) := by
  obtain ⟨hkeys, hvals, hnodup⟩ := plain_expectedParams hrealm hservice haccess
  have hfuel : (expectedParams ac url).length ≤ (ac.challengeParams url).length := by
    have hlen := length_le_renderParams (expectedParams ac url)
    rw [← String.length_toList, challengeParams_toList, List.length_append, List.length_cons, List.length_tail]
    omega
  rw [parseValueAndParams_challengeParams_eq, paramsLoop_renderParams hkeys hvals _ [] hfuel,
    foldl_setParam_of_nodup hnodup [] (by simp), List.nil_append]

/-- A challenge whose service is empty: the client stops at the empty quoted value
and reads the realm alone, whatever scope and error follow. -/
theorem parseValueAndParams_emptyService (hrealm : PlainValue (ac.realmFor url)) (hservice : ac.service = "") :
    parseValueAndParams (ac.challengeParams url) = ("bearer", [("realm", ac.realmFor url)]) := by
  have hps : expectedParams ac url =
      ("realm", ac.realmFor url) :: ("service", "") :: (expectedParams ac url).tail.tail := by
    unfold expectedParams
    rw [hservice]
    rfl
  have hlen : 2 ≤ (ac.challengeParams url).length := by
    rw [← String.length_toList, challengeParams_toList, hps]
    simp
  obtain ⟨f, hf⟩ : ∃ f, (ac.challengeParams url).length = f + 2 := ⟨_, (Nat.sub_add_cancel hlen).symm⟩
  rw [parseValueAndParams_challengeParams_eq, hf, hps, renderParams_cons,
    paramsLoop_pair (k := "realm") (by decide) hrealm (head?_renderParams _), renderParams_cons,
    paramsLoop_emptyValue (k := "service") (by decide)]
  rfl

end RoundTrip

/-- A pull and push challenge for insufficient scope reads back whole. -/
theorem parseValueAndParams_challengeParams_alpine :
    parseValueAndParams ((⟨.insufficientScope, "https://auth.example.com/token", false, "registry.example.com",
        [(⟨"repository", "library/alpine"⟩, ["pull", "push"])]⟩ : AuthChallenge).challengeParams "") =
      ("bearer", [("realm", "https://auth.example.com/token"), ("service", "registry.example.com"),
        ("scope", "repository:library/alpine:pull,push"), ("error", "insufficient_scope")]) :=
  parseValueAndParams_challengeParams (by decide) (by decide) (by decide)

/-- A registry configured with an empty service: the client reads neither the
service nor the scope nor the error of its challenge. -/
theorem parseValueAndParams_emptyService_alpine :
    parseValueAndParams ((⟨.insufficientScope, "https://auth.example.com/token", false, "",
        [(⟨"repository", "library/alpine"⟩, ["pull"])]⟩ : AuthChallenge).challengeParams "") =
      ("bearer", [("realm", "https://auth.example.com/token")]) :=
  parseValueAndParams_emptyService (by decide) rfl

end DockerRegistry.Auth.Challenge
