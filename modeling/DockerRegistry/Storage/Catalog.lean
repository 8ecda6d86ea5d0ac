import DockerRegistry.Storage.TagList

/-!
# The catalog

`Repositories` of `registry/storage/catalog.go`: a walk of the repositories
directory that fills a caller's buffer of repository names, starting after the
hint `<last>/_manifests`. `handleRepository` recognises a repository by its
`_manifests` directory and skips every other directory whose name starts with
an underscore.

The buffer-full check of the walk function runs only when `handleRepository`
returns nil, that is on a directory that is not a repository's own: a
repository found while the buffer is full writes past its end. A repository
nested in another, such as `a/0` in `a`, is reached before the outer one's
`_manifests`, so one buffer slot already overflows.

The file also records where `WalkFallback` leaves the walk the start-after hint
describes: it takes `filepath.Rel`'s answer `..x` for a hint outside the root.
-/

namespace DockerRegistry.Storage

open GoPath Driver KeyStore

/-- `handleRepository`: a `_manifests` directory names its repository, passed to
`fn` when `lessPath` puts it after `last`; other directories whose name starts
with `_` are skipped; everything else is walked into. -/
def handleRepository {σ : Type} (fileInfo : FileInfo) (root last : String) (fn : σ → String → σ × Option Error)
    (s : σ) : σ × Option Error :=
  let filePath := fileInfo.path.toList
  -- `filePath[len(root)+1:]` is out of range for a path shorter than that
  if filePath.length < root.toList.length + 1 then (s, some .panic)
  else
    let repo := String.ofList (filePath.drop (root.toList.length + 1))
    let file := (split repo).2
    if file = "_manifests" then
      let repo := trimSuffix repo "/_manifests"
      if lessPath last repo then
        match fn s repo with
        | (s, some e) => (s, some e)
        | (s, none) => (s, some .skipDir)
      else (s, some .skipDir)
    else if hasPrefix file "_" then (s, some .skipDir)
    else (s, none)

/-- The walk function of `Repositories` over a buffer of `n` names: the names
found so far and `filledBuffer`. -/
def repositoriesWalkFn (root last : String) (n : ℕ) : WalkFn (List String × Bool) := fun st fileInfo =>
  let stored := handleRepository fileInfo root last
    (fun st repoPath =>
      -- `repos[foundRepos]` is out of range once the buffer is full
      if st.1.length < n then ((st.1 ++ [repoPath], st.2), none) else (st, some .panic))
    st
  match stored with
  | (st, some e) => (st, some e)
  | (st, none) => if st.1.length = n then ((st.1, true), some .filledBuffer) else (st, none)

/-- `Repositories(repos, last)` with `len(repos) = n`: the names written to the
buffer, and nil when it filled, `io.EOF` when the walk ended first. -/
def repositories (walk : Walker) (n : ℕ) (last : String) : List String × Option Error :=
  if n = 0 then ([], some (.other "attempted to list 0 repositories"))
  else
    match pathFor .repositoriesRoot with
    | .error e => ([], some (.digest e))
    | .ok root =>
      let startAfter := if last = "" then Except.ok "" else pathFor (.manifests last)
      match startAfter with
      | .error e => ([], some (.digest e))
      | .ok startAfter =>
        match walk (repositoriesWalkFn root last n) root startAfter ([], false) with
        | ((repos, _), some e) => (repos, some e)
        | ((repos, filledBuffer), none) => if filledBuffer then (repos, none) else (repos, some .eof)

namespace TagStore

/-- Repositories `a` and `a/0`, each with one tag: a buffer of one name overflows,
for `a/0` is stored before the walk reaches `a/_manifests` and the check for a
full buffer does not run on a repository's own directory. -/
theorem repositories_nested_overflow :
    repositories (runOps "a/0" [.tag "t" zeroDigest] (runOps "a" [.tag "t" zeroDigest] ⟨[]⟩)).walk 1 "" =
      (["a/0"], some .panic) := by
  have hstore : runOps "a/0" [.tag "t" zeroDigest] (runOps "a" [.tag "t" zeroDigest] ⟨[]⟩) =
      ⟨["/docker/registry/v2/repositories/a/_manifests/tags/t/index/sha256/" ++
          "0000000000000000000000000000000000000000000000000000000000000000/link",
        "/docker/registry/v2/repositories/a/_manifests/tags/t/current/link",
        "/docker/registry/v2/repositories/a/0/_manifests/tags/t/index/sha256/" ++
          "0000000000000000000000000000000000000000000000000000000000000000/link",
        "/docker/registry/v2/repositories/a/0/_manifests/tags/t/current/link"]⟩ := by
    decide +kernel
  rw [hstore]
  decide +kernel

end TagStore

/-- A hint one element below the root whose name starts with `..` is taken for a
hint outside the root: nothing below `/a` is walked after `/a/..x`, although
`lessPath` puts `/a/b` after it. -/
theorem walkFallback_dotdot_hint :
    KeyStore.walkPaths ⟨["/a/b"]⟩ "/a" "/a/..x" = [] ∧
      (KeyStore.preorder ⟨["/a/b"]⟩ (KeyStore.fuel ⟨["/a/b"]⟩) "/a").filter (lessPath "/a/..x") = ["/a/b"] := by
  constructor <;> decide

/-! ## The order of walks -/

section WalkOrder

variable {children : String → List String}

theorem dirPrefix_of_child {p c : String} {x : List Char} (hx : x ≠ []) (hc : c.toList = dirPrefix p ++ x) :
    dirPrefix c = c.toList ++ ['/'] := by
  have hne : c ≠ "/" := by
    intro h
    rw [h] at hc
    unfold dirPrefix at hc
    split_ifs at hc
    · simp at hc
      exact hx hc
    · have hlen := congrArg List.length hc
      simp at hlen
      exact hx (List.eq_nil_of_length_eq_zero (by omega))
  simp [dirPrefix, hne]

theorem preorderOf_below
    (hchild : ∀ p, ∀ c ∈ children p, ∃ x, x ≠ [] ∧ '/' ∉ x ∧ '\x00' ∉ x ∧ c.toList = dirPrefix p ++ x) :
    ∀ (n : ℕ) (p : String), ∀ u ∈ preorderOf children n p, ∃ r, u.toList = dirPrefix p ++ r
  | 0, _, u, hu => by simp [preorderOf] at hu
  | n + 1, p, u, hu => by
    simp only [preorderOf, List.mem_flatMap, List.mem_cons] at hu
    obtain ⟨c, hc, hu⟩ := hu
    obtain ⟨x, hx, -, -, hcx⟩ := hchild p c ((List.perm_insertionSort _ _).mem_iff.mp hc)
    rcases hu with rfl | hu
    · exact ⟨x, hcx⟩
    · obtain ⟨r, hr⟩ := preorderOf_below hchild n c u hu
      exact ⟨x ++ '/' :: r, by rw [hr, dirPrefix_of_child hx hcx, hcx]; simp⟩

theorem lessPath_below {c u : String} {r : List Char} (hu : u.toList = c.toList ++ '/' :: r) :
    lessPath c u = true := by
  rw [lessPath_iff, String.lt_iff_toList_lt, replaceAll, replaceAll, String.toList_ofList, String.toList_ofList, hu,
    List.map_append, ← List.append_nil (List.map _ c.toList)]
  rw [List.append_assoc, List.nil_append, ListOrder.append_lt_append_left_iff]
  exact List.nil_lt_cons _ _

theorem lessPath_siblings {D x₁ x₂ t₁ t₂ : List Char} (hx : x₁ < x₂) (hslash₁ : '/' ∉ x₁) (hslash₂ : '/' ∉ x₂)
    (hnul₂ : '\x00' ∉ x₂) (ht₁ : t₁ = [] ∨ ∃ r, t₁ = '/' :: r) {u v : String} (hu : u.toList = D ++ x₁ ++ t₁)
    (hv : v.toList = D ++ x₂ ++ t₂) : lessPath u v = true := by
  rw [lessPath_iff, String.lt_iff_toList_lt, replaceAll, replaceAll, String.toList_ofList, String.toList_ofList, hu,
    hv, List.map_append, List.map_append, List.map_append, List.map_append, map_replace_of_not_mem hslash₁,
    map_replace_of_not_mem hslash₂, List.append_assoc, List.append_assoc, ListOrder.append_lt_append_left_iff]
  refine ListOrder.append_lt_append_of_lt hx (fun c hc => nul_lt_of_ne fun h => hnul₂ (h ▸ hc)) ?_
  rcases ht₁ with rfl | ⟨r, rfl⟩
  · exact .inl rfl
  · exact .inr ⟨r.map fun c => if c = '/' then '\x00' else c, by simp⟩

theorem preorderOf_pairwise_lessPath (hnodup : ∀ p, (children p).Nodup)
    (hchild : ∀ p, ∀ c ∈ children p, ∃ x, x ≠ [] ∧ '/' ∉ x ∧ '\x00' ∉ x ∧ c.toList = dirPrefix p ++ x) :
    ∀ (n : ℕ) (p : String), (preorderOf children n p).Pairwise fun a b => lessPath a b = true
  | 0, _ => List.Pairwise.nil
  | n + 1, p => by
    have hsorted : (sortStrings (children p)).Pairwise (· < ·) := List.sortedLT_iff_pairwise.mp
      (List.sortedLE_insertionSort.sortedLT_of_nodup ((List.perm_insertionSort _ _).nodup_iff.mpr (hnodup p)))
    have hmem : ∀ c ∈ sortStrings (children p), c ∈ children p :=
      fun c hc => (List.perm_insertionSort _ _).mem_iff.mp hc
    have hform : ∀ c ∈ sortStrings (children p), ∀ u ∈ c :: preorderOf children n c,
        ∃ x t, x ≠ [] ∧ '/' ∉ x ∧ '\x00' ∉ x ∧ c.toList = dirPrefix p ++ x ∧
          (t = [] ∨ ∃ r, t = '/' :: r) ∧ u.toList = dirPrefix p ++ x ++ t := by
      intro c hc u hu
      obtain ⟨x, hx, hslash, hnul, hcx⟩ := hchild p c (hmem c hc)
      rcases List.mem_cons.mp hu with rfl | hu
      · exact ⟨x, [], hx, hslash, hnul, hcx, .inl rfl, by simp [hcx]⟩
      · obtain ⟨r, hr⟩ := preorderOf_below hchild n c u hu
        refine ⟨x, '/' :: r, hx, hslash, hnul, hcx, .inr ⟨r, rfl⟩, ?_⟩
        rw [hr, dirPrefix_of_child hx hcx, hcx]
        simp
    refine List.pairwise_flatMap.mpr ⟨fun c hc => ?_, ?_⟩
    · refine List.pairwise_cons.mpr ⟨fun u hu => ?_, preorderOf_pairwise_lessPath hnodup hchild n c⟩
      obtain ⟨r, hr⟩ := preorderOf_below hchild n c u hu
      obtain ⟨x, hx, -, -, hcx⟩ := hchild p c (hmem c hc)
      exact lessPath_below (r := r) (by rw [hr, dirPrefix_of_child hx hcx]; simp)
    · refine hsorted.imp_of_mem fun {c₁ c₂} hc₁ hc₂ hlt u hu v hv => ?_
      obtain ⟨x₁, t₁, -, hslash₁, -, hc₁x, ht₁, hu'⟩ := hform c₁ hc₁ u hu
      obtain ⟨x₂, t₂, -, hslash₂, hnul₂, hc₂x, -, hv'⟩ := hform c₂ hc₂ v hv
      have hx : x₁ < x₂ := by
        rwa [String.lt_iff_toList_lt, hc₁x, hc₂x, ListOrder.append_lt_append_left_iff] at hlt
      exact lessPath_siblings hx hslash₁ hslash₂ hnul₂ ht₁ hu' hv'

end WalkOrder

/-- `lessPath` compares paths without `\x00` as the lists of their elements
compare, and is a strict total order on them; and the depth-first pre-order of
every tree whose names hold neither a slash nor `\x00`, with siblings sorted by
`sort.Strings`, is strictly increasing under it. -/
theorem lessPath_walk_order :
    (∀ a b : String, '\x00' ∉ a.toList → '\x00' ∉ b.toList →
      (lessPath a b = true ↔ elements a.toList < elements b.toList)) ∧
    (∀ a, lessPath a a = false) ∧
    (∀ a b c, lessPath a b = true → lessPath b c = true → lessPath a c = true) ∧
    (∀ a b : String, '\x00' ∉ a.toList → '\x00' ∉ b.toList → a ≠ b →
      lessPath a b = true ∨ lessPath b a = true) ∧
    ∀ children : String → List String, (∀ p, (children p).Nodup) →
      (∀ p, ∀ c ∈ children p, ∃ x, x ≠ [] ∧ '/' ∉ x ∧ '\x00' ∉ x ∧ c.toList = dirPrefix p ++ x) →
      ∀ n p, (preorderOf children n p).Pairwise fun a b => lessPath a b = true :=
  ⟨fun _ _ ha hb => lessPath_iff_elements ha hb, lessPath_irrefl, fun _ _ _ => lessPath_trans,
    fun _ _ ha hb => lessPath_total ha hb, fun _ hnodup hchild => preorderOf_pairwise_lessPath hnodup hchild⟩

end DockerRegistry.Storage
