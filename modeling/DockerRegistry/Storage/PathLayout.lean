import DockerRegistry.Reference
import DockerRegistry.Storage.Paths
import DockerRegistry.Storage.Driver.InmemoryFs
import Mathlib.Data.List.TakeWhile

/-!
# What the storage layout gives the driver

Every path `pathFor` builds is a `path.Join` of fixed elements, the repository
name, tags, upload ids, hash algorithms and digest components. The base driver
of `registry/storage/driver/base` refuses every path that
`storagedriver.PathRegexp`, `^(/[A-Za-z0-9._-]+)+$`, does not match
(`pathRegexpMatch`). `reference.WithName` accepts a name whose domain has a port,
such as `localhost:5000/foo`, and nothing between the router and `pathFor` looks
at the name again: every path of such a repository keeps the colon, and the
driver refuses them all (`pathFor_port_rejected`).

`digestFromPath` reads the digest of a blob back from the path of its data, as
`blobStore.Enumerate` does for each `data` file under the blobs directory
(`digestFromPath_blobData`).
-/

namespace DockerRegistry.Storage

open GoPath

/-- The repository of the specs under `_manifests`, `_layers` and `_uploads`. -/
def PathSpec.repository : PathSpec → Option String
  | .manifests name | .manifestRevisions name | .manifestRevision name _ | .manifestRevisionLink name _
  | .manifestTags name | .manifestTag name _ | .manifestTagCurrent name _ | .manifestTagIndex name _
  | .manifestTagIndexEntryLink name _ _ | .manifestTagIndexEntry name _ _ | .layerLink name _ | .layers name
  | .uploadData name _ | .uploadStartedAt name _ | .uploadHashState name _ _ _ _ => some name
  | .blobs | .blob _ | .blobData _ | .repositoriesRoot => none

/-- The tags, upload ids and hash algorithms of a spec are plain names, as the
tag grammar, the store's upload ids and the digest algorithms give them. -/
def PathSpec.PlainArgs : PathSpec → Prop
  | .manifestTag _ tag | .manifestTagCurrent _ tag | .manifestTagIndex _ tag
  | .manifestTagIndexEntryLink _ tag _ | .manifestTagIndexEntry _ tag _ => PlainName tag
  | .uploadData _ id | .uploadStartedAt _ id => PlainName id
  | .uploadHashState _ id alg _ _ => PlainName id ∧ PlainName alg
  | _ => True

/-! ## A colon survives the joins -/

section Colon

theorem tame_of_plainName {name : String} (h : PlainName name) : Tame name :=
  fun e he => .inr (h e he)

theorem tame_of_forall {y : String} (h : ∀ c ∈ y.toList, c ≠ '/' ∧ c ≠ '.') : Tame y := by
  have hslash : '/' ∉ y.toList := fun hm => (h _ hm).1 rfl
  intro e he
  rw [elements, List.splitOn_eq_singleton hslash, List.mem_singleton] at he
  subst he
  rcases eq_or_ne y.toList [] with hnil | hne
  · exact .inl hnil
  · refine .inr ⟨hne, hslash, ?_, ?_⟩
    · intro hdot
      exact (h '.' (by simp [hdot])).2 rfl
    · intro hdot
      exact (h '.' (by simp [hdot])).2 rfl

theorem tame_of_plainElement {y : String} (h : PlainElement y.toList) : Tame y := by
  intro e he
  rw [elements_of_plain h, List.mem_singleton] at he
  exact .inr (he ▸ h)

theorem tame_cons {y : String} {ys : List String} (hy : Tame y) (hys : ∀ z ∈ ys, Tame z) : ∀ z ∈ y :: ys, Tame z := by
  intro z hz
  rcases List.mem_cons.mp hz with rfl | hz
  · exact hy
  · exact hys z hz

theorem tame_append {xs ys : List String} (hxs : ∀ y ∈ xs, Tame y) (hys : ∀ y ∈ ys, Tame y) :
    ∀ y ∈ xs ++ ys, Tame y := by
  intro y hy
  rcases List.mem_append.mp hy with hy | hy
  · exact hxs y hy
  · exact hys y hy

/-- A rooted path that `Clean` leaves as it is, with a colon in it. -/
def CarriesColon (p : String) : Prop := ':' ∈ p.toList ∧ p.toList.head? = some '/' ∧ Tame p

theorem CarriesColon.join {x : String} (hx : CarriesColon x) {xs : List String} (hxs : ∀ y ∈ xs, Tame y) :
    CarriesColon (join (x :: xs)) := by
  have hall : ∀ y ∈ x :: xs, Tame y := by
    intro y hy
    rcases List.mem_cons.mp hy with rfl | hy
    · exact hx.2.2
    · exact hxs y hy
  obtain ⟨hhead, htame⟩ := join_rooted_tame hx.2.1 hall
  exact ⟨mem_join_of_mem hx.2.1 hall List.mem_cons_self hx.1 (by decide), hhead, htame⟩

theorem carriesColon_repo {name : String} (hname : PlainName name) (hc : ':' ∈ name.toList) {rest : List String}
    (hrest : ∀ y ∈ rest, Tame y) : CarriesColon (join (repoPrefix ++ name :: rest)) := by
  have hrepoPath : repoPrefix ++ name :: rest = "/docker/registry/" :: "v2" :: "repositories" :: name :: rest := rfl
  have hall : ∀ y ∈ "/docker/registry/" :: "v2" :: "repositories" :: name :: rest, Tame y := by
    intro y hy
    simp only [List.mem_cons] at hy
    rcases hy with rfl | rfl | rfl | rfl | hy
    · decide
    · decide
    · decide
    · exact tame_of_plainName hname
    · exact hrest y hy
  have hroot : ("/docker/registry/" : String).toList.head? = some '/' := rfl
  rw [hrepoPath]
  obtain ⟨hhead, htame⟩ := join_rooted_tame hroot hall
  exact ⟨mem_join_of_mem hroot hall (by simp) hc (by decide), hhead, htame⟩

theorem tame_of_digestPathComponents {d : Digest} {multilevel : Bool} {comps : List String}
    (h : digestPathComponents d multilevel = .ok comps) : ∀ y ∈ comps, Tame y := by
  unfold digestPathComponents at h
  cases hv : d.validate with
  | some e => simp [hv] at h
  | none =>
    obtain ⟨a, halg, ha, -, hhex⟩ := validate_eq_none hv
    simp only [hv, halg, Option.getD_some, Except.ok.injEq] at h
    subst h
    have hhexc : ∀ c ∈ d.encoded.toList, c ≠ '/' ∧ c ≠ '.' := by
      intro c hc
      have := List.all_eq_true.mp hhex c hc
      constructor <;> rintro rfl <;> simp [isLowerHex] at this
    have halgt : Tame (blobAlgorithmReplace a) := by
      rcases ha with rfl | rfl | rfl <;> decide
    intro y hy
    simp only [List.cons_append, List.mem_cons, List.mem_append] at hy
    rcases hy with rfl | hy | hy
    · exact halgt
    · split at hy
      · rw [List.mem_singleton.mp hy]
        exact tame_of_forall fun c hc => hhexc c (List.mem_of_mem_take (by simpa using hc))
      · simp at hy
    · rcases hy with rfl | hy
      · exact tame_of_forall hhexc
      · simp at hy

theorem tame_join_components {d : Digest} {comps : List String} (h : digestPathComponents d false = .ok comps) :
    Tame (join comps) := by
  have hv : d.validate = none := by
    unfold digestPathComponents at h
    cases hv : d.validate with
    | some e => simp [hv] at h
    | none => rfl
  obtain ⟨a, hex, hcomp, ha, hhex⟩ := digestPathComponents_of_validate hv
  rw [hcomp, Except.ok.injEq] at h
  subst h
  rw [join_plain (by simpa using ⟨ha, hhex⟩) (by simp)]
  intro e he
  rw [String.toList_ofList, List.map_cons, List.map_cons, List.map_nil, elements_joinElements (by simp [ha.2.1, hhex.2.1]) (by simp)] at he
  simp only [List.mem_cons, List.not_mem_nil, or_false] at he
  rcases he with rfl | rfl
  · exact .inr ha
  · exact .inr hhex

theorem tame_toString (n : ℕ) : Tame (toString n) := by
  refine tame_of_forall fun c hc => ?_
  rw [Nat.toString_eq_repr, Nat.toList_repr] at hc
  have hdigit := Nat.isDigit_of_mem_toDigits (by decide) (by decide) hc
  constructor <;> rintro rfl <;> simp at hdigit

theorem pathFor_carriesColon {spec : PathSpec} {name : String} (hrepo : spec.repository = some name)
    (hname : PlainName name) (hargs : spec.PlainArgs) (hc : ':' ∈ name.toList) {p : String}
    (hp : pathFor spec = .ok p) : CarriesColon p := by
  have htags : CarriesColon (manifestTagsPath name) := carriesColon_repo hname hc (by decide)
  have htag : ∀ {tag : String}, PlainName tag → CarriesColon (manifestTagPath name tag) :=
    fun ht => htags.join (by simpa using tame_of_plainName ht)
  have hindex : ∀ {tag : String}, PlainName tag → CarriesColon (manifestTagIndexPath name tag) :=
    fun ht => (htag ht).join (by decide)
  cases spec with
  | manifests n =>
    cases hrepo
    simp only [pathFor, Except.ok.injEq] at hp
    subst hp
    exact carriesColon_repo hname hc (by decide)
  | manifestRevisions n =>
    cases hrepo
    simp only [pathFor, Except.ok.injEq] at hp
    subst hp
    exact carriesColon_repo hname hc (by decide)
  | manifestRevision n d =>
    cases hrepo
    cases hcomp : digestPathComponents d false with
    | error e => simp [pathFor, manifestRevisionPath, hcomp, bind, Except.bind] at hp
    | ok comps =>
      simp only [pathFor, manifestRevisionPath, hcomp, bind, Except.bind, pure, Except.pure, Except.ok.injEq] at hp
      subst hp
      rw [List.append_assoc]
      exact carriesColon_repo hname hc (tame_append (by decide) (tame_of_digestPathComponents hcomp))
  | manifestRevisionLink n d =>
    cases hrepo
    cases hcomp : digestPathComponents d false with
    | error e => simp [pathFor, manifestRevisionPath, hcomp, bind, Except.bind] at hp
    | ok comps =>
      simp only [pathFor, manifestRevisionPath, hcomp, bind, Except.bind, pure, Except.pure, Except.ok.injEq] at hp
      subst hp
      rw [List.append_assoc]
      exact (carriesColon_repo hname hc (tame_append (by decide) (tame_of_digestPathComponents hcomp))).join (by decide)
  | manifestTags n =>
    cases hrepo
    simp only [pathFor, Except.ok.injEq] at hp
    subst hp
    exact htags
  | manifestTag n tag =>
    cases hrepo
    simp only [pathFor, Except.ok.injEq] at hp
    subst hp
    exact htag hargs
  | manifestTagCurrent n tag =>
    cases hrepo
    simp only [pathFor, Except.ok.injEq] at hp
    subst hp
    exact (htag hargs).join (by decide)
  | manifestTagIndex n tag =>
    cases hrepo
    simp only [pathFor, Except.ok.injEq] at hp
    subst hp
    exact hindex hargs
  | manifestTagIndexEntryLink n tag d =>
    cases hrepo
    cases hcomp : digestPathComponents d false with
    | error e => simp [pathFor, manifestTagIndexEntryPath, hcomp, bind, Except.bind] at hp
    | ok comps =>
      simp only [pathFor, manifestTagIndexEntryPath, hcomp, bind, Except.bind, pure, Except.pure,
        Except.ok.injEq] at hp
      subst hp
      exact ((hindex hargs).join (by simpa using tame_join_components hcomp)).join (by decide)
  | manifestTagIndexEntry n tag d =>
    cases hrepo
    cases hcomp : digestPathComponents d false with
    | error e => simp [pathFor, manifestTagIndexEntryPath, hcomp, bind, Except.bind] at hp
    | ok comps =>
      simp only [pathFor, manifestTagIndexEntryPath, hcomp, bind, Except.bind, pure, Except.pure,
        Except.ok.injEq] at hp
      subst hp
      exact (hindex hargs).join (by simpa using tame_join_components hcomp)
  | layerLink n d =>
    cases hrepo
    cases hcomp : digestPathComponents d false with
    | error e => simp [pathFor, hcomp, bind, Except.bind] at hp
    | ok comps =>
      simp only [pathFor, hcomp, bind, Except.bind, pure, Except.pure, Except.ok.injEq] at hp
      subst hp
      rw [List.append_assoc]
      exact (carriesColon_repo hname hc (tame_append (by decide) (tame_of_digestPathComponents hcomp))).join (by decide)
  | layers n =>
    cases hrepo
    simp only [pathFor, Except.ok.injEq] at hp
    subst hp
    exact carriesColon_repo hname hc (by decide)
  | blobs => cases hrepo
  | blob d => cases hrepo
  | blobData d => cases hrepo
  | uploadData n id =>
    cases hrepo
    simp only [pathFor, Except.ok.injEq] at hp
    subst hp
    exact carriesColon_repo hname hc (tame_cons (by decide) (tame_cons (tame_of_plainName hargs) (by decide)))
  | uploadStartedAt n id =>
    cases hrepo
    simp only [pathFor, Except.ok.injEq] at hp
    subst hp
    exact carriesColon_repo hname hc (tame_cons (by decide) (tame_cons (tame_of_plainName hargs) (by decide)))
  | uploadHashState n id alg offset list =>
    cases hrepo
    simp only [pathFor, Except.ok.injEq] at hp
    subst hp
    have hoffset : Tame (if list then "" else toString offset) := by
      split
      · decide
      · exact tame_toString offset
    exact carriesColon_repo hname hc (tame_cons (by decide) (tame_cons (tame_of_plainName hargs.1)
      (tame_cons (by decide) (tame_cons (tame_of_plainName hargs.2) (tame_cons hoffset (by simp))))))
  | repositoriesRoot => cases hrepo

end Colon

theorem pathRegexpMatch_of_colon {p : String} (hc : ':' ∈ p.toList) : Driver.Inmemory.pathRegexpMatch p = false := by
  obtain ⟨e, he, hce⟩ := mem_elements_of_mem hc (by decide)
  unfold Driver.Inmemory.pathRegexpMatch
  split
  · rename_i c cs hsplit
    rw [hsplit] at he
    rcases List.mem_cons.mp he with rfl | he
    · simp at hce
    · rw [Bool.eq_false_iff]
      intro hall
      have hok := List.all_eq_true.mp hall e he
      simp only [Bool.and_eq_true, List.all_eq_true] at hok
      exact absurd (hok.2 ':' hce) (by decide)
  · rfl

/-- The base driver refuses every path of a repository whose name has a port,
whatever the spec. -/
theorem pathFor_port_rejected {spec : PathSpec} {name : String} (hrepo : spec.repository = some name)
    {r : String × String} (hname : Reference.withName name = .ok r) (hport : ':' ∈ name.toList)
    (hargs : spec.PlainArgs) {p : String} (hp : pathFor spec = .ok p) :
    Driver.Inmemory.pathRegexpMatch p = false :=
  pathRegexpMatch_of_colon (pathFor_carriesColon hrepo (Reference.withName_plain hname) hargs hport hp).1

/-- The first file of a blob upload to `localhost:5000/foo`, its start time. -/
theorem pathFor_port_rejected_localhost :
    let spec := PathSpec.uploadStartedAt "localhost:5000/foo" "u1"
    spec.repository = some "localhost:5000/foo" ∧
      Reference.withName "localhost:5000/foo" = .ok ("localhost:5000", "foo") ∧
      ':' ∈ "localhost:5000/foo".toList ∧ spec.PlainArgs ∧
      pathFor spec = .ok (join (repoPrefix ++ ["localhost:5000/foo", "_uploads", "u1", "startedat"])) ∧
      Driver.Inmemory.pathRegexpMatch (join (repoPrefix ++ ["localhost:5000/foo", "_uploads", "u1", "startedat"])) =
        false := by
  intro spec
  have hrepo : spec.repository = some "localhost:5000/foo" := rfl
  have hmatch : Reference.matchName "localhost:5000/foo".toList = some ("localhost:5000".toList, "foo".toList) := by
    rw [show "localhost:5000/foo".toList =
        ['l', 'o', 'c', 'a', 'l', 'h', 'o', 's', 't', ':', '5', '0', '0', '0', '/', 'f', 'o', 'o'] from rfl,
      show "localhost:5000".toList = ['l', 'o', 'c', 'a', 'l', 'h', 'o', 's', 't', ':', '5', '0', '0', '0'] from rfl,
      show "foo".toList = ['f', 'o', 'o'] from rfl]
    decide
  have hname : Reference.withName "localhost:5000/foo" = .ok ("localhost:5000", "foo") := by
    simp only [Reference.withName, hmatch, String.ofList_toList]
    rfl
  have hport : ':' ∈ "localhost:5000/foo".toList := by simp
  have hargs : spec.PlainArgs := by
    show PlainName "u1"
    decide
  have hp : pathFor spec = .ok (join (repoPrefix ++ ["localhost:5000/foo", "_uploads", "u1", "startedat"])) := rfl
  exact ⟨hrepo, hname, hport, hargs, hp, pathFor_port_rejected hrepo hname hport hargs hp⟩

/-! ## Reading a blob's digest back -/

def newDigestFromEncoded (alg : Algorithm) (encoded : String) : Digest := alg ++ ":" ++ encoded

/-- `digestFromPath`: the digest, with the error of its `Validate`; `none` where
`hex[:2]` panics, on a last element of fewer than two bytes. The paths the
driver lists match `PathRegexp`, so they are ASCII and characters are bytes. -/
def digestFromPath (digestPath : String) : Option (Digest × Option DigestError) :=
  let digestPath := trimSuffix digestPath "/data"
  let (dir₁, hex) := split digestPath
  let (dir₂, next) := split (dir dir₁)
  if hex.toList.length < 2 then none
  else
    -- `next` is the two-character shard, or the algorithm
    let algo := if next = String.ofList (hex.toList.take 2) then base dir₂ else next
    let dgst := newDigestFromEncoded algo hex
    some (dgst, dgst.validate)

section DigestFromPath

theorem eq_of_algorithm? {d : Digest} {a : Algorithm} (h : d.algorithm? = some a) : d = a ++ ":" ++ d.encoded := by
  unfold Digest.algorithm? at h
  split_ifs at h with hc
  injection h with h
  subst h
  have hrest : d.toList.dropWhile (· ≠ ':') ≠ [] := by
    intro hnil
    have := List.dropWhile_eq_nil_iff.mp hnil ':' hc
    simp at this
  obtain ⟨c, cs, hcs⟩ := List.exists_cons_of_ne_nil hrest
  have hcolon : c = ':' := by
    have := @List.head_dropWhile_not _ (fun x => decide (x ≠ ':')) d.toList hrest
    simp only [hcs, List.head_cons] at this
    simpa using this
  have hsplit := @List.takeWhile_append_dropWhile _ (fun x => decide (x ≠ ':')) d.toList
  apply String.toList_injective
  rw [String.toList_append, String.toList_append, String.toList_ofList]
  simp only [Digest.encoded, hcs, hcolon, List.drop_one, List.tail_cons, String.toList_ofList]
  rw [hcs, hcolon] at hsplit
  simpa using hsplit.symm

theorem length_encoded_of_validate {d : Digest} (h : d.validate = none) {a : Algorithm}
    (ha : d.algorithm? = some a) : d.encoded.toList.length = a.size * 2 := by
  have ha' : a = String.ofList (d.toList.takeWhile (· ≠ ':')) := by
    unfold Digest.algorithm? at ha
    split_ifs at ha
    exact (Option.some.inj ha).symm
  simp only [Digest.validate] at h
  split_ifs at h with hfmt hnone
  unfold Algorithm.validate at h
  rw [ha']
  by_contra hl
  simp only [Digest.encoded] at hl
  rw [if_neg hnone, if_pos (Ne.symm hl)] at h
  exact absurd h (by simp)

theorem rooted_concat {es : List (List Char)} (hne : es ≠ []) (x : List Char) :
    rooted (es ++ [x]) = rooted es ++ '/' :: x := by
  simpa using rooted_append hne (List.cons_ne_nil x [])

theorem digestFromPath_rooted {pre : List (List Char)} (hpre : ∀ e ∈ pre, PlainElement e) (hne : pre ≠ [])
    {a shard hex : List Char} (ha : PlainElement a) (hshard : PlainElement shard) (hhex : PlainElement hex)
    (hlen : 2 ≤ hex.length) (hsh : shard = hex.take 2) :
    let dgst := newDigestFromEncoded (String.ofList a) (String.ofList hex)
    digestFromPath (String.ofList (rooted (pre ++ [a, shard, hex, "data".toList]))) = some (dgst, dgst.validate) := by
  intro dgst
  have hne₁ : pre ++ [a] ≠ [] := by simp
  have hne₂ : pre ++ [a, shard] ≠ [] := by simp
  have hne₃ : pre ++ [a, shard, hex] ≠ [] := by simp
  have hplain₂ : ∀ e ∈ pre ++ [a, shard], PlainElement e := by
    intro e he
    simp only [List.mem_append, List.mem_cons, List.not_mem_nil, or_false] at he
    rcases he with he | rfl | rfl
    · exact hpre e he
    · exact ha
    · exact hshard
  have h₄ : rooted (pre ++ [a, shard, hex, "data".toList]) = rooted (pre ++ [a, shard, hex]) ++ '/' :: "data".toList := by
    rw [← rooted_concat hne₃]
    simp
  have h₃ : rooted (pre ++ [a, shard, hex]) = rooted (pre ++ [a, shard]) ++ '/' :: hex := by
    rw [← rooted_concat hne₂]
    simp
  have h₂ : rooted (pre ++ [a, shard]) = rooted (pre ++ [a]) ++ '/' :: shard := by
    rw [← rooted_concat hne₁]
    simp
  have h₁ : rooted (pre ++ [a]) ++ ['/'] = rooted pre ++ '/' :: a ++ ['/'] := by
    rw [rooted_concat hne]
  have htrim : trimSuffix (String.ofList (rooted (pre ++ [a, shard, hex, "data".toList]))) "/data" =
      String.ofList (rooted (pre ++ [a, shard, hex])) := by
    rw [h₄, show ("/data" : String) = String.ofList ('/' :: "data".toList) from rfl, trimSuffix_append]
  have hsplit₁ : split (String.ofList (rooted (pre ++ [a, shard, hex]))) =
      (String.ofList (rooted (pre ++ [a, shard]) ++ ['/']), String.ofList hex) := by
    rw [h₃, split_append_slash _ hhex.2.1]
  have hsplit₂ : split (dir (String.ofList (rooted (pre ++ [a, shard]) ++ ['/']))) =
      (String.ofList (rooted (pre ++ [a]) ++ ['/']), String.ofList shard) := by
    rw [dir_rooted_slash hplain₂ hne₂, h₂, split_append_slash _ hshard.2.1]
  have hbase : base (String.ofList (rooted (pre ++ [a]) ++ ['/'])) = String.ofList a := by
    rw [h₁, base_append_slash _ ha]
  unfold digestFromPath
  simp only [htrim, hsplit₁, hsplit₂, String.toList_ofList, ← hsh, if_true, hbase]
  rw [if_neg (by omega)]

/-- `digestFromPath` reads every valid digest back from the path of its blob's
data. -/
theorem digestFromPath_blobData {d : Digest} (hd : d.validate = none) :
    ∃ p, pathFor (.blobData d) = .ok p ∧ digestFromPath p = some (d, none) := by
  obtain ⟨a, halg, ha, hne, hhex⟩ := validate_eq_none hd
  have hlen := length_encoded_of_validate hd halg
  have hsize : 32 ≤ a.size := by rcases ha with rfl | rfl | rfl <;> decide
  have hreplace : blobAlgorithmReplace a = a ∧ PlainElement a.toList := by
    rcases ha with rfl | rfl | rfl <;> decide
  have hchars : ∀ c ∈ d.encoded.toList, c ≠ '/' ∧ c ≠ '.' := by
    intro c hc
    have := List.all_eq_true.mp hhex c hc
    constructor <;> rintro rfl <;> simp [isLowerHex] at this
  have hplain : ∀ {l : List Char}, l ≠ [] → (∀ c ∈ l, c ≠ '/' ∧ c ≠ '.') → PlainElement l := by
    intro l hl hc
    refine ⟨hl, fun hs => (hc '/' hs).1 rfl, ?_, ?_⟩
    · rintro rfl
      exact (hc '.' (by simp)).2 rfl
    · rintro rfl
      exact (hc '.' (by simp)).2 rfl
  have hhexp : PlainElement d.encoded.toList := hplain hne hchars
  have hshardp : PlainElement (d.encoded.toList.take 2) :=
    hplain (by simpa [List.take_eq_nil_iff] using hne) fun c hc => hchars c (List.mem_of_mem_take hc)
  have hcomp : digestPathComponents d true = .ok [a, String.ofList (d.encoded.toList.take 2), d.encoded] := by
    simp [digestPathComponents, hd, halg, hreplace.1]
  let pre : List (List Char) := ["docker", "registry", "v2", "blobs"].map String.toList
  have hpre : ∀ e ∈ pre, PlainElement e := by decide
  have hall : ∀ y ∈ "/docker/registry/" :: "v2" :: "blobs" :: a :: String.ofList (d.encoded.toList.take 2) ::
      d.encoded :: ["data"], Tame y := by
    refine tame_cons (by decide) (tame_cons (by decide) (tame_cons (by decide) ?_))
    refine tame_cons (tame_of_plainElement hreplace.2) (tame_cons ?_ (tame_cons (tame_of_plainElement hhexp) (by decide)))
    exact tame_of_plainElement (by rwa [String.toList_ofList])
  have hpath : pathFor (.blobData d) =
      .ok (String.ofList (rooted (pre ++ [a.toList, d.encoded.toList.take 2, d.encoded.toList, "data".toList]))) := by
    simp only [pathFor, hcomp, bind, Except.bind, pure, Except.pure, Except.ok.injEq]
    have hroot : ("/docker/registry/" : String).toList.head? = some '/' := rfl
    rw [show rootPrefix ++ ["blobs"] ++ [a, String.ofList (d.encoded.toList.take 2), d.encoded] ++ ["data"] =
      "/docker/registry/" :: "v2" :: "blobs" :: a :: String.ofList (d.encoded.toList.take 2) :: d.encoded :: ["data"]
      from rfl, join_of_rooted hroot hall]
    have hlit : elements ("/docker/registry/" : String).toList = [[], "docker".toList, "registry".toList, []] := by
      decide
    simp only [List.flatMap_cons, List.flatMap_nil, hlit, elements_of_plain hreplace.2, String.toList_ofList,
      elements_of_plain hshardp, elements_of_plain hhexp, List.append_nil]
    rw [show elements "v2".toList = ["v2".toList] from rfl, show elements "blobs".toList = ["blobs".toList] from rfl,
      show elements "data".toList = ["data".toList] from rfl]
    simp [pre, hreplace.2.1, hshardp.1, hhexp.1]
  refine ⟨_, hpath, ?_⟩
  have hread := digestFromPath_rooted hpre (by simp [pre]) hreplace.2 hshardp hhexp (by omega) rfl
  rw [hread]
  have hd' : newDigestFromEncoded (String.ofList a.toList) (String.ofList d.encoded.toList) = d := by
    rw [String.ofList_toList, String.ofList_toList, newDigestFromEncoded, ← eq_of_algorithm? halg]
  simp only [hd', hd]

theorem digestFromPath_blobData_aaaa :
    let d : Digest := String.ofList ("sha256:".toList ++ List.replicate 64 'a')
    d.validate = none ∧ ∃ p, pathFor (.blobData d) = .ok p ∧ digestFromPath p = some (d, none) := by
  intro d
  have hd : d.validate = none := by
    unfold Digest.validate
    rw [String.toList_ofList, show "sha256:".toList = ['s', 'h', 'a', '2', '5', '6', ':'] from rfl]
    decide
  exact ⟨hd, digestFromPath_blobData hd⟩

end DigestFromPath

end DockerRegistry.Storage
