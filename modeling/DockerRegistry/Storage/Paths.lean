import DockerRegistry.Digest
import DockerRegistry.Lib.GoPath
import DockerRegistry.Lib.ListOrder

/-!
# The storage layout

`pathFor` of `registry/storage/paths.go`: where each object of the registry
lives in the storage driver, under `/docker/registry/v2`. Every path is built
with `path.Join`; the only failure is a digest that does not validate.

`lessPath` of `registry/storage/catalog.go` orders paths element by element:
the slash is compared as the character `\x00`, which sorts before every other.
-/

namespace DockerRegistry.Storage

open GoPath

def storagePathVersion : String := "v2"

def storagePathRoot : String := "/docker/registry/"

/-- The path specs of `paths.go`. -/
inductive PathSpec
  | manifests (name : String)
  | manifestRevisions (name : String)
  | manifestRevision (name : String) (revision : Digest)
  | manifestRevisionLink (name : String) (revision : Digest)
  | manifestTags (name : String)
  | manifestTag (name tag : String)
  | manifestTagCurrent (name tag : String)
  | manifestTagIndex (name tag : String)
  | manifestTagIndexEntryLink (name tag : String) (revision : Digest)
  | manifestTagIndexEntry (name tag : String) (revision : Digest)
  | layerLink (name : String) (digest : Digest)
  | layers (name : String)
  | blobs
  | blob (digest : Digest)
  | blobData (digest : Digest)
  | uploadData (name id : String)
  | uploadStartedAt (name id : String)
  | uploadHashState (name id : String) (alg : Algorithm) (offset : ℕ) (list : Bool)
  | repositoriesRoot
  deriving DecidableEq, Repr

/-- `blobAlgorithmReplacer`: `+`, `.` and `;` become `/`. -/
def blobAlgorithmReplace (a : Algorithm) : String :=
  String.ofList (a.toList.map fun c => if c = '+' ∨ c = '.' ∨ c = ';' then '/' else c)

/-- `digestPathComponents`: the algorithm, the first two hex digits when
`multilevel`, and the hex digest. -/
def digestPathComponents (dgst : Digest) (multilevel : Bool) : Except DigestError (List String) :=
  match dgst.validate with
  | some e => .error e
  | none =>
    let algorithm := blobAlgorithmReplace ((dgst.algorithm?).getD "")
    let hex := dgst.encoded
    .ok (algorithm :: (if multilevel then [String.ofList (hex.toList.take 2)] else []) ++ [hex])

def rootPrefix : List String := [storagePathRoot, storagePathVersion]

def repoPrefix : List String := rootPrefix ++ ["repositories"]

def manifestTagsPath (name : String) : String := join (repoPrefix ++ [name, "_manifests", "tags"])

def manifestTagPath (name tag : String) : String := join [manifestTagsPath name, tag]

def manifestTagCurrentPath (name tag : String) : String := join [manifestTagPath name tag, "current", "link"]

def manifestTagIndexPath (name tag : String) : String := join [manifestTagPath name tag, "index"]

def manifestRevisionPath (name : String) (revision : Digest) : Except DigestError String := do
  let components ← digestPathComponents revision false
  pure (join (repoPrefix ++ [name, "_manifests", "revisions"] ++ components))

def manifestTagIndexEntryPath (name tag : String) (revision : Digest) : Except DigestError String := do
  let components ← digestPathComponents revision false
  pure (join [manifestTagIndexPath name tag, join components])

def pathFor : PathSpec → Except DigestError String
  | .manifests name => .ok (join (repoPrefix ++ [name, "_manifests"]))
  | .manifestRevisions name => .ok (join (repoPrefix ++ [name, "_manifests", "revisions"]))
  | .manifestRevision name revision => manifestRevisionPath name revision
  | .manifestRevisionLink name revision => do
    let root ← manifestRevisionPath name revision
    pure (join [root, "link"])
  | .manifestTags name => .ok (manifestTagsPath name)
  | .manifestTag name tag => .ok (manifestTagPath name tag)
  | .manifestTagCurrent name tag => .ok (manifestTagCurrentPath name tag)
  | .manifestTagIndex name tag => .ok (manifestTagIndexPath name tag)
  | .manifestTagIndexEntryLink name tag revision => do
    let root ← manifestTagIndexEntryPath name tag revision
    pure (join [root, "link"])
  | .manifestTagIndexEntry name tag revision => manifestTagIndexEntryPath name tag revision
  | .layerLink name digest => do
    let components ← digestPathComponents digest false
    pure (join [join (repoPrefix ++ [name, "_layers"] ++ components), "link"])
  | .layers name => .ok (join (repoPrefix ++ [name, "_layers"]))
  | .blobs => .ok (join (rootPrefix ++ ["blobs"]))
  | .blob digest => do
    let components ← digestPathComponents digest true
    pure (join (rootPrefix ++ ["blobs"] ++ components))
  | .blobData digest => do
    let components ← digestPathComponents digest true
    pure (join (rootPrefix ++ ["blobs"] ++ components ++ ["data"]))
  | .uploadData name id => .ok (join (repoPrefix ++ [name, "_uploads", id, "data"]))
  | .uploadStartedAt name id => .ok (join (repoPrefix ++ [name, "_uploads", id, "startedat"]))
  | .uploadHashState name id alg offset list =>
    let offset := if list then "" else toString offset
    .ok (join (repoPrefix ++ [name, "_uploads", id, "hashstates", alg, offset]))
  | .repositoriesRoot => .ok (join repoPrefix)

/-! ## The paths of a repository -/

/-- The elements of a repository name are plain path elements, as those of every
name `reference.NameRegexp` accepts are. -/
def PlainName (name : String) : Prop := ∀ e ∈ elements name.toList, PlainElement e

instance : DecidablePred PlainName := fun name =>
  inferInstanceAs (Decidable (∀ e ∈ elements name.toList, PlainElement e))

def tagsElements (name : String) : List (List Char) :=
  ["docker", "registry", "v2", "repositories"].map String.toList ++ elements name.toList ++
    ["_manifests", "tags"].map String.toList

theorem tagsElements_plain {name : String} (h : PlainName name) : ∀ e ∈ tagsElements name, PlainElement e := by
  intro e he
  simp only [tagsElements, List.mem_append] at he
  rcases he with (he | he) | he
  · revert e; decide
  · exact h e he
  · revert e; decide

theorem tagsElements_ne_nil (name : String) : tagsElements name ≠ [] := by simp [tagsElements]

theorem plain_around_name {name : String} (h : PlainName name) (pre post : List String)
    (hpre : ∀ y ∈ pre, ∀ e ∈ elements y.toList, e = [] ∨ PlainElement e)
    (hpost : ∀ y ∈ post, ∀ e ∈ elements y.toList, e = [] ∨ PlainElement e) :
    ∀ y ∈ pre ++ name :: post, ∀ e ∈ elements y.toList, e = [] ∨ PlainElement e := by
  intro y hy
  rcases List.mem_append.mp hy with hy | hy
  · exact hpre y hy
  · rcases List.mem_cons.mp hy with rfl | hy
    · exact fun e he => Or.inr (h e he)
    · exact hpost y hy

theorem manifestTagsPath_eq {name : String} (h : PlainName name) :
    manifestTagsPath name = String.ofList (rooted (tagsElements name)) := by
  have hname : (elements name.toList).filter (· ≠ []) = elements name.toList :=
    List.filter_eq_self.mpr fun e he => by simpa using (h e he).1
  have hpath : manifestTagsPath name =
      join ["/docker/registry/", "v2", "repositories", name, "_manifests", "tags"] := rfl
  have hsplit : ["/docker/registry/", "v2", "repositories", name, "_manifests", "tags"] =
      ["/docker/registry/", "v2", "repositories"] ++ name :: ["_manifests", "tags"] := rfl
  have hA : ((["/docker/registry/", "v2", "repositories"].flatMap fun y => elements y.toList).filter (· ≠ [])) =
      ["docker", "registry", "v2", "repositories"].map String.toList := by decide
  have hB : ((["_manifests", "tags"].flatMap fun y => elements y.toList).filter (· ≠ [])) =
      ["_manifests", "tags"].map String.toList := by decide
  have hplain := plain_around_name h ["/docker/registry/", "v2", "repositories"] ["_manifests", "tags"]
    (by decide) (by decide)
  rw [← hsplit] at hplain
  have hmid : ((name :: ["_manifests", "tags"]).flatMap fun y => elements y.toList).filter (· ≠ []) =
      elements name.toList ++ ["_manifests", "tags"].map String.toList := by
    rw [List.flatMap_cons, List.filter_append, hname, hB]
  rw [hpath, join_of_rooted (by decide) hplain, hsplit, List.flatMap_append, List.filter_append, hA, hmid]
  simp [tagsElements]

theorem manifestTagPath_eq {name t : String} (h : PlainName name) (ht : PlainElement t.toList) :
    manifestTagPath name t = String.ofList (rooted (tagsElements name ++ [t.toList])) := by
  rw [manifestTagPath, manifestTagsPath_eq h,
    join_rooted_plain (tagsElements_plain h) (tagsElements_ne_nil name) (by simpa [elements_of_plain ht])]
  simp [elements_of_plain ht]

theorem manifestTagCurrentPath_eq {name t : String} (h : PlainName name) (ht : PlainElement t.toList) :
    manifestTagCurrentPath name t =
      String.ofList (rooted (tagsElements name ++ [t.toList, "current".toList, "link".toList])) := by
  have hR : ∀ e ∈ tagsElements name ++ [t.toList], PlainElement e := by
    simpa [or_imp, forall_and] using ⟨tagsElements_plain h, ht⟩
  have hlit : (["current", "link"].flatMap fun x => elements x.toList) = ["current".toList, "link".toList] := by
    decide
  rw [manifestTagCurrentPath, manifestTagPath_eq h ht, join_rooted_plain hR (by simp) (by decide), hlit]
  simp

theorem digestPathComponents_of_validate {d : Digest} (h : d.validate = none) :
    ∃ a hex : String, digestPathComponents d false = .ok [a, hex] ∧ PlainElement a.toList ∧ PlainElement hex.toList := by
  obtain ⟨a, halg, ha, hne, hhex⟩ := validate_eq_none h
  have hreplace : blobAlgorithmReplace a = a ∧ PlainElement a.toList := by
    rcases ha with rfl | rfl | rfl <;> decide
  have hchar : ∀ c ∈ d.encoded.toList, c ≠ '/' ∧ c ≠ '.' := by
    intro c hc
    have := List.all_eq_true.mp hhex c hc
    constructor <;> rintro rfl <;> simp [isLowerHex] at this
  have hplain : PlainElement d.encoded.toList := by
    refine ⟨hne, fun hs => (hchar '/' hs).1 rfl, ?_, ?_⟩
    · intro hdot
      exact (hchar '.' (by simp [hdot])).2 rfl
    · intro hdot
      exact (hchar '.' (by simp [hdot])).2 rfl
  refine ⟨a, d.encoded, ?_, hreplace.2, hplain⟩
  simp [digestPathComponents, h, halg, hreplace.1]

theorem manifestTagIndexEntryLinkPath_eq {name t : String} {d : Digest} (h : PlainName name)
    (ht : PlainElement t.toList) (hd : d.validate = none) :
    ∃ a hex : String, PlainElement a.toList ∧ PlainElement hex.toList ∧
      pathFor (.manifestTagIndexEntryLink name t d) =
        .ok (String.ofList (rooted (tagsElements name ++
          [t.toList, "index".toList, a.toList, hex.toList, "link".toList]))) := by
  obtain ⟨a, hex, hcomp, ha, hhex⟩ := digestPathComponents_of_validate hd
  refine ⟨a, hex, ha, hhex, ?_⟩
  have hR : ∀ e ∈ tagsElements name ++ [t.toList], PlainElement e := by
    simpa [or_imp, forall_and] using ⟨tagsElements_plain h, ht⟩
  have hR' : ∀ e ∈ tagsElements name ++ [t.toList, "index".toList], PlainElement e := by
    simpa [or_imp, forall_and] using ⟨tagsElements_plain h, ht, by decide⟩
  have hR'' : ∀ e ∈ tagsElements name ++ [t.toList, "index".toList, a.toList, hex.toList], PlainElement e := by
    simpa [or_imp, forall_and] using ⟨tagsElements_plain h, ht, by decide, ha, hhex⟩
  have hjoin : join [a, hex] = String.ofList (joinElements [a.toList, hex.toList]) :=
    join_plain (by simpa using ⟨ha, hhex⟩) (by simp)
  have hcomps : ∀ e ∈ elements (join [a, hex]).toList, PlainElement e := by
    rw [hjoin, String.toList_ofList, elements_joinElements (by simp [ha.2.1, hhex.2.1]) (by simp)]
    simpa using ⟨ha, hhex⟩
  have hindex : manifestTagIndexPath name t =
      String.ofList (rooted (tagsElements name ++ [t.toList, "index".toList])) := by
    have hlit : (["index"].flatMap fun x => elements x.toList) = ["index".toList] := by decide
    rw [manifestTagIndexPath, manifestTagPath_eq h ht, join_rooted_plain hR (by simp) (by decide), hlit]
    simp
  have hentry : manifestTagIndexEntryPath name t d =
      .ok (String.ofList (rooted (tagsElements name ++ [t.toList, "index".toList, a.toList, hex.toList]))) := by
    simp only [manifestTagIndexEntryPath, hcomp, bind, Except.bind, pure, Except.pure, hindex]
    rw [join_rooted_plain hR' (by simp) (by simpa using hcomps), hjoin]
    simp only [List.flatMap_cons, List.flatMap_nil, List.append_nil, String.toList_ofList]
    rw [elements_joinElements (by simp [ha.2.1, hhex.2.1]) (by simp)]
    simp
  simp only [pathFor, hentry, bind, Except.bind, pure, Except.pure]
  have hlit : (["link"].flatMap fun x => elements x.toList) = ["link".toList] := by decide
  rw [join_rooted_plain hR'' (by simp) (by decide), hlit]
  simp

/-! ## Path order -/

def compareReplaceChars (old new : Char) : List Char → List Char → ℤ
  | c₁ :: r₁, c₂ :: r₂ =>
    let c₁ := if c₁ = old then new else c₁
    let c₂ := if c₂ = old then new else c₂
    if c₁ < c₂ then -1 else if c₁ > c₂ then 1 else compareReplaceChars old new r₁ r₂
  | [], [] => 0
  | [], _ :: _ => -1
  | _ :: _, [] => 1

/-- `compareReplaceInline`: a character-wise comparison that reads `old` as `new`. -/
def compareReplaceInline (s₁ s₂ : String) (old new : Char) : ℤ :=
  compareReplaceChars old new s₁.toList s₂.toList

def lessPath (a b : String) : Bool := compareReplaceInline a b '/' '\x00' < 0

theorem compareReplaceChars_neg_iff (old new : Char) (l₁ l₂ : List Char) :
    compareReplaceChars old new l₁ l₂ < 0 ↔
      l₁.map (fun c => if c = old then new else c) < l₂.map (fun c => if c = old then new else c) := by
  induction l₁ generalizing l₂ with
  | nil => cases l₂ <;> simp [compareReplaceChars, List.nil_lt_cons]
  | cons c₁ r₁ ih =>
    cases l₂ with
    | nil => simp [compareReplaceChars]
    | cons c₂ r₂ =>
      simp only [compareReplaceChars, List.map_cons, List.cons_lt_cons_iff]
      generalize (if c₁ = old then new else c₁) = a
      generalize (if c₂ = old then new else c₂) = b
      rcases lt_trichotomy a b with hab | rfl | hab
      · simp [hab]
      · simp [ih r₂]
      · simp [hab, not_lt_of_gt hab, ne_of_gt hab]

theorem lessPath_iff (a b : String) :
    lessPath a b = true ↔ replaceAll a '/' '\x00' < replaceAll b '/' '\x00' := by
  rw [replaceAll, replaceAll, String.lt_iff_toList_lt, String.toList_ofList, String.toList_ofList,
    ← compareReplaceChars_neg_iff]
  simp only [lessPath, compareReplaceInline]
  exact decide_eq_true_iff

theorem lessPath_of_noSlash {a b : String} (ha : '/' ∉ a.toList) (hb : '/' ∉ b.toList) :
    lessPath a b = true ↔ a < b := by
  rw [lessPath_iff, replaceAll_of_not_mem ha, replaceAll_of_not_mem hb]

theorem map_slash_eq_intercalate (p : List Char) :
    p.map (fun c => if c = '/' then '\x00' else c) = ['\x00'].intercalate (elements p) := by
  conv_lhs => rw [← joinElements_elements p]
  have hes : ∀ e ∈ elements p, '/' ∉ e := fun e he => (mem_elements he).1
  generalize elements p = es at hes ⊢
  induction es with
  | nil => rfl
  | cons e es ih =>
    rw [joinElements, ListOrder.intercalate_cons_singleton, ListOrder.intercalate_cons_singleton, List.map_append,
      map_replace_of_not_mem (hes e (List.mem_cons_self ..))]
    congr 1
    split_ifs
    · rfl
    · rw [List.map_cons, if_pos rfl, ← joinElements, ih fun e' he' => hes e' (List.mem_cons_of_mem _ he')]

theorem nul_lt_of_ne {c : Char} (h : c ≠ '\x00') : '\x00' < c := by
  rw [Char.lt_def, UInt32.lt_iff_toNat_lt]
  have hval : c.val.toNat ≠ 0 := fun h' => h (Char.ext (UInt32.toNat_inj.mp h'))
  simp only [show ('\x00' : Char).val.toNat = 0 from rfl]
  omega

theorem lessPath_iff_elements {a b : String} (ha : '\x00' ∉ a.toList) (hb : '\x00' ∉ b.toList) :
    lessPath a b = true ↔ elements a.toList < elements b.toList := by
  have hnul : ∀ p : List Char, '\x00' ∉ p → ∀ e ∈ elements p, ∀ c ∈ e, '\x00' < c :=
    fun p hp e he c hc => nul_lt_of_ne fun h => hp (h ▸ (mem_elements he).2 c hc)
  have hcmp : lessPath a b = true ↔ compareReplaceChars '/' '\x00' a.toList b.toList < 0 := decide_eq_true_iff
  rw [hcmp, compareReplaceChars_neg_iff, map_slash_eq_intercalate, map_slash_eq_intercalate]
  exact ListOrder.intercalate_lt_intercalate_iff (List.splitOn_ne_nil _ _) (List.splitOn_ne_nil _ _)
    (hnul _ ha) (hnul _ hb)

theorem lessPath_irrefl (a : String) : lessPath a a = false := by
  have h := (lessPath_iff a a).not.mpr (lt_irrefl _)
  simpa using h

theorem lessPath_trans {a b c : String} (hab : lessPath a b = true) (hbc : lessPath b c = true) :
    lessPath a c = true := by
  rw [lessPath_iff] at hab hbc ⊢
  exact lt_trans hab hbc

theorem lessPath_total {a b : String} (ha : '\x00' ∉ a.toList) (hb : '\x00' ∉ b.toList) (hne : a ≠ b) :
    lessPath a b = true ∨ lessPath b a = true := by
  rw [lessPath_iff_elements ha hb, lessPath_iff_elements hb ha]
  have helem : elements a.toList ≠ elements b.toList := fun h =>
    hne (String.toList_inj.mp (by rw [← joinElements_elements a.toList, h, joinElements_elements]))
  exact lt_or_gt_of_ne helem

end DockerRegistry.Storage
