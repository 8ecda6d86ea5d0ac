import DockerRegistry.Storage.Paths
import DockerRegistry.Storage.Driver.Walk

/-!
# The tag store

`tagStore` of `registry/storage/tagstore.go`, over a key store. `Tag` writes an
index entry for the revision and the tag's current link, `Untag` deletes the
tag's directory, `All` lists the tags directory, and `List` walks it with the
start-after hint `<tags>/<last>`, keeping through `handleTag` the tags that
`lessPath` puts after `last`. The contents of the link files are left out: the
listings read paths only.
-/

namespace DockerRegistry.Storage

open GoPath Driver KeyStore

def isWordChar (c : Char) : Bool :=
  ('a' ≤ c && c ≤ 'z') || ('A' ≤ c && c ≤ 'Z') || ('0' ≤ c && c ≤ '9') || c = '_'

/-- `anchoredTagRegexp`, `^[\w][\w.-]{0,127}$`. -/
def validTag (t : String) : Bool :=
  match t.toList with
  | [] => false
  | c :: cs => isWordChar c && cs.length ≤ 127 && cs.all fun c => isWordChar c || c = '.' || c = '-'

namespace TagStore

variable (name : String)

/-- `Tag`: link the revision into the tag's index, then point the current link
at it. -/
def tag (t : String) (desc : Descriptor) (ks : KeyStore) : KeyStore × Option Error :=
  let currentPath := manifestTagCurrentPath name t
  match pathFor (.manifestTagIndexEntryLink name t desc.digest) with
  | .error e => (ks, some (.digest e))
  | .ok indexLink => ((ks.putContent indexLink).putContent currentPath, none)

def untag (t : String) (ks : KeyStore) : KeyStore × Option Error :=
  ks.delete (manifestTagPath name t)

def all (d : StorageDriver) : Except Error (List String) :=
  match d.list (manifestTagsPath name) with
  | .error (.pathNotFound _) => .error (.repositoryUnknown name)
  | .error e => .error e
  | .ok entries => .ok (sortStrings (entries.map fun entry => (split entry).2))

/-- `handleTag`: a path one level below the root is a tag, passed to `fn` when
`lessPath` puts it after `last`; nothing below a tag is walked. -/
def handleTag {σ : Type} (fileInfo : FileInfo) (root last : String) (fn : σ → String → σ × Option Error)
    (s : σ) : σ × Option Error :=
  let filePath := fileInfo.path.toList
  -- `filePath[len(root)+1:]` is out of range for a path shorter than that
  if filePath.length < root.toList.length + 1 then (s, some .panic)
  else
    let tag := String.ofList (filePath.drop (root.toList.length + 1))
    if '/' ∈ tag.toList then (s, some .skipDir)
    else if lessPath last tag then
      match fn s tag with
      | (s, some e) => (s, some e)
      | (s, none) => (s, some .skipDir)
    else (s, some .skipDir)

theorem handleTag_childPath {σ : Type} {root t : String} (ht : '/' ∉ t.toList) (isDir : Bool) (last : String)
    (fn : σ → String → σ × Option Error) (s : σ) :
    handleTag ⟨childPath root t, isDir⟩ root last fn s =
      if lessPath last t then
        match fn s t with
        | (s, some e) => (s, some e)
        | (s, none) => (s, some .skipDir)
      else (s, some .skipDir) := by
  have hlen : ¬(childPath root t).toList.length < root.toList.length + 1 := by simp [childPath_toList]
  have hdrop : (childPath root t).toList.drop (root.toList.length + 1) = t.toList := by
    simp [childPath_toList]
  simp only [handleTag, hlen, if_false, hdrop, String.ofList_toList, ht]

theorem handleTag_below {σ : Type} {root path : String} {e x : List Char}
    (h : path.toList = root.toList ++ '/' :: (e ++ '/' :: x)) (isDir : Bool) (last : String)
    (fn : σ → String → σ × Option Error) (s : σ) :
    handleTag ⟨path, isDir⟩ root last fn s = (s, some .skipDir) := by
  have hlen : ¬path.toList.length < root.toList.length + 1 := by simp [h]
  have hdrop : path.toList.drop (root.toList.length + 1) = e ++ '/' :: x := by simp [h]
  simp [handleTag, hlen, hdrop]

/-- The walk function of `List`: the tags found so far and `filledBuffer`. -/
def listWalkFn (root last : String) (limit : ℤ) : WalkFn (List String × Bool) := fun st fileInfo =>
  handleTag fileInfo root last
    (fun st tagPath =>
      let tags := st.1 ++ [tagPath]
      if 0 < limit ∧ (tags.length : ℤ) = limit then ((tags, true), some .filledBuffer)
      else ((tags, st.2), none))
    st

/-- The walk function of `List` on a tag's directory: the tag is taken when it comes
after `last`, and it fills the buffer when it is the `limit`-th. -/
theorem listWalkFn_childPath {root t last : String} {limit : ℤ} (ht : '/' ∉ t.toList) (acc : List String)
    (isDir : Bool) :
    listWalkFn root last limit (acc, false) ⟨childPath root t, isDir⟩ =
      if lessPath last t then
        if 0 < limit ∧ ((acc.length + 1 : ℕ) : ℤ) = limit then ((acc ++ [t], true), some .filledBuffer)
        else ((acc ++ [t], false), some .skipDir)
      else ((acc, false), some .skipDir) := by
  unfold listWalkFn
  rw [handleTag_childPath ht]
  by_cases hless : lessPath last t = true
  · rw [if_pos hless, if_pos hless]
    simp only [List.length_append, List.length_singleton]
    by_cases hfill : 0 < limit ∧ ((acc.length + 1 : ℕ) : ℤ) = limit
    · rw [if_pos hfill, if_pos hfill]
    · rw [if_neg hfill, if_neg hfill]
  · rw [if_neg hless, if_neg hless]

/-- `List(limit, last)`: the tags after `last`, at most `limit` of them when it is
positive; nil when the buffer filled, `io.EOF` when the walk ended first. -/
def list (walk : Walker) (limit : ℤ) (last : String) : List String × Option Error :=
  if limit = 0 then ([], some (.other "attempted to list 0 tags"))
  else
    let root := manifestTagsPath name
    let startAfter := if last = "" then "" else manifestTagPath name last
    match walk (listWalkFn root last limit) root startAfter ([], false) with
    | ((tags, _), some (.pathNotFound _)) => (tags, some (.repositoryUnknown name))
    | ((tags, _), some e) => (tags, some e)
    | ((tags, filledBuffer), none) => if filledBuffer then (tags, none) else (tags, some .eof)

/-- A client paging through the tags `n` at a time: `List(n, "")`, then `List(n,
last)` with the last tag of each full page, for at most `calls` calls. -/
def listPages (walk : Walker) (n : ℕ) : ℕ → String → List String × Option Error
  | 0, _ => ([], none)
  | calls + 1, last =>
    match list name walk n last with
    | (tags, none) =>
      let rest := listPages walk n calls (tags.getLastD last)
      (tags ++ rest.1, rest.2)
    | r => r

end TagStore

/-! ## Tag sets -/

/-- The calls that change the tags of a repository. -/
inductive TagOp
  | tag (t : String) (desc : Descriptor)
  | untag (t : String)
  deriving DecidableEq, Repr

namespace TagOp

def tagName : TagOp → String
  | tag t _ => t
  | untag t => t

/-- What a call does to the set of tags: `Tag` adds the tag when the digest
validates, `Untag` removes it. -/
def apply : TagOp → Finset String → Finset String
  | tag t desc, T => if desc.digest.validate = none then insert t T else T
  | untag t, T => T.erase t

def applyAll (ops : List TagOp) (T : Finset String) : Finset String := ops.foldl (fun T op => op.apply T) T

end TagOp

namespace TagStore

variable (name : String)

/-- The store after a call on the repository `name`; a call that fails leaves it
as it was. -/
def applyOp : TagOp → KeyStore → KeyStore
  | .tag t desc, ks => (tag name t desc ks).1
  | .untag t, ks => (untag name t ks).1

def runOps (ops : List TagOp) (ks : KeyStore) : KeyStore := ops.foldl (fun ks op => applyOp name op ks) ks

/-- The key lies in the directory of the tag `t`. -/
def InTagDir (t key : String) : Prop :=
  ∃ rest, key.toList = (manifestTagsPath name).toList ++ '/' :: (t.toList ++ '/' :: rest)

/-- The store holds the tag set `T`: below the tags directory lie the directories
of the tags of `T`, each with a file in it, and every tag is valid. -/
structure TagTree (ks : KeyStore) (T : Finset String) : Prop where
  valid : ∀ t ∈ T, validTag t = true
  below : ∀ key ∈ ks.keys, (KeyStore.dirPrefix (manifestTagsPath name)).isPrefixOf key.toList = true →
    ∃ t ∈ T, InTagDir name t key
  present : ∀ t ∈ T, ∃ key ∈ ks.keys, InTagDir name t key

variable {name}

theorem validTag_plain {t : String} (h : validTag t = true) : PlainElement t.toList := by
  unfold validTag at h
  split at h
  · contradiction
  · rename_i c cs hcs
    simp only [Bool.and_eq_true, List.all_eq_true] at h
    obtain ⟨⟨hc, -⟩, hrest⟩ := h
    have hslash : '/' ∉ cs := fun hmem => by simpa [isWordChar] using hrest '/' hmem
    have hcslash : c ≠ '/' := by rintro rfl; simp [isWordChar] at hc
    have hcdot : c ≠ '.' := by rintro rfl; simp [isWordChar] at hc
    rw [hcs]
    refine ⟨by simp, ?_, ?_, ?_⟩
    · simpa [Ne.symm hcslash] using hslash
    · simp [hcdot]
    · simp [hcdot]

theorem TagTree.noSlash {ks : KeyStore} {T : Finset String} (hT : TagTree name ks T) {t : String} (ht : t ∈ T) :
    '/' ∉ t.toList :=
  (validTag_plain (hT.valid t ht)).2.1

theorem validTag_head {t : String} (h : validTag t = true) : ∃ c cs, t.toList = c :: cs ∧ c ≠ '.' := by
  unfold validTag at h
  split at h
  · contradiction
  · rename_i c cs hcs
    simp only [Bool.and_eq_true] at h
    refine ⟨c, cs, hcs, ?_⟩
    rintro rfl
    simp [isWordChar] at h

theorem manifestTagPath_toList {t : String} (h : PlainName name) (ht : PlainElement t.toList) :
    (manifestTagPath name t).toList = (manifestTagsPath name).toList ++ '/' :: t.toList := by
  rw [manifestTagPath_eq h ht, manifestTagsPath_eq h, String.toList_ofList, String.toList_ofList,
    rooted_append (tagsElements_ne_nil name) (by simp), joinElements_singleton]

theorem manifestTagsPath_ne_root (h : PlainName name) : manifestTagsPath name ≠ "/" := by
  intro heq
  have hchars := congrArg String.toList heq
  rw [manifestTagsPath_eq h, String.toList_ofList] at hchars
  obtain ⟨e, es, hes⟩ := List.exists_cons_of_ne_nil (tagsElements_ne_nil name)
  have he : e ≠ [] := (tagsElements_plain h e (by simp [hes])).1
  have hjoin : joinElements (e :: es) = [] := by simpa [rooted, hes] using hchars
  have hhead := head?_joinElements he es
  rw [hjoin] at hhead
  cases e with
  | nil => exact he rfl
  | cons c cs => simp at hhead

theorem dirPrefix_manifestTagsPath (h : PlainName name) :
    KeyStore.dirPrefix (manifestTagsPath name) = (manifestTagsPath name).toList ++ ['/'] := by
  simp [KeyStore.dirPrefix, manifestTagsPath_ne_root h]

theorem inTagDir_of_rooted (h : PlainName name) (t : String) {xs : List (List Char)} (hxs : xs ≠ []) :
    InTagDir name t (String.ofList (rooted (tagsElements name ++ t.toList :: xs))) := by
  refine ⟨joinElements xs, ?_⟩
  rw [String.toList_ofList, rooted_append (tagsElements_ne_nil name) (by simp), joinElements_cons _ hxs,
    manifestTagsPath_eq h, String.toList_ofList]

/-! ## Tag and Untag keep the tag tree -/

theorem tag_of_validate_some {t : String} {desc : Descriptor} {e : DigestError}
    (hd : desc.digest.validate = some e) (ks : KeyStore) : tag name t desc ks = (ks, some (.digest e)) := by
  simp [tag, pathFor, manifestTagIndexEntryPath, digestPathComponents, hd, bind, Except.bind]

theorem tag_of_validate_none (h : PlainName name) {t : String} (ht : PlainElement t.toList)
    {desc : Descriptor} (hd : desc.digest.validate = none) (ks : KeyStore) :
    ∃ indexLink, InTagDir name t indexLink ∧
      tag name t desc ks = ((ks.putContent indexLink).putContent (manifestTagCurrentPath name t), none) := by
  obtain ⟨a, hex, -, -, hpath⟩ := manifestTagIndexEntryLinkPath_eq h ht hd
  refine ⟨_, @inTagDir_of_rooted _ h t ["index".toList, a.toList, hex.toList, "link".toList] (by simp), ?_⟩
  simp only [tag, hpath]

theorem tagTree_tag (h : PlainName name) {ks : KeyStore} {T : Finset String} (hT : TagTree name ks T)
    {t : String} (ht : validTag t = true) (desc : Descriptor) :
    TagTree name (applyOp name (.tag t desc) ks) ((TagOp.tag t desc).apply T) := by
  cases hd : desc.digest.validate with
  | some e =>
    simpa [applyOp, TagOp.apply, hd, tag_of_validate_some hd] using hT
  | none =>
    obtain ⟨indexLink, hindex, htag⟩ := tag_of_validate_none h (validTag_plain ht) hd ks
    have hcurrent : InTagDir name t (manifestTagCurrentPath name t) := by
      rw [manifestTagCurrentPath_eq h (validTag_plain ht)]
      exact inTagDir_of_rooted h t (by simp)
    simp only [applyOp, TagOp.apply, hd, if_true, htag]
    refine ⟨?_, ?_, ?_⟩
    · intro t' ht'
      rcases Finset.mem_insert.mp ht' with rfl | ht'
      · exact ht
      · exact hT.valid t' ht'
    · intro key hkey hpre
      rcases mem_putContent.mp hkey with rfl | hkey
      · exact ⟨t, Finset.mem_insert_self .., hcurrent⟩
      rcases mem_putContent.mp hkey with rfl | hkey
      · exact ⟨t, Finset.mem_insert_self .., hindex⟩
      obtain ⟨t', ht', hdir⟩ := hT.below key hkey hpre
      exact ⟨t', Finset.mem_insert_of_mem ht', hdir⟩
    · intro t' ht'
      rcases Finset.mem_insert.mp ht' with rfl | ht'
      · exact ⟨_, mem_putContent.mpr (.inl rfl), hcurrent⟩
      · obtain ⟨key, hkey, hdir⟩ := hT.present t' ht'
        exact ⟨key, mem_putContent.mpr (.inr (mem_putContent.mpr (.inr hkey))), hdir⟩

theorem dirPrefix_manifestTagPath (h : PlainName name) {t : String} (ht : PlainElement t.toList) :
    KeyStore.dirPrefix (manifestTagPath name t) = (manifestTagsPath name).toList ++ '/' :: (t.toList ++ ['/']) := by
  have hne : manifestTagPath name t ≠ "/" := by
    intro heq
    have hchars := congrArg String.toList heq
    rw [manifestTagPath_toList h ht, manifestTagsPath_eq h, String.toList_ofList] at hchars
    simp [rooted] at hchars
  simp [KeyStore.dirPrefix, hne, manifestTagPath_toList h ht]

theorem untag_removes_iff (h : PlainName name) {t t' key : String} (ht : PlainElement t.toList)
    (ht' : '/' ∉ t'.toList) (hkey : InTagDir name t' key) :
    (key = manifestTagPath name t || (KeyStore.dirPrefix (manifestTagPath name t)).isPrefixOf key.toList) = true ↔
      t' = t := by
  obtain ⟨rest, hrest⟩ := hkey
  rw [Bool.or_eq_true, decide_eq_true_iff, dirPrefix_manifestTagPath h ht, hrest, List.isPrefixOf_iff_prefix,
    List.prefix_append_right_inj, List.cons_prefix_cons]
  constructor
  · rintro (rfl | ⟨-, hpre⟩)
    · rw [manifestTagPath_toList h ht] at hrest
      have htail := (List.cons.inj (List.append_cancel_left hrest)).2
      exact absurd (htail ▸ List.mem_append_right _ (List.mem_cons_self ..)) ht.2.1
    · exact (String.toList_inj.mp (eq_of_slash_isPrefixOf ht.2.1 ht' (List.isPrefixOf_iff_prefix.mpr hpre))).symm
  · rintro rfl
    exact .inr ⟨rfl, ⟨rest, by simp⟩⟩

theorem tagTree_untag (h : PlainName name) {ks : KeyStore} {T : Finset String} (hT : TagTree name ks T)
    {t : String} (ht : validTag t = true) :
    TagTree name (applyOp name (.untag t) ks) ((TagOp.untag t).apply T) := by
  have hkeys : (applyOp name (.untag t) ks).keys = ks.keys.filter fun key =>
      !(key = manifestTagPath name t || (KeyStore.dirPrefix (manifestTagPath name t)).isPrefixOf key.toList) :=
    delete_keys _ _
  refine ⟨fun t' ht' => hT.valid t' (Finset.mem_of_mem_erase ht'), ?_, ?_⟩
  · intro key hkey hpre
    simp only [hkeys, List.mem_filter] at hkey
    obtain ⟨t', ht', hdir⟩ := hT.below key hkey.1 hpre
    have hne : t' ≠ t := by
      intro heq
      have hremoved := (untag_removes_iff h (validTag_plain ht) (validTag_plain (hT.valid t' ht')).2.1 hdir).mpr heq
      have hkept := hkey.2
      rw [hremoved] at hkept
      exact absurd hkept (by decide)
    exact ⟨t', Finset.mem_erase.mpr ⟨hne, ht'⟩, hdir⟩
  · intro t' ht'
    obtain ⟨hne, ht'⟩ := Finset.mem_erase.mp ht'
    obtain ⟨key, hkey, hdir⟩ := hT.present t' ht'
    have hkept := (untag_removes_iff h (validTag_plain ht) (validTag_plain (hT.valid t' ht')).2.1 hdir).not.mpr hne
    refine ⟨key, ?_, hdir⟩
    simp only [hkeys, List.mem_filter]
    exact ⟨hkey, by rw [Bool.not_eq_true']; exact Bool.eq_false_iff.mpr hkept⟩

theorem tagTree_runOps (h : PlainName name) {ops : List TagOp} (hops : ∀ op ∈ ops, validTag op.tagName = true) :
    ∀ {ks : KeyStore} {T : Finset String}, TagTree name ks T →
      TagTree name (runOps name ops ks) (TagOp.applyAll ops T) := by
  induction ops with
  | nil => exact id
  | cons op ops ih =>
    intro ks T hT
    have hop : TagTree name (applyOp name op ks) (op.apply T) := by
      cases op with
      | tag t desc => exact tagTree_tag h hT (hops _ (List.mem_cons_self ..)) desc
      | untag t => exact tagTree_untag h hT (hops _ (List.mem_cons_self ..))
    exact ih (fun op hop => hops op (List.mem_cons_of_mem _ hop)) hop

theorem tagTree_empty {ks : KeyStore}
    (h : ∀ key ∈ ks.keys, (KeyStore.dirPrefix (manifestTagsPath name)).isPrefixOf key.toList = false) :
    TagTree name ks ∅ := by
  refine ⟨by simp, fun key hkey hpre => ?_, by simp⟩
  simp [h key hkey] at hpre

end TagStore

end DockerRegistry.Storage
