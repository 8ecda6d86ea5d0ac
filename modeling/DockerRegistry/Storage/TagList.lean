import DockerRegistry.Storage.TagStore

/-!
# Listing the tags of a tag tree

`All` and `List` of `tagstore.go` over a store that holds a tag set. The tags
directory lists the directories of the tags, which `sort.Strings` orders as the
tags themselves. `List` with a tag as `last` first walks the hint's own
directory, where every path lies below a tag and is skipped, and then the tags
directory after the hint; with `last` empty it walks the whole tags directory
from the outside branch of `WalkFallback`. Each tag directory reaches
`handleTag`, which takes the tag when `lessPath` puts it after `last`, and the
walk stops once `limit` tags are taken. A page is therefore a window of the
sorted tag set, and a client that pages through it sees every tag once, in order.
-/

namespace DockerRegistry.Storage

open GoPath Driver KeyStore

/-- What `List` answers when the tags after `last` are `after`, in order: the first
`limit` of them with nil when there are that many, all of them with `io.EOF`
otherwise. -/
def page (after : List String) (limit : ℤ) : List String × Option Error :=
  if 0 < limit ∧ limit ≤ after.length then (after.take limit.toNat, none) else (after, some .eof)

namespace TagStore

variable {name : String}

theorem manifestTagsPath_head (h : PlainName name) : (manifestTagsPath name).toList.head? = some '/' := by
  rw [manifestTagsPath_eq h, String.toList_ofList]
  rfl

theorem manifestTagsPath_ne_empty (h : PlainName name) : manifestTagsPath name ≠ "" := by
  intro heq
  simpa [heq] using manifestTagsPath_head h

theorem manifestTagPath_eq_childPath (h : PlainName name) {t : String} (ht : PlainElement t.toList) :
    manifestTagPath name t = childPath (manifestTagsPath name) t :=
  String.toList_inj.mp (by rw [manifestTagPath_toList h ht, childPath_toList])

theorem not_inTagDir_childPath {t t' : String} (ht : '/' ∉ t.toList) :
    ¬InTagDir name t' (childPath (manifestTagsPath name) t) := by
  rintro ⟨rest, hrest⟩
  rw [childPath_toList] at hrest
  have htail := (List.cons.inj (List.append_cancel_left hrest)).2
  exact ht (htail ▸ List.mem_append_right _ (List.mem_cons_self ..))

theorem childToward_of_inTagDir (h : PlainName name) {t key : String} (hkey : InTagDir name t key)
    (ht : '/' ∉ t.toList) :
    childToward (manifestTagsPath name) key = some (childPath (manifestTagsPath name) t) := by
  obtain ⟨rest, hrest⟩ := hkey
  have hkey' : key.toList = dirPrefix (manifestTagsPath name) ++ t.toList ++ '/' :: rest := by
    rw [hrest, dirPrefix_manifestTagsPath h]
    simp
  rw [childToward_of_toList ht hkey', dirPrefix_manifestTagsPath h]
  simp [childPath]

theorem sortStrings_tagsChildren {T : Finset String} {cs : List String} (hnodup : cs.Nodup)
    (hmem : ∀ c, c ∈ cs ↔ ∃ t ∈ T, childPath (manifestTagsPath name) t = c) :
    sortStrings cs = T.sort.map (childPath (manifestTagsPath name)) := by
  refine ListOrder.insertionSort_eq_of_mem_iff hnodup
    (ListOrder.SortedLT.map (Finset.sortedLT_sort T) (childPath_strictMono _)) fun c => ?_
  simp [hmem]

section TagTree

variable {ks : KeyStore} {T : Finset String} (h : PlainName name) (hT : TagTree name ks T)
include h hT

theorem mem_tagsChildren {c : String} :
    c ∈ (ks.keys.filterMap (childToward (manifestTagsPath name))).dedup ↔
      ∃ t ∈ T, childPath (manifestTagsPath name) t = c := by
  rw [mem_list_children]
  constructor
  · rintro ⟨key, hkey, hc⟩
    obtain ⟨t, ht, hdir⟩ := hT.below key hkey (childToward_eq_some hc).1
    rw [childToward_of_inTagDir h hdir (hT.noSlash ht)] at hc
    exact ⟨t, ht, Option.some.inj hc⟩
  · rintro ⟨t, ht, rfl⟩
    obtain ⟨key, hkey, hdir⟩ := hT.present t ht
    exact ⟨key, hkey, childToward_of_inTagDir h hdir (hT.noSlash ht)⟩

theorem list_tagsPath (hne : T.Nonempty) :
    ∃ cs, ks.list (manifestTagsPath name) = .ok cs ∧ cs.Nodup ∧
      ∀ c, c ∈ cs ↔ ∃ t ∈ T, childPath (manifestTagsPath name) t = c := by
  obtain ⟨t, ht⟩ := hne
  have hchildren : (ks.keys.filterMap (childToward (manifestTagsPath name))).dedup ≠ [] :=
    List.ne_nil_of_mem ((mem_tagsChildren h hT).mpr ⟨t, ht, rfl⟩)
  exact ⟨_, list_of_ne_nil hchildren, List.nodup_dedup _, fun c => mem_tagsChildren h hT⟩

theorem childPath_not_mem {t : String} (ht : '/' ∉ t.toList) : childPath (manifestTagsPath name) t ∉ ks.keys := by
  intro hmem
  have hpre : (dirPrefix (manifestTagsPath name)).isPrefixOf (childPath (manifestTagsPath name) t).toList = true := by
    rw [dirPrefix_manifestTagsPath h, childPath_toList, List.isPrefixOf_iff_prefix]
    exact ⟨t.toList, by simp⟩
  obtain ⟨t', -, hdir⟩ := hT.below _ hmem hpre
  exact not_inTagDir_childPath ht hdir

theorem stat_tagDir {t : String} (ht : t ∈ T) :
    ks.stat (childPath (manifestTagsPath name) t) = .ok ⟨childPath (manifestTagsPath name) t, true⟩ := by
  obtain ⟨key, hkey, rest, hrest⟩ := hT.present t ht
  refine stat_of_dir (childPath_not_mem h hT (hT.noSlash ht)) hkey ?_
  rw [dirPrefix_childPath (manifestTagsPath_ne_empty h), hrest, List.isPrefixOf_iff_prefix]
  exact ⟨rest, by simp⟩

theorem list_tagDir {last : String} (hlast : '/' ∉ last.toList) :
    ks.list (childPath (manifestTagsPath name) last) =
        .error (.pathNotFound (childPath (manifestTagsPath name) last)) ∨
      ∃ cs, ks.list (childPath (manifestTagsPath name) last) = .ok cs ∧
        ∀ c ∈ cs, ∃ x, c.toList = (manifestTagsPath name).toList ++ '/' :: (last.toList ++ '/' :: x) := by
  by_cases hnil : (ks.keys.filterMap (childToward (childPath (manifestTagsPath name) last))).dedup = []
  · have hroot : childPath (manifestTagsPath name) last ≠ "/" := by
      intro heq
      have hchars := congrArg String.toList heq
      rw [childPath_toList, manifestTagsPath_eq h, String.toList_ofList] at hchars
      simp [rooted] at hchars
    exact .inl (list_of_nil hnil hroot (childPath_not_mem h hT hlast))
  · refine .inr ⟨_, list_of_ne_nil hnil, fun c hc => ?_⟩
    obtain ⟨key, -, hkey⟩ := mem_list_children.mp hc
    obtain ⟨-, x, hx⟩ := childToward_eq_some hkey
    exact ⟨x, by rw [hx, dirPrefix_childPath (manifestTagsPath_ne_empty h)]; simp⟩

/-- The loop of `doWalkFallback` over the sorted tag directories `ts`, for a hint
and a `last` that keep exactly the tags after `last`: the tags after `last` are
appended to those already found, up to `limit` of them. -/
theorem walkChildren_tags {last hint : String} {limit : ℤ} (descend : String → List String × Bool →
      (List String × Bool) × Except Error Bool) {ts : List String} (hts : ∀ t ∈ ts, t ∈ T)
    (hkeep : ∀ t ∈ ts, (¬childPath (manifestTagsPath name) t ≤ hint ∧ lessPath last t = true) ↔ last < t) :
    ∀ acc : List String, ¬(0 < limit ∧ limit ≤ acc.length) →
      walkChildren ks.driver (listWalkFn (manifestTagsPath name) last limit) descend hint
          (ts.map (childPath (manifestTagsPath name))) (acc, false) =
        if 0 < limit ∧ limit ≤ (acc ++ ts.filter fun t => decide (last < t)).length then
          (((acc ++ ts.filter fun t => decide (last < t)).take limit.toNat, true), .ok false)
        else ((acc ++ ts.filter fun t => decide (last < t), false), .ok true) := by
  induction ts with
  | nil =>
    intro acc hacc
    simp [walkChildren_nil, hacc]
  | cons t ts ih =>
    intro acc hacc
    have htT := hts t (List.mem_cons_self ..)
    have hstat : ks.driver.stat (childPath (manifestTagsPath name) t) = _ := stat_tagDir h hT htT
    have ih' := ih (fun t' ht' => hts t' (List.mem_cons_of_mem _ ht'))
      (fun t' ht' => hkeep t' (List.mem_cons_of_mem _ ht'))
    have hwalk := @listWalkFn_childPath (manifestTagsPath name) t last limit (hT.noSlash htT) acc true
    rw [List.map_cons]
    by_cases hlt : last < t
    · obtain ⟨hle, hless⟩ := (hkeep t (List.mem_cons_self ..)).mpr hlt
      rw [if_pos hless] at hwalk
      have hfilter : (t :: ts).filter (fun t => decide (last < t)) = t :: ts.filter fun t => decide (last < t) :=
        List.filter_cons_of_pos (by simpa using hlt)
      rw [hfilter]
      by_cases hfill : 0 < limit ∧ ((acc.length + 1 : ℕ) : ℤ) = limit
      · rw [if_pos hfill] at hwalk
        rw [walkChildren_cons_filledBuffer hle hstat hwalk]
        have hn : limit.toNat = acc.length + 1 := by omega
        have hcond : 0 < limit ∧ limit ≤ (acc ++ t :: ts.filter fun t => decide (last < t)).length := by
          simp only [List.length_append, List.length_cons]
          push_cast at hfill ⊢
          omega
        rw [if_pos hcond, hn, List.take_length_add_append]
        simp
      · rw [if_neg hfill] at hwalk
        have hacc' : ¬(0 < limit ∧ limit ≤ (acc ++ [t]).length) := by
          simp only [List.length_append, List.length_singleton]
          push_cast at hfill ⊢
          omega
        rw [walkChildren_cons_skipDir hle hstat hwalk, ih' (acc ++ [t]) hacc']
        simp
    · have hfilter : (t :: ts).filter (fun t => decide (last < t)) = ts.filter fun t => decide (last < t) :=
        List.filter_cons_of_neg (by simpa using hlt)
      rw [hfilter, ← ih' acc hacc]
      by_cases hle : childPath (manifestTagsPath name) t ≤ hint
      · exact walkChildren_cons_of_le hle
      · have hless : lessPath last t = false := by
          by_contra hcon
          exact hlt ((hkeep t (List.mem_cons_self ..)).mp ⟨hle, by simpa using hcon⟩)
        rw [if_neg (by simp [hless])] at hwalk
        exact walkChildren_cons_skipDir hle hstat hwalk

theorem doWalkFallback_tagsPath (hne : T.Nonempty) {last hint : String} (limit : ℤ)
    (hkeep : ∀ t ∈ T, (¬childPath (manifestTagsPath name) t ≤ hint ∧ lessPath last t = true) ↔ last < t) :
    doWalkFallback ks.driver (listWalkFn (manifestTagsPath name) last limit) ks.fuel (manifestTagsPath name) hint
        ([], false) =
      if 0 < limit ∧ limit ≤ (T.sort.filter fun t => decide (last < t)).length then
        (((T.sort.filter fun t => decide (last < t)).take limit.toNat, true), .ok false)
      else ((T.sort.filter fun t => decide (last < t), false), .ok true) := by
  obtain ⟨cs, hlist, hnodup, hmem⟩ := list_tagsPath h hT hne
  rw [fuel, doWalkFallback_of_list_ok hlist, sortStrings_tagsChildren hnodup hmem,
    walkChildren_tags h hT _ (fun t ht => (Finset.mem_sort _).mp ht)
      (fun t ht => hkeep t ((Finset.mem_sort _).mp ht)) [] (by simp)]
  simp

theorem doWalkFallback_tagDir {last hint : String} (hlast : '/' ∉ last.toList) (limit : ℤ) (fuel : ℕ)
    (st : List String × Bool) :
    ClimbOn (doWalkFallback ks.driver (listWalkFn (manifestTagsPath name) last limit) (fuel + 1)
      (childPath (manifestTagsPath name) last) hint st).2 ∧
    (doWalkFallback ks.driver (listWalkFn (manifestTagsPath name) last limit) (fuel + 1)
      (childPath (manifestTagsPath name) last) hint st).1 = st := by
  rcases list_tagDir h hT hlast with hlist | ⟨cs, hlist, hbelow⟩
  · rw [doWalkFallback_of_list_error hlist]
    exact ⟨.inr ⟨_, rfl⟩, rfl⟩
  · have hskip : walkChildren ks.driver (listWalkFn (manifestTagsPath name) last limit)
        (fun child => doWalkFallback ks.driver (listWalkFn (manifestTagsPath name) last limit) fuel child hint)
        hint (sortStrings cs) st = (st, .ok true) := by
      refine walkChildren_of_skip fun c hc => ?_
      obtain ⟨x, hx⟩ := hbelow c ((List.perm_insertionSort _ cs).mem_iff.mp hc)
      rcases stat_cases ks c with ⟨isDir, hstat⟩ | hstat
      · exact .inr (.inr ⟨_, hstat, handleTag_below hx isDir last _ st⟩)
      · exact .inr (.inl ⟨_, hstat⟩)
    rw [doWalkFallback_of_list_ok hlist, hskip]
    exact ⟨.inl ⟨true, rfl⟩, rfl⟩

theorem all_tagTree (hne : T.Nonempty) : all name ks.driver = .ok T.sort := by
  obtain ⟨cs, hlist, hnodup, hmem⟩ := list_tagsPath h hT hne
  have hname : ∀ c ∈ cs, ∃ t ∈ T, c = childPath (manifestTagsPath name) t ∧ (split c).2 = t := by
    intro c hc
    obtain ⟨t, ht, rfl⟩ := (hmem c).mp hc
    exact ⟨t, ht, rfl, by rw [split_childPath _ (hT.noSlash ht)]⟩
  have hnodup' : (cs.map fun entry => (split entry).2).Nodup := by
    refine hnodup.map_on fun x hx y hy hxy => ?_
    obtain ⟨t, -, rfl, hxt⟩ := hname x hx
    obtain ⟨t', -, rfl, hyt⟩ := hname y hy
    rw [← hxt, ← hyt, hxy]
  have hsorted : sortStrings (cs.map fun entry => (split entry).2) = T.sort := by
    refine ListOrder.insertionSort_eq_of_mem_iff hnodup' (Finset.sortedLT_sort T) fun t => ?_
    simp only [List.mem_map, Finset.mem_sort]
    constructor
    · rintro ⟨c, hc, rfl⟩
      obtain ⟨t, ht, -, hct⟩ := hname c hc
      exact hct ▸ ht
    · intro ht
      exact ⟨_, (hmem _).mpr ⟨t, ht, rfl⟩, split_childPath _ (hT.noSlash ht) ▸ rfl⟩
  simp only [all, show ks.driver.list (manifestTagsPath name) = .ok cs from hlist, hsorted]

theorem list_empty_last (hne : T.Nonempty) {limit : ℤ} (hlimit : limit ≠ 0) :
    list name ks.walk limit "" = page (T.sort.filter fun t => decide ("" < t)) limit := by
  have hout := hintOutside_empty (manifestTagsPath_head h)
  have hlt : replaceAll "" '/' '\x00' < replaceAll (manifestTagsPath name) '/' '\x00' := by
    rw [String.lt_iff_toList_lt, replaceAll, replaceAll, String.toList_ofList, String.toList_ofList]
    obtain ⟨c, cs, hcs⟩ := List.exists_cons_of_ne_nil (String.toList_eq_nil_iff.not.mpr (manifestTagsPath_ne_empty h))
    simp [hcs, List.nil_lt_cons]
  have hkeep : ∀ t ∈ T, (¬childPath (manifestTagsPath name) t ≤ "" ∧ lessPath "" t = true) ↔ "" < t := by
    intro t ht
    have hnonempty := (validTag_plain (hT.valid t ht)).1
    have hpos : "" < t := by
      rw [String.lt_iff_toList_lt]
      obtain ⟨c, cs, hcs⟩ := List.exists_cons_of_ne_nil hnonempty
      simp [hcs, List.nil_lt_cons]
    have hchild : ¬childPath (manifestTagsPath name) t ≤ "" := by
      rw [String.le_iff_toList_le, childPath_toList, not_le]
      generalize (manifestTagsPath name).toList = r
      cases r <;> exact List.nil_lt_cons _ _
    have hless : lessPath "" t = true := by
      rw [lessPath_iff, String.lt_iff_toList_lt, replaceAll, replaceAll, String.toList_ofList, String.toList_ofList]
      obtain ⟨c, cs, hcs⟩ := List.exists_cons_of_ne_nil hnonempty
      simp [hcs, List.nil_lt_cons]
    exact iff_of_true ⟨hchild, hless⟩ hpos
  simp only [list, hlimit, if_false, if_true, walk]
  rw [WalkFallback_of_before hout hlt, doWalkFallback_tagsPath h hT hne limit hkeep]
  unfold page
  split_ifs <;> rfl

theorem list_tag_last (hne : T.Nonempty) {limit : ℤ} (hlimit : limit ≠ 0) {last : String}
    (hlast : validTag last = true) :
    list name ks.walk limit last = page (T.sort.filter fun t => decide (last < t)) limit := by
  have hplain := validTag_plain hlast
  have hR := manifestTagsPath_eq h
  have hhint : manifestTagPath name last = childPath (manifestTagsPath name) last :=
    manifestTagPath_eq_childPath h hplain
  have hne_last : last ≠ "" := fun heq => hplain.1 (by simp [heq])
  have hin : hintOutside (manifestTagsPath name) (childPath (manifestTagsPath name) last) = false := by
    obtain ⟨c, cs, hcs, hc⟩ := validTag_head hlast
    have := hintOutside_child (tagsElements_ne_nil name) (tagsElements_plain h) hplain (by simp [hcs, hc])
    rwa [← hR, ← manifestTagPath_eq h hplain, hhint] at this
  have hpre : hasPrefix (childPath (manifestTagsPath name) last) (manifestTagsPath name) = true := by
    have := hasPrefix_append (manifestTagsPath name).toList ('/' :: last.toList)
    rwa [String.ofList_toList] at this
  have hpre_root : hasPrefix (manifestTagsPath name) (manifestTagsPath name) = true := by
    simp [hasPrefix]
  have hbase : childPath (manifestTagsPath name) last ≠ manifestTagsPath name := by
    intro heq
    have := congrArg (fun p : String => p.toList.length) heq
    simp [childPath_toList] at this
  have hparent : (if (split (childPath (manifestTagsPath name) last)).1.toList.length > 1 then
      trimSuffix (split (childPath (manifestTagsPath name) last)).1 "/"
    else (split (childPath (manifestTagsPath name) last)).1) = manifestTagsPath name := by
    obtain ⟨c, cs, hcs⟩ := List.exists_cons_of_ne_nil (String.toList_eq_nil_iff.not.mpr (manifestTagsPath_ne_empty h))
    rw [split_childPath _ hplain.2.1, if_pos (by simp [hcs]), trimSuffix_slash, String.ofList_toList]
  have hkeep : ∀ t ∈ T, (¬childPath (manifestTagsPath name) t ≤ childPath (manifestTagsPath name) last ∧
      lessPath last t = true) ↔ last < t := by
    intro t ht
    have hless := lessPath_of_noSlash hplain.2.1 (hT.noSlash ht)
    rw [(childPath_strictMono _).le_iff_le, not_le, hless, and_self]
  obtain ⟨k, hk⟩ : ∃ k, (childPath (manifestTagsPath name) last).toList.length = k + 1 :=
    ⟨(manifestTagsPath name).toList.length + last.toList.length, by simp [childPath_toList]; omega⟩
  obtain ⟨hon, hstate⟩ : ClimbOn (doWalkFallback ks.driver (listWalkFn (manifestTagsPath name) last limit) ks.fuel
        (childPath (manifestTagsPath name) last) (childPath (manifestTagsPath name) last) ([], false)).2 ∧
      (doWalkFallback ks.driver (listWalkFn (manifestTagsPath name) last limit) ks.fuel
        (childPath (manifestTagsPath name) last) (childPath (manifestTagsPath name) last) ([], false)).1 =
        ([], false) :=
    doWalkFallback_tagDir h hT hplain.2.1 limit _ _
  have hroot := doWalkFallback_tagsPath h hT hne limit hkeep
  have hon_root : ClimbOn (doWalkFallback ks.driver (listWalkFn (manifestTagsPath name) last limit) ks.fuel
      (manifestTagsPath name) (childPath (manifestTagsPath name) last) ([], false)).2 := by
    rw [hroot]
    split_ifs
    · exact .inl ⟨false, rfl⟩
    · exact .inl ⟨true, rfl⟩
  simp only [list, hlimit, if_false, hne_last, hhint, walk]
  rw [WalkFallback_of_inside hin, hk, climb_succ_of_ne hpre Prod.mk.eta.symm hon hbase, hstate, hparent,
    climb_succ_of_eq hpre_root Prod.mk.eta.symm hon_root rfl, hroot]
  unfold page
  split_ifs <;> rfl

theorem list_tagTree (hne : T.Nonempty) {limit : ℤ} (hlimit : limit ≠ 0) {last : String}
    (hlast : last = "" ∨ validTag last = true) :
    list name ks.walk limit last = page (T.sort.filter fun t => decide (last < t)) limit := by
  rcases hlast with rfl | hlast
  · exact list_empty_last h hT hne hlimit
  · exact list_tag_last h hT hne hlimit hlast

/-- A client that pages `n` tags at a time from after `last` receives the sorted
tags after `last`, then `io.EOF`, when it may make more calls than there are tags
left. -/
theorem listPages_tagTree (hne : T.Nonempty) {n : ℕ} (hn : 0 < n) :
    ∀ calls last, (last = "" ∨ last ∈ T) → (T.sort.filter fun t => decide (last < t)).length < calls →
      listPages name ks.walk n calls last = (T.sort.filter fun t => decide (last < t), some .eof) := by
  intro calls
  induction calls with
  | zero =>
    intro last _ hlen
    omega
  | succ calls ih =>
    intro last hlast hlen
    have hpage : list name ks.walk n last = page (T.sort.filter fun t => decide (last < t)) n :=
      list_tagTree h hT hne (by omega) (hlast.imp_right (hT.valid last))
    by_cases hfull : n ≤ (T.sort.filter fun t => decide (last < t)).length
    · have hpage' : list name ks.walk n last = ((T.sort.filter fun t => decide (last < t)).take n, none) := by
        rw [hpage, page, if_pos ⟨by omega, by omega⟩]
        simp
      have hnext := ListOrder.getLastD_take hn hfull last
      have hmem : (T.sort.filter fun t => decide (last < t))[n - 1] ∈ T :=
        (Finset.mem_sort _).mp (List.mem_filter.mp (List.getElem_mem (by omega))).1
      have hrest : (T.sort.filter fun t => decide ((T.sort.filter fun t => decide (last < t))[n - 1] < t)) =
          (T.sort.filter fun t => decide (last < t)).drop n := by
        have := ListOrder.filter_gt_getElem_filter (Finset.sortedLT_sort T) last (k := n - 1) (by omega)
        rwa [Nat.sub_add_cancel hn] at this
      have hcalls : (T.sort.filter fun t => decide ((T.sort.filter fun t => decide (last < t))[n - 1] < t)).length <
          calls := by
        rw [hrest, List.length_drop]
        omega
      simp only [listPages, hpage', hnext]
      rw [ih _ (.inr hmem) hcalls, hrest, List.take_append_drop]
    · have hpage' : list name ks.walk n last = (T.sort.filter fun t => decide (last < t), some .eof) := by
        rw [hpage, page, if_neg (by omega)]
      simp [listPages, hpage']

omit h in
theorem filter_empty_lt : (T.sort.filter fun t => decide ("" < t)) = T.sort := by
  refine List.filter_eq_self.mpr fun t ht => ?_
  have hnonempty := (validTag_plain (hT.valid t ((Finset.mem_sort _).mp ht))).1
  obtain ⟨c, cs, hcs⟩ := List.exists_cons_of_ne_nil hnonempty
  rw [decide_eq_true_iff, String.lt_iff_toList_lt, hcs]
  exact List.nil_lt_cons _ _

end TagTree

/-- Tag listing over the tags of a repository, built by `Tag` and `Untag` calls
with valid tag names from a store with no tags: `All` is the sorted tag set;
`List(-1, last)`, after no tag or after a valid tag, is the sorted tags after
`last` and `io.EOF`; and a client paging `n ≥ 1` tags at a time from `""`
receives exactly the sorted tag set, then `io.EOF`. The tag set must not be
empty, for then the tags directory does not exist. -/
theorem listing_exact {name : String} (hname : PlainName name) {ks : KeyStore}
    (hempty : ∀ key ∈ ks.keys, (dirPrefix (manifestTagsPath name)).isPrefixOf key.toList = false)
    {ops : List TagOp} (hops : ∀ op ∈ ops, validTag op.tagName = true) (hne : (TagOp.applyAll ops ∅).Nonempty) :
    all name (runOps name ops ks).driver = .ok (TagOp.applyAll ops ∅).sort ∧
      (∀ last, (last = "" ∨ validTag last = true) →
        list name (runOps name ops ks).walk (-1) last =
          ((TagOp.applyAll ops ∅).sort.filter fun t => decide (last < t), some .eof)) ∧
      ∀ n calls : ℕ, 0 < n → (TagOp.applyAll ops ∅).card < calls →
        listPages name (runOps name ops ks).walk n calls "" = ((TagOp.applyAll ops ∅).sort, some .eof) := by
  have hT := tagTree_runOps hname hops (tagTree_empty hempty)
  refine ⟨all_tagTree hname hT hne, fun last hlast => ?_, fun n calls hn hcalls => ?_⟩
  · rw [list_tagTree hname hT hne (by decide) hlast, page, if_neg (by omega)]
  · have hlen : ((TagOp.applyAll ops ∅).sort.filter fun t => decide ("" < t)).length < calls := by
      rw [filter_empty_lt hT, Finset.length_sort]
      exact hcalls
    rw [listPages_tagTree hname hT hne hn calls "" (.inl rfl) hlen, filter_empty_lt hT]

def zeroDigest : Descriptor :=
  { digest := "sha256:0000000000000000000000000000000000000000000000000000000000000000" }

/-- Three tags, one of them untagged again. -/
theorem listing_exact_tagged :
    let ops : List TagOp := [.tag "latest" zeroDigest, .tag "v1" zeroDigest, .tag "v2" zeroDigest, .untag "v1"]
    all "library/ubuntu" (runOps "library/ubuntu" ops ⟨[]⟩).driver = .ok (TagOp.applyAll ops ∅).sort ∧
      (∀ last, (last = "" ∨ validTag last = true) →
        list "library/ubuntu" (runOps "library/ubuntu" ops ⟨[]⟩).walk (-1) last =
          ((TagOp.applyAll ops ∅).sort.filter fun t => decide (last < t), some .eof)) ∧
      ∀ n calls : ℕ, 0 < n → (TagOp.applyAll ops ∅).card < calls →
        listPages "library/ubuntu" (runOps "library/ubuntu" ops ⟨[]⟩).walk n calls "" =
          ((TagOp.applyAll ops ∅).sort, some .eof) := by
  intro ops
  have hname : PlainName "library/ubuntu" := by decide
  have hops : ∀ op ∈ ops, validTag op.tagName = true := List.all_eq_true.mp (by decide)
  have hne : (TagOp.applyAll ops ∅).Nonempty := by decide
  exact @listing_exact "library/ubuntu" hname ⟨[]⟩ (by simp) ops hops hne

/-- `List(-1, "a/b")` returns the tag `a-x`, which comes before `a/b`: `lessPath`
compares the slash of `last` as `\x00`. -/
theorem list_after_slash :
    list "r" (runOps "r" [.tag "a-x" zeroDigest] ⟨[]⟩).walk (-1) "a/b" = (["a-x"], some .eof) ∧ "a-x" < "a/b" := by
  have hstore : runOps "r" [.tag "a-x" zeroDigest] ⟨[]⟩ =
      ⟨["/docker/registry/v2/repositories/r/_manifests/tags/a-x/index/sha256/" ++
          "0000000000000000000000000000000000000000000000000000000000000000/link",
        "/docker/registry/v2/repositories/r/_manifests/tags/a-x/current/link"]⟩ := by
    decide +kernel
  rw [hstore]
  exact ⟨by decide +kernel, by decide⟩

end TagStore

end DockerRegistry.Storage
