import Mathlib.Data.List.Sort
import Mathlib.Data.String.Basic

/-!
# Sorted lists and the lexicographic order

Facts about the lexicographic order of lists and strings that share a prefix,
and of lists of lists joined by a separator below all their elements, and about
strictly sorted lists: sorting a list without duplicates gives the
one strictly sorted list of its members, and the part of a sorted list after
one of its members is a suffix of it.
-/

namespace ListOrder

variable {α : Type} [LinearOrder α]

theorem append_lt_append_left_iff (l a b : List α) : l ++ a < l ++ b ↔ a < b := by
  induction l with
  | nil => rfl
  | cons x l ih => simp [ih]

theorem append_lt_append_of_lt {x y t₁ t₂ : List α} {z : α} (hxy : x < y) (hy : ∀ c ∈ y, z < c)
    (ht : t₁ = [] ∨ ∃ r, t₁ = z :: r) : x ++ t₁ < y ++ t₂ := by
  induction x generalizing y with
  | nil =>
    cases y with
    | nil => exact absurd hxy (List.not_lt_nil _)
    | cons c w =>
      rcases ht with rfl | ⟨r, rfl⟩
      · exact List.nil_lt_cons _ _
      · exact List.cons_lt_cons_iff.mpr (.inl (hy c (List.mem_cons_self ..)))
  | cons a x ih =>
    cases y with
    | nil => exact absurd hxy (List.not_lt_nil _)
    | cons b y =>
      rcases List.cons_lt_cons_iff.mp hxy with hab | ⟨rfl, hxy'⟩
      · exact List.cons_lt_cons_iff.mpr (.inl hab)
      · exact List.cons_lt_cons_iff.mpr (.inr ⟨rfl, ih hxy' fun c hc => hy c (List.mem_cons_of_mem _ hc)⟩)

theorem intercalate_cons_singleton {β : Type} (z : β) (l : List β) (ls : List (List β)) :
    [z].intercalate (l :: ls) = l ++ if ls = [] then [] else z :: [z].intercalate ls := by
  cases ls with
  | nil => simp
  | cons l' ls' => simp [List.intercalate_cons_cons]

omit [LinearOrder α] in
/-- A bounded `∀` over a list checked by `List.all`. With Batteries in scope, the
instance `decide` finds first for `∀ c ∈ l, p c` over characters ranges over every
`Char`; this form keeps the check to the list. -/
theorem forall_mem_of_all {p : α → Prop} [DecidablePred p] {l : List α}
    (h : (l.all fun a => decide (p a)) = true) : ∀ a ∈ l, p a :=
  fun a ha => of_decide_eq_true (List.all_eq_true.mp h a ha)

omit [LinearOrder α] in
theorem forall_mem_intercalate {P : α → Prop} {sep : List α} {L : List (List α)} (hsep : ∀ c ∈ sep, P c)
    (hL : ∀ l ∈ L, ∀ c ∈ l, P c) : ∀ c ∈ sep.intercalate L, P c := by
  induction L with
  | nil => simp
  | cons l L ih =>
    have hl : ∀ c ∈ l, P c := hL l (List.mem_cons_self ..)
    have ih' := ih fun l' hl' => hL l' (List.mem_cons_of_mem _ hl')
    cases L with
    | nil => simpa using hl
    | cons l' L' =>
      rw [List.intercalate_cons_cons]
      intro c hc
      rcases List.mem_append.mp hc with hc | hc
      · rcases List.mem_append.mp hc with hc | hc
        · exact hl c hc
        · exact hsep c hc
      · exact ih' c hc

theorem intercalate_lt_intercalate_iff {z : α} {L₁ L₂ : List (List α)} (h₁ : L₁ ≠ []) (h₂ : L₂ ≠ [])
    (hz₁ : ∀ l ∈ L₁, ∀ c ∈ l, z < c) (hz₂ : ∀ l ∈ L₂, ∀ c ∈ l, z < c) :
    [z].intercalate L₁ < [z].intercalate L₂ ↔ L₁ < L₂ := by
  induction L₁ generalizing L₂ with
  | nil => exact absurd rfl h₁
  | cons p ps ih =>
    cases L₂ with
    | nil => exact absurd rfl h₂
    | cons q qs =>
      have hsep : ∀ ls : List (List α), (if ls = [] then [] else z :: [z].intercalate ls) = [] ∨
          ∃ r, (if ls = [] then [] else z :: [z].intercalate ls) = z :: r := by
        intro ls
        split_ifs
        · exact .inl rfl
        · exact .inr ⟨_, rfl⟩
      rw [intercalate_cons_singleton, intercalate_cons_singleton]
      rcases lt_trichotomy p q with hpq | rfl | hqp
      · have hlt : p ++ (if ps = [] then [] else z :: [z].intercalate ps) <
            q ++ if qs = [] then [] else z :: [z].intercalate qs :=
          append_lt_append_of_lt hpq (hz₂ q (List.mem_cons_self ..)) (hsep ps)
        simp [hlt, List.cons_lt_cons_iff, hpq]
      · rw [append_lt_append_left_iff, List.cons_lt_cons_iff]
        simp only [lt_irrefl, true_and, false_or]
        cases ps with
        | nil => cases qs <;> simp [List.nil_lt_cons]
        | cons p' ps' =>
          cases qs with
          | nil => simp [List.not_lt_nil]
          | cons q' qs' =>
            simp only [reduceCtorEq, if_false]
            rw [List.cons_lt_cons_iff]
            simp only [lt_irrefl, true_and, false_or]
            exact ih (List.cons_ne_nil _ _) (List.cons_ne_nil _ _) (fun l hl => hz₁ l (List.mem_cons_of_mem _ hl))
              fun l hl => hz₂ l (List.mem_cons_of_mem _ hl)
      · have hlt : q ++ (if qs = [] then [] else z :: [z].intercalate qs) <
            p ++ if ps = [] then [] else z :: [z].intercalate ps :=
          append_lt_append_of_lt hqp (hz₁ p (List.mem_cons_self ..)) (hsep qs)
        simp [lt_asymm hlt, List.cons_lt_cons_iff, hqp.ne', not_lt_of_gt hqp]

theorem ofList_append_lt_iff (p a b : List Char) :
    String.ofList (p ++ a) < String.ofList (p ++ b) ↔ a < b := by
  rw [String.lt_iff_toList_lt, String.toList_ofList, String.toList_ofList, append_lt_append_left_iff]

theorem insertionSort_eq_of_mem_iff {l m : List α} (hl : l.Nodup) (hm : m.SortedLT)
    (h : ∀ a, a ∈ l ↔ a ∈ m) : l.insertionSort (· ≤ ·) = m := by
  have hperm := List.perm_insertionSort (· ≤ ·) l
  have hsorted : (l.insertionSort (· ≤ ·)).SortedLT :=
    List.sortedLE_insertionSort.sortedLT_of_nodup (hperm.nodup_iff.mpr hl)
  refine hsorted.eq_of_mem_iff hm fun a => ?_
  rw [hperm.mem_iff, h]

theorem SortedLT.map {β : Type} [LinearOrder β] {l : List α} (hl : l.SortedLT) {f : α → β}
    (hf : StrictMono f) : (l.map f).SortedLT := by
  rw [List.sortedLT_iff_pairwise, List.pairwise_map]
  exact hl.pairwise.imp fun hab => hf hab

theorem filter_gt_getElem {l : List α} (hl : l.SortedLT) {k : ℕ} (hk : k < l.length) :
    l.filter (fun a => decide (l[k] < a)) = l.drop (k + 1) := by
  induction l generalizing k with
  | nil => simp at hk
  | cons x l ih =>
    have hpair := List.sortedLT_iff_pairwise.mp hl
    have htail : l.SortedLT := List.sortedLT_iff_pairwise.mpr (List.pairwise_cons.mp hpair).2
    cases k with
    | zero =>
      have hall : ∀ a ∈ l, x < a := (List.pairwise_cons.mp hpair).1
      simp [List.filter_eq_self.mpr (fun a ha => decide_eq_true (hall a ha))]
    | succ k =>
      have hk' : k < l.length := by simpa using hk
      have hxk : x < l[k] := (List.pairwise_cons.mp hpair).1 _ (List.getElem_mem hk')
      simp [not_lt_of_gt hxk, ih htail hk']

theorem filter_gt_getElem_filter {l : List α} (hl : l.SortedLT) (x : α) {k : ℕ}
    (hk : k < (l.filter fun a => decide (x < a)).length) :
    l.filter (fun a => decide ((l.filter fun a => decide (x < a))[k] < a)) =
      (l.filter fun a => decide (x < a)).drop (k + 1) := by
  have hA : (l.filter fun a => decide (x < a)).SortedLT :=
    List.sortedLT_iff_pairwise.mpr (hl.pairwise.filter _)
  have hxy : x < (l.filter fun a => decide (x < a))[k] := by
    simpa using (List.mem_filter.mp (List.getElem_mem hk)).2
  calc l.filter (fun a => decide ((l.filter fun a => decide (x < a))[k] < a))
      = (l.filter fun a => decide (x < a)).filter
          (fun a => decide ((l.filter fun a => decide (x < a))[k] < a)) := by
        rw [List.filter_filter]
        refine List.filter_congr fun a _ => ?_
        by_cases hya : (l.filter fun a => decide (x < a))[k] < a
        · simp [hya, lt_trans hxy hya]
        · simp [hya]
    _ = (l.filter fun a => decide (x < a)).drop (k + 1) := filter_gt_getElem hA hk

omit [LinearOrder α] in
theorem getLastD_take {l : List α} {n : ℕ} (hn : 0 < n) (h : n ≤ l.length) (d : α) :
    (l.take n).getLastD d = l[n - 1] := by
  rw [List.getLastD_eq_getLast?, List.getLast?_take, if_neg (by omega), List.getElem?_eq_getElem (by omega)]
  rfl

end ListOrder
