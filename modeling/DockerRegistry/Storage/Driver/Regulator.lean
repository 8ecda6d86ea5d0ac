import Mathlib.Tactic

/-!
# The regulator of a storage driver

`regulator` of `registry/storage/driver/base/regulator.go`: a driver wrapper
that lets at most `limit` calls into the driver at once. Each regulated method
does `enter`, the wrapped call and `exit`. `enter` takes the lock and waits on
the condition while `available` is 0, then takes a slot; `exit` takes the lock,
signals the condition and gives the slot back.

Goroutine `i` is at `pcs[i]`. Every step below is one critical section of
`r.L`, so that sections of different goroutines do not overlap; the wrapped
call touches nothing of the regulator. `sync.Cond` keeps its waiters in the
order they waited (`notify`), and `Signal` wakes the oldest; the woken
goroutine takes the lock again in `Wait` before it looks at `available`, so
another goroutine may take the slot first.

Every reachable state is `Good`: the slots are `limit` less the calls in
progress, and while a goroutine waits, each free slot is matched by a goroutine
that was signalled and has not yet taken the lock again. So at most `limit`
calls are in progress and no free slot is left while all waiters sleep
(`regulator_slots_and_wakeups`); and while a goroutine is blocked, another can
move (`regulator_progress`).
-/

namespace DockerRegistry.Storage.Driver.Base

/-- Where a goroutine is in a regulated call. -/
inductive Pc where
  /-- not in a regulated call -/
  | idle
  /-- in `enter`'s `r.Wait()`, not signalled -/
  | waiting
  /-- signalled: `r.Wait()` has still to take the lock and return -/
  | woken
  /-- between `enter` and `exit`: the wrapped call -/
  | inCall
  deriving DecidableEq, Repr

/-- The regulator's `available` and its condition's waiters, oldest first, and
where each goroutine is. -/
structure Regulator where
  available : ℕ
  pcs : List Pc
  notify : List ℕ
  deriving DecidableEq, Repr

def newRegulator (limit n : ℕ) : Regulator := ⟨limit, List.replicate n .idle, []⟩

namespace Regulator

/-- `enter` once it holds the lock, for goroutine `i` (coming in, or back from
`r.Wait()`): with no slot it waits, which releases the lock; else it takes a
slot. -/
def check (s : Regulator) (i : ℕ) : Regulator :=
  if s.available = 0 then { s with pcs := s.pcs.set i .waiting, notify := s.notify ++ [i] }
  else { s with available := s.available - 1, pcs := s.pcs.set i .inCall }

def signal (s : Regulator) : Regulator :=
  match s.notify with
  | [] => s
  | j :: rest => { s with pcs := s.pcs.set j .woken, notify := rest }

/-- `exit` of goroutine `i`: `r.Signal()`, then `available++` on a `uint64`. -/
def exit (s : Regulator) (i : ℕ) : Regulator :=
  { s.signal with available := (s.signal.available + 1) % 2 ^ 64, pcs := s.signal.pcs.set i .idle }

end Regulator

/-- The steps of the goroutines, in any interleaving: a goroutine calls a
regulated method, a signalled one returns from `r.Wait()` holding the lock, or
one whose wrapped call returned runs `exit`. -/
inductive Step : Regulator → Regulator → Prop
  | enter (s : Regulator) {i : ℕ} : s.pcs[i]? = some .idle → Step s (s.check i)
  | wake (s : Regulator) {i : ℕ} : s.pcs[i]? = some .woken → Step s (s.check i)
  | exit (s : Regulator) {i : ℕ} : s.pcs[i]? = some .inCall → Step s (s.exit i)

def Reachable (limit n : ℕ) (s : Regulator) : Prop := Relation.ReflTransGen Step (newRegulator limit n) s

def Regulator.count (s : Regulator) (p : Pc) : ℕ := s.pcs.count p

/-! ## Counting goroutines -/

section Count

variable {l : List Pc} {i : ℕ} {p : Pc}

theorem count_set_of_getElem? (h : l[i]? = some p) (q r : Pc) :
    (l.set i q).count r = l.count r - (if p = r then 1 else 0) + (if q = r then 1 else 0) := by
  obtain ⟨hi, hp⟩ := List.getElem?_eq_some_iff.mp h
  rw [List.count_set hi, hp]
  simp [beq_iff_eq]

theorem count_pos_of_getElem? (h : l[i]? = some p) : 0 < l.count p :=
  List.count_pos_iff.mpr (List.mem_of_getElem? h)

theorem getElem?_set_of_getElem? (h : l[i]? = some p) (q : Pc) (j : ℕ) :
    (l.set i q)[j]? = if i = j then some q else l[j]? := by
  rw [List.getElem?_set, if_pos (List.getElem?_eq_some_iff.mp h).1]

end Count

/-! ## What every run keeps -/

/-- What every reachable state satisfies: the free slots and the calls in
progress make `limit`; the condition's waiters are the goroutines in `Wait`, once
each; and while one waits, every free slot is matched by a signalled goroutine. -/
structure Good (limit : ℕ) (s : Regulator) : Prop where
  slots : s.available + s.count .inCall = limit
  notify_nodup : s.notify.Nodup
  mem_notify : ∀ j, j ∈ s.notify ↔ s.pcs[j]? = some .waiting
  signalled : s.notify ≠ [] → s.available ≤ s.count .woken

section Good

variable {limit : ℕ} {s : Regulator} {i : ℕ}

theorem newRegulator_good (limit n : ℕ) : Good limit (newRegulator limit n) := by
  refine ⟨by simp [newRegulator, Regulator.count, List.count_replicate], List.nodup_nil, fun j => ?_,
    fun h => absurd rfl h⟩
  simp only [newRegulator, List.not_mem_nil, false_iff]
  rw [List.getElem?_replicate]
  split_ifs <;> simp

theorem Good.check (h : Good limit s) {p : Pc} (hi : s.pcs[i]? = some p) (hp : p = .idle ∨ p = .woken) :
    Good limit (s.check i) := by
  have hnot : i ∉ s.notify := by
    rw [h.mem_notify, hi]
    rcases hp with rfl | rfl <;> simp
  have hcount := count_set_of_getElem? hi
  have hwoken := count_pos_of_getElem? hi
  unfold Regulator.check
  split_ifs with hav
  · refine ⟨?_, List.nodup_append.mpr ⟨h.notify_nodup, List.nodup_singleton i, ?_⟩, fun j => ?_, fun _ => ?_⟩
    · have := h.slots
      simp only [Regulator.count] at this ⊢
      rw [hcount]
      rcases hp with rfl | rfl <;> simp <;> omega
    · intro a ha b hb hab
      rw [List.mem_singleton] at hb
      subst hb hab
      exact hnot ha
    · rw [getElem?_set_of_getElem? hi, List.mem_append, List.mem_singleton, h.mem_notify]
      by_cases hij : i = j
      · subst hij
        simp [hi]
      · simp [hij, Ne.symm hij]
    · simp [hav]
  · refine ⟨?_, h.notify_nodup, fun j => ?_, fun hne => ?_⟩
    · have := h.slots
      simp only [Regulator.count] at this ⊢
      rw [hcount]
      rcases hp with rfl | rfl <;> simp <;> omega
    · rw [getElem?_set_of_getElem? hi, h.mem_notify]
      by_cases hij : i = j
      · subst hij
        simp [hi]
        rcases hp with rfl | rfl <;> simp
      · simp [hij]
    · have := h.signalled hne
      simp only [Regulator.count] at this hwoken ⊢
      rw [hcount]
      rcases hp with rfl | rfl <;> simp <;> omega

theorem Good.exit (h : Good limit s) (hlimit : limit < 2 ^ 64) (hi : s.pcs[i]? = some .inCall) :
    Good limit (s.exit i) := by
  have hcall := count_pos_of_getElem? hi
  have hwrap : (s.available + 1) % 2 ^ 64 = s.available + 1 := by
    have := h.slots
    simp only [Regulator.count] at this hcall
    exact Nat.mod_eq_of_lt (by omega)
  have hnot : i ∉ s.notify := by
    rw [h.mem_notify, hi]
    simp
  cases hq : s.notify with
  | nil =>
    have hsig : s.signal = s := by simp [Regulator.signal, hq]
    rw [Regulator.exit, hsig, hq]
    refine ⟨?_, List.nodup_nil, fun j => ?_, fun hne => absurd rfl hne⟩
    · have := h.slots
      simp only [Regulator.count] at this hcall ⊢
      rw [hwrap, count_set_of_getElem? hi]
      simp
      omega
    · rw [getElem?_set_of_getElem? hi]
      have := h.mem_notify j
      rw [hq] at this
      by_cases hij : i = j
      · simp [hij]
      · simpa [hij] using this
  | cons k rest =>
    have hk : s.pcs[k]? = some .waiting := (h.mem_notify k).mp (by simp [hq])
    have hki : k ≠ i := by
      rintro rfl
      exact hnot (by simp [hq])
    have hnodup := h.notify_nodup
    rw [hq, List.nodup_cons] at hnodup
    have hi' : (s.pcs.set k .woken)[i]? = some .inCall := by
      rw [List.getElem?_set_ne hki, hi]
    have hsig : s.signal = { s with pcs := s.pcs.set k .woken, notify := rest } := by
      simp [Regulator.signal, hq]
    rw [Regulator.exit, hsig]
    refine ⟨?_, hnodup.2, fun j => ?_, fun hne => ?_⟩
    · have := h.slots
      simp only [Regulator.count] at this hcall ⊢
      rw [hwrap, count_set_of_getElem? hi', count_set_of_getElem? hk]
      simp
      omega
    · rw [getElem?_set_of_getElem? hi', getElem?_set_of_getElem? hk]
      have := h.mem_notify j
      rw [hq, List.mem_cons] at this
      by_cases hij : i = j
      · subst hij
        rw [if_pos rfl]
        exact iff_of_false (fun hmem => hnot (by simp [hq, hmem])) (by simp)
      · by_cases hkj : k = j
        · subst hkj
          simp [hij, hnodup.1]
        · simp only [hij, hkj, if_false]
          rw [← this]
          simp [Ne.symm hkj]
    · have := h.signalled (by simp [hq])
      simp only [Regulator.count] at this ⊢
      rw [hwrap, count_set_of_getElem? hi', count_set_of_getElem? hk]
      simp
      omega

theorem Step.good (hlimit : limit < 2 ^ 64) {s' : Regulator} (hstep : Step s s') (h : Good limit s) :
    Good limit s' := by
  cases hstep with
  | enter hi => exact h.check hi (.inl rfl)
  | wake hi => exact h.check hi (.inr rfl)
  | exit hi => exact h.exit hlimit hi

theorem Reachable.good {n : ℕ} (hlimit : limit < 2 ^ 64) (hs : Reachable limit n s) : Good limit s := by
  induction hs with
  | refl => exact newRegulator_good limit n
  | tail _ hstep ih => exact hstep.good hlimit ih

end Good

/-! ## Slots and wake-ups -/

section Run

variable {limit n : ℕ} {s : Regulator}

theorem exists_of_count_pos {p : Pc} (h : 0 < s.count p) : ∃ j : ℕ, s.pcs[j]? = some p :=
  List.mem_iff_getElem?.mp (List.count_pos_iff.mp h)

theorem Good.notify_ne_nil (h : Good limit s) {j : ℕ} (hj : s.pcs[j]? = some .waiting) : s.notify ≠ [] :=
  List.ne_nil_of_mem ((h.mem_notify j).mpr hj)

theorem regulator_slots_and_wakeups (hlimit : limit < 2 ^ 64) (hs : Reachable limit n s) :
    s.available + s.count .inCall = limit ∧ s.count .inCall ≤ limit ∧
      (0 < s.available → (∃ j : ℕ, s.pcs[j]? = some .waiting ∨ s.pcs[j]? = some .woken) →
        ∃ j : ℕ, s.pcs[j]? = some .woken) := by
  have h := hs.good hlimit
  refine ⟨h.slots, by have := h.slots; omega, fun havail ⟨j, hj⟩ => ?_⟩
  rcases hj with hj | hj
  · exact exists_of_count_pos (lt_of_lt_of_le havail (h.signalled (h.notify_ne_nil hj)))
  · exact ⟨j, hj⟩

/-- Three goroutines and one slot: goroutine 0 holds the slot while 1 and 2
wait, then its `exit` signals 1. -/
theorem regulator_slots_and_wakeups_three :
    let s := ((((newRegulator 1 3).check 0).check 1).check 2).exit 0
    s = ⟨1, [.idle, .woken, .waiting], [2]⟩ ∧ Reachable 1 3 s ∧
      s.available + s.count .inCall = 1 ∧ s.count .inCall ≤ 1 ∧
      (0 < s.available → (∃ j : ℕ, s.pcs[j]? = some .waiting ∨ s.pcs[j]? = some .woken) →
        ∃ j : ℕ, s.pcs[j]? = some .woken) := by
  intro s
  have hs : Reachable 1 3 s :=
    (((Relation.ReflTransGen.refl.tail (Step.enter _ rfl)).tail (Step.enter _ rfl)).tail
      (Step.enter _ rfl)).tail (Step.exit _ rfl)
  exact ⟨rfl, hs, regulator_slots_and_wakeups (by norm_num) hs⟩

/-- While a goroutine is blocked in `Wait`, another goroutine can move: one was
signalled and can take the lock again, or one is in a call and will `exit`. -/
theorem regulator_progress (hlimit : limit < 2 ^ 64) (hpos : 0 < limit) (hs : Reachable limit n s) (j : ℕ)
    (hj : s.pcs[j]? = some .waiting) : ∃ k : ℕ, s.pcs[k]? = some .woken ∨ s.pcs[k]? = some .inCall := by
  have h := hs.good hlimit
  by_cases hwoken : 0 < s.count .woken
  · obtain ⟨k, hk⟩ := exists_of_count_pos hwoken
    exact ⟨k, .inl hk⟩
  · have havail : s.available = 0 := by
      have := h.signalled (h.notify_ne_nil hj)
      omega
    have hcall : 0 < s.count .inCall := by
      have := h.slots
      omega
    obtain ⟨k, hk⟩ := exists_of_count_pos hcall
    exact ⟨k, .inr hk⟩

/-- With one slot, goroutine 1 waits while goroutine 0 is in its call. -/
theorem regulator_progress_two :
    let s := ((newRegulator 1 2).check 0).check 1
    Reachable 1 2 s ∧ s.pcs[1]? = some .waiting ∧ ∃ k : ℕ, s.pcs[k]? = some .woken ∨ s.pcs[k]? = some .inCall := by
  intro s
  have hs : Reachable 1 2 s := (Relation.ReflTransGen.refl.tail (Step.enter _ rfl)).tail (Step.enter _ rfl)
  exact ⟨hs, rfl, regulator_progress (by norm_num) (by norm_num) hs 1 rfl⟩

end Run

end DockerRegistry.Storage.Driver.Base
