import Mathlib.Logic.Relation
import Mathlib.Tactic

/-!
# The TTL expiration scheduler

`TTLExpirationScheduler` of `registry/proxy/scheduler/scheduler.go`. Every
method takes the scheduler's mutex for its whole body, so each is one atomic
step here. A timer of `time.AfterFunc` lives outside the mutex: once its
deadline has passed the runtime fires it, which starts its function in a
goroutine of its own, and that function then waits for the mutex. `Stop` takes
back an armed timer and does nothing to a fired one.

The state carries the timers in the order they were made, a timer's entry
naming its index, and the calls of the expiry functions with the clock at each
call. The clock is `time.Now()` in nanoseconds.

The entries map follows the keys' most recent adds, but the function of a timer
that fired before its entry was replaced still runs: it calls the expiry
function on the key and deletes whatever entry the key now has.
-/

namespace DockerRegistry.Proxy.Scheduler

/-- `entryTypeBlob` and `entryTypeManifest`. -/
inductive EntryType
  | blob
  | manifest
  deriving DecidableEq, Repr

/-- `schedulerEntry`; `timer` is the index of the entry's timer. -/
structure SchedulerEntry where
  key : String
  expiry : ℤ
  entryType : EntryType
  timer : ℕ
  deriving DecidableEq, Repr

/-- Where a timer of `time.AfterFunc` stands. -/
inductive TimerState
  /-- waiting for its deadline -/
  | armed
  /-- taken back by `Stop` before it fired -/
  | stopped
  /-- fired: its function has started and waits for the mutex -/
  | fired
  /-- its function has run -/
  | done
  deriving DecidableEq, Repr

/-- A timer made by `startTimer`, with the entry its function was made for. -/
structure Timer where
  entry : SchedulerEntry
  deadline : ℤ
  state : TimerState
  deriving DecidableEq, Repr

def Timer.stop (t : Timer) : Timer := if t.state = .armed then { t with state := .stopped } else t

/-- The fields of `TTLExpirationScheduler` that its methods change, the clock, the
timers made so far and the calls of `onBlobExpire` and `onManifestExpire`. -/
structure TTLExpirationScheduler where
  now : ℤ
  entries : String → Option SchedulerEntry
  timers : List Timer
  stopped : Bool
  indexDirty : Bool
  expired : List (SchedulerEntry × ℤ)

def new (now : ℤ) : TTLExpirationScheduler := ⟨now, fun _ => none, [], true, false, []⟩

section Operations

variable (s : TTLExpirationScheduler)

/-- `Start` with no saved state file, whose entries are then those of `New`. -/
def start : TTLExpirationScheduler × Option String :=
  if s.stopped then ({ s with stopped := false }, none) else (s, some "scheduler already started")

/-- `add`: the entry replaces the key's entry, whose timer is stopped, and a timer
is started for it. -/
def add (key : String) (ttl : ℤ) (eType : EntryType) : TTLExpirationScheduler :=
  let entry : SchedulerEntry := ⟨key, s.now + ttl, eType, s.timers.length⟩
  let timers := match s.entries key with
    | some oldEntry => s.timers.modify oldEntry.timer Timer.stop
    | none => s.timers
  { s with
    entries := Function.update s.entries key (some entry)
    timers := timers ++ [⟨entry, s.now + ttl, .armed⟩]
    indexDirty := true }

def addOfType (eType : EntryType) (key : String) (ttl : ℤ) : TTLExpirationScheduler × Option String :=
  if s.stopped then (s, some "scheduler not started") else (add s key ttl eType, none)

def addBlob (key : String) (ttl : ℤ) : TTLExpirationScheduler × Option String := addOfType s .blob key ttl

def addManifest (key : String) (ttl : ℤ) : TTLExpirationScheduler × Option String :=
  addOfType s .manifest key ttl

/-- The function `startTimer` hands to `time.AfterFunc`, once it holds the mutex:
the expiry function of its entry's type is called on its entry's key, and the
key is deleted from the entries. -/
def timerFunc (i : ℕ) : TTLExpirationScheduler :=
  match s.timers[i]? with
  | none => s
  | some t =>
    { s with
      expired := s.expired ++ [(t.entry, s.now)]
      entries := Function.update s.entries t.entry.key none
      indexDirty := true
      timers := s.timers.modify i fun t => { t with state := .done } }

def fire (i : ℕ) : TTLExpirationScheduler := { s with timers := s.timers.modify i fun t => { t with state := .fired } }

def elapse (d : ℕ) : TTLExpirationScheduler := { s with now := s.now + d }

/-- One round of the save goroutine: a dirty index is written, and is clean once
`writeState` succeeds. -/
def saveState (ok : Bool) : TTLExpirationScheduler :=
  if s.indexDirty ∧ ok then { s with indexDirty := false } else s

def latest (key : String) : Option SchedulerEntry := ((s.timers.map (·.entry)).filter (·.key = key)).getLast?

end Operations

/-- The steps of a started scheduler and its timers, in any interleaving. -/
inductive Step : TTLExpirationScheduler → TTLExpirationScheduler → Prop
  | start (s : TTLExpirationScheduler) : Step s (start s).1
  | addBlob (s : TTLExpirationScheduler) (key : String) (ttl : ℤ) : Step s (addBlob s key ttl).1
  | addManifest (s : TTLExpirationScheduler) (key : String) (ttl : ℤ) : Step s (addManifest s key ttl).1
  | elapse (s : TTLExpirationScheduler) (d : ℕ) : Step s (elapse s d)
  | fire (s : TTLExpirationScheduler) {i : ℕ} {t : Timer} :
      s.timers[i]? = some t → t.state = .armed → t.deadline ≤ s.now → Step s (fire s i)
  | timerFunc (s : TTLExpirationScheduler) {i : ℕ} {t : Timer} :
      s.timers[i]? = some t → t.state = .fired → Step s (timerFunc s i)
  | saveState (s : TTLExpirationScheduler) (ok : Bool) : Step s (saveState s ok)

def Reachable (s : TTLExpirationScheduler) : Prop := ∃ now, Relation.ReflTransGen Step (new now) s

/-! ## What every run keeps -/

/-- What every reachable state satisfies: each timer's entry names the timer and
expires at its deadline, a timer that has fired was due, no expiry function was
called before its entry's expiry, and a key's entry is its most recent add. -/
structure Good (s : TTLExpirationScheduler) : Prop where
  timer_index : ∀ (i : ℕ) (t : Timer), s.timers[i]? = some t → t.entry.timer = i
  deadline : ∀ (i : ℕ) (t : Timer), s.timers[i]? = some t → t.deadline = t.entry.expiry
  due : ∀ (i : ℕ) (t : Timer), s.timers[i]? = some t → t.state = .fired ∨ t.state = .done → t.deadline ≤ s.now
  expired_late : ∀ p ∈ s.expired, p.1.expiry ≤ p.2
  entries_latest : ∀ (key : String) (e : SchedulerEntry), s.entries key = some e → latest s key = some e

theorem getElem?_modify_eq_some {l : List Timer} {i j : ℕ} {f : Timer → Timer} {t : Timer}
    (h : (l.modify i f)[j]? = some t) : ∃ u, l[j]? = some u ∧ t = if i = j then f u else u := by
  rw [List.getElem?_modify] at h
  cases hu : l[j]? with
  | none => simp [hu] at h
  | some u => exact ⟨u, rfl, by simpa [hu] using h.symm⟩

theorem getElem?_append_singleton_eq_some {l : List Timer} {x t : Timer} {j : ℕ}
    (h : (l ++ [x])[j]? = some t) : l[j]? = some t ∨ (j = l.length ∧ t = x) := by
  rw [List.getElem?_append] at h
  split_ifs at h with hlt
  · exact .inl h
  · rcases hj : j - l.length with _ | m
    · rw [hj] at h
      simp at h
      exact .inr ⟨by omega, h.symm⟩
    · rw [hj] at h
      simp at h

theorem map_entry_modify (l : List Timer) (i : ℕ) {f : Timer → Timer} (hf : ∀ t, (f t).entry = t.entry) :
    (l.modify i f).map (·.entry) = l.map (·.entry) := by
  apply List.ext_getElem?
  intro j
  rw [List.getElem?_map, List.getElem?_map, List.getElem?_modify]
  cases l[j]? with
  | none => rfl
  | some u => by_cases h : i = j <;> simp [h, hf]

section Good

variable {s : TTLExpirationScheduler}

theorem latest_modify {s' : TTLExpirationScheduler} {i : ℕ} {f : Timer → Timer}
    (hs' : s'.timers = s.timers.modify i f) (hf : ∀ t, (f t).entry = t.entry) (key : String) :
    latest s' key = latest s key := by
  simp only [latest, hs', map_entry_modify _ _ hf]

theorem latest_push {s' : TTLExpirationScheduler} {x : Timer} (hs' : s'.timers = s.timers ++ [x]) (key : String) :
    latest s' key = if x.entry.key = key then some x.entry else latest s key := by
  simp only [latest, hs', List.map_append, List.filter_append, List.getLast?_append]
  split_ifs with h <;> simp [h]

theorem new_good (now : ℤ) : Good (new now) where
  timer_index _ _ h := by simp [new] at h
  deadline _ _ h := by simp [new] at h
  due _ _ h := by simp [new] at h
  expired_late _ h := by simp [new] at h
  entries_latest _ _ h := by simp [new] at h

theorem Good.modify (h : Good s) {i : ℕ} {f : Timer → Timer} (hentry : ∀ t, (f t).entry = t.entry)
    (hdeadline : ∀ t, (f t).deadline = t.deadline)
    (hdue : ∀ t, s.timers[i]? = some t → (f t).state = .fired ∨ (f t).state = .done → t.deadline ≤ s.now) :
    Good { s with timers := s.timers.modify i f } where
  timer_index j t hj := by
    obtain ⟨u, hu, rfl⟩ := getElem?_modify_eq_some hj
    split_ifs
    · rw [hentry]; exact h.timer_index j u hu
    · exact h.timer_index j u hu
  deadline j t hj := by
    obtain ⟨u, hu, rfl⟩ := getElem?_modify_eq_some hj
    split_ifs
    · rw [hentry, hdeadline]; exact h.deadline j u hu
    · exact h.deadline j u hu
  due j t hj hst := by
    obtain ⟨u, hu, rfl⟩ := getElem?_modify_eq_some hj
    split_ifs at hst ⊢ with hij
    · subst hij; rw [hdeadline]; exact hdue u hu hst
    · exact h.due j u hu hst
  expired_late := h.expired_late
  entries_latest key e he := by rw [latest_modify rfl hentry]; exact h.entries_latest key e he

theorem Good.push (h : Good s) {n : ℕ} (hn : n = s.timers.length) (key : String) (ttl : ℤ) (eType : EntryType) :
    Good { s with
      entries := Function.update s.entries key (some ⟨key, s.now + ttl, eType, n⟩)
      timers := s.timers ++ [⟨⟨key, s.now + ttl, eType, n⟩, s.now + ttl, .armed⟩]
      indexDirty := true } where
  timer_index j t hj := by
    rcases getElem?_append_singleton_eq_some hj with hj | ⟨rfl, rfl⟩
    · exact h.timer_index j t hj
    · exact hn
  deadline j t hj := by
    rcases getElem?_append_singleton_eq_some hj with hj | ⟨rfl, rfl⟩
    · exact h.deadline j t hj
    · rfl
  due j t hj hst := by
    rcases getElem?_append_singleton_eq_some hj with hj | ⟨rfl, rfl⟩
    · exact h.due j t hj hst
    · simp at hst
  expired_late := h.expired_late
  entries_latest k e he := by
    rw [latest_push rfl]
    dsimp only at he
    by_cases hk : k = key
    · subst hk
      rw [Function.update_self] at he
      simp [← Option.some.inj he]
    · rw [Function.update_of_ne hk] at he
      rw [if_neg (Ne.symm hk)]
      exact h.entries_latest k e he

theorem Good.add (h : Good s) (key : String) (ttl : ℤ) (eType : EntryType) : Good (add s key ttl eType) := by
  unfold Scheduler.add
  cases hold : s.entries key with
  | none => exact h.push rfl key ttl eType
  | some oldEntry =>
    have hstop : Good { s with timers := s.timers.modify oldEntry.timer Timer.stop } := by
      refine h.modify (fun t => by unfold Timer.stop; split_ifs <;> rfl)
        (fun t => by unfold Timer.stop; split_ifs <;> rfl) fun t ht hst => h.due _ t ht ?_
      unfold Timer.stop at hst
      split_ifs at hst with harmed
      · simp at hst
      · exact hst
    exact hstop.push (List.length_modify _ _ _).symm key ttl eType

theorem Good.start (h : Good s) : Good (start s).1 := by
  unfold Scheduler.start
  split_ifs
  · exact ⟨h.1, h.2, h.3, h.4, h.5⟩
  · exact h

theorem Good.addOfType (h : Good s) (eType : EntryType) (key : String) (ttl : ℤ) :
    Good (addOfType s eType key ttl).1 := by
  unfold Scheduler.addOfType
  split_ifs
  · exact h
  · exact h.add key ttl eType

theorem Good.elapse (h : Good s) (d : ℕ) : Good (elapse s d) where
  timer_index := h.timer_index
  deadline := h.deadline
  due i t hi hst := by
    have := h.due i t hi hst
    show t.deadline ≤ s.now + d
    omega
  expired_late := h.expired_late
  entries_latest := h.entries_latest

theorem Good.fire (h : Good s) {i : ℕ} {t : Timer} (hi : s.timers[i]? = some t) (hdl : t.deadline ≤ s.now) :
    Good (fire s i) :=
  h.modify (fun _ => rfl) (fun _ => rfl) fun u hu _ => by
    rw [hi] at hu
    cases hu
    exact hdl

theorem timerFunc_of_getElem? {i : ℕ} {t : Timer} (hi : s.timers[i]? = some t) :
    timerFunc s i =
      { s with
        expired := s.expired ++ [(t.entry, s.now)]
        entries := Function.update s.entries t.entry.key none
        indexDirty := true
        timers := s.timers.modify i fun t => { t with state := .done } } := by
  unfold timerFunc
  rw [hi]

theorem Good.timerFunc (h : Good s) {i : ℕ} {t : Timer} (hi : s.timers[i]? = some t) (hfired : t.state = .fired) :
    Good (timerFunc s i) := by
  have hdue : t.deadline ≤ s.now := h.due i t hi (.inl hfired)
  have hdone := h.modify (i := i) (f := fun t => { t with state := .done }) (fun _ => rfl) (fun _ => rfl)
    fun u hu _ => by
      rw [hi] at hu
      cases hu
      exact hdue
  rw [timerFunc_of_getElem? hi]
  refine ⟨hdone.timer_index, hdone.deadline, hdone.due, ?_, ?_⟩
  · intro p hp
    rcases List.mem_append.mp hp with hp | hp
    · exact h.expired_late p hp
    · rw [List.mem_singleton.mp hp, ← h.deadline i t hi]
      exact hdue
  · intro k e he
    dsimp only at he
    by_cases hk : k = t.entry.key
    · subst hk
      simp at he
    · rw [Function.update_of_ne hk] at he
      rw [latest_modify (s := s) (i := i) (f := fun t => { t with state := .done }) rfl (fun _ => rfl)]
      exact h.entries_latest k e he

theorem Good.saveState (h : Good s) (ok : Bool) : Good (saveState s ok) := by
  unfold Scheduler.saveState
  split_ifs
  · exact ⟨h.1, h.2, h.3, h.4, h.5⟩
  · exact h

theorem Step.good {s s' : TTLExpirationScheduler} (hstep : Step s s') (h : Good s) : Good s' := by
  cases hstep with
  | start => exact h.start
  | addBlob key ttl => exact h.addOfType .blob key ttl
  | addManifest key ttl => exact h.addOfType .manifest key ttl
  | elapse d => exact h.elapse d
  | fire hi _ hdl => exact h.fire hi hdl
  | timerFunc hi hfired => exact h.timerFunc hi hfired
  | saveState ok => exact h.saveState ok

theorem Reachable.good (hs : Reachable s) : Good s := by
  obtain ⟨now, hrun⟩ := hs
  induction hrun with
  | refl => exact new_good now
  | tail _ hstep ih => exact hstep.good ih

end Good

/-! ## A timer that fired before its key was added again -/

section Readd

variable {s : TTLExpirationScheduler}

theorem getElem?_add_of_not_armed (key : String) (ttl : ℤ) (eType : EntryType) {j : ℕ} {t : Timer}
    (hj : s.timers[j]? = some t) (harmed : t.state ≠ .armed) : (add s key ttl eType).timers[j]? = some t := by
  have hlt : j < s.timers.length := (List.getElem?_eq_some_iff.mp hj).1
  unfold Scheduler.add
  cases s.entries key with
  | none => rw [List.getElem?_append_left hlt, hj]
  | some oldEntry =>
    rw [List.getElem?_append_left (by rwa [List.length_modify]), List.getElem?_modify, hj]
    by_cases h : oldEntry.timer = j <;> simp [h, Timer.stop, harmed]

theorem getElem?_add_length (key : String) (ttl : ℤ) (eType : EntryType) :
    (add s key ttl eType).timers[s.timers.length]? =
      some ⟨⟨key, s.now + ttl, eType, s.timers.length⟩, s.now + ttl, .armed⟩ := by
  unfold Scheduler.add
  cases s.entries key with
  | none => exact List.getElem?_concat_length
  | some oldEntry => simp [List.length_modify]

theorem latest_add (key : String) (ttl : ℤ) (eType : EntryType) :
    latest (add s key ttl eType) key = some ⟨key, s.now + ttl, eType, s.timers.length⟩ := by
  unfold Scheduler.add
  cases s.entries key with
  | none => rw [latest_push (s := s) rfl, if_pos rfl]
  | some oldEntry =>
    rw [latest_push (s := { s with timers := s.timers.modify oldEntry.timer Timer.stop }) rfl, if_pos rfl]

/-- A timer that has fired when its key is added again: `Stop` cannot take it
back, and when its function runs it calls the expiry function for the replaced
entry, before the new entry's expiry, and deletes the key, so that the key's
newest entry is missing from the map while its timer is still armed. -/
theorem readd_after_fire (hs : Reachable s) (hstarted : s.stopped = false) {i : ℕ} {t : Timer}
    (hi : s.timers[i]? = some t) (hfired : t.state = .fired) {ttl : ℤ} (httl : 0 < ttl) :
    let readded : SchedulerEntry := ⟨t.entry.key, s.now + ttl, .blob, s.timers.length⟩
    let s' := timerFunc (addBlob s t.entry.key ttl).1 i
    Reachable s' ∧ s'.expired.getLast? = some (t.entry, s.now) ∧ t.entry ≠ readded ∧ s.now < readded.expiry ∧
      latest s' t.entry.key = some readded ∧ s'.entries t.entry.key = none ∧
      s'.timers[readded.timer]? = some ⟨readded, readded.expiry, .armed⟩ := by
  intro readded s'
  have hadd : (addBlob s t.entry.key ttl).1 = add s t.entry.key ttl .blob := by
    simp [addBlob, addOfType, hstarted]
  have hi₁ : (add s t.entry.key ttl .blob).timers[i]? = some t :=
    getElem?_add_of_not_armed _ _ _ hi (by rw [hfired]; decide)
  have hs' : s' = timerFunc (add s t.entry.key ttl .blob) i := by simp only [s', hadd]
  have hlt : i < s.timers.length := (List.getElem?_eq_some_iff.mp hi).1
  refine ⟨?_, ?_, ?_, by show s.now < s.now + ttl; omega, ?_, ?_, ?_⟩
  · obtain ⟨now, hrun⟩ := hs
    refine ⟨now, (hrun.tail (Step.addBlob s t.entry.key ttl)).tail ?_⟩
    rw [hs', ← hadd]
    exact Step.timerFunc _ (by rw [hadd]; exact hi₁) hfired
  · rw [hs', timerFunc_of_getElem? hi₁]
    exact List.getLast?_concat
  · intro heq
    have htimer := congrArg SchedulerEntry.timer heq
    rw [hs.good.timer_index i t hi] at htimer
    exact absurd htimer (Nat.ne_of_lt hlt)
  · rw [hs', timerFunc_of_getElem? hi₁,
      latest_modify (s := add s t.entry.key ttl .blob) (i := i) (f := fun t => { t with state := .done }) rfl
        fun _ => rfl]
    exact latest_add _ _ _
  · rw [hs', timerFunc_of_getElem? hi₁]
    exact Function.update_self _ _ _
  · rw [hs', timerFunc_of_getElem? hi₁]
    show ((add s t.entry.key ttl .blob).timers.modify i _)[s.timers.length]? = _
    rw [List.getElem?_modify, getElem?_add_length]
    simp [Nat.ne_of_lt hlt, readded]

/-- A blob added with a TTL of one second, whose timer fired after that second
and whose function waits for the mutex. -/
def firedOnce : TTLExpirationScheduler :=
  fire (elapse (addBlob (start (new 0)).1 "library/alpine@sha256:00" 1000000000).1 1000000000) 0

/-- The blob is added again for an hour before the function of its first timer
runs. -/
theorem readd_after_fire_alpine :
    let t : Timer := ⟨⟨"library/alpine@sha256:00", 1000000000, .blob, 0⟩, 1000000000, .fired⟩
    Reachable firedOnce ∧ firedOnce.stopped = false ∧ firedOnce.timers[0]? = some t ∧ t.state = .fired ∧
      (0 : ℤ) < 3600000000000 ∧
      let readded : SchedulerEntry := ⟨t.entry.key, firedOnce.now + 3600000000000, .blob, firedOnce.timers.length⟩
      let s' := timerFunc (addBlob firedOnce t.entry.key 3600000000000).1 0
      Reachable s' ∧ s'.expired.getLast? = some (t.entry, firedOnce.now) ∧ t.entry ≠ readded ∧
        firedOnce.now < readded.expiry ∧ latest s' t.entry.key = some readded ∧ s'.entries t.entry.key = none ∧
        s'.timers[readded.timer]? = some ⟨readded, readded.expiry, .armed⟩ := by
  intro t
  have hreach : Reachable firedOnce := by
    refine ⟨0, (((Relation.ReflTransGen.refl.tail (Step.start _)).tail
      (Step.addBlob _ "library/alpine@sha256:00" 1000000000)).tail (Step.elapse _ 1000000000)).tail
      (Step.fire _ (t := { t with state := .armed }) rfl rfl (by decide))⟩
  exact ⟨hreach, rfl, rfl, rfl, by decide, readd_after_fire hreach rfl rfl rfl (by decide)⟩

end Readd

end DockerRegistry.Proxy.Scheduler
