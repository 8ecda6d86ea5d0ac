import Mathlib.Logic.Relation
import Mathlib.Data.List.Infix
import Mathlib.Tactic.Linarith

/-!
# The notification event queue

`eventQueue` of `notifications/sinks.go`, which `NewEndpoint` puts in front of
each endpoint's retrying HTTP sink. Producers call `Write`; the goroutine `run`
takes events with `next` and hands each to the sink; one goroutine calls
`Close`. `Write`, the part of `next` that holds the lock, and `Close` up to its
`Wait` are critical sections of `eq.mu`, and each is one step here, so sections
of different goroutines never overlap. `sync.Cond` keeps its waiters oldest
first: `Signal` wakes the oldest, `Broadcast` all of them, and a woken
goroutine takes the lock again before `Wait` returns.

The state records what the queue's neighbours see: the events whose `Write`
returned nil (`accepted`), the sink's `Write` calls (`written`) and its `Close`,
and the `Pending` count of the endpoint's listener, which `ingress` raises and
`egress` lowers. Every reachable state is `Good`. So the sink gets the accepted
events once each, in the order of their `Write`s, all of them before its
`Close`, and `Close` returns after the last (`eventQueue_exactly_once`). From
every reachable state after `Close` was called, the consumer and `Close` can run
to the end (`close_completes`).
-/

namespace DockerRegistry.Notifications

/-- The goroutines that wait on the queue's condition. -/
inductive Waiter where
  | consumer
  | closer
  deriving DecidableEq, Repr

/-- Where the goroutine `run` is. -/
inductive RunPc (α : Type) where
  /-- about to call `next`, at the top of its loop -/
  | next
  /-- in `next`'s `eq.cond.Wait()`, not signalled -/
  | waiting
  /-- signalled: `Wait` has still to take the lock and return -/
  | woken
  /-- `next` returned the event: `eq.sink.Write(event)` -/
  | writing (e : α)
  /-- the sink returned: `listener.egress(event)` -/
  | egress (e : α)
  /-- `next` returned nil, and so did `run` -/
  | done
  deriving DecidableEq, Repr

/-- Where the goroutine that calls `Close` is. -/
inductive ClosePc where
  | idle
  /-- in `Close`'s `eq.cond.Wait()`, not signalled -/
  | waiting
  /-- signalled: `Wait` has still to take the lock and return -/
  | woken
  /-- `eq.sink.Close()` was called and `Close` returned -/
  | returned
  deriving DecidableEq, Repr

/-- The queue, its condition's waiters, both goroutines, the listener's
`Pending`, and what the producers and the sink have seen. -/
structure EventQueue (α : Type) where
  events : List α
  closed : Bool
  notify : List Waiter
  runPc : RunPc α
  closePc : ClosePc
  pending : ℤ
  accepted : List α
  written : List α
  sinkClosed : Bool
  deriving DecidableEq, Repr

namespace EventQueue

variable {α : Type}

def new : EventQueue α := ⟨[], false, [], .next, .idle, 0, [], [], false⟩

def wake : Waiter → EventQueue α → EventQueue α
  | .consumer, s => { s with runPc := .woken }
  | .closer, s => { s with closePc := .woken }

def signal (s : EventQueue α) : EventQueue α :=
  match s.notify with
  | [] => s
  | w :: rest => wake w { s with notify := rest }

def broadcast (s : EventQueue α) : EventQueue α :=
  s.notify.foldl (fun s w => wake w s) { s with notify := [] }

/-- `Write`: refused once closed; else the listener's `ingress`, `PushBack` and
`Signal`. -/
def write (e : α) (s : EventQueue α) : EventQueue α :=
  if s.closed then s
  else signal { s with pending := s.pending + 1, events := s.events ++ [e], accepted := s.accepted ++ [e] }

/-- The critical section of `next`, at the loop's test: take the front event;
or, the queue empty, `Broadcast` and return nil once closed, else `Wait`. -/
def next (s : EventQueue α) : EventQueue α :=
  match s.events with
  | e :: rest => { s with events := rest, runPc := .writing e }
  | [] =>
    if s.closed then { s.broadcast with runPc := .done }
    else { s with runPc := .waiting, notify := s.notify ++ [.consumer] }

def sinkWrite (e : α) (s : EventQueue α) : EventQueue α := { s with written := s.written ++ [e], runPc := .egress e }

def egress (s : EventQueue α) : EventQueue α := { s with pending := s.pending - 1, runPc := .next }

/-- `Close` up to its `Wait`: a second `Close` fails with `already closed` and
changes nothing; else set `closed`, `Signal`, and `Wait`. -/
def close (s : EventQueue α) : EventQueue α :=
  if s.closed then s
  else
    let s := signal { s with closed := true }
    { s with closePc := .waiting, notify := s.notify ++ [.closer] }

/-- `Close` back from `Wait` with the lock: `eq.sink.Close()`, and return. -/
def closeSink (s : EventQueue α) : EventQueue α := { s with sinkClosed := true, closePc := .returned }

end EventQueue

/-- The steps of the goroutines, in any interleaving. -/
inductive Step {α : Type} : EventQueue α → EventQueue α → Prop
  | write (s : EventQueue α) (e : α) : Step s (s.write e)
  | next (s : EventQueue α) : s.runPc = .next ∨ s.runPc = .woken → Step s s.next
  | sinkWrite (s : EventQueue α) {e : α} : s.runPc = .writing e → Step s (s.sinkWrite e)
  | egress (s : EventQueue α) {e : α} : s.runPc = .egress e → Step s s.egress
  | close (s : EventQueue α) : s.closePc = .idle → Step s s.close
  | closeSink (s : EventQueue α) : s.closePc = .woken → Step s s.closeSink

def Reachable {α : Type} (s : EventQueue α) : Prop := Relation.ReflTransGen Step EventQueue.new s

/-- The event `run` holds between `next` and `sink.Write`. -/
def RunPc.inFlight {α : Type} : RunPc α → List α
  | .writing e => [e]
  | _ => []

/-- Whether `run` owes the listener an `egress`. -/
def RunPc.egressing {α : Type} : RunPc α → ℕ
  | .egress _ => 1
  | _ => 0

/-- The events the sink has handed back to `run`, whose `egress` is done. -/
def EventQueue.handedBack {α : Type} (s : EventQueue α) : ℕ := s.written.length - s.runPc.egressing

/-! ## What every run keeps -/

/-- What every reachable state satisfies. Every accepted event is written,
held by `run`, or queued, in order; `Pending` counts the accepted events whose
`egress` is not done; the condition's waiters are the goroutines in `Wait`;
`run` waits only on an empty open queue and stops only on an empty closed one;
`Close` waits while `run` goes on, and is woken only once `run` stopped. -/
structure Good {α : Type} (s : EventQueue α) : Prop where
  flow : s.accepted = s.written ++ s.runPc.inFlight ++ s.events
  pending : s.pending + s.written.length = s.accepted.length + s.runPc.egressing
  egressing_le : s.runPc.egressing ≤ s.written.length
  closed_iff : s.closed = true ↔ s.closePc ≠ .idle
  notify_nodup : s.notify.Nodup
  mem_consumer : .consumer ∈ s.notify ↔ s.runPc = .waiting
  mem_closer : .closer ∈ s.notify ↔ s.closePc = .waiting
  waiting : s.runPc = .waiting → s.events = [] ∧ s.closed = false
  done : s.runPc = .done → s.events = [] ∧ s.closed = true
  closeWaiting : s.closePc = .waiting → s.runPc ≠ .done
  closeWoken : s.closePc = .woken ∨ s.closePc = .returned → s.runPc = .done
  sinkClosed : s.sinkClosed = true ↔ s.closePc = .returned

section Good

variable {α : Type} {s : EventQueue α}

@[simp] theorem RunPc.inFlight_writing (e : α) : (RunPc.writing e).inFlight = [e] := rfl
@[simp] theorem RunPc.inFlight_next : (RunPc.next : RunPc α).inFlight = [] := rfl
@[simp] theorem RunPc.inFlight_waiting : (RunPc.waiting : RunPc α).inFlight = [] := rfl
@[simp] theorem RunPc.inFlight_woken : (RunPc.woken : RunPc α).inFlight = [] := rfl
@[simp] theorem RunPc.inFlight_egress (e : α) : (RunPc.egress e).inFlight = [] := rfl
@[simp] theorem RunPc.inFlight_done : (RunPc.done : RunPc α).inFlight = [] := rfl
@[simp] theorem RunPc.egressing_egress (e : α) : (RunPc.egress e).egressing = 1 := rfl
@[simp] theorem RunPc.egressing_writing (e : α) : (RunPc.writing e).egressing = 0 := rfl
@[simp] theorem RunPc.egressing_next : (RunPc.next : RunPc α).egressing = 0 := rfl
@[simp] theorem RunPc.egressing_waiting : (RunPc.waiting : RunPc α).egressing = 0 := rfl
@[simp] theorem RunPc.egressing_woken : (RunPc.woken : RunPc α).egressing = 0 := rfl
@[simp] theorem RunPc.egressing_done : (RunPc.done : RunPc α).egressing = 0 := rfl

theorem signal_of_nil (hn : s.notify = []) : s.signal = s := by
  simp [EventQueue.signal, hn]

theorem signal_of_consumer (hn : s.notify = [.consumer]) : s.signal = { s with runPc := .woken, notify := [] } := by
  simp [EventQueue.signal, EventQueue.wake, hn]

theorem broadcast_of_closer (hn : s.notify = [.closer]) : s.broadcast = { s with closePc := .woken, notify := [] } := by
  simp [EventQueue.broadcast, EventQueue.wake, hn]

theorem good_new : Good (EventQueue.new : EventQueue α) := by
  refine ⟨rfl, rfl, le_refl _, ?_, List.nodup_nil, ?_, ?_, ?_, ?_, ?_, ?_, ?_⟩ <;>
    simp [EventQueue.new]

theorem Good.notify_of_open (h : Good s) (hc : s.closed = false) :
    s.closePc = .idle ∧ ((s.notify = [] ∧ s.runPc ≠ .waiting) ∨ (s.notify = [.consumer] ∧ s.runPc = .waiting)) := by
  have hidle : s.closePc = .idle := by
    by_contra hne
    simp [h.closed_iff.mpr hne] at hc
  have hcl : Waiter.closer ∉ s.notify := fun hm => by simp [h.mem_closer.mp hm] at hidle
  have hsub : ∀ w ∈ s.notify, w = .consumer := by
    intro w hw
    cases w
    · rfl
    · exact absurd hw hcl
  refine ⟨hidle, ?_⟩
  rcases hn : s.notify with _ | ⟨w, ws⟩
  · left
    refine ⟨rfl, fun hw => ?_⟩
    have := h.mem_consumer.mpr hw
    rw [hn] at this
    simp at this
  · have hw : w = .consumer := hsub w (by simp [hn])
    have hws : ws = [] := by
      rcases ws with _ | ⟨w', ws'⟩
      · rfl
      · have hnd := h.notify_nodup
        rw [hn, hw, hsub w' (by simp [hn])] at hnd
        simp at hnd
    subst hw hws
    exact .inr ⟨rfl, h.mem_consumer.mp (by simp [hn])⟩

theorem Good.notify_of_closed (h : Good s) (hc : s.closed = true) :
    s.runPc ≠ .waiting ∧ (s.closePc = .waiting → s.notify = [.closer]) := by
  have hnw : s.runPc ≠ .waiting := fun hw => by simp [(h.waiting hw).2] at hc
  refine ⟨hnw, fun hcp => ?_⟩
  have hcons : Waiter.consumer ∉ s.notify := fun hm => hnw (h.mem_consumer.mp hm)
  have hsub : ∀ w ∈ s.notify, w = .closer := by
    intro w hw
    cases w
    · exact absurd hw hcons
    · rfl
  rcases hn : s.notify with _ | ⟨w, ws⟩
  · have := h.mem_closer.mpr hcp
    simp [hn] at this
  · have hw : w = .closer := hsub w (by simp [hn])
    have hws : ws = [] := by
      rcases ws with _ | ⟨w', ws'⟩
      · rfl
      · have hnd := h.notify_nodup
        rw [hn, hw, hsub w' (by simp [hn])] at hnd
        simp at hnd
    rw [hw, hws]

theorem Good.close_not_woken (h : Good s) (hnd : s.runPc ≠ .done) : s.closePc ≠ .woken ∧ s.closePc ≠ .returned :=
  ⟨fun hw => hnd (h.closeWoken (.inl hw)), fun hr => hnd (h.closeWoken (.inr hr))⟩

theorem Good.write (h : Good s) (e : α) : Good (s.write e) := by
  unfold EventQueue.write
  by_cases hc : s.closed = true
  · rw [if_pos hc]
    exact h
  have hc' : s.closed = false := by simpa using hc
  rw [if_neg hc]
  have hdone : s.runPc ≠ .done := fun hd => by simp [(h.done hd).2] at hc'
  obtain ⟨hidle, ⟨hn, hw⟩ | ⟨hn, hw⟩⟩ := h.notify_of_open hc'
  · rw [signal_of_nil (by exact hn)]
    refine ⟨?_, ?_, h.egressing_le, h.closed_iff, h.notify_nodup, h.mem_consumer, h.mem_closer, ?_, ?_, ?_, ?_,
      h.sinkClosed⟩
    · simp [h.flow]
    · simp only [List.length_append, List.length_singleton, Nat.cast_add, Nat.cast_one]
      linarith [h.pending]
    · exact fun hw' => absurd hw' hw
    · exact fun hd => absurd hd hdone
    · simp [hidle]
    · simp [hidle]
  · have hev := (h.waiting hw).1
    rw [signal_of_consumer (by exact hn)]
    have hflow := h.flow
    have hpend := h.pending
    rw [hw, hev] at hflow
    rw [hw] at hpend
    refine ⟨?_, ?_, by simp, h.closed_iff, List.nodup_nil, by simp, ?_, by simp, by simp, ?_, ?_, h.sinkClosed⟩
    · simp [hflow, hev]
    · simp only [List.length_append, List.length_singleton, RunPc.egressing_woken, RunPc.egressing_waiting] at hpend ⊢
      push_cast at hpend ⊢
      linarith
    · simp [hidle]
    · simp [hidle]
    · simp [hidle]

theorem Good.next (h : Good s) (hpc : s.runPc = .next ∨ s.runPc = .woken) : Good s.next := by
  have hnw : s.runPc ≠ .waiting := by rcases hpc with hpc | hpc <;> simp [hpc]
  have hnd : s.runPc ≠ .done := by rcases hpc with hpc | hpc <;> simp [hpc]
  have hinf : s.runPc.inFlight = [] := by rcases hpc with hpc | hpc <;> simp [hpc]
  have hegr : s.runPc.egressing = 0 := by rcases hpc with hpc | hpc <;> simp [hpc]
  have hcons : Waiter.consumer ∉ s.notify := fun hm => hnw (h.mem_consumer.mp hm)
  have hcw := h.close_not_woken hnd
  have hflow := h.flow
  have hpend := h.pending
  rw [hinf, List.append_nil] at hflow
  rw [hegr, Nat.cast_zero, add_zero] at hpend
  unfold EventQueue.next
  rcases hev : s.events with _ | ⟨e, rest⟩
  · rw [hev, List.append_nil] at hflow
    by_cases hc : s.closed = true
    · have hcp : s.closePc = .waiting := by
        have hne := h.closed_iff.mp hc
        cases hp : s.closePc
        · exact absurd hp hne
        · rfl
        · exact absurd hp hcw.1
        · exact absurd hp hcw.2
      rw [if_pos hc, broadcast_of_closer ((h.notify_of_closed hc).2 hcp)]
      refine ⟨by simp [hflow, hev], by simpa using hpend, by simp, ?_, List.nodup_nil, by simp, by simp, by simp,
        by simp [hc, hev], by simp, by simp, ?_⟩
      · simp [hc]
      · simp [h.sinkClosed, hcp]
    · have hc' : s.closed = false := by simpa using hc
      obtain ⟨hidle, ⟨hn, -⟩ | ⟨-, hw⟩⟩ := h.notify_of_open hc'
      · rw [if_neg hc]
        refine ⟨by simp [hflow], by simpa using hpend, by simp, h.closed_iff, by simp [hn], by simp [hn],
          by simp [hn, hidle], by simp [hc'], by simp, by simp [hidle], by simp [hidle], h.sinkClosed⟩
      · exact absurd hw hnw
  · rw [hev] at hflow
    refine ⟨by simp [hflow], by simpa using hpend, by simp, h.closed_iff, h.notify_nodup, ?_, h.mem_closer,
      by simp, by simp, by simp, ?_, h.sinkClosed⟩
    · simp [hcons]
    · simp [hcw]

theorem Good.sinkWrite (h : Good s) {e : α} (hpc : s.runPc = .writing e) : Good (s.sinkWrite e) := by
  have hflow := h.flow
  have hpend := h.pending
  rw [hpc, RunPc.inFlight_writing] at hflow
  rw [hpc, RunPc.egressing_writing, Nat.cast_zero, add_zero] at hpend
  have hcw := h.close_not_woken (by simp [hpc])
  have hcons : Waiter.consumer ∉ s.notify := fun hm => by simpa [hpc] using h.mem_consumer.mp hm
  refine ⟨by simp [EventQueue.sinkWrite, hflow], ?_, by simp [EventQueue.sinkWrite], h.closed_iff, h.notify_nodup,
    by simp [EventQueue.sinkWrite, hcons], h.mem_closer, by simp [EventQueue.sinkWrite], by simp [EventQueue.sinkWrite],
    by simp [EventQueue.sinkWrite], by simp [EventQueue.sinkWrite, hcw], h.sinkClosed⟩
  simp only [EventQueue.sinkWrite, List.length_append, List.length_singleton, Nat.cast_add, Nat.cast_one,
    RunPc.egressing_egress]
  linarith

theorem Good.egress (h : Good s) {e : α} (hpc : s.runPc = .egress e) : Good s.egress := by
  have hflow := h.flow
  have hpend := h.pending
  rw [hpc, RunPc.inFlight_egress, List.append_nil] at hflow
  rw [hpc, RunPc.egressing_egress, Nat.cast_one] at hpend
  have hcw := h.close_not_woken (by simp [hpc])
  have hcons : Waiter.consumer ∉ s.notify := fun hm => by simpa [hpc] using h.mem_consumer.mp hm
  refine ⟨by simp [EventQueue.egress, hflow], ?_, by simp [EventQueue.egress], h.closed_iff, h.notify_nodup,
    by simp [EventQueue.egress, hcons], h.mem_closer, by simp [EventQueue.egress], by simp [EventQueue.egress],
    by simp [EventQueue.egress], by simp [EventQueue.egress, hcw], h.sinkClosed⟩
  simp only [EventQueue.egress, RunPc.egressing_next, Nat.cast_zero, add_zero]
  linarith

theorem Good.close (h : Good s) (hpc : s.closePc = .idle) : Good s.close := by
  have hc : s.closed = false := by
    cases hc : s.closed
    · rfl
    · exact absurd hpc (h.closed_iff.mp hc)
  have hdone : s.runPc ≠ .done := fun hd => by simp [(h.done hd).2] at hc
  unfold EventQueue.close
  rw [if_neg (by simp [hc])]
  obtain ⟨-, ⟨hn, hw⟩ | ⟨hn, hw⟩⟩ := h.notify_of_open hc
  · rw [signal_of_nil (by simpa using hn)]
    refine ⟨h.flow, h.pending, h.egressing_le, by simp, by simp [hn], by simp [hn, hw], by simp, ?_, ?_, by simp [hdone],
      by simp, by simp [h.sinkClosed, hpc]⟩
    · exact fun hw' => absurd hw' hw
    · exact fun hd => absurd hd hdone
  · rw [signal_of_consumer (by simpa using hn)]
    have hev := (h.waiting hw).1
    have hflow := h.flow
    have hpend := h.pending
    rw [hw] at hflow hpend
    refine ⟨by simpa using hflow, by simpa using hpend, by simp, by simp, by simp, by simp, by simp, by simp, by simp,
      by simp, by simp, by simp [h.sinkClosed, hpc]⟩

theorem Good.closeSink (h : Good s) (hpc : s.closePc = .woken) : Good s.closeSink := by
  have hrun := h.closeWoken (.inl hpc)
  have hcl : Waiter.closer ∉ s.notify := fun hm => by simpa [hpc] using h.mem_closer.mp hm
  refine ⟨h.flow, h.pending, h.egressing_le, ?_, h.notify_nodup, h.mem_consumer, ?_, h.waiting, h.done, ?_, ?_, ?_⟩ <;>
    simp [EventQueue.closeSink, hrun, hcl, (h.done hrun).2]

theorem Good.step {s s' : EventQueue α} (h : Good s) (hstep : Step s s') : Good s' := by
  cases hstep with
  | write e => exact h.write e
  | next hpc => exact h.next hpc
  | sinkWrite hpc => exact h.sinkWrite hpc
  | egress hpc => exact h.egress hpc
  | close hpc => exact h.close hpc
  | closeSink hpc => exact h.closeSink hpc

theorem Reachable.good {s : EventQueue α} (hs : Reachable s) : Good s := by
  induction hs with
  | refl => exact good_new
  | tail _ hstep ih => exact ih.step hstep

theorem Good.written_of_done (h : Good s) (hd : s.runPc = .done) : s.written = s.accepted := by
  have hflow := h.flow
  rw [hd, RunPc.inFlight_done, (h.done hd).1, List.append_nil, List.append_nil] at hflow
  exact hflow.symm

end Good

/-! ## `Close` returns -/

section Completion

variable {α : Type} {s : EventQueue α}

theorem Reachable.trans {t : EventQueue α} (hs : Reachable s) (hst : Relation.ReflTransGen Step s t) :
    Reachable t :=
  Relation.ReflTransGen.trans hs hst

theorem accepted_wake (w : Waiter) (s : EventQueue α) : (EventQueue.wake w s).accepted = s.accepted := by
  cases w <;> rfl

@[simp] theorem accepted_broadcast (s : EventQueue α) : s.broadcast.accepted = s.accepted := by
  have hfold : ∀ (ws : List Waiter) (t : EventQueue α),
      (ws.foldl (fun s w => EventQueue.wake w s) t).accepted = t.accepted := by
    intro ws
    induction ws with
    | nil => intro t; rfl
    | cons w ws ih => intro t; rw [List.foldl_cons, ih, accepted_wake]
  exact hfold _ _

@[simp] theorem accepted_next (s : EventQueue α) : s.next.accepted = s.accepted := by
  unfold EventQueue.next
  split
  · rfl
  · split <;> simp

theorem next_of_cons {e : α} {rest : List α} (hev : s.events = e :: rest) :
    s.next = { s with events := rest, runPc := .writing e } := by
  simp [EventQueue.next, hev]

theorem drain (hs : Reachable s) (hc : s.closed = true) (hpc : s.runPc = .next ∨ s.runPc = .woken) :
    ∃ t, Relation.ReflTransGen Step s t ∧ t.runPc = .done ∧ t.accepted = s.accepted := by
  induction hev : s.events generalizing s with
  | nil => exact ⟨s.next, .single (.next s hpc), by simp [EventQueue.next, hev, hc], accepted_next s⟩
  | cons e rest ih =>
    let s₃ := (s.next.sinkWrite e).egress
    have hround : Relation.ReflTransGen Step s s₃ :=
      ((Relation.ReflTransGen.single (.next s hpc)).tail (.sinkWrite (e := e) _ (by simp [next_of_cons hev]))).tail
        (.egress (e := e) _ (by simp [EventQueue.sinkWrite]))
    obtain ⟨t, hrun, hdone, hacc⟩ := ih (hs.trans hround) (by simp [s₃, EventQueue.egress, EventQueue.sinkWrite,
      next_of_cons hev, hc]) (.inl rfl) (by simp [s₃, EventQueue.egress, EventQueue.sinkWrite, next_of_cons hev])
    refine ⟨t, hround.trans hrun, hdone, ?_⟩
    rw [hacc]
    simp [s₃, EventQueue.egress, EventQueue.sinkWrite]

theorem run_stops (hs : Reachable s) (hcl : s.closePc ≠ .idle) :
    ∃ t, Relation.ReflTransGen Step s t ∧ t.runPc = .done ∧ t.accepted = s.accepted := by
  have h := hs.good
  have hc := h.closed_iff.mpr hcl
  cases hpc : s.runPc with
  | next => exact drain hs hc (.inl hpc)
  | woken => exact drain hs hc (.inr hpc)
  | waiting => exact absurd hpc (h.notify_of_closed hc).1
  | done => exact ⟨s, .refl, hpc, rfl⟩
  | writing e =>
    have hround : Relation.ReflTransGen Step s (s.sinkWrite e).egress :=
      (Relation.ReflTransGen.single (.sinkWrite s hpc)).tail (.egress _ rfl)
    obtain ⟨t, hrun, hdone, hacc⟩ := drain (hs.trans hround) hc (.inl rfl)
    exact ⟨t, hround.trans hrun, hdone, hacc⟩
  | egress e =>
    obtain ⟨t, hrun, hdone, hacc⟩ := drain (hs.trans (.single (.egress s hpc))) hc (.inl rfl)
    exact ⟨t, (Relation.ReflTransGen.single (.egress s hpc)).trans hrun, hdone, hacc⟩

theorem Reachable.closes (hs : Reachable s) (hcl : s.closePc ≠ .idle) :
    ∃ t, Relation.ReflTransGen Step s t ∧ t.closePc = .returned ∧ t.sinkClosed = true ∧ t.written = s.accepted := by
  obtain ⟨u, hsu, hdone, hacc⟩ := run_stops hs hcl
  have hu := (hs.trans hsu).good
  have hall : u.written = s.accepted := (hu.written_of_done hdone).trans hacc
  cases hcp : u.closePc with
  | idle => exact absurd hcp (hu.closed_iff.mp (hu.done hdone).2)
  | waiting => exact absurd hdone (hu.closeWaiting hcp)
  | woken => exact ⟨u.closeSink, hsu.tail (.closeSink u hcp), rfl, rfl, hall⟩
  | returned => exact ⟨u, hsu, hcp, hu.sinkClosed.mpr hcp, hall⟩

@[simp] theorem accepted_signal (s : EventQueue α) : s.signal.accepted = s.accepted := by
  unfold EventQueue.signal
  split
  · rfl
  · exact accepted_wake _ _

@[simp] theorem accepted_close (s : EventQueue α) : s.close.accepted = s.accepted := by
  unfold EventQueue.close
  split <;> simp

theorem closePc_close (hc : s.closed = false) : s.close.closePc = .waiting := by
  simp [EventQueue.close, hc]

/-- From every reachable state, calling `Close` if no one has yet, the goroutines
can go on until `Close` returns with every accepted event written. -/
theorem Reachable.delivers (hs : Reachable s) :
    ∃ t, Relation.ReflTransGen Step s t ∧ t.closePc = .returned ∧ t.sinkClosed = true ∧ t.written = s.accepted := by
  by_cases hcl : s.closePc = .idle
  · have hc : s.closed = false := by simpa [hcl] using hs.good.closed_iff
    have hstep := Step.close s hcl
    have hs' : Reachable s.close := hs.tail hstep
    obtain ⟨t, hst, hret, hsc, hw⟩ := hs'.closes (by simp [closePc_close hc])
    exact ⟨t, .head hstep hst, hret, hsc, hw.trans (accepted_close s)⟩
  · exact hs.closes hcl

/-- No lost wakeup: from every reachable state after `Close` was called, `run`
and `Close` can go on, with no more producers, until the sink is closed and
`Close` returns, and by then the sink got every event whose `Write` returned nil. -/
theorem close_completes (hs : Reachable s) (hcl : s.closePc ≠ .idle) :
    ∃ t, Relation.ReflTransGen Step s t ∧ t.closePc = .returned ∧ t.sinkClosed = true ∧ t.written = s.accepted :=
  hs.closes hcl

/-- A queue closed while `run` waits on it. -/
theorem close_completes_waiting :
    let s : EventQueue ℕ := (EventQueue.new.next).close
    Reachable s ∧ s.closePc ≠ .idle ∧
      ∃ t, Relation.ReflTransGen Step s t ∧ t.closePc = .returned ∧ t.sinkClosed = true ∧ t.written = s.accepted := by
  intro s
  have hs : Reachable s :=
    (Relation.ReflTransGen.refl.tail (Step.next _ (.inl rfl))).tail (Step.close _ rfl)
  have hcl : s.closePc ≠ .idle := by decide
  exact ⟨hs, hcl, close_completes hs hcl⟩

end Completion

/-! ## Exactly once -/

/-- The sink gets the accepted events once each, in the order their `Write`s took
the lock; `Pending` is the number of accepted events whose `egress` is not done,
so it is never negative; the sink's `Close` and `Close`'s return come after
every accepted event was handed to the sink and back; and from every state the
goroutines can go on until `Close` returns with every accepted event written. -/
theorem eventQueue_exactly_once {α : Type} {s : EventQueue α} (hs : Reachable s) :
    s.written <+: s.accepted ∧
      s.pending = (s.accepted.length : ℤ) - s.handedBack ∧ 0 ≤ s.pending ∧
      (s.sinkClosed = true → s.closePc = .returned) ∧
      (s.closePc = .returned → s.written = s.accepted ∧ s.handedBack = s.accepted.length) ∧
      ∃ t, Relation.ReflTransGen Step s t ∧ t.closePc = .returned ∧ t.sinkClosed = true ∧ t.written = s.accepted := by
  have h := hs.good
  have hle := h.egressing_le
  have hpend := h.pending
  have hwritten : s.written <+: s.accepted := by
    rw [h.flow, List.append_assoc]
    exact List.prefix_append _ _
  have hlen : s.written.length ≤ s.accepted.length := hwritten.length_le
  have hpending : s.pending = (s.accepted.length : ℤ) - s.handedBack := by
    unfold EventQueue.handedBack
    push_cast [Nat.cast_sub hle]
    omega
  refine ⟨hwritten, hpending, ?_, h.sinkClosed.mp, fun hret => ?_, hs.delivers⟩
  · rw [hpending]
    unfold EventQueue.handedBack
    omega
  · have hrun := h.closeWoken (.inr hret)
    have hall := h.written_of_done hrun
    refine ⟨hall, ?_⟩
    simp [EventQueue.handedBack, hrun, hall]

/-- Two events accepted, the first held by `run`, `Close` not yet called. -/
theorem eventQueue_exactly_once_run :
    let s : EventQueue ℕ := (((EventQueue.new.next).write 7).write 8).next
    Reachable s ∧ s.written <+: s.accepted ∧
      s.pending = (s.accepted.length : ℤ) - s.handedBack ∧ 0 ≤ s.pending ∧
      (s.sinkClosed = true → s.closePc = .returned) ∧
      (s.closePc = .returned → s.written = s.accepted ∧ s.handedBack = s.accepted.length) ∧
      ∃ t, Relation.ReflTransGen Step s t ∧ t.closePc = .returned ∧ t.sinkClosed = true ∧ t.written = s.accepted := by
  intro s
  have hs : Reachable s :=
    (((Relation.ReflTransGen.refl.tail (Step.next _ (.inl rfl))).tail (Step.write _ 7)).tail
      (Step.write _ 8)).tail (Step.next _ (.inr rfl))
  exact ⟨hs, eventQueue_exactly_once hs⟩

end DockerRegistry.Notifications
