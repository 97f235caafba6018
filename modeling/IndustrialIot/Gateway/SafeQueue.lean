import IndustrialIot.Core.Wakeup

/-!
# The gateway's blocking queue

`SafeQueue` is a `std::queue` and an abort flag behind one mutex and one
condition variable. The three critical sections are sequential functions on the
protected fields; the monitor supplies the locking, the waiting and the
notifications around them. The refinement target is a FIFO with an abort flag,
described on histories alone.
-/

namespace IndustrialIot.Gateway

/-- The raw bytes of one MQTT payload. -/
abbrev Record := List UInt8

/-- The fields of `SafeQueue` that its mutex protects. -/
structure SafeQueue where
  /-- `queue_`, front first. -/
  queue : List Record
  /-- `aborted_`. -/
  aborted : Bool
  deriving DecidableEq, Repr

namespace SafeQueue

/-- A freshly constructed queue. -/
def empty : SafeQueue := ⟨[], false⟩

/-- The critical section of `push`. -/
def push (q : SafeQueue) (record : Record) : SafeQueue :=
  { q with queue := q.queue ++ [record] }

/-- The predicate `pop` waits for: `!queue_.empty() || aborted_`. -/
def ready (q : SafeQueue) : Bool := !q.queue.isEmpty || q.aborted

/-- The critical section of `pop` once its predicate holds. -/
def pop (q : SafeQueue) : Option Record × SafeQueue :=
  if q.aborted && q.queue.isEmpty then (none, q)
  else
    match q.queue with
    | item :: rest => (some item, { q with queue := rest })
    -- `front()` of an empty queue: excluded by the predicate.
    | [] => (none, q)

/-- The critical section of `abort`. -/
def abort (q : SafeQueue) : SafeQueue := { q with aborted := true }

/-- A call of one of the three member functions. -/
inductive Op where
  | push (record : Record)
  | pop
  | abort
  deriving DecidableEq, Repr

/-- What a call returns. -/
inductive Reply where
  | done
  | popped (item : Option Record)
  deriving DecidableEq, Repr

/-- `SafeQueue` as a monitor: who waits for what, and who notifies whom. -/
def monitor : Monitor SafeQueue Op Reply where
  guard
    | .pop, q => q.ready
    | _, _ => true
  body
    | .push record, q => (.done, q.push record)
    | .pop, q => (.popped q.pop.1, q.pop.2)
    | .abort, q => (.done, q.abort)
  signal
    | .push _ => .one
    | .pop => .none
    | .abort => .all

@[simp] theorem guard_push (record : Record) (q : SafeQueue) :
    monitor.guard (.push record) q = true := rfl

@[simp] theorem guard_pop (q : SafeQueue) : monitor.guard .pop q = q.ready := rfl

@[simp] theorem guard_abort (q : SafeQueue) : monitor.guard .abort q = true := rfl

@[simp] theorem body_push (record : Record) (q : SafeQueue) :
    monitor.body (.push record) q = (.done, q.push record) := rfl

@[simp] theorem body_pop (q : SafeQueue) :
    monitor.body .pop q = (.popped q.pop.1, q.pop.2) := rfl

@[simp] theorem body_abort (q : SafeQueue) : monitor.body .abort q = (.done, q.abort) := rfl

@[simp] theorem signal_push (record : Record) : monitor.signal (.push record) = .one := rfl

@[simp] theorem signal_pop : monitor.signal .pop = .none := rfl

@[simp] theorem signal_abort : monitor.signal .abort = .all := rfl

theorem ready_eq_false {q : SafeQueue} : q.ready = false ↔ q.queue = [] ∧ q.aborted = false := by
  simp [ready]

theorem pop_of_cons {q : SafeQueue} {item : Record} {rest : List Record}
    (hq : q.queue = item :: rest) : q.pop = (some item, { q with queue := rest }) := by
  simp [pop, hq]

theorem pop_of_nil {q : SafeQueue} (hq : q.queue = []) : q.pop = (none, q) := by
  simp [pop, hq]

@[simp] theorem aborted_pop (q : SafeQueue) : q.pop.2.aborted = q.aborted := by
  cases hq : q.queue with
  | nil => rw [pop_of_nil hq]
  | cons item rest => rw [pop_of_cons hq]

/-! ## The abstract queue -/

/-- The records pushed in a history, in order. -/
def pushed (history : List (Op × Reply)) : List Record :=
  history.filterMap fun
    | (.push record, _) => some record
    | _ => none

/-- The records removed in a history, in order. -/
def removed (history : List (Op × Reply)) : List Record :=
  history.filterMap fun
    | (.pop, .popped item) => item
    | _ => none

/-- Was `abort` called in the history? -/
def Aborted (history : List (Op × Reply)) : Prop := (Op.abort, Reply.done) ∈ history

/-- Sequential histories of a FIFO with an abort flag. A pop removes the oldest
record still present, and comes back empty only after an abort with nothing
left; aborting loses no record and refuses no later push. -/
inductive Fifo : List (Op × Reply) → Prop
  | nil : Fifo []
  | push {history} (record : Record) : Fifo history →
      Fifo (history ++ [(.push record, .done)])
  | abort {history} : Fifo history → Fifo (history ++ [(.abort, .done)])
  | pop {history item rest} : Fifo history →
      pushed history = removed history ++ item :: rest →
      Fifo (history ++ [(.pop, .popped (some item))])
  | drained {history} : Fifo history → Aborted history →
      pushed history = removed history → Fifo (history ++ [(.pop, .popped none)])

@[simp] theorem pushed_snoc_push (history : List (Op × Reply)) (record : Record) (r : Reply) :
    pushed (history ++ [(.push record, r)]) = pushed history ++ [record] := by
  simp [pushed, List.filterMap_append]

@[simp] theorem pushed_snoc_pop (history : List (Op × Reply)) (r : Reply) :
    pushed (history ++ [(.pop, r)]) = pushed history := by
  simp [pushed, List.filterMap_append]

@[simp] theorem pushed_snoc_abort (history : List (Op × Reply)) (r : Reply) :
    pushed (history ++ [(.abort, r)]) = pushed history := by
  simp [pushed, List.filterMap_append]

@[simp] theorem removed_snoc_push (history : List (Op × Reply)) (record : Record) (r : Reply) :
    removed (history ++ [(.push record, r)]) = removed history := by
  simp [removed, List.filterMap_append]

@[simp] theorem removed_snoc_abort (history : List (Op × Reply)) (r : Reply) :
    removed (history ++ [(.abort, r)]) = removed history := by
  simp [removed, List.filterMap_append]

@[simp] theorem removed_snoc_pop (history : List (Op × Reply)) (item : Option Record) :
    removed (history ++ [(.pop, .popped item)]) = removed history ++ item.toList := by
  cases item <;> simp [removed, List.filterMap_append]

@[simp] theorem aborted_snoc (history : List (Op × Reply)) (e : Op × Reply) :
    Aborted (history ++ [e]) ↔ Aborted history ∨ e = (.abort, .done) := by
  simp [Aborted, eq_comm]

/-- In a FIFO history an empty pop comes after an abort, with every earlier
record removed. -/
theorem Fifo.drained_before {history before after : List (Op × Reply)} (h : Fifo history)
    (he : history = before ++ (.pop, .popped none) :: after) :
    Aborted before ∧ removed before = pushed before := by
  -- The last event is peeled off until the empty pop is the last one.
  have peel : ∀ {prior : List (Op × Reply)} {e : Op × Reply} {tail : List (Op × Reply)},
      prior ++ [e] = before ++ (.pop, .popped none) :: tail →
      (prior = before ∧ e = (.pop, .popped none)) ∨
        ∃ tail', prior = before ++ (.pop, .popped none) :: tail' := by
    intro prior e tail heq
    rcases List.eq_nil_or_concat tail with rfl | ⟨tail', last, rfl⟩
    · exact Or.inl (by simpa using List.append_inj' heq rfl)
    · right
      refine ⟨tail', ?_⟩
      have hsnoc : prior ++ [e] = before ++ (.pop, .popped none) :: tail' ++ [last] := by
        simpa using heq
      exact (List.append_inj' hsnoc rfl).1
  induction h generalizing after with
  | nil => simp at he
  | push record _ ih =>
    rcases peel he with ⟨_, hx⟩ | ⟨tail', hp⟩
    · simp at hx
    · exact ih hp
  | abort _ ih =>
    rcases peel he with ⟨_, hx⟩ | ⟨tail', hp⟩
    · simp at hx
    · exact ih hp
  | pop _ _ ih =>
    rcases peel he with ⟨_, hx⟩ | ⟨tail', hp⟩
    · simp at hx
    · exact ih hp
  | drained _ ha hd ih =>
    rcases peel he with ⟨hb, _⟩ | ⟨tail', hp⟩
    · subst hb
      exact ⟨ha, hd.symm⟩
    · exact ih hp

/-! ## The critical sections implement the abstract queue -/

/-- The abstraction relation between a history and the protected fields. -/
structure Represents (history : List (Op × Reply)) (q : SafeQueue) : Prop where
  fifo : Fifo history
  /-- What was removed, followed by what is stored, is what was pushed. -/
  contents : removed history ++ q.queue = pushed history
  aborted : q.aborted = true ↔ Aborted history

/-- One critical section extends the history by one FIFO event. -/
theorem Represents.body {history : List (Op × Reply)} {q : SafeQueue} (h : Represents history q)
    (o : Op) (hg : monitor.guard o q = true) :
    Represents (history ++ [(o, (monitor.body o q).1)]) (monitor.body o q).2 := by
  have hc := h.contents
  cases o with
  | push record =>
    exact ⟨.push record h.fifo, by simp [SafeQueue.push, ← hc],
      by simpa [SafeQueue.push] using h.aborted⟩
  | abort =>
    exact ⟨.abort h.fifo, by simpa [SafeQueue.abort] using hc, by simp [SafeQueue.abort]⟩
  | pop =>
    cases hq : q.queue with
    | nil =>
      have ha : q.aborted = true := by simpa [ready, hq] using hg
      rw [hq, List.append_nil] at hc
      simp only [body_pop, pop_of_nil hq]
      exact ⟨.drained h.fifo (h.aborted.mp ha) hc.symm, by simp [hq, hc],
        by simpa using h.aborted⟩
    | cons item rest =>
      rw [hq] at hc
      simp only [body_pop, pop_of_cons hq]
      exact ⟨.pop h.fifo hc.symm, by simp [← hc], by simpa using h.aborted⟩

/-- Any sequential execution of the critical sections is a FIFO history. -/
theorem represents_of_sequential {history : List (Op × Reply)} {q : SafeQueue}
    (h : monitor.Sequential empty history q) : Represents history q := by
  induction h with
  | nil => exact ⟨.nil, rfl, by simp [empty, Aborted]⟩
  | snoc _ hg ih => exact ih.body _ hg

section Threads

variable {τ : Type} [DecidableEq τ] [Fintype τ]

/-- All interleavings of the threads on a fresh queue. -/
abbrev threads (τ : Type) [DecidableEq τ] [Fintype τ] :
    Machine (Monitor.State τ SafeQueue Op Reply) (Monitor.Action τ Op) :=
  monitor.machine τ empty

theorem represents_of_reachable {s : Monitor.State τ SafeQueue Op Reply}
    (h : (threads τ).Reachable s) : Represents s.history s.data :=
  represents_of_sequential (monitor.sequential_of_reachable h)

/-- Whatever the threads and their interleaving, the critical sections form a
sequential FIFO history: no record is lost, duplicated, reordered or altered,
and a pop comes back empty only after an abort with everything removed. -/
theorem refines_fifo {s : Monitor.State τ SafeQueue Op Reply} (h : (threads τ).Reachable s) :
    Fifo s.history ∧
    removed s.history ++ s.data.queue = pushed s.history ∧
    ∀ before after, s.history = before ++ (.pop, .popped none) :: after →
      Aborted before ∧ removed before = pushed before := by
  have hr := represents_of_reachable h
  exact ⟨hr.fifo, hr.contents, fun before after he => hr.fifo.drained_before he⟩

/-- Thread 0 waits until thread 1 pushes, and its second pop ends at an abort. -/
def handover (record : Record) : List (Monitor.Action (Fin 2) Op) :=
  [.call 0 .pop, .acquire 0, .test 0,
    .call 1 (.push record), .acquire 1, .test 1, .notify 1 (some 0), .release 1,
    .acquire 0, .test 0, .notify 0 none, .release 0,
    .call 0 .pop, .acquire 0, .test 0,
    .call 1 .abort, .acquire 1, .test 1, .notify 1 none, .release 1,
    .acquire 0, .test 0]

theorem refines_fifo_handover :
    ∃ s : Monitor.State (Fin 2) SafeQueue Op Reply,
      s.history = [(.push [7], .done), (.pop, .popped (some [7])),
        (.abort, .done), (.pop, .popped none)] ∧
      Fifo s.history ∧
      removed s.history ++ s.data.queue = pushed s.history ∧
      ∀ before after, s.history = before ++ (.pop, .popped none) :: after →
        Aborted before ∧ removed before = pushed before :=
  ⟨_, rfl, refines_fifo ⟨handover [7], rfl⟩⟩

/-! ## No lost wakeup -/

/-- A queued record counts as one permit, and an abort closes the monitor. -/
def permits : Monitor.Permits monitor where
  permits q := q.queue.length
  closed q := q.aborted
  waits o := o == .pop
  guard_of_not_waits o q hw := by cases o <;> simp_all
  of_guard_false o q hg := by cases o <;> simp_all [ready]
  takes o q hw hg hc := by
    cases o <;> simp_all [ready]
    obtain ⟨item, rest, hq⟩ := List.exists_cons_of_ne_nil hg
    simp [pop_of_cons hq, hq]
  releases o q _ hs := by cases o <;> simp_all [push]
  silent o q hw hs := by cases o <;> simp_all
  closes o q hs := by cases o <;> simp_all [push]
  stays o q hc := by cases o <;> simp_all [push, abort]

/-- The consumers that were woken and have not tested their predicate again. -/
def wokenConsumers (s : Monitor.State τ SafeQueue Op Reply) : Nat :=
  (Finset.univ.filter fun t => s.pc t = .woken .pop).card

/-- Some consumer sleeps, and so does every thread that is inside a pop. -/
def AllConsumersAsleep (s : Monitor.State τ SafeQueue Op Reply) : Prop :=
  (∃ t, s.pc t = .asleep .pop) ∧ ∀ t, (s.pc t).op = some .pop → s.pc t = .asleep .pop

/-- Only consumers are ever woken. -/
theorem wokenCount_eq {s : Monitor.State τ SafeQueue Op Reply} (h : (threads τ).Reachable s) :
    Monitor.wokenCount s = wokenConsumers s := by
  unfold Monitor.wokenCount wokenConsumers
  congr 1
  apply Finset.filter_congr
  intro t _
  constructor
  · intro ht
    cases hp : s.pc t <;> simp only [hp, Monitor.Pc.isWoken, Bool.false_eq_true] at ht
    rename_i o
    have hw := (permits.accounts_of_reachable h).sleepers t o (Or.inr hp)
    rw [beq_iff_eq.mp hw]
  · intro ht
    simp [ht, Monitor.Pc.isWoken]

/-- When all consumers sleep next to a record or an abort, the holder of the
mutex has yet to notify. -/
theorem notifying_of_allConsumersAsleep {s : Monitor.State τ SafeQueue Op Reply}
    (h : (threads τ).Reachable s) (hall : AllConsumersAsleep s)
    (hwork : s.data.queue ≠ [] ∨ s.data.aborted = true) :
    ∃ t o r, s.owner = some t ∧ s.pc t = .notifying o r ∧ monitor.signal o ≠ .none := by
  obtain ⟨⟨t, ht⟩, hop⟩ := hall
  have hacc := permits.accounts_of_reachable h
  have hsome : ¬ Monitor.NoneAsleep s := fun hn => by
    have := hn t
    simp [ht, Monitor.Pc.isAsleep] at this
  have hbroadcast : Monitor.Permits.Broadcasting monitor s →
      ∃ t o r, s.owner = some t ∧ s.pc t = .notifying o r ∧ monitor.signal o ≠ .none := by
    rintro ⟨u, o, r, hu, hp, hs⟩
    exact ⟨u, o, r, hu, hp, by simp [hs]⟩
  cases hc : s.data.aborted with
  | true => exact hbroadcast ((hacc.closedAwake hc).resolve_left hsome)
  | false =>
    have hne : s.data.queue ≠ [] := hwork.resolve_right (by simp [hc])
    rcases hacc.covered hc with hn | hb | hle
    · exact absurd hn hsome
    · exact hbroadcast hb
    · -- Nobody is woken, so the holder accounts for the queued record.
      have hzero : Monitor.wokenCount s = 0 := by
        rw [wokenCount_eq h, wokenConsumers, Finset.card_eq_zero, Finset.filter_eq_empty_iff]
        intro u _ hu
        have := hop u (by simp [hu, Monitor.Pc.op])
        simp [hu] at this
      have hpos : 0 < permits.slack s := by
        have : 0 < s.data.queue.length := List.length_pos_iff.mpr hne
        have : s.data.queue.length ≤ Monitor.wokenCount s + permits.slack s := hle
        omega
      unfold Monitor.Permits.slack at hpos
      cases hown : s.owner with
      | none => simp [hown] at hpos
      | some u =>
        simp only [hown] at hpos
        cases hp : s.pc u <;> simp only [hp, Monitor.Permits.slackOf, Nat.lt_irrefl] at hpos
        case holding o =>
          -- A holder that waits would be a consumer that does not sleep.
          have ho : o = .pop := by
            by_contra hno
            simp [permits, beq_eq_false_iff_ne.mpr hno] at hpos
          have := hop u (by simp [hp, ho, Monitor.Pc.op])
          simp [hp] at this
        case notifying o r =>
          refine ⟨u, o, r, rfl, hp, ?_⟩
          intro hs
          simp [hs] at hpos

/-- With the mutex free, an aborted queue has an empty wait set, and next to a
sleeping consumer every queued record has a woken consumer that will test its
predicate again. So no consumer is left asleep beside a record or an abort; the
only moment at which all of them sleep there is the one inside `push` or
`abort`, before the notification. -/
theorem no_lost_wakeup {s : Monitor.State τ SafeQueue Op Reply} (h : (threads τ).Reachable s) :
    (s.owner = none →
      (s.data.aborted = true → ∀ t, (s.pc t).isAsleep = false) ∧
      (s.data.aborted = false → (∃ t, (s.pc t).isAsleep = true) →
        s.data.queue.length ≤ wokenConsumers s) ∧
      ¬ (AllConsumersAsleep s ∧ (s.data.queue ≠ [] ∨ s.data.aborted = true))) ∧
    (AllConsumersAsleep s → s.data.queue ≠ [] ∨ s.data.aborted = true →
      ∃ t o r, s.owner = some t ∧ s.pc t = .notifying o r ∧ monitor.signal o ≠ .none) := by
  refine ⟨fun hfree => ⟨fun hc => ?_, fun hc hsome => ?_, ?_⟩,
    fun hall hwork => notifying_of_allConsumersAsleep h hall hwork⟩
  · exact permits.noneAsleep_of_closed h hfree hc
  · obtain ⟨t, ht⟩ := hsome
    have hnot : ¬ Monitor.NoneAsleep s := fun hn => by simp [hn t] at ht
    rw [← wokenCount_eq h]
    exact permits.permits_le_wokenCount h hfree hc hnot
  · rintro ⟨hall, hwork⟩
    obtain ⟨t, _, _, ht, _⟩ := notifying_of_allConsumersAsleep h hall hwork
    simp [hfree] at ht

/-- Two consumers sleep, one record is pushed, and the mutex is free again. -/
def oneWoken (record : Record) : List (Monitor.Action (Fin 3) Op) :=
  [.call 0 .pop, .acquire 0, .test 0, .call 1 .pop, .acquire 1, .test 1,
    .call 2 (.push record), .acquire 2, .test 2, .notify 2 (some 1), .release 2]

theorem no_lost_wakeup_oneWoken :
    ∃ s : Monitor.State (Fin 3) SafeQueue Op Reply,
      (s.owner = none ∧ s.pc 0 = .asleep .pop ∧ s.data = ⟨[[7]], false⟩) ∧
      (s.owner = none →
        (s.data.aborted = true → ∀ t, (s.pc t).isAsleep = false) ∧
        (s.data.aborted = false → (∃ t, (s.pc t).isAsleep = true) →
          s.data.queue.length ≤ wokenConsumers s) ∧
        ¬ (AllConsumersAsleep s ∧ (s.data.queue ≠ [] ∨ s.data.aborted = true))) ∧
      (AllConsumersAsleep s → s.data.queue ≠ [] ∨ s.data.aborted = true →
        ∃ t o r, s.owner = some t ∧ s.pc t = .notifying o r ∧ monitor.signal o ≠ .none) :=
  ⟨_, ⟨rfl, rfl, rfl⟩, no_lost_wakeup ⟨oneWoken [7], rfl⟩⟩

end Threads

end SafeQueue

end IndustrialIot.Gateway
