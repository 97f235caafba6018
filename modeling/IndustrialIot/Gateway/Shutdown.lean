import IndustrialIot.Gateway.Service

/-!
# Shutting the gateway service down

The stop condition lives in two places: the flag `running`, which the signal
handler clears and both loops test, and the queue's abort flag, which only
`main` sets. One invariant orders the two with the program points of `main` and
of the worker. From it follow that the worker never leaves its loop early, that
it pops at most once more after the flag is cleared, and that `main` never
waits for a worker nobody is going to wake. What the protocol does not
guarantee is that the queue is empty when the worker leaves.
-/

namespace IndustrialIot.Gateway.Service

open SafeQueue (Op Reply pushed removed)

/-- `main` has left its idle loop. -/
def MainPc.pastLoop : MainPc → Bool
  | abort | join | disconnect | returned => true
  | _ => false

/-- `main` has aborted the queue. -/
def MainPc.pastAbort : MainPc → Bool
  | join | disconnect | returned => true
  | _ => false

/-- `main` has joined the worker. -/
def MainPc.pastJoin : MainPc → Bool
  | disconnect | returned => true
  | _ => false

/-- How the two stop flags and the program points of both threads fit together. -/
structure Ordered (s : State) : Prop where
  pastLoop : s.main.pastLoop = true → s.running = false
  aborted : s.queue.aborted = s.main.pastAbort
  left : s.worker.left = true → s.running = false
  joined : s.main.pastJoin = true → s.worker = .exited

private theorem left_rouse (p : WorkerPc) : p.rouse.left = p.left := by
  cases p <;> rfl

private theorem exited_rouse {p : WorkerPc} (h : p = .exited) : p.rouse = .exited := by
  rw [h]
  rfl

/-- Leaving `main`'s loop comes before the abort, and the abort before the join. -/
private theorem MainPc.pastLoop_of_pastAbort {p : MainPc} (h : p.pastAbort = true) :
    p.pastLoop = true := by
  cases p <;> simp_all [MainPc.pastAbort, MainPc.pastLoop]

/-- A worker that has not exited moves. -/
private theorem Ordered.worker {s t : State} (hs : Ordered s) (hm : t.main = s.main)
    (hr : t.running = s.running) (ha : t.queue.aborted = s.queue.aborted)
    (hw : s.worker ≠ .exited) (hl : t.worker.left = true → s.running = false) : Ordered t where
  pastLoop h := hr.trans (hs.pastLoop (hm ▸ h))
  aborted := ha.trans (hs.aborted.trans (congrArg _ hm.symm))
  left h := hr.trans (hl h)
  joined h := absurd (hs.joined (hm ▸ h)) hw

theorem ordered_of_reachable {s : State} (h : machine.Reachable s) : Ordered s := by
  apply h.invariant
  · exact ⟨by simp [machine, start, MainPc.pastLoop], rfl, by simp [machine, start, WorkerPc.left],
      by simp [machine, start, MainPc.pastJoin]⟩
  · intro s a t _ hs ht
    have hpop : s.worker = .popping ∨ s.worker = .woken → s.worker ≠ .exited := by
      rintro (hw | hw) <;> simp [hw]
    cases step_spec ht with
    | signal i h => exact ⟨fun _ => rfl, hs.aborted, fun _ => rfl, hs.joined⟩
    | again h hr => exact hs.worker rfl rfl rfl (by simp [h]) (by simp [WorkerPc.left])
    | leave h hr => exact hs.worker rfl rfl rfl (by simp [h]) fun _ => hr
    | popItem record rest h hq =>
      exact hs.worker rfl rfl rfl (hpop h) (by simp [WorkerPc.left])
    | popNone h hq ha =>
      -- An empty pop means that `main` has aborted, so the flag is already cleared.
      have hstop := hs.pastLoop (MainPc.pastLoop_of_pastAbort (hs.aborted ▸ ha))
      exact hs.worker rfl rfl rfl (hpop h) fun _ => hstop
    | wait h hq ha => exact hs.worker rfl rfl rfl (hpop h) (by simp [WorkerPc.left])
    | parse record h => exact hs.worker rfl rfl rfl (by simp [h]) (by simp [WorkerPc.left])
    | exit h => exact hs.worker rfl rfl rfl (by simp [h]) fun _ => hs.left (by rw [h]; rfl)
    | spurious h => exact hs.worker rfl rfl rfl (by simp [h]) (by simp [WorkerPc.left])
    | messageArrived record h hsub =>
      exact ⟨hs.pastLoop, hs.aborted, fun hl => hs.left (by rwa [left_rouse] at hl),
        fun hj => exited_rouse (hs.joined hj)⟩
    | abort ok h =>
      exact ⟨fun _ => hs.pastLoop (by rw [h]; rfl), rfl,
        fun hl => hs.left (by rwa [left_rouse] at hl), by simp [MainPc.pastJoin]⟩
    | suback granted hc hr => exact ⟨hs.pastLoop, hs.aborted, hs.left, hs.joined⟩
    | connectionLost hc => exact ⟨hs.pastLoop, hs.aborted, hs.left, hs.joined⟩
    | _ =>
      -- What is left are the statements of `main`.
      obtain ⟨hloop, habort, hleft, hjoin⟩ := hs
      constructor <;>
        simp_all [MainPc.pastLoop, MainPc.pastAbort, MainPc.pastJoin, WorkerPc.left]

/-! ## No early exit, no late pops, no deadlock -/

/-- The number of pops that have run. -/
def State.pops (s : State) : Nat := s.history.countP fun e => e.1 == .pop

/-- Is the worker inside `pop` or about to enter it? -/
def WorkerPc.inPop : WorkerPc → Bool
  | popping | asleep | woken => true
  | _ => false

/-- Once the flag is cleared it stays so, and a pop uses up the only one in progress. -/
private theorem pops_step {s t : State} {a : Action} (hr : s.running = false)
    (h : step s a = some t) :
    t.running = false ∧ t.pops + t.worker.inPop.toNat ≤ s.pops + s.worker.inPop.toNat := by
  have hrouse : s.worker.rouse.inPop = s.worker.inPop := by cases s.worker <;> rfl
  cases step_spec h with
  | popItem record rest hw hq =>
    rcases hw with hw | hw <;> simp [State.pops, WorkerPc.inPop, hr, hw]
  | popNone hw hq ha =>
    rcases hw with hw | hw <;> simp [State.pops, WorkerPc.inPop, hr, hw]
  | wait hw hq ha =>
    rcases hw with hw | hw <;> simp [State.pops, WorkerPc.inPop, hr, hw]
  | again hw hrun => simp [hr] at hrun
  | _ => simp_all [State.pops, WorkerPc.inPop]

/-- After the flag is cleared the worker completes at most one more pop. -/
theorem pops_le_of_stopped {s t : State} {as : List Action} (hr : s.running = false)
    (h : machine.exec s as = some t) : t.pops ≤ s.pops + 1 := by
  have hrun := Machine.exec_invariant (M := machine)
    (P := fun t => t.running = false ∧
      t.pops + t.worker.inPop.toNat ≤ s.pops + s.worker.inPop.toNat)
    (fun r a t hp ht => by
      obtain ⟨hrun, hle⟩ := pops_step hp.1 ht
      exact ⟨hrun, hle.trans hp.2⟩)
    ⟨hr, le_rfl⟩ h
  have := Bool.toNat_le s.worker.inPop
  omega

/-- `main` waits for others only in the join. -/
theorem exists_step_main {s : State} (hj : s.main ≠ .join) (hr : s.main ≠ .returned) :
    ∃ t, step s (.main false) = some t := by
  cases hm : s.main <;> simp_all [step, stepMain]

/-- The worker waits for others only before its start, in the wait set and after its end. -/
theorem exists_step_worker {s : State} (hn : s.worker ≠ .notStarted)
    (ha : s.worker ≠ .asleep) (he : s.worker ≠ .exited) :
    ∃ t, step s .worker = some t := by
  cases hw : s.worker with
  | popping | woken =>
    simp only [step, stepWorker, hw]
    cases s.queue.ready <;> simp
  | _ => simp_all [step, stepWorker]

/-- An aborted queue has woken the worker. -/
theorem not_asleep_of_aborted {s : State} (h : machine.Reachable s)
    (ha : s.queue.aborted = true) : s.worker ≠ .asleep := by
  intro hw
  have hnone := SafeQueue.permits.noneAsleep_of_closed (simulation.reachable h) rfl ha .worker
  simp [State.monitor, hw, WorkerPc.inQueue, Monitor.Pc.isAsleep] at hnone

/-- While `main` joins it, the worker has exited or can take a step. -/
theorem exists_step_of_join {s : State} (h : machine.Reachable s) (hj : s.main = .join) :
    s.worker = .exited ∨ ∃ t, step s .worker = some t := by
  have ha : s.queue.aborted = true := by
    rw [(ordered_of_reachable h).aborted, hj]
    rfl
  have hn : s.worker ≠ .notStarted := fun hw => by
    have := (worker_notStarted_iff h).mp hw
    simp [hj, MainPc.beforeWorker] at this
  by_cases he : s.worker = .exited
  · exact Or.inl he
  · exact Or.inr (exists_step_worker hn (not_asleep_of_aborted h ha) he)

/-- The shutdown protocol neither ends the worker early nor deadlocks: while
`running` is set the worker is in its loop, after it is cleared at most one more
pop completes, and until `main` has returned `main` or the worker can move. -/
theorem shutdown_protocol :
    (∀ s, machine.Reachable s → s.running = true → s.worker.left = false) ∧
    (∀ s as t, machine.Reachable s → s.running = false → machine.exec s as = some t →
      t.pops ≤ s.pops + 1) ∧
    (∀ s, machine.Reachable s → s.running = false → s.main ≠ .returned →
      (∃ ok t, machine.step s (.main ok) = some t) ∨ ∃ t, machine.step s .worker = some t) := by
  refine ⟨?_, fun s as t _ hr ht => pops_le_of_stopped hr ht,
    ?_⟩
  · intro s h hr
    by_contra hl
    have := (ordered_of_reachable h).left (by simpa using hl)
    simp [hr] at this
  · intro s h hr hm
    by_cases hj : s.main = .join
    · rcases exists_step_of_join h hj with he | hw
      · exact Or.inl ⟨false, { s with main := .disconnect }, by
          simp [machine, step, stepMain, hj, he]⟩
      · exact Or.inr hw
    · exact Or.inl ⟨false, exists_step_main hj hm⟩

/-- The start of the process up to the granted subscription. -/
def connecting : List Action :=
  [.main true, .main true, .main true, .main true, .main true, .main true, .main true,
    .suback true]

/-- The worker sleeps on an empty queue when the signal arrives. -/
def stopAsleep : List Action :=
  connecting ++ [.worker, .worker, .signal .sigterm, .main true, .main true]

theorem shutdown_protocol_stopAsleep :
    ∃ s, machine.Reachable s ∧ (s.running = false ∧ s.main = .join ∧ s.worker = .woken) ∧
      (∀ as t, machine.exec s as = some t → t.pops ≤ s.pops + 1) ∧
      ((∃ ok t, machine.step s (.main ok) = some t) ∨
        ∃ t, machine.step s .worker = some t) :=
  have hreach : machine.Reachable _ := ⟨stopAsleep, rfl⟩
  ⟨_, hreach, ⟨rfl, rfl, rfl⟩, fun as t => shutdown_protocol.2.1 _ as t hreach rfl,
    shutdown_protocol.2.2 _ hreach rfl (by decide)⟩

/-! ## Which records the worker never sees -/

/-- The record the worker holds between `pop` and `ParseFromString`. -/
def WorkerPc.held : WorkerPc → List Record
  | parsing record => [record]
  | _ => []

/-- Every popped record has been parsed, except the one in the worker's hands. -/
theorem parsed_eq_removed {s : State} (h : machine.Reachable s) :
    s.parsed ++ s.worker.held = removed s.history := by
  apply h.invariant (P := fun s => s.parsed ++ s.worker.held = removed s.history)
  · rfl
  · intro s a t hreach hs ht
    have hrouse : s.worker.rouse.held = s.worker.held := by cases s.worker <;> rfl
    cases step_spec ht with
    | popItem record rest hw hq =>
      rcases hw with hw | hw <;> simp_all [WorkerPc.held]
    | popNone hw hq ha =>
      rcases hw with hw | hw <;> simp_all [WorkerPc.held]
    | wait hw hq ha =>
      rcases hw with hw | hw <;> simp_all [WorkerPc.held]
    | startWorker ok hm =>
      have hw := (worker_notStarted_iff hreach).mpr (by simp [hm, MainPc.beforeWorker])
      simp_all [WorkerPc.held]
    | _ => simp_all [WorkerPc.held]

/-- Records are queued and nobody is left to pop them. -/
def Stranded (s : State) : Prop := s.worker.left = true ∧ s.queue.queue ≠ []

/-- The condition on one step: the worker finds `running` cleared only with an
empty queue, and no message arrives once it has left its loop. -/
def Drains (s : State) : Action → Prop
  | .worker => s.worker = .testRunning → s.running = false → s.queue.queue = []
  | .messageArrived _ => s.worker.left = false
  | _ => True

/-- Records become stranded by a step that does not meet the condition, and stay so. -/
private theorem stranded_step {s t : State} {a : Action} (hreach : machine.Reachable s)
    (h : step s a = some t) : Stranded t ↔ Stranded s ∨ ¬ Drains s a := by
  cases step_spec h with
  | popItem record rest hw hq =>
    rcases hw with hw | hw <;> simp [Stranded, Drains, WorkerPc.left, hw]
  | popNone hw hq ha =>
    rcases hw with hw | hw <;> simp [Stranded, Drains, hw, hq]
  | wait hw hq ha =>
    rcases hw with hw | hw <;> simp [Stranded, Drains, WorkerPc.left, hw]
  | startWorker ok hm =>
    have hw := (worker_notStarted_iff hreach).mpr (by simp [hm, MainPc.beforeWorker])
    simp [Stranded, Drains, WorkerPc.left, hw]
  | messageArrived record hm hs =>
    simp only [Stranded, Drains, left_rouse, SafeQueue.push]
    cases s.worker.left <;> simp
  | abort ok hm => simp [Stranded, Drains, left_rouse, SafeQueue.abort]
  | leave hw hr => simp [Stranded, Drains, WorkerPc.left, hw, hr]
  | _ => simp_all [Stranded, Drains, WorkerPc.left]

/-- A run strands no record exactly when every step of it meets the condition. -/
theorem stepsMeet_drains_iff {as : List Action} {s : State}
    (h : machine.exec machine.init as = some s) :
    machine.StepsMeet Drains machine.init as ↔ ¬ Stranded s := by
  induction as using List.reverseRecOn generalizing s with
  | nil =>
    cases h
    simp [Stranded, machine, start, WorkerPc.left]
  | append_singleton as a ih =>
    obtain ⟨r, hr, hs⟩ := machine.exec_snoc_eq_some.mp h
    rw [Machine.stepsMeet_snoc_of_exec hr, ih hr, stranded_step ⟨as, hr⟩ hs, not_or, not_not]

/-- When `main` returns, every pushed record has been parsed exactly when no
record was stranded. -/
private theorem parsed_eq_pushed_iff_not_stranded {s : State} (h : machine.Reachable s)
    (hr : s.main = .returned) : s.parsed = pushed s.history ↔ ¬ Stranded s := by
  have hexit := (ordered_of_reachable h).joined (by rw [hr]; rfl)
  have hparsed := parsed_eq_removed h
  have hcontents := (SafeQueue.represents_of_reachable (simulation.reachable h)).contents
  simp only [hexit, WorkerPc.held, List.append_nil] at hparsed
  simp only [State.monitor, ← hparsed] at hcontents
  simp [Stranded, hexit, WorkerPc.left, ← hcontents]

/-- Exactly when the shutdown loses nothing: in a run that takes `main` to its
return, every record `message_arrived` pushed was handed to `ParseFromString`
if and only if the worker never found `running` cleared with records queued and
no record arrived after it had left its loop. -/
theorem parsed_eq_pushed_iff {as : List Action} {s : State}
    (h : machine.exec machine.init as = some s) (hr : s.main = .returned) :
    s.parsed = pushed s.history ↔ machine.StepsMeet Drains machine.init as := by
  rw [stepsMeet_drains_iff h]
  exact parsed_eq_pushed_iff_not_stranded ⟨as, h⟩ hr

/-- The last steps of a process whose worker has left its loop. -/
def stopping : List Action := [.worker, .main true, .main true, .main true, .main true]

/-- The signal finds an empty queue and a sleeping worker. -/
def quietStop (record : Record) : List Action :=
  connecting ++ [.worker, .messageArrived record, .worker, .worker, .worker, .worker,
    .signal .sigterm, .main true, .main true, .worker, .worker, .main true, .main true]

theorem parsed_eq_pushed_iff_quietStop :
    ∃ s, machine.exec machine.init (quietStop [8]) = some s ∧ s.parsed = [[8]] ∧
      (s.parsed = pushed s.history ↔
        machine.StepsMeet Drains machine.init (quietStop [8])) :=
  ⟨_, rfl, rfl, parsed_eq_pushed_iff rfl rfl⟩

/-- The signal finds one record in the worker's hands and one in the queue. -/
def busyStop (first second : Record) : List Action :=
  connecting ++ [.messageArrived first, .messageArrived second, .worker, .worker,
    .signal .sigterm, .worker, .worker] ++ stopping

/-- The worker tests `running` before it asks the queue again, so the second
record is acknowledged to the broker and never parsed. -/
theorem busyStop_loses_record :
    ∃ s, machine.exec machine.init (busyStop [8] [9]) = some s ∧ s.main = .returned ∧
      s.parsed = [[8]] ∧ pushed s.history = [[8], [9]] ∧
      ¬ ∀ record ∈ pushed s.history, record ∈ s.parsed :=
  ⟨_, rfl, rfl, rfl, rfl, by decide⟩

end IndustrialIot.Gateway.Service
