import IndustrialIot.Gateway.SafeQueue

/-!
# The gateway service process

`main`, the worker thread, Paho's callback thread and the termination signals
as one interleaved machine. Every critical section of the queue is one step; a
simulation shows each of them to be a run of the queue's own monitor, so what
holds of every interleaving of that monitor holds here.

The broker and the operating system appear as labels. A process that a signal
ends before its handler is installed takes no further step, so that signal is
not a label.
-/

namespace IndustrialIot.Gateway.Service

open SafeQueue (Op Reply)

/-- The signals `main` installs a handler for. -/
inductive Interrupt where
  | sigint
  | sigterm
  deriving DecidableEq, Repr

/-- The next statement of `main`. -/
inductive MainPc where
  /-- `std::signal(SIGINT, signal_handler)` -/
  | installSigint
  /-- `std::signal(SIGTERM, signal_handler)` -/
  | installSigterm
  /-- The constructor of `worker_thread`. -/
  | startWorker
  /-- The constructor of `mqtt_handler`. -/
  | constructClient
  /-- `client_->connect(conn_opts)` -/
  | connect
  /-- `->wait()` on the connect token. -/
  | awaitConnack
  /-- `client_->subscribe("industrial/telemetry/#", 1)` -/
  | subscribe
  /-- The test of the idle loop. -/
  | testRunning
  /-- The one-second sleep of the idle loop. -/
  | sleeping
  /-- `telemetry_queue.abort()` -/
  | abort
  /-- `worker_thread.join()` -/
  | join
  /-- `~MqttWrapper`, which runs when `main` leaves its scope. -/
  | disconnect
  /-- `main` has returned. -/
  | returned
  deriving DecidableEq, Repr

/-- Where the worker thread stands. -/
inductive WorkerPc where
  | notStarted
  /-- The test of `while (running)`. -/
  | testRunning
  /-- About to enter `pop`. -/
  | popping
  /-- In the wait set of the condition variable. -/
  | asleep
  /-- Woken inside `pop`, predicate not yet tested again. -/
  | woken
  /-- Holds a popped record and is about to call `ParseFromString`. -/
  | parsing (record : Record)
  /-- Out of the loop, before the last message. -/
  | leaving
  | exited
  deriving DecidableEq, Repr

/-- What became of the SUBSCRIBE packet. -/
inductive Subscription where
  | unsent
  | requested
  | granted
  | refused
  deriving DecidableEq, Repr

/-- The Paho client as far as the program can tell. -/
structure Client where
  connected : Bool
  subscription : Subscription
  deriving DecidableEq, Repr

/-- The process. `connects`, `history` and `parsed` are ghost fields. -/
structure State where
  /-- The atomic flag `running`. -/
  running : Bool
  /-- The protected fields of `telemetry_queue`. -/
  queue : SafeQueue
  main : MainPc
  worker : WorkerPc
  client : Client
  /-- The calls of `client_->connect` so far. -/
  connects : Nat
  /-- The critical sections of the queue run so far. -/
  history : List (Op × Reply)
  /-- The records handed to `ParseFromString`, in order. -/
  parsed : List Record
  deriving DecidableEq, Repr

/-- One step. The flag of `main` is the outcome of `wait()` or of `subscribe`,
`false` when the call throws; a `wait()` that gets no CONNACK throws as well. -/
inductive Action where
  | signal (i : Interrupt)
  | main (ok : Bool)
  | worker
  | spurious
  | messageArrived (record : Record)
  | suback (granted : Bool)
  | connectionLost
  deriving DecidableEq, Repr

/-- Has the handler of the signal been installed? -/
def MainPc.handles : MainPc → Interrupt → Bool
  | installSigint, _ => false
  | installSigterm, i => i == .sigint
  | returned, _ => false
  | _, _ => true

/-- Between the constructor and the destructor of the Paho client. -/
def MainPc.clientAlive : MainPc → Bool
  | installSigint | installSigterm | startWorker | constructClient | returned => false
  | _ => true

/-- The effect of a notification on the only thread that ever waits. -/
def WorkerPc.rouse : WorkerPc → WorkerPc
  | asleep => woken
  | p => p

/-- The part of `main` before the worker thread exists. -/
def MainPc.beforeWorker : MainPc → Bool
  | installSigint | installSigterm | startWorker => true
  | _ => false

/-- Has the worker left its loop? -/
def WorkerPc.left : WorkerPc → Bool
  | leaving | exited => true
  | _ => false

/-- The next step of `main`. -/
def stepMain (s : State) (ok : Bool) : Option State :=
  match s.main with
  | .installSigint => some { s with main := .installSigterm }
  | .installSigterm => some { s with main := .startWorker }
  | .startWorker => some { s with main := .constructClient, worker := .testRunning }
  | .constructClient => some { s with main := .connect }
  | .connect => some { s with main := .awaitConnack, connects := s.connects + 1 }
  | .awaitConnack =>
    if ok then
      some { s with main := .subscribe, client := { s.client with connected := true } }
    else
      -- `catch (...) { return false; }`, and the result has no else branch.
      some { s with main := .testRunning }
  | .subscribe =>
    if ok then
      if s.client.connected then
        some { s with
          main := .testRunning
          client := { s.client with subscription := .requested } }
      else none
    else some { s with main := .testRunning }
  | .testRunning => some { s with main := if s.running then .sleeping else .abort }
  | .sleeping => some { s with main := .testRunning }
  | .abort =>
    some { s with
      main := .join
      queue := s.queue.abort
      worker := s.worker.rouse
      history := s.history ++ [(.abort, .done)] }
  | .join => if s.worker = .exited then some { s with main := .disconnect } else none
  | .disconnect =>
    some { s with main := .returned, client := { s.client with connected := false } }
  | .returned => none

/-- The next step of the worker thread. -/
def stepWorker (s : State) : Option State :=
  match s.worker with
  | .testRunning => some { s with worker := if s.running then .popping else .leaving }
  | .popping | .woken =>
    if s.queue.ready then
      some { s with
        queue := s.queue.pop.2
        worker :=
          match s.queue.pop.1 with
          | some record => .parsing record
          | none => .leaving
        history := s.history ++ [(.pop, .popped s.queue.pop.1)] }
    else some { s with worker := .asleep }
  | .parsing record =>
    some { s with worker := .testRunning, parsed := s.parsed ++ [record] }
  | .leaving => some { s with worker := .exited }
  | .notStarted | .asleep | .exited => none

/-- One step of the process or of its environment. -/
def step (s : State) : Action → Option State
  | .signal i => if s.main.handles i then some { s with running := false } else none
  | .main ok => stepMain s ok
  | .worker => stepWorker s
  | .spurious => if s.worker = .asleep then some { s with worker := .woken } else none
  | .messageArrived record =>
    -- Paho may deliver before the SUBACK and after the connection is gone.
    if s.main.clientAlive && s.client.subscription != .unsent then
      some { s with
        queue := s.queue.push record
        worker := s.worker.rouse
        history := s.history ++ [(.push record, .done)] }
    else none
  | .suback granted =>
    if s.client.connected && s.client.subscription == .requested then
      some { s with
        client :=
          { s.client with subscription := if granted then .granted else .refused } }
    else none
  | .connectionLost =>
    if s.client.connected then
      some { s with client := { s.client with connected := false } }
    else none

/-- The process at the entry of `main`. -/
def start : State where
  running := true
  queue := SafeQueue.empty
  main := .installSigint
  worker := .notStarted
  client := ⟨false, .unsent⟩
  connects := 0
  history := []
  parsed := []

/-- All interleavings of the process with its environment. -/
def machine : Machine State Action := ⟨start, step⟩

/-- What one step does, one constructor for each branch of `step`. -/
inductive Step (s : State) : Action → State → Prop
  | signal (i) (h : s.main.handles i = true) :
      Step s (.signal i) { s with running := false }
  | installSigint (ok) (h : s.main = .installSigint) :
      Step s (.main ok) { s with main := .installSigterm }
  | installSigterm (ok) (h : s.main = .installSigterm) :
      Step s (.main ok) { s with main := .startWorker }
  | startWorker (ok) (h : s.main = .startWorker) :
      Step s (.main ok) { s with main := .constructClient, worker := .testRunning }
  | constructClient (ok) (h : s.main = .constructClient) :
      Step s (.main ok) { s with main := .connect }
  | connect (ok) (h : s.main = .connect) :
      Step s (.main ok) { s with main := .awaitConnack, connects := s.connects + 1 }
  | connackAccepted (h : s.main = .awaitConnack) :
      Step s (.main true)
        { s with main := .subscribe, client := { s.client with connected := true } }
  | connackFailed (h : s.main = .awaitConnack) :
      Step s (.main false) { s with main := .testRunning }
  | subscribeSent (h : s.main = .subscribe) (hc : s.client.connected = true) :
      Step s (.main true)
        { s with main := .testRunning, client := { s.client with subscription := .requested } }
  | subscribeFailed (h : s.main = .subscribe) :
      Step s (.main false) { s with main := .testRunning }
  | keepAlive (ok) (h : s.main = .testRunning) (hr : s.running = true) :
      Step s (.main ok) { s with main := .sleeping }
  | stop (ok) (h : s.main = .testRunning) (hr : s.running = false) :
      Step s (.main ok) { s with main := .abort }
  | wakeUp (ok) (h : s.main = .sleeping) :
      Step s (.main ok) { s with main := .testRunning }
  | abort (ok) (h : s.main = .abort) :
      Step s (.main ok)
        { s with
          main := .join
          queue := s.queue.abort
          worker := s.worker.rouse
          history := s.history ++ [(.abort, .done)] }
  | join (ok) (h : s.main = .join) (hw : s.worker = .exited) :
      Step s (.main ok) { s with main := .disconnect }
  | disconnect (ok) (h : s.main = .disconnect) :
      Step s (.main ok)
        { s with main := .returned, client := { s.client with connected := false } }
  | again (h : s.worker = .testRunning) (hr : s.running = true) :
      Step s .worker { s with worker := .popping }
  | leave (h : s.worker = .testRunning) (hr : s.running = false) :
      Step s .worker { s with worker := .leaving }
  | popItem (record rest) (h : s.worker = .popping ∨ s.worker = .woken)
      (hq : s.queue.queue = record :: rest) :
      Step s .worker
        { s with
          queue := { s.queue with queue := rest }
          worker := .parsing record
          history := s.history ++ [(.pop, .popped (some record))] }
  | popNone (h : s.worker = .popping ∨ s.worker = .woken)
      (hq : s.queue.queue = []) (ha : s.queue.aborted = true) :
      Step s .worker
        { s with worker := .leaving, history := s.history ++ [(.pop, .popped none)] }
  | wait (h : s.worker = .popping ∨ s.worker = .woken)
      (hq : s.queue.queue = []) (ha : s.queue.aborted = false) :
      Step s .worker { s with worker := .asleep }
  | parse (record) (h : s.worker = .parsing record) :
      Step s .worker { s with worker := .testRunning, parsed := s.parsed ++ [record] }
  | exit (h : s.worker = .leaving) :
      Step s .worker { s with worker := .exited }
  | spurious (h : s.worker = .asleep) :
      Step s .spurious { s with worker := .woken }
  | messageArrived (record) (h : s.main.clientAlive = true)
      (hs : s.client.subscription ≠ .unsent) :
      Step s (.messageArrived record)
        { s with
          queue := s.queue.push record
          worker := s.worker.rouse
          history := s.history ++ [(.push record, .done)] }
  | suback (granted) (hc : s.client.connected = true)
      (hs : s.client.subscription = .requested) :
      Step s (.suback granted)
        { s with
          client :=
            { s.client with subscription := if granted then .granted else .refused } }
  | connectionLost (hc : s.client.connected = true) :
      Step s .connectionLost { s with client := { s.client with connected := false } }

private theorem stepMain_spec {s t : State} {ok : Bool} (h : stepMain s ok = some t) :
    Step s (.main ok) t := by
  unfold stepMain at h
  cases hm : s.main with
  | installSigint => simp only [hm] at h; cases h; exact .installSigint ok hm
  | installSigterm => simp only [hm] at h; cases h; exact .installSigterm ok hm
  | startWorker => simp only [hm] at h; cases h; exact .startWorker ok hm
  | constructClient => simp only [hm] at h; cases h; exact .constructClient ok hm
  | connect => simp only [hm] at h; cases h; exact .connect ok hm
  | awaitConnack =>
    cases ok with
    | true => simp only [hm] at h; cases h; exact .connackAccepted hm
    | false => simp only [hm] at h; cases h; exact .connackFailed hm
  | subscribe =>
    cases ok with
    | true =>
      by_cases hc : s.client.connected = true
      · simp only [hm, ite_true, if_pos hc] at h; cases h; exact .subscribeSent hm hc
      · simp [hm, hc] at h
    | false => simp only [hm] at h; cases h; exact .subscribeFailed hm
  | testRunning =>
    by_cases hr : s.running = true
    · simp only [hm, if_pos hr] at h; cases h; exact .keepAlive ok hm hr
    · simp only [hm, if_neg hr] at h; cases h; exact .stop ok hm (by simpa using hr)
  | sleeping => simp only [hm] at h; cases h; exact .wakeUp ok hm
  | abort => simp only [hm] at h; cases h; exact .abort ok hm
  | join =>
    by_cases hw : s.worker = .exited
    · simp only [hm, if_pos hw] at h; cases h; exact .join ok hm hw
    · simp [hm, hw] at h
  | disconnect => simp only [hm] at h; cases h; exact .disconnect ok hm
  | returned => simp [hm] at h

private theorem pop_spec {s t : State} (hw : s.worker = .popping ∨ s.worker = .woken)
    (h : stepWorker s = some t) : Step s .worker t := by
  have hstep : (if s.queue.ready then
      some { s with
        queue := s.queue.pop.2
        worker :=
          match s.queue.pop.1 with
          | some record => .parsing record
          | none => .leaving
        history := s.history ++ [(.pop, .popped s.queue.pop.1)] }
      else some { s with worker := .asleep }) = some t := by
    rcases hw with hw | hw <;> simpa only [stepWorker, hw] using h
  cases hq : s.queue.queue with
  | nil =>
    cases ha : s.queue.aborted with
    | true =>
      simp only [SafeQueue.ready, hq, ha, Bool.or_true, ite_true, SafeQueue.pop_of_nil hq] at hstep
      cases hstep
      exact .popNone hw hq ha
    | false =>
      simp only [SafeQueue.ready, hq, ha, List.isEmpty_nil, Bool.not_true, Bool.or_self,
        Bool.false_eq_true, ite_false] at hstep
      cases hstep
      exact .wait hw hq ha
  | cons record rest =>
    simp only [SafeQueue.ready, hq, List.isEmpty_cons, Bool.not_false, Bool.true_or, ite_true,
      SafeQueue.pop_of_cons hq] at hstep
    cases hstep
    exact .popItem record rest hw hq

private theorem stepWorker_spec {s t : State} (h : stepWorker s = some t) :
    Step s .worker t := by
  cases hw : s.worker with
  | testRunning =>
    by_cases hr : s.running = true
    · simp only [stepWorker, hw, if_pos hr] at h; cases h; exact .again hw hr
    · simp only [stepWorker, hw, if_neg hr] at h; cases h; exact .leave hw (by simpa using hr)
  | popping => exact pop_spec (Or.inl hw) h
  | woken => exact pop_spec (Or.inr hw) h
  | parsing record => simp only [stepWorker, hw] at h; cases h; exact .parse record hw
  | leaving => simp only [stepWorker, hw] at h; cases h; exact .exit hw
  | notStarted => simp [stepWorker, hw] at h
  | asleep => simp [stepWorker, hw] at h
  | exited => simp [stepWorker, hw] at h

/-- Every enabled step is one of the listed ones. -/
theorem step_spec {s t : State} {a : Action} (h : step s a = some t) : Step s a t := by
  cases a with
  | signal i =>
    simp only [step, Option.ite_none_right_eq_some, Option.some.injEq] at h
    exact h.2 ▸ .signal i h.1
  | main ok => exact stepMain_spec h
  | worker => exact stepWorker_spec h
  | spurious =>
    simp only [step, Option.ite_none_right_eq_some, Option.some.injEq] at h
    exact h.2 ▸ .spurious h.1
  | messageArrived record =>
    simp only [step, Option.ite_none_right_eq_some, Option.some.injEq, Bool.and_eq_true,
      bne_iff_ne] at h
    exact h.2 ▸ .messageArrived record h.1.1 h.1.2
  | suback granted =>
    simp only [step, Option.ite_none_right_eq_some, Option.some.injEq, Bool.and_eq_true,
      beq_iff_eq] at h
    exact h.2 ▸ .suback granted h.1.1 h.1.2
  | connectionLost =>
    simp only [step, Option.ite_none_right_eq_some, Option.some.injEq] at h
    exact h.2 ▸ .connectionLost h.1

/-! ## The queue inside the process -/

/-- The threads that use the queue. -/
inductive Thread where
  | worker
  | callback
  | main
  deriving DecidableEq, Repr

instance : Fintype Thread := ⟨{.worker, .callback, .main}, fun t => by cases t <;> decide⟩

/-- The worker's place in the queue's monitor. -/
def WorkerPc.inQueue : WorkerPc → Monitor.Pc Op Reply
  | asleep => .asleep .pop
  | woken => .woken .pop
  | _ => .idle

/-- The monitor state of the queue between two steps of the process. -/
def State.monitor (s : State) :
    Monitor.State Thread SafeQueue Op Reply where
  data := s.queue
  owner := none
  pc
    | .worker => s.worker.inQueue
    | .callback | .main => .idle
  history := s.history

private theorem monitor_pc_eq {pc : Thread → Monitor.Pc Op Reply}
    {p : WorkerPc} (hw : pc .worker = p.inQueue) (hc : pc .callback = .idle)
    (hm : pc .main = .idle) :
    pc = fun | .worker => p.inQueue | .callback | .main => .idle := by
  funext t
  cases t with
  | worker => exact hw
  | callback => exact hc
  | main => exact hm

/-- `pop` from its entry or from a wakeup, as steps of the monitor. -/
private theorem exec_pop {s : State} (h : s.worker = .popping ∨ s.worker = .woken)
    {q : SafeQueue} {p : WorkerPc} {history : List (Op × Reply)}
    (as : List (Monitor.Action Thread Op))
    (hexec : ∀ pc : Thread → Monitor.Pc Op Reply,
      (pc .worker).contending = some .pop → pc .callback = .idle → pc .main = .idle →
      (SafeQueue.threads Thread).exec ⟨s.queue, none, pc, s.history⟩ as =
        some ⟨q, none, Function.update pc .worker p.inQueue, history⟩) :
    ∃ bs, (SafeQueue.threads Thread).exec s.monitor bs =
      some { s with queue := q, worker := p, history := history }.monitor := by
  rcases h with h | h
  · refine ⟨.call .worker .pop :: as, ?_⟩
    rw [Monitor.exec_call _ _ _ (by simp [State.monitor, h, WorkerPc.inQueue])]
    refine (hexec _ (by simp [Monitor.Pc.contending]) rfl rfl).trans (congrArg some ?_)
    simp only [State.monitor, Monitor.State.mk.injEq, true_and, and_true]
    exact monitor_pc_eq (by simp) rfl rfl
  · refine ⟨as, ?_⟩
    refine (hexec _ (by simp [h, WorkerPc.inQueue, Monitor.Pc.contending])
      rfl rfl).trans (congrArg some ?_)
    simp only [State.monitor, Monitor.State.mk.injEq, true_and, and_true]
    exact monitor_pc_eq (by simp) rfl rfl

/-- `push` or `abort` by a thread that never waits, as steps of the monitor. -/
private theorem exec_notify (s : State) {u : Thread} (hu : u ≠ .worker) (o : Op)
    {w : Option Thread} (hg : SafeQueue.monitor.guard o s.queue = true)
    (hw : ∀ pc : Thread → Monitor.Pc Op Reply,
      pc .worker = s.worker.inQueue → (∀ t, t ≠ .worker → (pc t).isAsleep = false) →
      Monitor.wake (SafeQueue.monitor.signal o) w pc =
        some (Function.update pc .worker s.worker.rouse.inQueue)) :
    ∃ bs, (SafeQueue.threads Thread).exec s.monitor bs =
      some { s with
        queue := (SafeQueue.monitor.body o s.queue).2
        worker := s.worker.rouse
        history := s.history ++ [(o, (SafeQueue.monitor.body o s.queue).1)] }.monitor := by
  have hidle : s.monitor.pc u = .idle := by cases u <;> simp_all [State.monitor]
  have hwake := hw (Function.update (Function.update s.monitor.pc u (.entering o)) u
      (.notifying o (SafeQueue.monitor.body o s.queue).1))
    (by simp [Function.update_of_ne hu.symm, State.monitor])
    (fun t ht => by
      by_cases he : t = u
      · subst he
        simp [Monitor.Pc.isAsleep]
      · rw [Function.update_of_ne he, Function.update_of_ne he]
        cases t <;> simp_all [State.monitor, Monitor.Pc.isAsleep])
  refine ⟨[.call u o, .acquire u, .test u, .notify u w, .release u], ?_⟩
  rw [Monitor.exec_call _ _ _ hidle]
  refine (Monitor.exec_critical SafeQueue.monitor rfl (by simp [Monitor.Pc.contending]) hg
    hwake).trans (congrArg some ?_)
  simp only [State.monitor, Monitor.State.mk.injEq, true_and, and_true]
  apply monitor_pc_eq
  all_goals cases u <;> simp_all [Function.update]

/-- A push wakes the worker when it sleeps. -/
private theorem exec_push (s : State) (record : Record) :
    ∃ bs, (SafeQueue.threads Thread).exec s.monitor bs =
      some { s with
        queue := s.queue.push record
        worker := s.worker.rouse
        history := s.history ++ [(Op.push record, Reply.done)] }.monitor := by
  apply exec_notify s (u := .callback) (by decide) (.push record)
    (w := if s.worker = .asleep then some .worker else none) rfl
  intro pc hworker hothers
  by_cases hs : s.worker = .asleep
  · simp [Monitor.wake, hs, hworker, WorkerPc.inQueue, WorkerPc.rouse]
  · have hrouse : s.worker.rouse = s.worker := by
      cases hw : s.worker <;> simp_all [WorkerPc.rouse]
    have hnone : ∀ t, (pc t).isAsleep = false := by
      intro t
      by_cases ht : t = .worker
      · rw [ht, hworker]
        cases hw : s.worker <;> simp_all [WorkerPc.inQueue, Monitor.Pc.isAsleep]
      · exact hothers t ht
    simp [Monitor.wake, hs, hnone, hrouse, ← hworker]

/-- An abort wakes the worker when it sleeps. -/
private theorem exec_abort (s : State) :
    ∃ bs, (SafeQueue.threads Thread).exec s.monitor bs =
      some { s with
        queue := s.queue.abort
        worker := s.worker.rouse
        history := s.history ++ [(Op.abort, Reply.done)] }.monitor := by
  apply exec_notify s (u := .main) (by decide) .abort (w := none) rfl
  intro pc hworker hothers
  simp only [SafeQueue.signal_abort, Monitor.wake, Option.some.injEq]
  funext t
  by_cases ht : t = .worker
  · rw [ht, Function.update_self, hworker]
    cases hw : s.worker <;> rfl
  · rw [Function.update_of_ne ht]
    have := hothers t ht
    cases hp : pc t <;> simp_all [Monitor.Pc.rouse, Monitor.Pc.isAsleep]

/-- The worker exists from the moment `main` has started it. -/
theorem worker_notStarted_iff {s : State} (h : machine.Reachable s) :
    s.worker = .notStarted ↔ s.main.beforeWorker = true := by
  apply h.invariant (P := fun s => s.worker = .notStarted ↔ s.main.beforeWorker = true)
  · simp [machine, start, MainPc.beforeWorker]
  · intro s a t _ hs ht
    have hrouse : s.worker.rouse = .notStarted ↔ s.worker = .notStarted := by
      cases s.worker <;> simp [WorkerPc.rouse]
    have hpop : s.worker = .popping ∨ s.worker = .woken → s.main.beforeWorker = false := by
      intro hw
      rw [← Bool.not_eq_true, ← hs]
      rcases hw with hw | hw <;> simp [hw]
    cases step_spec ht with
    | signal | suback | connectionLost => exact hs
    | messageArrived => exact hrouse.trans hs
    | popItem record rest h hq => simp [hpop h]
    | popNone h hq ha => simp [hpop h]
    | wait h hq ha => simp [hpop h]
    | again h | leave h | parse _ h | exit h | spurious h =>
      simp only [h, reduceCtorEq, false_iff] at hs ⊢
      exact hs
    | _ => simp_all [MainPc.beforeWorker]

/-- Every step of the process is a run of the queue's monitor: the critical
sections are its threads' steps, and the other steps do not touch it. -/
theorem simulation : Machine.Simulation machine (SafeQueue.threads Thread) State.monitor where
  init := by
    simp only [machine, start, State.monitor, Monitor.machine, Monitor.start,
      Monitor.State.mk.injEq, true_and, and_true]
    exact (monitor_pc_eq (p := .notStarted) rfl rfl rfl).symm
  step s a t hreach ht := by
    have hstay : ∀ {p : WorkerPc}, s.worker.inQueue = p.inQueue →
        (SafeQueue.threads Thread).exec s.monitor [] = some { s with worker := p }.monitor := by
      intro p hp
      simp only [Machine.exec_nil, State.monitor, hp]
    cases step_spec ht with
    | abort ok h => exact exec_abort s
    | messageArrived record h hs => exact exec_push s record
    | popItem record rest h hq =>
      apply exec_pop h [.acquire .worker, .test .worker, .notify .worker none, .release .worker]
      intro pc hc _ _
      have hrun := Monitor.exec_critical (d := SafeQueue.empty) (w := none)
        (s := ⟨s.queue, none, pc, s.history⟩) SafeQueue.monitor rfl hc
        (by simp [SafeQueue.ready, hq]) rfl
      simpa [SafeQueue.pop_of_cons hq, WorkerPc.inQueue] using hrun
    | popNone h hq ha =>
      apply exec_pop h [.acquire .worker, .test .worker, .notify .worker none, .release .worker]
      intro pc hc _ _
      have hrun := Monitor.exec_critical (d := SafeQueue.empty) (w := none)
        (s := ⟨s.queue, none, pc, s.history⟩) SafeQueue.monitor rfl hc
        (by simp [SafeQueue.ready, ha]) rfl
      simpa [SafeQueue.pop_of_nil hq, WorkerPc.inQueue] using hrun
    | wait h hq ha =>
      apply exec_pop h [.acquire .worker, .test .worker]
      intro pc hc _ _
      exact Monitor.exec_critical_sleep SafeQueue.monitor rfl hc
        (SafeQueue.ready_eq_false.mpr ⟨hq, ha⟩)
    | spurious h =>
      refine ⟨[.spurious .worker], ?_⟩
      simp only [Machine.exec_singleton, Monitor.machine, Monitor.step, State.monitor, h,
        WorkerPc.inQueue, Option.some.injEq, Monitor.State.mk.injEq, true_and, and_true]
      exact monitor_pc_eq (p := .woken) rfl rfl rfl
    | startWorker ok h =>
      have hw := (worker_notStarted_iff hreach).mpr (by simp [h, MainPc.beforeWorker])
      exact ⟨[], hstay (by rw [hw]; rfl)⟩
    | again h hr => exact ⟨[], hstay (by rw [h]; rfl)⟩
    | leave h hr => exact ⟨[], hstay (by rw [h]; rfl)⟩
    | parse record h => exact ⟨[], hstay (by rw [h]; rfl)⟩
    | exit h => exact ⟨[], hstay (by rw [h]; rfl)⟩
    | _ => exact ⟨[], rfl⟩

end IndustrialIot.Gateway.Service
