import IndustrialIot.Edge.Mqtt.Lifecycle

/-!
# The connection flag

`MqttManager` keeps a copy of one bit of the client's state, which it learns from events. The
copy is right whenever the API lock is free: what a task still has to execute before it
releases the lock delivers the event of every change it has made, and the only changes outside
the lock happen before the first connection and after the last.
-/

namespace IndustrialIot.Edge.Mqtt.Lifecycle

/-- What the flag depends on. -/
structure View where
  state : ClientState
  isConnected : Bool
  queue : List MqttEvent
  deriving DecidableEq, Repr

/-- The shared data the flag depends on. -/
def Shared.view (c : Shared) : View := ⟨c.state, c.isConnected, c.queue⟩

/-- Nothing is waiting for delivery and the flag tells the state. -/
def View.Agrees (v : View) : Prop :=
  v.queue = [] ∧ (v.isConnected = true ↔ v.state = .connected)

/-- The flag after the handler has seen some events. -/
def deliver (flag : Bool) (events : List MqttEvent) : Bool :=
  events.foldl (fun flag event => match event with
    | .connected => true
    | .disconnected => false
    | _ => flag) flag

/-- Where a task can be while it does not hold the lock. -/
def Outside : Kind → List Op → Prop
  | .mqttTask, code => code ∈ [espMqttTask, espMqttTask.tail, [.clearStopped, .whileRun],
    [.whileRun], [.lock, .runLoop, .switchState], [.pollRead, .whileRun],
    espMqttAbortConnection ++ [.whileRun], espMqttTaskExit, [.setStopped], []]
  | .caller .start, code => code ∈ [espMqttClientStart, []]
  | .caller .publish, code => code ∈ [[.testConnected], [.lock, .enqueuePublish], []]
  | .caller .destroy, _ => False

/-- What is left to a task after it has released the lock. -/
def Released : Kind → List Op → Prop
  | .mqttTask, code => code ∈ [[.pollRead, .whileRun], [.whileRun]]
  | .caller _, code => code = []

/-- The branches of a round that leave no statement behind. -/
def Op.branches : Op → Bool
  | .switchState | .createTransport | .connectTransport | .connect | .disconnectRequested
  | .receive | .resendQueued | .retransmit | .retransmitPubrel | .keepalive | .refresh
  | .waitReconnect => true
  | _ => false

/-- The state in which a branch is reached, where that matters. -/
def Op.state? : Op → Option ClientState
  | .createTransport => some .init
  | .waitReconnect => some .waitReconnect
  | _ => none

/-- What a task that holds the lock has still to execute puts the flag right before the lock
is free, starting from what the flag depends on. -/
def Inside (kind : Kind) : Nat → List Op → View → Prop
  | _, [], _ => False
  | depth, op :: rest, v => match op with
    | .lock => Inside kind (depth + 1) rest v
    | .unlock =>
      if depth = 1 then v.Agrees ∧ Released kind rest else Inside kind (depth - 1) rest v
    | .setRun value =>
      value = false ∧ depth = 1 ∧ rest = roundEnd ∧ kind = .mqttTask ∧ v.Agrees ∧ v.state = .init
    | .setState state => Inside kind depth rest { v with state }
    | .post event => Inside kind depth rest { v with queue := v.queue ++ [event] }
    | .runLoop => (.connected ∈ v.queue → kind = .mqttTask) ∧
      Inside kind depth rest { v with isConnected := deliver v.isConnected v.queue, queue := [] }
    | .setConnected value => Inside kind depth rest { v with isConnected := value }
    | .onConnected => kind = .mqttTask ∧ Inside kind depth rest v
    | .enqueuePublish | .testState | .sending =>
      depth = 1 ∧ rest = [] ∧ kind = .caller .publish ∧ v.Agrees
    | .createTask => depth = 1 ∧ rest = [.unlock] ∧ kind = .caller .start ∧ v.Agrees
    | op => op.branches = true ∧ depth = 1 ∧ rest = [] ∧ kind = .mqttTask ∧ v.Agrees ∧
      ∀ state ∈ op.state?, v.state = state

/-! ## Rules for the pieces of code -/

variable {kind : Kind} {depth : Nat} {rest : List Op} {v : View}

section

attribute [local simp] Inside

/-- With nothing to deliver the loop does nothing. -/
theorem inside_runLoop (hq : v.queue = []) :
    Inside kind depth (.runLoop :: rest) v ↔ Inside kind depth rest v := by
  obtain ⟨state, isConnected, queue⟩ := v
  cases hq
  simp [deliver]

/-- A dispatch delivers its event. -/
theorem inside_dispatch (hq : v.queue = []) (event : MqttEvent) :
    Inside kind depth (espMqttDispatchEvent event ++ rest) v ↔
      (event = .connected → kind = .mqttTask) ∧
        Inside kind depth rest { v with isConnected := deliver v.isConnected [event] } := by
  obtain ⟨state, isConnected, queue⟩ := v
  cases hq
  simp [espMqttDispatchEvent, eq_comm]

/-- The view an abort leaves. -/
def View.aborted : View := ⟨.waitReconnect, false, []⟩

theorem agrees_aborted : View.aborted.Agrees := ⟨rfl, by simp [View.aborted]⟩

theorem inside_abort (hq : v.queue = []) (hd : 0 < depth) :
    Inside kind depth (espMqttAbortConnection ++ rest) v ↔ Inside kind depth rest .aborted := by
  obtain ⟨state, isConnected, queue⟩ := v
  cases hq
  simp [espMqttAbortConnection, espMqttDispatchEvent, deliver, View.aborted, Nat.ne_of_gt hd]

/-- An abort that has taken the free lock. -/
theorem inside_abort_tail (hq : v.queue = []) :
    Inside kind 1 (espMqttAbortConnection.tail ++ rest) v ↔ Released kind rest := by
  obtain ⟨state, isConnected, queue⟩ := v
  cases hq
  simp [espMqttAbortConnection, espMqttDispatchEvent, deliver, View.Agrees]

end

theorem inside_failure (o : Outcome) (hq : v.queue = []) (hd : 0 < depth) :
    Inside kind depth (failure o ++ rest) v ↔ Inside kind depth rest .aborted := by
  unfold failure
  split
  · rw [List.append_assoc, inside_dispatch hq, inside_abort (by exact hq) hd]
    simp
  · exact inside_abort hq hd

@[simp] theorem inside_roundEnd : Inside .mqttTask 1 roundEnd v ↔ v.Agrees := by
  simp [roundEnd, Inside, Released]

/-- A branch of a round that is left alone with a right flag. -/
theorem inside_op {op : Op} (h : op.branches = true) (ha : v.Agrees)
    (hs : ∀ state ∈ op.state?, v.state = state) : Inside .mqttTask 1 [op] v := by
  cases op <;> simp_all [Inside, Op.branches]

private theorem inside_plain {op : Op} (h : op.branches = true) (hs : op.state? = none)
    (ha : v.Agrees) : Inside .mqttTask 1 [op] v :=
  inside_op h ha (by simp [hs])

/-- A branch of a round keeps the promise on every side it can take. -/
theorem inside_branch {c c' : Shared} {n i : Nat} {o : Outcome} {op : Op} {code : List Op}
    {created : List Thread} (hop : op.branches = true) (ha : c.view.Agrees)
    (hs : ∀ state ∈ op.state?, c.state = state)
    (hx : exec c n i o op = some (c', code, created)) :
    c' = c ∧ created = [] ∧ Inside .mqttTask 1 code c.view := by
  have hq : c.view.queue = [] := ha.1
  have hfail : ∀ rest, Inside .mqttTask 1 rest .aborted →
      Inside .mqttTask 1 (failure o ++ rest) c.view :=
    fun rest h => (inside_failure o hq Nat.one_pos).mpr h
  have hend := inside_roundEnd.mpr agrees_aborted
  have hnext : ∀ op : Op, op.branches = true → op.state? = none →
      Inside .mqttTask 1 [op] View.aborted := fun op h hs => inside_plain h hs agrees_aborted
  cases op with
  | switchState =>
    cases hx
    refine ⟨rfl, rfl, ?_⟩
    cases hstate : c.state with
    | disconnected => exact inside_roundEnd.mpr ha
    | init => exact inside_op rfl ha (by simp [Op.state?, Shared.view, hstate])
    | connected => exact inside_plain rfl rfl ha
    | waitReconnect => exact inside_op rfl ha (by simp [Op.state?, Shared.view, hstate])
  | createTransport =>
    cases hx
    refine ⟨rfl, rfl, ?_⟩
    split
    · rw [inside_dispatch hq]
      exact ⟨by simp, inside_plain rfl rfl ha⟩
    · exact ⟨rfl, rfl, rfl, rfl, ha, hs _ rfl⟩
  | connectTransport =>
    cases hx
    refine ⟨rfl, rfl, ?_⟩
    split
    · exact inside_plain rfl rfl ha
    · rw [List.append_assoc, inside_dispatch hq, inside_abort (by exact hq) Nat.one_pos]
      exact ⟨by simp, hend⟩
  | connect =>
    cases hx
    refine ⟨rfl, rfl, ?_⟩
    split
    · rw [List.append_assoc, List.singleton_append, Inside, inside_dispatch (by exact hq),
        inside_roundEnd]
      exact ⟨fun _ => rfl, hq, by simp [deliver]⟩
    · exact hfail _ hend
  | disconnectRequested =>
    cases hx
    refine ⟨rfl, rfl, ?_⟩
    split
    · exact inside_plain rfl rfl ha
    · exact hfail _ hend
  | receive =>
    cases o with
    | ok =>
      cases hx
      exact ⟨rfl, rfl, inside_plain rfl rfl ha⟩
    | due =>
      cases hx
      refine ⟨rfl, rfl, ?_⟩
      rw [inside_dispatch hq]
      exact ⟨by simp, inside_plain rfl rfl ha⟩
    | fail | error =>
      cases hx
      exact ⟨rfl, rfl, hfail _ hend⟩
  | resendQueued =>
    cases o with
    | ok | due =>
      cases hx
      exact ⟨rfl, rfl, inside_plain rfl rfl ha⟩
    | fail | error =>
      cases hx
      exact ⟨rfl, rfl, hfail _ (hnext .keepalive rfl rfl)⟩
  | retransmit =>
    cases hx
    refine ⟨rfl, rfl, ?_⟩
    split
    · exact inside_plain rfl rfl ha
    · exact hfail _ (hnext .retransmitPubrel rfl rfl)
  | retransmitPubrel =>
    cases hx
    refine ⟨rfl, rfl, ?_⟩
    split
    · exact inside_plain rfl rfl ha
    · exact hfail _ (hnext .keepalive rfl rfl)
  | keepalive =>
    cases hx
    refine ⟨rfl, rfl, ?_⟩
    split
    · exact inside_plain rfl rfl ha
    · exact hfail _ hend
  | refresh =>
    cases hx
    refine ⟨rfl, rfl, ?_⟩
    split
    · rw [List.append_assoc, inside_abort hq Nat.one_pos, List.singleton_append, Inside,
        inside_roundEnd]
      exact ⟨rfl, by simp [View.aborted]⟩
    · exact inside_roundEnd.mpr ha
  | waitReconnect =>
    cases hx
    refine ⟨rfl, rfl, ?_⟩
    split
    · have hflag : c.isConnected = false := by
        rw [Bool.eq_false_iff]
        intro h
        have hstate := ha.2.mp h
        rw [show c.view.state = c.state from rfl, hs _ rfl] at hstate
        cases hstate
      rw [List.singleton_append, Inside, inside_roundEnd]
      exact ⟨hq, by simp [Shared.view, hflag]⟩
    · simp [Inside, Released, ha]
  | _ => simp [Op.branches] at hop

/-- Where the lock holder is after one of its statements. -/
def Holds (kind : Kind) (i : Nat) (code : List Op) (c : Shared) : Prop :=
  (c.lock = none ∧ c.view.Agrees ∧ Released kind code) ∨
    ∃ depth, 0 < depth ∧ c.lock = some (i, depth) ∧ Inside kind depth code c.view

theorem inside_exec {c c' : Shared} {n i : Nat} {o : Outcome} {op : Op} {code : List Op}
    {created : List Thread} (hl : c.lock = some (i, depth)) (hd : 0 < depth)
    (hin : Inside kind depth (op :: rest) c.view) (hop : op ≠ .createTask)
    (hx : exec c n i o op = some (c', code, created)) :
    created = [] ∧ Holds kind i (code ++ rest) c' := by
  have hbranch : op.branches = true → created = [] ∧ Holds kind i (code ++ rest) c' := by
    intro hb
    have hin' : depth = 1 ∧ rest = [] ∧ kind = .mqttTask ∧ c.view.Agrees ∧
        ∀ state ∈ op.state?, c.state = state := by
      cases op <;> simp_all [Inside, Op.branches, Shared.view]
    obtain ⟨rfl, rfl, rfl, ha, hs⟩ := hin'
    obtain ⟨rfl, rfl, hcode⟩ := inside_branch hb ha hs hx
    exact ⟨rfl, .inr ⟨1, hd, hl, by rwa [List.append_nil]⟩⟩
  cases op with
  | lock =>
    simp only [exec, hl, ite_true, Option.some.injEq, Prod.mk.injEq] at hx
    obtain ⟨rfl, rfl, rfl⟩ := hx
    exact ⟨rfl, .inr ⟨depth + 1, Nat.succ_pos _, rfl, hin⟩⟩
  | unlock =>
    obtain ⟨depth, rfl⟩ := Nat.exists_eq_succ_of_ne_zero (Nat.ne_of_gt hd)
    simp only [exec, hl, ite_true, Option.some.injEq, Prod.mk.injEq] at hx
    obtain ⟨rfl, rfl, rfl⟩ := hx
    refine ⟨rfl, ?_⟩
    cases depth with
    | zero => exact .inl ⟨rfl, hin⟩
    | succ depth => exact .inr ⟨depth + 1, Nat.succ_pos _, rfl, hin⟩
  | setRun value =>
    cases hx
    obtain ⟨rfl, rfl, rfl, rfl, ha, -⟩ := hin
    exact ⟨rfl, .inr ⟨1, hd, hl, inside_roundEnd.mpr ha⟩⟩
  | setState _ | post _ | setConnected _ =>
    cases hx
    exact ⟨rfl, .inr ⟨depth, hd, hl, hin⟩⟩
  | onConnected =>
    cases hx
    exact ⟨rfl, .inr ⟨depth, hd, hl, hin.2⟩⟩
  | runLoop =>
    obtain ⟨htask, hin⟩ := hin
    cases hq : c.queue with
    | nil =>
      simp only [exec, hq, Option.some.injEq, Prod.mk.injEq] at hx
      obtain ⟨rfl, rfl, rfl⟩ := hx
      exact ⟨rfl, .inr ⟨depth, hd, hl, (inside_runLoop hq).mp ⟨htask, hin⟩⟩⟩
    | cons event queue =>
      simp only [exec, hq, Option.some.injEq, Prod.mk.injEq] at hx
      obtain ⟨rfl, rfl, rfl⟩ := hx
      rw [show c.view.queue = event :: queue from hq] at hin htask
      refine ⟨rfl, .inr ⟨depth, hd, hl, ?_⟩⟩
      have hrest : .connected ∈ queue → kind = .mqttTask :=
        fun h => htask (List.mem_cons_of_mem _ h)
      cases event with
      | connected => exact ⟨htask List.mem_cons_self, hrest, hin⟩
      | disconnected | error | other => exact ⟨hrest, hin⟩
  | enqueuePublish | testState =>
    cases hx
    obtain ⟨rfl, rfl, rfl, ha⟩ := hin
    refine ⟨rfl, .inr ⟨1, hd, hl, ?_⟩⟩
    split
    · exact ⟨rfl, rfl, rfl, ha⟩
    · exact ⟨ha, rfl⟩
  | sending =>
    cases hx
    obtain ⟨rfl, rfl, rfl, ha⟩ := hin
    refine ⟨rfl, .inr ⟨1, hd, hl, ?_⟩⟩
    rw [List.append_nil]
    split
    · exact ⟨ha, rfl⟩
    · exact (inside_failure o ha.1 hd).mpr ⟨agrees_aborted, rfl⟩
  | createTask => exact absurd rfl hop
  | clearStopped | setStopped | whileRun | pollRead | testConnected | testStop | waitStopped
  | testRun | free =>
    -- No lock holder is about to execute one of these.
    simp [Inside, Op.branches] at hin
  | _ => exact hbranch rfl

/-! ## The invariant of a manager that is started once -/

/-- The task is the client's, or is about to create it. -/
def Thread.Creates (th : Thread) : Prop := th.kind = .mqttTask ∨ .createTask ∈ th.code

/-- Where a task is, with and without the lock. -/
def Placed (c : Shared) (i : Nat) (kind : Kind) (code : List Op) : Prop :=
  (∀ depth, c.lock = some (i, depth) → 0 < depth ∧ Inside kind depth code c.view) ∧
    ((∀ depth, c.lock ≠ some (i, depth)) → Outside kind code)

/-- What the lock holder can have left to do while the client is not running. -/
def passive : List (List Op) :=
  [[.enqueuePublish], [.testState], [.unlock], roundEnd, [.createTask, .unlock]]

/-- What the client's task can have left to do while the client is not running. -/
def leaving : List (List Op) :=
  [espMqttTask, roundEnd, [.pollRead, .whileRun], [.whileRun], espMqttTaskExit, [.setStopped], []]

/-- The client is not running, or its task has not yet set the state. -/
def Settling (s : State) : Prop :=
  s.client.run = false ∨ ∃ i : Nat, s.threads[i]? = some ⟨.mqttTask, espMqttTask.tail⟩

/-- There is no connection, and nobody is about to announce one. -/
structure Quiet (s : State) : Prop where
  state : s.client.state ≠ .connected
  flag : s.client.isConnected = false
  queue : s.client.queue = []
  owner : ∀ (i depth : Nat) (th : Thread), s.client.lock = some (i, depth) →
    s.threads[i]? = some th → depth = 1 ∧ th.code ∈ passive

/-- Quiet is a matter of what the flag depends on and of the lock holder. -/
theorem Quiet.of_view_eq {s t : State} (hq : Quiet s) (hv : t.client.view = s.client.view)
    (howner : ∀ (i depth : Nat) (th : Thread), t.client.lock = some (i, depth) →
      t.threads[i]? = some th → depth = 1 ∧ th.code ∈ passive) : Quiet t := by
  simp only [Shared.view, View.mk.injEq] at hv
  obtain ⟨hstate, hflag, hqueue⟩ := hv
  exact ⟨hstate ▸ hq.state, hflag ▸ hq.flag, hqueue ▸ hq.queue, howner⟩

/-- How the tasks and the shared data fit together. -/
structure Tracks (s : State) : Prop where
  placed : ∀ (i : Nat) (th : Thread), s.threads[i]? = some th →
    Placed s.client i th.kind th.code
  free : s.client.lock = none → s.client.view.Agrees
  owner : ∀ i depth, s.client.lock = some (i, depth) → i < s.threads.length
  kinds : ∀ (i : Nat) (th : Thread), s.threads[i]? = some th → th.kind ≠ .caller .destroy
  unique : ∀ (i j : Nat) (th th' : Thread), s.threads[i]? = some th → s.threads[j]? = some th' →
    th.Creates → th'.Creates → i = j
  unstarted : s.starts = 0 → ∀ (i : Nat) (th : Thread), s.threads[i]? = some th → ¬ th.Creates
  running : s.client.run = true →
    ∃ (i : Nat) (th : Thread), s.threads[i]? = some th ∧ th.kind = .mqttTask
  stopped : ∀ (i : Nat) (th : Thread), s.threads[i]? = some th → th.kind = .mqttTask →
    th.code = espMqttTask ∨ th.code = espMqttTaskExit → s.client.run = false
  leaves : ∀ (i : Nat) (th : Thread), s.threads[i]? = some th → th.kind = .mqttTask →
    s.client.run = false → th.code ∈ leaving
  quiet : Settling s → Quiet s

/-- A statement of one task keeps the invariant, if the task and the lock holder end up where
they belong and only the client's task touches `run`. -/
private theorem Tracks.advance {s : State} (hs : Tracks s) {i : Nat} {kind : Kind}
    {code code' : List Op} (hi : s.threads[i]? = some ⟨kind, code⟩) {c' : Shared}
    (hcreate : .createTask ∈ code' → .createTask ∈ code)
    (hplaced : Placed c' i kind code')
    (hothers : ∀ (j : Nat) (th : Thread), j ≠ i → s.threads[j]? = some th →
      Placed c' j th.kind th.code)
    (hfree : c'.lock = none → c'.view.Agrees)
    (howner : ∀ j depth, c'.lock = some (j, depth) →
      j = i ∨ ∃ depth, s.client.lock = some (j, depth))
    (hrun : c'.run = s.client.run ∨ kind = .mqttTask)
    (hstopped : kind = .mqttTask → code' = espMqttTask ∨ code' = espMqttTaskExit →
      c'.run = false)
    (hleaves : kind = .mqttTask → c'.run = false → code' ∈ leaving)
    (hquiet : Settling { s with client := c', threads := s.threads.set i ⟨kind, code'⟩ } →
      Quiet { s with client := c', threads := s.threads.set i ⟨kind, code'⟩ }) :
    Tracks { s with client := c', threads := s.threads.set i ⟨kind, code'⟩ } := by
  have hcreates : (⟨kind, code'⟩ : Thread).Creates → (⟨kind, code⟩ : Thread).Creates :=
    fun h => h.imp_right hcreate
  have hold : ∀ (j : Nat) (th : Thread), (s.threads.set i ⟨kind, code'⟩)[j]? = some th →
      ∃ th₀ : Thread, s.threads[j]? = some th₀ ∧ th₀.kind = th.kind ∧
        (th.Creates → th₀.Creates) := by
    intro j th hj
    rcases getElem?_set_cases hj with ⟨rfl, rfl⟩ | ⟨-, hj⟩
    · exact ⟨_, hi, rfl, hcreates⟩
    · exact ⟨th, hj, rfl, id⟩
  have hsame : ∀ (j : Nat) (th : Thread), j ≠ i → s.threads[j]? = some th →
      th.kind = .mqttTask → c'.run = s.client.run := by
    intro j th hne hj hk
    rcases hrun with h | h
    · exact h
    · exact absurd (hs.unique j i _ _ hj hi (.inl hk) (.inl h)) hne
  have hlt := (List.getElem?_eq_some_iff.mp hi).1
  refine ⟨?_, hfree, ?_, ?_, ?_, ?_, ?_, ?_, ?_, hquiet⟩
  · intro j th hj
    rcases getElem?_set_cases hj with ⟨rfl, rfl⟩ | ⟨hne, hj⟩
    · exact hplaced
    · exact hothers j th hne hj
  · intro j depth h
    rw [List.length_set]
    rcases howner j depth h with rfl | ⟨depth, h⟩
    · exact hlt
    · exact hs.owner j depth h
  · intro j th hj
    obtain ⟨th₀, hj, hk, -⟩ := hold j th hj
    exact hk ▸ hs.kinds j th₀ hj
  · intro j k th th' hj hk hth hth'
    obtain ⟨th₀, hj, -, hc⟩ := hold j th hj
    obtain ⟨th₁, hk, -, hc'⟩ := hold k th' hk
    exact hs.unique j k th₀ th₁ hj hk (hc hth) (hc' hth')
  · intro hz j th hj hth
    obtain ⟨th₀, hj, -, hc⟩ := hold j th hj
    exact hs.unstarted hz j th₀ hj (hc hth)
  · intro hr
    have htask : ∃ (j : Nat) (th : Thread), s.threads[j]? = some th ∧ th.kind = .mqttTask := by
      rcases hrun with h | h
      · exact hs.running (h ▸ hr)
      · exact ⟨i, _, hi, h⟩
    obtain ⟨j, th, hj, hk⟩ := htask
    by_cases hne : j = i
    · subst hne
      cases hi.symm.trans hj
      exact ⟨j, _, List.getElem?_set_self hlt, hk⟩
    · exact ⟨j, th, by rw [List.getElem?_set_ne (Ne.symm hne), hj], hk⟩
  · intro j th hj hk hcode
    rcases getElem?_set_cases hj with ⟨rfl, rfl⟩ | ⟨hne, hj⟩
    · exact hstopped hk hcode
    · exact (hsame j th hne hj hk).trans (hs.stopped j th hj hk hcode)
  · intro j th hj hk hr
    rcases getElem?_set_cases hj with ⟨rfl, rfl⟩ | ⟨hne, hj⟩
    · exact hleaves hk hr
    · exact hs.leaves j th hj hk ((hsame j th hne hj hk).symm.trans hr)

/-- The other tasks stay where they are while the lock and the view do not change. -/
private theorem Placed.same {c c' : Shared} {i : Nat} {kind : Kind} {code : List Op}
    (h : Placed c i kind code) (hl : c'.lock = c.lock) (hv : c'.view = c.view) :
    Placed c' i kind code := by
  rwa [Placed, hl, hv]

/-- A statement outside the lock that the flag does not depend on. -/
private theorem Tracks.stay {s : State} (hs : Tracks s) {i : Nat} {kind : Kind}
    {code code' : List Op} (hi : s.threads[i]? = some ⟨kind, code⟩) {c' : Shared}
    (hnot : ∀ depth, s.client.lock ≠ some (i, depth)) (hl : c'.lock = s.client.lock)
    (hv : c'.view = s.client.view) (hout : Outside kind code')
    (hcreate : .createTask ∈ code' → .createTask ∈ code)
    (hrun : c'.run = s.client.run ∨ kind = .mqttTask)
    (hstopped : kind = .mqttTask → code' = espMqttTask ∨ code' = espMqttTaskExit →
      c'.run = false)
    (hleaves : kind = .mqttTask → c'.run = false → code' ∈ leaving)
    (hsettling : c'.run = false ∨ code' = espMqttTask.tail → Settling s) :
    Tracks { s with client := c', threads := s.threads.set i ⟨kind, code'⟩ } := by
  refine hs.advance hi hcreate ⟨?_, fun _ => hout⟩ ?_ ?_ (fun j depth h => .inr ⟨depth, hl ▸ h⟩)
    hrun hstopped hleaves ?_
  · intro depth h
    exact absurd (hl ▸ h) (hnot depth)
  · intro j th _ hj
    exact (hs.placed j th hj).same hl hv
  · intro h
    rw [hv]
    exact hs.free (hl ▸ h)
  · intro hset
    have hq : Quiet s := by
      apply hs.quiet
      rcases hset with hr | ⟨j, hj⟩
      · exact hsettling (.inl hr)
      · rcases getElem?_set_cases hj with ⟨rfl, hth⟩ | ⟨-, hj⟩
        · exact hsettling (.inr (congrArg Thread.code hth).symm)
        · exact .inr ⟨j, hj⟩
    apply hq.of_view_eq hv
    intro j depth th hlock hj
    rcases getElem?_set_cases hj with ⟨rfl, rfl⟩ | ⟨-, hj⟩
    · exact absurd (hl ▸ hlock) (hnot depth)
    · exact hq.owner j depth th (hl ▸ hlock) hj

/-- A task takes the free lock. -/
private theorem Tracks.acquire {s : State} (hs : Tracks s) {i : Nat} {kind : Kind}
    {rest : List Op} (hi : s.threads[i]? = some ⟨kind, .lock :: rest⟩)
    (hl : s.client.lock = none) (hin : Inside kind 1 rest s.client.view)
    (hnew : rest ≠ espMqttTask ∧ rest ≠ espMqttTaskExit ∧ rest ≠ espMqttTask.tail)
    (hquiet : Settling s → kind ≠ .mqttTask ∧ rest ∈ passive) :
    Tracks { s with
      client := { s.client with lock := some (i, 1) }
      threads := s.threads.set i ⟨kind, rest⟩ } := by
  have hset : Settling { s with
      client := { s.client with lock := some (i, 1) }
      threads := s.threads.set i ⟨kind, rest⟩ } → Settling s := by
    rintro (hr | ⟨j, hj⟩)
    · exact .inl hr
    · rcases getElem?_set_cases hj with ⟨rfl, hth⟩ | ⟨-, hj⟩
      · exact absurd (congrArg Thread.code hth).symm hnew.2.2
      · exact .inr ⟨j, hj⟩
  refine hs.advance hi (List.mem_cons_of_mem _) ⟨?_, ?_⟩ ?_ (by simp)
    (fun j depth h => .inl (by cases h; rfl)) (.inl rfl) ?_ ?_ ?_
  · intro depth h
    cases h
    exact ⟨Nat.one_pos, hin⟩
  · intro h
    exact absurd rfl (h 1)
  · intro j th hne hj
    refine ⟨?_, fun _ => (hs.placed j th hj).2 (by simp [hl])⟩
    intro depth h
    cases h
    exact absurd rfl hne
  · rintro - (h | h)
    · exact absurd h hnew.1
    · exact absurd h hnew.2.1
  · intro hk hr
    exact absurd hk (hquiet (.inl hr)).1
  · intro h
    refine (hs.quiet (hset h)).of_view_eq rfl ?_
    intro j depth th hlock hj
    cases hlock
    rcases getElem?_set_cases hj with ⟨-, rfl⟩ | ⟨hne, -⟩
    · exact ⟨rfl, (hquiet (hset h)).2⟩
    · exact absurd rfl hne

/-- A lock holder that is passive can live with any state but CONNECTED. -/
private theorem inside_passive {kind : Kind} {code : List Op} {v : View}
    (hc : code ∈ passive) (hin : Inside kind 1 code v) (hflag : v.isConnected = false)
    {state : ClientState} (hs : state ≠ .connected) : Inside kind 1 code { v with state } := by
  have hq : v.Agrees → View.Agrees { v with state } := fun h => ⟨h.1, by simp [hflag, hs]⟩
  simp only [passive, List.mem_cons, List.not_mem_nil, or_false] at hc
  rcases hc with rfl | rfl | rfl | rfl | rfl
  · exact ⟨hin.1, hin.2.1, hin.2.2.1, hq hin.2.2.2⟩
  · exact ⟨hin.1, hin.2.1, hin.2.2.1, hq hin.2.2.2⟩
  · exact ⟨hq hin.1, hin.2⟩
  · exact ⟨hq hin.1, hin.2⟩
  · exact ⟨hin.1, hin.2.1, hin.2.2.1, hq hin.2.2.2⟩

/-- The client's task sets the state outside the lock, before its first round or after its
last. -/
private theorem Tracks.setState {s : State} (hs : Tracks s) {i : Nat} {rest : List Op}
    {state : ClientState} (hi : s.threads[i]? = some ⟨.mqttTask, .setState state :: rest⟩)
    (hnot : ∀ depth, s.client.lock ≠ some (i, depth)) (hq : Quiet s) (hne : state ≠ .connected)
    (hout : Outside .mqttTask rest)
    (hcreate : .createTask ∉ rest) (hnew : rest ≠ espMqttTask ∧ rest ≠ espMqttTaskExit)
    (hleaves : s.client.run = false → rest ∈ leaving) :
    Tracks { s with
      client := { s.client with state }
      threads := s.threads.set i ⟨.mqttTask, rest⟩ } := by
  refine hs.advance hi (fun h => absurd h hcreate) ⟨?_, fun _ => hout⟩ ?_ ?_
    (fun j depth h => .inr ⟨depth, h⟩) (.inl rfl) ?_ (fun _ => hleaves) ?_
  · intro depth h
    exact absurd h (hnot depth)
  · intro j th _ hj
    refine ⟨?_, (hs.placed j th hj).2⟩
    intro depth h
    obtain ⟨hpos, hin⟩ := (hs.placed j th hj).1 depth h
    obtain ⟨rfl, hpassive⟩ := hq.owner j depth th h hj
    exact ⟨hpos, inside_passive hpassive hin hq.flag hne⟩
  · intro _
    exact ⟨hq.queue, by simp [Shared.view, hq.flag, hne]⟩
  · rintro - (h | h)
    · exact absurd h hnew.1
    · exact absurd h hnew.2
  · intro _
    refine ⟨hne, hq.flag, hq.queue, ?_⟩
    intro j depth th hlock hj
    rcases getElem?_set_cases hj with ⟨rfl, rfl⟩ | ⟨-, hj⟩
    · exact absurd hlock (hnot depth)
    · exact hq.owner j depth th hlock hj

/-- Only a free lock is taken by a task that does not hold it. -/
private theorem exec_lock {c c' : Shared} {n i : Nat} {o : Outcome} {code : List Op}
    {created : List Thread} (hnot : ∀ depth, c.lock ≠ some (i, depth))
    (hx : exec c n i o .lock = some (c', code, created)) :
    c.lock = none ∧ c' = { c with lock := some (i, 1) } ∧ code = [] ∧ created = [] := by
  cases hl : c.lock with
  | none =>
    simp only [exec, hl, Option.some.injEq, Prod.mk.injEq] at hx
    exact ⟨rfl, hx.1.symm, hx.2.1.symm, hx.2.2.symm⟩
  | some holder =>
    obtain ⟨owner, depth⟩ := holder
    have hne : owner ≠ i := by
      rintro rfl
      exact hnot depth hl
    simp [exec, hl, hne] at hx

/-- The client's task is neither starting nor leaving. -/
private theorem Tracks.not_settling {s : State} (hs : Tracks s) {i : Nat} {code : List Op}
    (hi : s.threads[i]? = some ⟨.mqttTask, code⟩) (hl : code ∉ leaving)
    (hne : code ≠ espMqttTask.tail) : ¬ Settling s := by
  rintro (hr | ⟨j, hj⟩)
  · exact hl (hs.leaves i _ hi rfl hr)
  · obtain rfl := hs.unique i j _ _ hi hj (.inl rfl) (.inl rfl)
    exact hne (congrArg Thread.code (Option.some.inj (hi.symm.trans hj)))

/-- A statement of the client's task outside the lock. -/
private theorem Tracks.outside_mqttTask {s : State} (hs : Tracks s) {i : Nat} {o : Outcome}
    {op : Op} {rest code : List Op} {client : Shared} {created : List Thread}
    (hi : s.threads[i]? = some ⟨.mqttTask, op :: rest⟩)
    (hnot : ∀ depth, s.client.lock ≠ some (i, depth))
    (hx : exec s.client s.threads.length i o op = some (client, code, created)) :
    Tracks { s with
      client, threads := s.threads.set i ⟨.mqttTask, code ++ rest⟩ ++ created } := by
  have hout := (hs.placed i _ hi).2 hnot
  have hcode : ∀ code', op :: rest = code' → s.threads[i]? = some ⟨.mqttTask, code'⟩ := by
    rintro _ rfl
    exact hi
  have hsame : ∀ {code'}, code' ≠ espMqttTask.tail →
      s.client.run = false ∨ code' = espMqttTask.tail → Settling s := by
    rintro code' hne (h | h)
    · exact .inl h
    · exact absurd h hne
  simp only [Outside, List.mem_cons, List.not_mem_nil, or_false, reduceCtorEq] at hout
  rcases hout with h | h | h | h | h | h | h | h | h
  · -- `client->run = true`
    have hstopped := hs.stopped i _ (hcode _ h) rfl (.inl rfl)
    cases h
    cases hx
    rw [List.append_nil]
    exact hs.stay hi hnot rfl rfl (by simp [Outside, espMqttTask]) (by simp) (.inr rfl)
      (by simp [espMqttTask, espMqttTaskExit]) (by simp) fun _ => .inl hstopped
  · -- `client->state = MQTT_STATE_INIT`
    have hquiet := hs.quiet (.inr ⟨i, hcode _ h⟩)
    have hrun : s.client.run ≠ false := by
      intro hr
      have := hs.leaves i _ (hcode _ h) rfl hr
      exact absurd this (by decide)
    cases h
    cases hx
    rw [List.append_nil]
    exact hs.setState hi hnot hquiet (by simp) (by simp [Outside]) (by simp)
      (by simp [espMqttTask, espMqttTaskExit]) fun hr => absurd hr hrun
  · cases h
    cases hx
    rw [List.append_nil]
    exact hs.stay hi hnot rfl rfl (by simp [Outside]) (by simp) (.inl rfl)
      (by simp [espMqttTask, espMqttTaskExit]) (by simp [leaving])
      (hsame (by simp [espMqttTask]))
  · -- `while (client->run)`
    cases h
    cases hx
    rw [List.append_nil, List.append_nil]
    cases hr : s.client.run with
    | true =>
      exact hs.stay hi hnot rfl rfl (by simp [Outside]) (by simp) (.inl rfl)
        (by simp [espMqttTask, espMqttTaskExit]) (by simp [hr])
        (by simpa [hr] using hsame (by simp [espMqttTask]))
    | false =>
      exact hs.stay hi hnot rfl rfl (by simp [Outside]) (by simp [espMqttTaskExit]) (.inl rfl)
        (fun _ _ => hr) (by simp [leaving]) fun _ => .inl hr
  · -- A round begins.
    have hbusy := hs.not_settling (hcode _ h) (by decide) (by decide)
    cases h
    obtain ⟨hl, rfl, rfl, rfl⟩ := exec_lock hnot hx
    rw [List.append_nil]
    have ha := hs.free hl
    refine hs.acquire hi hl ?_ (by decide) fun h => absurd h hbusy
    exact (inside_runLoop ha.1).mpr (inside_plain rfl rfl ha)
  · -- The poll.
    have hleaves : s.client.run = false → s.client.state ≠ .connected :=
      fun hr => (hs.quiet (.inl hr)).state
    cases h
    cases hx
    rw [List.append_nil]
    split
    case isTrue hc =>
      exact hs.stay hi hnot rfl rfl (by simp [Outside]) (by decide) (.inl rfl)
        (fun _ h => absurd h (by decide)) (fun _ hr => absurd hc.1 (hleaves hr)) (hsame (by decide))
    case isFalse =>
      exact hs.stay hi hnot rfl rfl (by simp [Outside]) (by simp) (.inl rfl)
        (by simp [espMqttTask, espMqttTaskExit]) (by simp [leaving])
        (hsame (by simp [espMqttTask]))
  · -- The abort after a failed poll.
    have hbusy := hs.not_settling (hcode _ h) (by decide) (by decide)
    cases h
    obtain ⟨hl, rfl, rfl, rfl⟩ := exec_lock hnot hx
    rw [List.append_nil]
    have hq := (hs.free hl).1
    exact hs.acquire hi hl ((inside_abort_tail hq).mpr (by simp [Released])) (by decide)
      fun h => absurd h hbusy
  · -- `client->state = MQTT_STATE_DISCONNECTED`
    have hrun := hs.stopped i _ (hcode _ h) rfl (.inr rfl)
    have hquiet := hs.quiet (.inl hrun)
    cases h
    cases hx
    rw [List.append_nil]
    exact hs.setState hi hnot hquiet (by simp) (by simp [Outside]) (by simp)
      (by simp [espMqttTask, espMqttTaskExit]) fun _ => by simp [leaving]
  · cases h
    cases hx
    rw [List.append_nil]
    exact hs.stay hi hnot rfl rfl (by simp [Outside]) (by simp) (.inl rfl)
      (by simp [espMqttTask, espMqttTaskExit]) (by simp [leaving])
      (hsame (by simp [espMqttTask]))

private theorem Tracks.outside {s : State} (hs : Tracks s) {i : Nat} {o : Outcome} {kind : Kind}
    {op : Op} {rest code : List Op} {client : Shared} {created : List Thread}
    (hi : s.threads[i]? = some ⟨kind, op :: rest⟩)
    (hnot : ∀ depth, s.client.lock ≠ some (i, depth))
    (hx : exec s.client s.threads.length i o op = some (client, code, created)) :
    Tracks { s with client, threads := s.threads.set i ⟨kind, code ++ rest⟩ ++ created } := by
  have hout := (hs.placed i _ hi).2 hnot
  have hsame : ∀ {code'}, code' ≠ espMqttTask.tail →
      s.client.run = false ∨ code' = espMqttTask.tail → Settling s := by
    rintro code' hne (h | h)
    · exact .inl h
    · exact absurd h hne
  match kind, hi, hout with
  | .caller .destroy, _, hout => exact hout.elim
  | .caller .start, hi, hout =>
    obtain ⟨rfl, rfl⟩ : op = .lock ∧ rest = [.createTask, .unlock] := by
      simpa [Outside, espMqttClientStart] using hout
    obtain ⟨hl, rfl, rfl, rfl⟩ := exec_lock hnot hx
    rw [List.append_nil]
    exact hs.acquire hi hl ⟨rfl, rfl, rfl, hs.free hl⟩ (by decide) fun _ => by decide
  | .caller .publish, hi, hout =>
    simp only [Outside, List.mem_cons, List.cons.injEq, List.not_mem_nil, or_false,
      reduceCtorEq] at hout
    rcases hout with ⟨rfl, rfl⟩ | ⟨rfl, rfl⟩
    · cases hx
      rw [List.append_nil, List.append_nil]
      refine hs.stay hi hnot rfl rfl ?_ ?_ (.inl rfl) (by simp) (by simp) (hsame ?_) <;>
        split <;> simp [Outside, espMqttTask]
    · obtain ⟨hl, rfl, rfl, rfl⟩ := exec_lock hnot hx
      rw [List.append_nil]
      exact hs.acquire hi hl ⟨rfl, rfl, rfl, hs.free hl⟩ (by decide) fun _ => by decide
  | .mqttTask, hi, _ => exact hs.outside_mqttTask hi hnot hx

/-- Only an assignment to `run` changes it. -/
private theorem exec_run {c c' : Shared} {n i : Nat} {o : Outcome} {op : Op} {code : List Op}
    {created : List Thread} (hx : exec c n i o op = some (c', code, created)) :
    c'.run = c.run ∨ ∃ value, op = .setRun value := by
  cases op with
  | setRun value => exact .inr ⟨value, rfl⟩
  | _ =>
    simp only [exec] at hx
    repeat' split at hx
    all_goals cases hx
    all_goals exact .inl rfl

private theorem Released.outside {kind : Kind} {code : List Op} (h : Released kind code)
    (hk : kind ≠ .caller .destroy) : Outside kind code := by
  match kind with
  | .mqttTask =>
    simp only [Released, List.mem_cons, List.not_mem_nil, or_false] at h
    rcases h with rfl | rfl <;> simp [Outside]
  | .caller .start => exact h ▸ by simp [Outside]
  | .caller .publish => exact h ▸ by simp [Outside]
  | .caller .destroy => exact absurd rfl hk

/-- The lock holder is not at the start and not at the end of the client's task. -/
private theorem Holds.ne {kind : Kind} {i : Nat} {code : List Op} {c : Shared}
    (h : Holds kind i code c) :
    code ≠ espMqttTask ∧ code ≠ espMqttTaskExit ∧ code ≠ espMqttTask.tail := by
  refine ⟨?_, ?_, ?_⟩ <;> rintro rfl <;> rcases h with ⟨-, -, h⟩ | ⟨depth, -, -, h⟩
  · cases kind <;> simp [Released, espMqttTask] at h
  · simp [espMqttTask, Inside] at h
  · cases kind <;> simp [Released, espMqttTaskExit] at h
  · simp [espMqttTaskExit, Inside, Op.branches] at h
  · cases kind <;> simp [Released, espMqttTask] at h
  · simp [espMqttTask, Inside, Op.branches] at h

/-- A quiet client stays so under the statements of a passive lock holder. -/
private theorem Quiet.passive_exec {s : State} (hq : Quiet s) {i n : Nat} {o : Outcome}
    {kind : Kind} {op : Op} {rest code : List Op} {c' : Shared} {created : List Thread}
    (hl : s.client.lock = some (i, 1)) (hp : op :: rest ∈ passive) (hop : op ≠ .createTask)
    (hx : exec s.client n i o op = some (c', code, created)) :
    Quiet { s with client := c', threads := s.threads.set i ⟨kind, code ++ rest⟩ } := by
  have hkeep : code ++ rest ∈ passive → c' = s.client →
      Quiet { s with client := c', threads := s.threads.set i ⟨kind, code ++ rest⟩ } := by
    rintro hcode rfl
    refine hq.of_view_eq rfl ?_
    intro j depth th hlock hj
    cases hl.symm.trans hlock
    rcases getElem?_set_cases hj with ⟨-, rfl⟩ | ⟨hne, -⟩
    · exact ⟨rfl, hcode⟩
    · exact absurd rfl hne
  have hrelease : op = .unlock →
      Quiet { s with client := c', threads := s.threads.set i ⟨kind, code ++ rest⟩ } := by
    rintro rfl
    simp only [exec, hl, ite_true, Option.some.injEq, Prod.mk.injEq] at hx
    obtain ⟨rfl, -, -⟩ := hx
    exact ⟨hq.state, hq.flag, hq.queue, by simp⟩
  simp only [passive, roundEnd, List.mem_cons, List.cons.injEq, List.not_mem_nil, or_false]
    at hp
  rcases hp with ⟨rfl, rfl⟩ | ⟨rfl, rfl⟩ | ⟨rfl, rfl⟩ | ⟨rfl, rfl⟩ | ⟨rfl, rfl⟩
  · cases hx
    exact hkeep (by split <;> decide) rfl
  · cases hx
    exact hkeep (by rw [if_neg hq.state]; decide) rfl
  · exact hrelease rfl
  · exact hrelease rfl
  · exact absurd rfl hop

/-- The client's task leaves its last round. -/
private theorem leaving_of_inside {c c' : Shared} {i n : Nat} {o : Outcome}
    {kind : Kind} {op : Op} {depth : Nat} {rest code : List Op} {created : List Thread}
    (hl : c.lock = some (i, depth)) (hd : 0 < depth)
    (hin : Inside kind depth (op :: rest) c.view) (hp : op :: rest ∈ leaving)
    (hx : exec c n i o op = some (c', code, created)) : code ++ rest ∈ leaving := by
  simp only [leaving, espMqttTask, roundEnd, espMqttTaskExit, List.mem_cons, List.cons.injEq,
    List.not_mem_nil, or_false, reduceCtorEq] at hp
  rcases hp with ⟨rfl, rfl⟩ | ⟨rfl, rfl⟩ | ⟨rfl, rfl⟩ | ⟨rfl, rfl⟩ | ⟨rfl, rfl⟩ | ⟨rfl, rfl⟩
  · simp [Inside] at hin
  · obtain ⟨depth, rfl⟩ := Nat.exists_eq_succ_of_ne_zero (Nat.ne_of_gt hd)
    simp only [exec, hl, ite_true, Option.some.injEq, Prod.mk.injEq] at hx
    obtain ⟨-, rfl, -⟩ := hx
    decide
  · simp [Inside, Op.branches] at hin
  · simp [Inside, Op.branches] at hin
  · simp [Inside, Op.branches] at hin
  · simp [Inside, Op.branches] at hin

/-- A statement of the lock holder, apart from the creation of the task. -/
private theorem Tracks.inside {s : State} (hs : Tracks s) {i : Nat} {o : Outcome} {kind : Kind}
    {op : Op} {rest code : List Op} {client : Shared} {created : List Thread}
    (hi : s.threads[i]? = some ⟨kind, op :: rest⟩) {depth : Nat}
    (hl : s.client.lock = some (i, depth)) (hop : op ≠ .createTask)
    (hx : exec s.client s.threads.length i o op = some (client, code, created)) :
    Tracks { s with client, threads := s.threads.set i ⟨kind, code ++ rest⟩ ++ created } := by
  obtain ⟨hd, hin⟩ := (hs.placed i _ hi).1 depth hl
  obtain ⟨rfl, hholds⟩ := inside_exec hl hd hin hop hx
  rw [List.append_nil]
  have hrun := exec_run hx
  have hset : ∀ value, op = .setRun value → rest = roundEnd ∧ kind = .mqttTask ∧ depth = 1 ∧
      s.client.view.Agrees ∧ s.client.state = .init := by
    rintro value rfl
    obtain ⟨-, rfl, rfl, rfl, ha, hstate⟩ := hin
    exact ⟨rfl, rfl, rfl, ha, hstate⟩
  refine hs.advance hi ?_ ⟨?_, ?_⟩ ?_ ?_ ?_ ?_ ?_ ?_ ?_
  · intro h
    rcases List.mem_append.mp h with h | h
    · exact absurd h (exec_code hx).2.2
    · exact List.mem_cons_of_mem _ h
  · intro depth' h
    rcases hholds with ⟨hnone, -⟩ | ⟨depth'', hpos, hl', hin'⟩
    · rw [hnone] at h
      cases h
    · cases hl'.symm.trans h
      exact ⟨hpos, hin'⟩
  · intro h
    rcases hholds with ⟨-, -, hrel⟩ | ⟨depth'', -, hl', -⟩
    · exact hrel.outside (hs.kinds i _ hi)
    · exact absurd hl' (h depth'')
  · intro j th hne hj
    have hother : ∀ depth', client.lock ≠ some (j, depth') := by
      intro depth' h
      rcases hholds with ⟨hnone, -⟩ | ⟨depth'', -, hl', -⟩
      · rw [hnone] at h
        cases h
      · cases hl'.symm.trans h
        exact hne rfl
    refine ⟨fun depth' h => absurd h (hother depth'), fun _ => (hs.placed j th hj).2 ?_⟩
    intro depth' h
    cases hl.symm.trans h
    exact hne rfl
  · intro h
    rcases hholds with ⟨-, ha, -⟩ | ⟨depth'', -, hl', -⟩
    · exact ha
    · rw [h] at hl'
      cases hl'
  · intro j depth' h
    rcases hholds with ⟨hnone, -⟩ | ⟨depth'', -, hl', -⟩
    · rw [hnone] at h
      cases h
    · cases hl'.symm.trans h
      exact .inl rfl
  · rcases hrun with h | ⟨value, h⟩
    · exact .inl h
    · exact .inr (hset value h).2.1
  · rintro - (h | h)
    · exact absurd h hholds.ne.1
    · exact absurd h hholds.ne.2.1
  · intro hk hr
    rcases hrun with h | ⟨value, rfl⟩
    · exact leaving_of_inside hl hd hin (hs.leaves i _ hi hk (h ▸ hr)) hx
    · cases hx
      rw [(hset value rfl).1]
      decide
  · intro hsettling
    rcases hrun with h | ⟨value, rfl⟩
    · have hold : Settling s := by
        rcases hsettling with hr | ⟨j, hj⟩
        · exact .inl (h ▸ hr)
        · rcases getElem?_set_cases hj with ⟨rfl, hth⟩ | ⟨-, hj⟩
          · exact absurd (congrArg Thread.code hth).symm hholds.ne.2.2
          · exact .inr ⟨j, hj⟩
      have hq := hs.quiet hold
      obtain ⟨rfl, hp⟩ := hq.owner i depth _ hl hi
      exact hq.passive_exec hl hp hop hx
    · obtain ⟨rfl, rfl, rfl, ha, hstate⟩ := hset value rfl
      cases hx
      refine ⟨by simp [hstate], ?_, ha.1, ?_⟩
      · rw [Bool.eq_false_iff]
        intro hflag
        have hconnected := ha.2.mp hflag
        rw [show s.client.view.state = s.client.state from rfl, hstate] at hconnected
        cases hconnected
      · intro j depth th hlock hj
        cases hl.symm.trans hlock
        rcases getElem?_set_cases hj with ⟨-, rfl⟩ | ⟨hne, -⟩
        · exact ⟨rfl, by decide⟩
        · exact absurd rfl hne

/-- A new task, outside the lock. -/
private theorem Tracks.append {s : State} (hs : Tracks s) {new : Thread}
    (hout : Outside new.kind new.code) (hkind : new.kind ≠ .caller .destroy)
    (hcreates : new.Creates → s.starts ≠ 0 ∧
      ∀ (i : Nat) (th : Thread), s.threads[i]? = some th → ¬ th.Creates)
    (hrun : new.kind = .mqttTask → s.client.run = false)
    (hleaves : new.kind = .mqttTask → new.code ∈ leaving) (hne : new.code ≠ espMqttTask.tail) :
    Tracks { s with threads := s.threads ++ [new] } := by
  have hcases : ∀ {j : Nat} {th : Thread}, (s.threads ++ [new])[j]? = some th →
      s.threads[j]? = some th ∨ j = s.threads.length ∧ th = new := getElem?_append_cases
  refine ⟨?_, hs.free, ?_, ?_, ?_, ?_, ?_, ?_, ?_, ?_⟩
  · intro j th hj
    rcases hcases hj with hj | ⟨rfl, rfl⟩
    · exact hs.placed j th hj
    · refine ⟨?_, fun _ => hout⟩
      intro depth h
      exact absurd (hs.owner _ depth h) (Nat.lt_irrefl _)
  · intro j depth h
    exact Nat.lt_of_lt_of_le (hs.owner j depth h) (by simp)
  · intro j th hj
    rcases hcases hj with hj | ⟨rfl, rfl⟩
    · exact hs.kinds j th hj
    · exact hkind
  · intro j k th th' hj hk hth hth'
    rcases hcases hj with hold | ⟨rfl, rfl⟩
    · rcases hcases hk with hold' | ⟨rfl, rfl⟩
      · exact hs.unique j k th th' hold hold' hth hth'
      · exact absurd hth ((hcreates hth').2 j th hold)
    · rcases hcases hk with hold' | ⟨rfl, rfl⟩
      · exact absurd hth' ((hcreates hth).2 k th' hold')
      · rfl
  · intro hz j th hj hth
    rcases hcases hj with hj | ⟨rfl, rfl⟩
    · exact hs.unstarted hz j th hj hth
    · exact (hcreates hth).1 hz
  · intro hr
    obtain ⟨j, th, hj, hk⟩ := hs.running hr
    have hlt := (List.getElem?_eq_some_iff.mp hj).1
    exact ⟨j, th, by rw [List.getElem?_append_left hlt, hj], hk⟩
  · intro j th hj hk hcode
    rcases hcases hj with hj | ⟨rfl, rfl⟩
    · exact hs.stopped j th hj hk hcode
    · exact hrun hk
  · intro j th hj hk hr
    rcases hcases hj with hj | ⟨rfl, rfl⟩
    · exact hs.leaves j th hj hk hr
    · exact hleaves hk
  · intro hset
    have hold : Settling s := by
      rcases hset with hr | ⟨j, hj⟩
      · exact .inl hr
      · rcases hcases hj with hj | ⟨-, rfl⟩
        · exact .inr ⟨j, hj⟩
        · exact absurd rfl hne
    have hq := hs.quiet hold
    refine hq.of_view_eq rfl ?_
    intro j depth th hlock hj
    rcases hcases hj with hj | ⟨rfl, rfl⟩
    · exact hq.owner j depth th hlock hj
    · exact absurd (hs.owner _ depth hlock) (Nat.lt_irrefl _)

/-- The creation of the client's task, where `start()` is called once. -/
private theorem Tracks.create {s : State} (hs : Tracks s) {i : Nat} {o : Outcome} {kind : Kind}
    {rest code : List Op} {client : Shared} {created : List Thread}
    (hi : s.threads[i]? = some ⟨kind, .createTask :: rest⟩) {depth : Nat}
    (hl : s.client.lock = some (i, depth))
    (hx : exec s.client s.threads.length i o .createTask = some (client, code, created)) :
    Tracks { s with client, threads := s.threads.set i ⟨kind, code ++ rest⟩ ++ created } := by
  obtain ⟨-, rfl, rfl, rfl, ha⟩ := (hs.placed i _ hi).1 depth hl
  have hcreates : (⟨.caller .start, [.createTask, .unlock]⟩ : Thread).Creates := .inr (by simp)
  have honly : ∀ (j : Nat) (th : Thread), s.threads[j]? = some th → th.Creates → j = i :=
    fun j th hj hth => hs.unique j i th _ hj hi hth hcreates
  -- There is no task yet, so the client is not running.
  have hrun : s.client.run = false := by
    rw [Bool.eq_false_iff]
    intro hr
    obtain ⟨j, th, hj, hk⟩ := hs.running hr
    obtain rfl := honly j th hj (.inl hk)
    cases hi.symm.trans hj
    cases hk
  have hq := hs.quiet (.inl hrun)
  have hunlock : ∀ c' : Shared, c'.lock = s.client.lock → c'.view = s.client.view →
      c'.run = s.client.run → Tracks { s with
        client := c', threads := s.threads.set i ⟨.caller .start, [.unlock]⟩ } := by
    intro c' hl' hv hr
    refine hs.advance hi (by simp) ⟨?_, ?_⟩ ?_ ?_ (fun j depth h => .inr ⟨depth, hl' ▸ h⟩)
      (.inl hr) (by simp) (by simp) ?_
    · intro depth h
      cases hl.symm.trans (hl' ▸ h)
      exact ⟨Nat.one_pos, hv ▸ ha, rfl⟩
    · intro h
      exact absurd (hl'.trans hl) (h 1)
    · intro j th _ hj
      exact (hs.placed j th hj).same hl' hv
    · intro h
      rw [hl', hl] at h
      cases h
    · intro _
      apply hq.of_view_eq hv
      intro j depth th hlock hj
      cases hl.symm.trans (hl' ▸ hlock)
      rcases getElem?_set_cases hj with ⟨-, rfl⟩ | ⟨hne, -⟩
      · exact ⟨rfl, by decide⟩
      · exact absurd rfl hne
  simp only [exec] at hx
  split at hx
  · cases hx
    have hnew := hunlock { s.client with taskHandle := some s.threads.length } rfl rfl rfl
    refine hnew.append (by simp [Outside]) (by simp) ?_ (fun _ => hrun) (fun _ => by decide)
      (by decide)
    intro _
    refine ⟨fun hz => hs.unstarted hz i _ hi hcreates, ?_⟩
    intro j th hj hth
    rcases getElem?_set_cases hj with ⟨rfl, rfl⟩ | ⟨hne, hj⟩
    · rcases hth with h | h <;> simp at h
    · exact hne (honly j th hj hth)
  · cases hx
    rw [List.append_nil]
    exact hunlock _ rfl rfl rfl

/-- A manager that was started at most once and is not being destroyed. -/
def StartedOnce (s : State) : Prop := s.starts ≤ 1 ∧ s.destroying = false

private theorem Tracks.begin {s r : State} {call : Call} (hs : Tracks s)
    (h : s.begin call = some r) : Tracks r := by
  cases call with
  | start =>
    cases h
    exact ⟨hs.placed, hs.free, hs.owner, hs.kinds, hs.unique, fun hz => absurd hz (by simp),
      hs.running, hs.stopped, hs.leaves,
      fun hset => (hs.quiet hset).of_view_eq rfl (hs.quiet hset).owner⟩
  | publish =>
    cases h
    exact hs
  | destroy =>
    simp only [State.begin] at h
    split at h
    · cases h
    · cases h
      exact ⟨hs.placed, hs.free, hs.owner, hs.kinds, hs.unique, hs.unstarted, hs.running,
        hs.stopped, hs.leaves, fun hset => (hs.quiet hset).of_view_eq rfl (hs.quiet hset).owner⟩

/-- `on_connected_` is called in the client's task. -/
private theorem Tracks.creates_of_onConnected {s : State} (hs : Tracks s) {i : Nat} {kind : Kind}
    {rest : List Op} (hi : s.threads[i]? = some ⟨kind, .onConnected :: rest⟩) :
    kind = .mqttTask := by
  by_cases hl : ∃ depth, s.client.lock = some (i, depth)
  · obtain ⟨depth, hl⟩ := hl
    exact ((hs.placed i _ hi).1 depth hl).2.1
  · have hout := (hs.placed i _ hi).2 fun depth h => hl ⟨depth, h⟩
    match kind with
    | .mqttTask => rfl
    | .caller .start => simp [Outside, espMqttClientStart] at hout
    | .caller .publish => simp [Outside] at hout
    | .caller .destroy => exact hout.elim

private theorem tracks_step {s t : State} {a : Label} (hs : StartedOnce s → Tracks s)
    (h : step s a = some t) (ht : StartedOnce t) : Tracks t := by
  have hbefore : ∀ {call r}, s.begin call = some r → r.starts = t.starts →
      r.destroying = t.destroying → Tracks s ∧ call ≠ .destroy ∧
        (call = .start → s.starts = 0) := by
    intro call r hr hstarts hdestroying
    obtain ⟨-, -, hmore, hd⟩ := begin_spec hr
    have hle := hstarts ▸ ht.1
    have hnot : ¬ (s.destroying = true ∨ call = .destroy) := by
      rw [← hd, hdestroying, ht.2]
      simp
    rw [not_or, Bool.not_eq_true] at hnot
    refine ⟨hs ⟨by omega, hnot.1⟩, hnot.2, ?_⟩
    rintro rfl
    rw [if_pos rfl] at hmore
    omega
  cases step_spec h with
  | call call r hr =>
    obtain ⟨hold, hne, hzero⟩ := hbefore hr rfl rfl
    obtain ⟨-, hthreads, hmore, -⟩ := begin_spec hr
    have hnew := hold.begin hr
    cases call with
    | start =>
      refine hnew.append (by simp [Call.code, Outside]) (by simp) ?_ (by simp) (by simp)
        (by decide)
      intro _
      refine ⟨by rw [hmore]; simp, ?_⟩
      rw [hthreads]
      exact hold.unstarted (hzero rfl)
    | publish =>
      refine hnew.append (by simp [Call.code, Outside]) (by simp) ?_ (by simp) (by simp)
        (by decide)
      rintro (hc | hc) <;> simp [Call.code] at hc
    | destroy => exact absurd rfl hne
  | callback i call kind rest r hi hc hr =>
    obtain ⟨hold, hne, hzero⟩ := hbefore hr rfl rfl
    cases call with
    | start =>
      have htask := hold.creates_of_onConnected hi
      exact absurd (.inl htask) (hold.unstarted (hzero rfl) i _ hi)
    | publish => exact absurd rfl hc
    | destroy => exact absurd rfl hne
  | step i o kind op rest client code created hi hx =>
    have hold := hs ht
    by_cases hl : ∃ depth, s.client.lock = some (i, depth)
    · obtain ⟨depth, hl⟩ := hl
      by_cases hop : op = .createTask
      · subst hop
        exact hold.create hi hl hx
      · exact hold.inside hi hl hop hx
    · exact hold.outside hi (fun depth h => hl ⟨depth, h⟩) hx

theorem tracks_of_reachable {s : State} (h : machine.Reachable s) : StartedOnce s → Tracks s := by
  apply h.invariant
  · intro _
    constructor <;> simp [machine, State.constructed, Shared.view, View.Agrees]
    exact fun _ => ⟨by simp, rfl, rfl, by simp⟩
  · intro s a t _ hs ht
    exact tracks_step hs ht

/-- The flag of a manager that was started once and is not being destroyed tells the state of
its client whenever the API lock is free. -/
theorem isConnected_iff {s : State} (h : machine.Reachable s) (hstarts : s.starts = 1)
    (hdestroying : s.destroying = false) (hlock : s.client.lock = none) :
    s.client.isConnected = true ↔ s.client.state = .connected :=
  ((tracks_of_reachable h ⟨Nat.le_of_eq hstarts, hdestroying⟩).free hlock).2

/-- The node connects, and a publish by task 2 loses the connection. -/
def dropped : List Label :=
  .call .start :: running 0 3 ++ running 1 20 ++ .call .publish :: running 2 4 ++
    List.replicate 12 (.step 2 .error)

theorem isConnected_iff_dropped :
    ∃ s, machine.exec machine.init dropped = some s ∧ s.client.state = .waitReconnect ∧
      (s.client.isConnected = true ↔ s.client.state = .connected) :=
  ⟨_, rfl, rfl, isConnected_iff ⟨dropped, rfl⟩ rfl rfl rfl⟩

end IndustrialIot.Edge.Mqtt.Lifecycle
