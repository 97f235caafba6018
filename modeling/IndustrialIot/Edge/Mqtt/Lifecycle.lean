import IndustrialIot.Core.Machine
import IndustrialIot.Edge.Mqtt.Client
import Mathlib.Data.List.Induction

/-!
# Tasks around the MQTT client

The control flow of `mqtt_client.c` and of its manager, statement by statement, with the
recursive API lock, the flag `run`, the STOPPED bit, the event loop and the tasks as they are
created, run and end. A task is the list of the statements it has still to execute; a branch
puts the statements of the side it takes in front of the rest. What the network, the clock and
the allocator answer comes with the label of the step. Of the data of the client only its
state is kept.
-/

namespace IndustrialIot.Edge.Mqtt.Lifecycle

/-- `esp_mqtt_event_id_t`; the manager's handler tells these apart. -/
inductive MqttEvent
  | connected
  | disconnected
  | error
  /-- `MQTT_EVENT_BEFORE_CONNECT` and the events of received messages. -/
  | other
  deriving DecidableEq, Repr

/-- A statement, or a branch with the statements behind it. -/
inductive Op
  /-- `MQTT_API_LOCK` and `MQTT_API_UNLOCK` -/
  | lock
  | unlock
  | setRun (value : Bool)
  | setState (state : ClientState)
  /-- `xEventGroupClearBits` and `xEventGroupSetBits` of `STOPPED_BIT` -/
  | clearStopped
  | setStopped
  /-- `esp_event_post_to` -/
  | post (event : MqttEvent)
  /-- `esp_event_loop_run` -/
  | runLoop
  /-- The handler's assignment to `is_connected_`. -/
  | setConnected (value : Bool)
  /-- The handler's call of `on_connected_`. -/
  | onConnected
  /-- `while (client->run)` -/
  | whileRun
  /-- `switch (state)` -/
  | switchState
  /-- The branches of a round, named after what decides them. -/
  | createTransport
  | connectTransport
  | connect
  | disconnectRequested
  | receive
  | resendQueued
  | retransmit
  | retransmitPubrel
  | keepalive
  | refresh
  | waitReconnect
  /-- The poll outside the lock. -/
  | pollRead
  /-- The test of `is_connected_` in `MqttManager::publish`. -/
  | testConnected
  /-- `mqtt_client_enqueue_publish` -/
  | enqueuePublish
  /-- The test of the client's state in `esp_mqtt_client_publish`. -/
  | testState
  /-- The sending loop of `esp_mqtt_client_publish`. -/
  | sending
  /-- The test of the client's state and `xTaskCreate` in `esp_mqtt_client_start`. -/
  | createTask
  /-- The tests in `esp_mqtt_client_stop`. -/
  | testStop
  /-- `xEventGroupWaitBits` of `STOPPED_BIT` -/
  | waitStopped
  /-- `if (client->run)` in `esp_mqtt_client_destroy` -/
  | testRun
  | free
  deriving DecidableEq, Repr

/-- What the outside answers at a branch. -/
inductive Outcome
  | ok
  /-- A failure without and with an error event. -/
  | fail
  | error
  /-- A timer has run out, or there is something to report. -/
  | due
  deriving DecidableEq, Repr

/-- The calls of the manager that matter here. -/
inductive Call
  | start
  | publish
  | destroy
  deriving DecidableEq, Repr

/-- What a task is: created by `start()`, or inside a call. -/
inductive Kind
  | mqttTask
  | caller (call : Call)
  deriving DecidableEq, Repr

/-- A task, by the statements it has still to execute. -/
structure Thread where
  kind : Kind
  code : List Op
  deriving DecidableEq, Repr

/-- What the tasks share. -/
structure Shared where
  allocated : Bool
  /-- The owner of the API lock, and how often it has taken it. -/
  lock : Option (Nat × Nat)
  run : Bool
  state : ClientState
  stoppedBit : Bool
  taskHandle : Option Nat
  /-- The posted events, oldest first. -/
  queue : List MqttEvent
  /-- `MqttManager::is_connected_` -/
  isConnected : Bool
  /-- How many tasks there were when the destructor last saw the STOPPED bit. -/
  awaited : Nat
  deriving DecidableEq, Repr

/-! ## The code -/

/-- `esp_mqtt_dispatch_event` -/
def espMqttDispatchEvent (event : MqttEvent) : List Op := [.post event, .runLoop]

/-- `esp_mqtt_abort_connection` -/
def espMqttAbortConnection : List Op :=
  [.lock, .setState .waitReconnect] ++ espMqttDispatchEvent .disconnected ++ [.unlock]

/-- An abort after a failure, with the error event if the transport reported one. -/
def failure (o : Outcome) : List Op :=
  (if o = .error then espMqttDispatchEvent .error else []) ++ espMqttAbortConnection

/-- The end of a round of `esp_mqtt_task`. -/
def roundEnd : List Op := [.unlock, .pollRead, .whileRun]

/-- `esp_mqtt_task` -/
def espMqttTask : List Op := [.setRun true, .setState .init, .clearStopped, .whileRun]

/-- What `esp_mqtt_task` does after its loop. -/
def espMqttTaskExit : List Op := [.setState .disconnected, .setStopped]

/-- `MqttManager::mqtt_event_handler` -/
def mqttEventHandler : MqttEvent → List Op
  | .connected => [.setConnected true, .onConnected]
  | .disconnected => [.setConnected false]
  | .error | .other => []

/-- `esp_mqtt_client_start` -/
def espMqttClientStart : List Op := [.lock, .createTask, .unlock]

/-- `esp_mqtt_client_stop` -/
def espMqttClientStop : List Op := [.lock, .testStop]

/-- `esp_mqtt_client_destroy` -/
def espMqttClientDestroy : List Op := [.testRun, .free]

/-- `MqttManager::start`, `MqttManager::publish` and `MqttManager::~MqttManager` -/
def Call.code : Call → List Op
  | .start => espMqttClientStart
  | .publish => [.testConnected]
  | .destroy => espMqttClientStop ++ espMqttClientDestroy

/-- Can `esp_mqtt_client_start` create a task? -/
def Shared.startable (c : Shared) : Bool := c.state == .init || c.state == .disconnected

/-- A statement of task `i` of `n`: the change, the statements put in front of the rest, and
the task it creates. -/
def exec (c : Shared) (n i : Nat) (o : Outcome) : Op → Option (Shared × List Op × List Thread)
  | .lock => match c.lock with
    | none => some ({ c with lock := some (i, 1) }, [], [])
    | some (owner, depth) =>
      if owner = i then some ({ c with lock := some (i, depth + 1) }, [], []) else none
  | .unlock => match c.lock with
    | some (owner, depth + 1) =>
      if owner = i then
        some ({ c with lock := if depth = 0 then none else some (i, depth) }, [], [])
      else none
    | _ => none
  | .setRun value => some ({ c with run := value }, [], [])
  | .setState state => some ({ c with state }, [], [])
  | .clearStopped => some ({ c with stoppedBit := false }, [], [])
  | .setStopped => some ({ c with stoppedBit := true }, [], [])
  | .post event => some ({ c with queue := c.queue ++ [event] }, [], [])
  | .runLoop => match c.queue with
    | [] => some (c, [], [])
    | event :: queue => some ({ c with queue }, mqttEventHandler event ++ [.runLoop], [])
  | .setConnected value => some ({ c with isConnected := value }, [], [])
  | .onConnected => some (c, [], [])
  | .whileRun =>
    some (c, if c.run then [.lock, .runLoop, .switchState] else espMqttTaskExit, [])
  | .switchState =>
    let round := match c.state with
      | .disconnected => roundEnd
      | .init => [.createTransport]
      | .connected => [.disconnectRequested]
      | .waitReconnect => [.waitReconnect]
    some (c, round, [])
  | .createTransport =>
    let connecting := espMqttDispatchEvent .other ++ [.connectTransport]
    some (c, if o = .ok then connecting else [.setRun false] ++ roundEnd, [])
  | .connectTransport =>
    let failed := espMqttDispatchEvent .error ++ espMqttAbortConnection ++ roundEnd
    some (c, if o = .ok then [.connect] else failed, [])
  | .connect =>
    let connected := [.setState .connected] ++ espMqttDispatchEvent .connected ++ roundEnd
    some (c, if o = .ok then connected else failure o ++ roundEnd, [])
  | .disconnectRequested =>
    some (c, if o = .ok then [.receive] else failure o ++ roundEnd, [])
  | .receive => match o with
    | .ok => some (c, [.resendQueued], [])
    | .due => some (c, espMqttDispatchEvent .other ++ [.receive], [])
    | _ => some (c, failure o ++ roundEnd, [])
  | .resendQueued => match o with
    | .ok => some (c, [.keepalive], [])
    | .due => some (c, [.retransmit], [])
    | _ => some (c, failure o ++ [.keepalive], [])
  | .retransmit =>
    some (c, (if o = .ok then [] else failure o) ++ [.retransmitPubrel], [])
  | .retransmitPubrel =>
    some (c, (if o = .ok then [] else failure o) ++ [.keepalive], [])
  | .keepalive => some (c, if o = .ok then [.refresh] else failure o ++ roundEnd, [])
  | .refresh =>
    let refreshed := espMqttAbortConnection ++ [.setState .init] ++ roundEnd
    some (c, if o = .due then refreshed else roundEnd, [])
  | .waitReconnect =>
    some (c, if o = .due then [.setState .init] ++ roundEnd else [.unlock, .whileRun], [])
  | .pollRead =>
    some (c, if c.state = .connected ∧ o ≠ .ok then espMqttAbortConnection else [], [])
  | .testConnected => some (c, if c.isConnected then [.lock, .enqueuePublish] else [], [])
  | .enqueuePublish => some (c, if o = .ok then [.testState] else [.unlock], [])
  | .testState => some (c, if c.state = .connected then [.sending] else [.unlock], [])
  | .sending => some (c, (if o = .ok then [] else failure o) ++ [.unlock], [])
  | .createTask =>
    if c.startable = true ∧ o = .ok then
      some ({ c with taskHandle := some n }, [], [⟨.mqttTask, espMqttTask⟩])
    else some (c, [], [])
  | .testStop =>
    let notify := if c.state = .connected ∧ o = .error then espMqttDispatchEvent .error else []
    let stopping := notify ++
      [.setRun false, .setState .disconnected, .unlock, .waitStopped]
    -- A stopped client, and a stop from the MQTT task, are refused.
    some (c, if c.run = true ∧ c.taskHandle ≠ some i then stopping else [.unlock], [])
  | .waitStopped =>
    if c.stoppedBit then some ({ c with awaited := n }, [], []) else none
  | .testRun => some (c, if c.run then espMqttClientStop else [], [])
  | .free => some ({ c with allocated := false }, [], [])

/-! ## The machine -/

structure State where
  client : Shared
  threads : List Thread
  /-- How often `start()` has been called. -/
  starts : Nat
  /-- The destructor has begun. -/
  destroying : Bool
  deriving DecidableEq, Repr

/-- After the constructor. -/
def State.constructed : State :=
  ⟨⟨true, none, false, .init, false, none, [], false, 0⟩, [], 0, false⟩

inductive Label
  /-- A task of the application calls the manager. -/
  | call (call : Call)
  /-- `on_connected_` calls the manager, inside a task. -/
  | callback (i : Nat) (call : Call)
  /-- A task executes its next statement. -/
  | step (i : Nat) (o : Outcome)
  deriving DecidableEq, Repr

/-- A call begins. The destructor runs once. -/
def State.begin (s : State) : Call → Option State
  | .start => some { s with starts := s.starts + 1 }
  | .publish => some s
  | .destroy => if s.destroying then none else some { s with destroying := true }

def step (s : State) : Label → Option State
  | .call call => if s.client.allocated then
      (s.begin call).map fun s =>
        { s with threads := s.threads ++ [⟨.caller call, call.code⟩] }
    else none
  | .callback i call => match s.threads[i]? with
    | some ⟨kind, .onConnected :: rest⟩ => if s.client.allocated ∧ call ≠ .publish then
        (s.begin call).map fun s =>
          { s with threads := s.threads.set i ⟨kind, call.code ++ .onConnected :: rest⟩ }
      else none
    | _ => none
  | .step i o => match s.threads[i]? with
    | some ⟨kind, op :: rest⟩ =>
      (exec s.client s.threads.length i o op).map fun (client, code, created) =>
        { s with client, threads := s.threads.set i ⟨kind, code ++ rest⟩ ++ created }
    | _ => none

/-- The runs of a manager from its constructor on. -/
def machine : Machine State Label := ⟨.constructed, step⟩

/-- Everything a step can do. -/
inductive Step (s : State) : Label → State → Prop
  | call (call : Call) (r : State) (hr : s.begin call = some r) :
    Step s (.call call) { r with threads := r.threads ++ [⟨.caller call, call.code⟩] }
  | callback (i : Nat) (call : Call) (kind : Kind) (rest : List Op) (r : State)
    (hi : s.threads[i]? = some ⟨kind, .onConnected :: rest⟩) (hc : call ≠ .publish)
    (hr : s.begin call = some r) :
    Step s (.callback i call)
      { r with threads := r.threads.set i ⟨kind, call.code ++ .onConnected :: rest⟩ }
  | step (i : Nat) (o : Outcome) (kind : Kind) (op : Op) (rest : List Op) (client : Shared)
    (code : List Op) (created : List Thread) (hi : s.threads[i]? = some ⟨kind, op :: rest⟩)
    (hx : exec s.client s.threads.length i o op = some (client, code, created)) :
    Step s (.step i o)
      { s with client, threads := s.threads.set i ⟨kind, code ++ rest⟩ ++ created }

theorem step_spec {s t : State} {a : Label} (h : step s a = some t) : Step s a t := by
  cases a with
  | call call =>
    simp only [step, Option.ite_none_right_eq_some, Option.map_eq_some_iff] at h
    obtain ⟨-, r, hr, rfl⟩ := h
    exact .call call r hr
  | callback i call =>
    simp only [step] at h
    split at h
    case h_1 kind rest hi =>
      simp only [Option.ite_none_right_eq_some, Option.map_eq_some_iff] at h
      obtain ⟨⟨-, hc⟩, r, hr, rfl⟩ := h
      exact .callback i call kind rest r hi hc hr
    case h_2 => cases h
  | step i o =>
    simp only [step] at h
    split at h
    case h_1 kind op rest hi =>
      obtain ⟨⟨client, code, created⟩, hx, rfl⟩ := Option.map_eq_some_iff.mp h
      exact .step i o kind op rest client code created hi hx
    case h_2 => cases h

/-- The statements that stand last in the code of a task: its loop, the branches of a round
that put the rest of the round in their place, and the end. -/
def Op.last : Op → Bool
  | .whileRun | .switchState | .createTransport | .connectTransport | .connect
  | .disconnectRequested | .receive | .resendQueued | .retransmit | .retransmitPubrel
  | .keepalive | .refresh | .waitReconnect | .setStopped => true
  | _ => false

/-- The code of a task that is over, or ends with a statement that has to be the last. -/
def complete : List Op → Bool
  | [] => true
  | [op] => op.last
  | op :: rest => !op.last && complete rest

theorem rest_eq_nil {op : Op} {rest : List Op} (h : complete (op :: rest) = true)
    (hop : op.last = true) : rest = [] := by
  cases rest with
  | nil => rfl
  | cons op' rest => simp [complete, hop] at h

theorem complete_rest {op : Op} {rest : List Op} (h : complete (op :: rest) = true)
    (hop : op.last = false) : rest ≠ [] ∧ complete rest = true := by
  cases rest with
  | nil => simp [complete, hop] at h
  | cons op' rest => simpa [complete, hop] using h

/-- Code none of whose statements has to be the last. -/
def Open (code : List Op) : Prop := ∀ op ∈ code, op.last = false

instance (code : List Op) : Decidable (Open code) := List.decidableBAll ..

theorem complete_append {code rest : List Op} (hcode : Open code) (hne : rest ≠ [])
    (hrest : complete rest = true) : complete (code ++ rest) = true := by
  induction code with
  | nil => exact hrest
  | cons op code ih =>
    obtain ⟨op', rest', he⟩ := List.exists_cons_of_ne_nil
      (List.append_ne_nil_of_right_ne_nil code hne)
    have hop := hcode op List.mem_cons_self
    have htail := ih fun x hx => hcode x (List.mem_cons_of_mem _ hx)
    rw [List.cons_append, he, complete, hop, ← he, htail]
    · rfl
    · simp

/-- The statements a branch puts in front are complete where the branch has to be the last, and
open where it does not; and none of them creates a task. -/
theorem exec_code {c c' : Shared} {n i : Nat} {o : Outcome} {op : Op} {code : List Op}
    {created : List Thread} (hx : exec c n i o op = some (c', code, created)) :
    (op.last = true → complete code = true) ∧ (op.last = false → Open code) ∧
      .createTask ∉ code := by
  have hnil : ∀ op : Op, (op.last = true → complete [] = true) ∧ (op.last = false → Open []) ∧
      .createTask ∉ ([] : List Op) := fun op => ⟨fun _ => rfl, fun _ => by simp [Open], by simp⟩
  cases op with
  | setRun value =>
    cases hx
    exact hnil _
  | setState state =>
    cases hx
    exact hnil _
  | post event =>
    cases hx
    exact hnil _
  | setConnected value =>
    cases hx
    exact hnil _
  | runLoop =>
    cases hq : c.queue with
    | nil =>
      simp only [exec, hq, Option.some.injEq, Prod.mk.injEq] at hx
      exact hx.2.1 ▸ hnil _
    | cons event queue =>
      simp only [exec, hq, Option.some.injEq, Prod.mk.injEq] at hx
      obtain ⟨-, rfl, -⟩ := hx
      cases event <;> decide
  | _ =>
    -- Every side of the other branches is closed code.
    simp only [exec] at hx
    repeat' split at hx
    all_goals cases hx
    all_goals first | decide | cases o <;> decide

/-- The tasks after one of them has moved on. -/
theorem getElem?_set_cases {threads : List Thread} {i j : Nat} {new th : Thread}
    (h : (threads.set i new)[j]? = some th) :
    j = i ∧ th = new ∨ j ≠ i ∧ threads[j]? = some th := by
  rw [List.getElem?_set] at h
  split at h
  case isTrue he =>
    split at h
    · exact .inl ⟨he.symm, (Option.some.inj h).symm⟩
    · cases h
  case isFalse he => exact .inr ⟨fun h => he h.symm, h⟩

/-- The tasks after one more has come. -/
theorem getElem?_append_cases {threads : List Thread} {j : Nat} {new th : Thread}
    (h : (threads ++ [new])[j]? = some th) :
    threads[j]? = some th ∨ j = threads.length ∧ th = new := by
  rw [List.getElem?_append] at h
  split at h
  · exact .inl h
  · obtain ⟨hlt, he⟩ := List.getElem?_eq_some_iff.mp h
    simp only [List.length_singleton, Nat.lt_one_iff] at hlt
    exact .inr ⟨by omega, by simpa [hlt] using he.symm⟩

/-- What a call changes besides the code of its task. -/
theorem begin_spec {s r : State} {call : Call} (h : s.begin call = some r) :
    r.client = s.client ∧ r.threads = s.threads ∧
      r.starts = s.starts + (if call = .start then 1 else 0) ∧
      (r.destroying = true ↔ s.destroying = true ∨ call = .destroy) := by
  cases call with
  | start =>
    cases h
    simp
  | publish =>
    cases h
    simp
  | destroy =>
    simp only [State.begin] at h
    split at h
    · cases h
    · cases h
      simp

/-- Task `i` executes its next `n` statements, and all goes well. -/
def running (i n : Nat) : List Label := List.replicate n (.step i .ok)

end IndustrialIot.Edge.Mqtt.Lifecycle
