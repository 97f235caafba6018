import IndustrialIot.Core.Machine
import IndustrialIot.Edge.Mqtt.Client

/-!
# MqttManager and its tasks

The application task calls `MqttManager::publish`, the MQTT task runs the client. A publish
reads the connection flag first and takes the API lock later, so anything can happen in
between. What runs under the lock is one step, as is the end of the task, which the flag
keeps from a publish that has not begun. Calls are numbered in order, and a record is the
number of the call that was given it.
-/

namespace IndustrialIot.Edge.Mqtt

/-- The arguments of `MqttManager::publish`, with the memory around the payload. -/
structure PublishArgs where
  topic : List UInt8
  payload : List UInt8
  /-- Whether an empty payload has a null pointer. -/
  null : Bool
  beyond : List UInt8
  before : List UInt8
  deriving DecidableEq, Repr

/-- `topic.c_str()`, up to its first null byte. -/
def PublishArgs.cTopic (args : PublishArgs) : List UInt8 :=
  args.topic.takeWhile fun b => b != 0

/-- `payload.data()` -/
def PublishArgs.data (args : PublishArgs) : Option Memory :=
  if args.payload = [] ∧ args.null then none
  else some ⟨args.payload ++ args.beyond, args.before⟩

/-- A publish between its test of the flag and the lock. -/
structure Call where
  record : Nat
  args : PublishArgs
  deriving DecidableEq, Repr

/-- Where the MQTT task is. -/
inductive TaskPc where
  /-- Created by `start`, not scheduled yet. -/
  | created
  /-- Before the test of `run`. -/
  | round
  /-- After the lock was released. -/
  | poll
  /-- After a failed poll. -/
  | abort
  | done
  deriving DecidableEq, Repr

/-- The manager, its client and both tasks. -/
structure Node where
  client : Client
  task : TaskPc
  /-- The number of publish calls so far. -/
  calls : Nat
  calling : Option Call
  /-- What the finished calls returned. -/
  results : List (Nat × Bool)
  deriving DecidableEq, Repr

/-- What can happen to a node. -/
inductive Action where
  /-- A publish is called and reads the flag. -/
  | call (args : PublishArgs)
  /-- A publish runs under the lock. -/
  | publish (input : PublishInput)
  /-- The MQTT task begins. -/
  | begin
  /-- One locked round of the task. -/
  | round (input : RoundInput)
  /-- The task polls the transport if the client is connected. -/
  | poll (ok : Bool)
  /-- The task aborts the connection after a failed poll. -/
  | abort
  /-- The task ends. -/
  | exit
  /-- Time passes. -/
  | advance (ms : Nat)
  deriving DecidableEq, Repr

/-- The client after the constructor, at some time. -/
def constructed (information : ConnectInfo) (now : Nat) : Client where
  now := now
  state := .init
  run := false
  connection := ⟨⟨[], 0, 0⟩, information⟩
  pendingMsgId := 0
  pendingMsgType := 0
  pendingPublishQos := 0
  outbox := []
  keepaliveTick := now
  reconnectTick := now
  waitTimeoutMs := 0
  waitForPingResp := false
  lastRetransmit := 0
  isConnected := false
  journal := ⟨[], [], [], [], [], [], []⟩

/-- What `platform_random(65535)` yields when it does not yield zero. -/
def IsMsgId (random : UInt16) : Prop := 0 < random ∧ random < 65535

instance (random : UInt16) : Decidable (IsMsgId random) := inferInstanceAs (Decidable (_ ∧ _))

/-- `MqttManager::publish` up to the lock. -/
def Node.call (n : Node) (args : PublishArgs) : Node :=
  let n' := { n with calls := n.calls + 1 }
  if n.client.isConnected then { n' with calling := some ⟨n.calls, args⟩ }
  else { n' with results := n.results ++ [(n.calls, false)] }

/-- The rest of `MqttManager::publish`. -/
def Node.publish (n : Node) (call : Call) (input : PublishInput) : Option Node :=
  (espMqttClientPublish n.client call.args.cTopic call.args.data call.args.payload.length 1 0
    call.record input).map fun (client, msgId) =>
      { n with
        client := client
        calling := none
        results := n.results ++ [(call.record, msgId.isSome)] }

/-- The steps of a node that was started. -/
def step (n : Node) : Action → Option Node
  | .call args => if n.calling = none then some (n.call args) else none
  | .publish input =>
    if IsMsgId input.random then n.calling.bind fun call => n.publish call input else none
  | .begin =>
    if n.task = .created then
      some { n with
        client := { n.client with run := true, state := .init, lastRetransmit := 0 }
        task := .round }
    else none
  | .round input =>
    if n.task = .round ∧ n.client.run = true ∧ IsMsgId input.random then
      let (client, polls) := espMqttTaskRound n.client input
      some { n with client := client, task := if polls then .poll else .round }
    else none
  | .poll ok =>
    if n.task = .poll then
      some { n with task := if n.client.state = .connected ∧ ok = false then .abort else .round }
    else none
  | .abort =>
    if n.task = .abort then
      some { n with client := espMqttAbortConnection n.client, task := .round }
    else none
  | .exit =>
    if n.task = .round ∧ n.client.run = false then
      some { n with client := espMqttTaskExit n.client, task := .done }
    else none
  | .advance ms => some { n with client := n.client.advance ms }

/-- What one step does, one constructor for each branch of `step`. -/
inductive Step (n : Node) : Action → Node → Prop
  | called (args) (hidle : n.calling = none) (hflag : n.client.isConnected = true) :
      Step n (.call args) { n with calls := n.calls + 1, calling := some ⟨n.calls, args⟩ }
  | refused (args) (hidle : n.calling = none) (hflag : n.client.isConnected = false) :
      Step n (.call args)
        { n with calls := n.calls + 1, results := n.results ++ [(n.calls, false)] }
  | publish (input call client result) (hid : IsMsgId input.random)
      (hcall : n.calling = some call)
      (h : espMqttClientPublish n.client call.args.cTopic call.args.data
        call.args.payload.length 1 0 call.record input = some (client, result)) :
      Step n (.publish input)
        { n with
          client := client
          calling := none
          results := n.results ++ [(call.record, result.isSome)] }
  | begin (h : n.task = .created) :
      Step n .begin
        { n with
          client := { n.client with run := true, state := .init, lastRetransmit := 0 }
          task := .round }
  | round (input) (h : n.task = .round) (hrun : n.client.run = true)
      (hid : IsMsgId input.random) :
      Step n (.round input)
        { n with
          client := (espMqttTaskRound n.client input).1
          task := if (espMqttTaskRound n.client input).2 then .poll else .round }
  | poll (ok) (h : n.task = .poll) :
      Step n (.poll ok)
        { n with task := if n.client.state = .connected ∧ ok = false then .abort else .round }
  | abort (h : n.task = .abort) :
      Step n .abort { n with client := espMqttAbortConnection n.client, task := .round }
  | exit (h : n.task = .round) (hrun : n.client.run = false) :
      Step n .exit { n with client := espMqttTaskExit n.client, task := .done }
  | advance (ms) : Step n (.advance ms) { n with client := n.client.advance ms }

/-- Every enabled step is one of the listed ones. -/
theorem step_spec {n n' : Node} {a : Action} (h : step n a = some n') : Step n a n' := by
  cases a with
  | call args =>
    obtain ⟨hidle, h⟩ := Option.ite_none_right_eq_some.mp h
    unfold Node.call at h
    cases hflag : n.client.isConnected with
    | true =>
      simp only [hflag, if_true] at h
      cases h
      exact .called args hidle hflag
    | false =>
      simp only [hflag, Bool.false_eq_true, if_false] at h
      cases h
      exact .refused args hidle hflag
  | publish input =>
    obtain ⟨hid, h⟩ := Option.ite_none_right_eq_some.mp h
    obtain ⟨call, hcall, h⟩ := Option.bind_eq_some_iff.mp h
    obtain ⟨⟨client, result⟩, hpublish, rfl⟩ := Option.map_eq_some_iff.mp h
    exact .publish input call client result hid hcall hpublish
  | begin =>
    obtain ⟨htask, h⟩ := Option.ite_none_right_eq_some.mp h
    cases h
    exact .begin htask
  | round input =>
    obtain ⟨⟨htask, hrun, hid⟩, h⟩ := Option.ite_none_right_eq_some.mp h
    cases h
    exact .round input htask hrun hid
  | poll ok =>
    obtain ⟨htask, h⟩ := Option.ite_none_right_eq_some.mp h
    cases h
    exact .poll ok htask
  | abort =>
    obtain ⟨htask, h⟩ := Option.ite_none_right_eq_some.mp h
    cases h
    exact .abort htask
  | exit =>
    obtain ⟨⟨htask, hrun⟩, h⟩ := Option.ite_none_right_eq_some.mp h
    cases h
    exact .exit htask hrun
  | advance ms =>
    cases h
    exact .advance ms

/-- All runs of a node that was constructed and started once. -/
def node (information : ConnectInfo) (now : Nat) : Machine Node Action where
  init := ⟨constructed information now, .created, 0, none, []⟩
  step := step

end IndustrialIot.Edge.Mqtt
