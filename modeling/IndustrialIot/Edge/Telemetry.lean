import IndustrialIot.Edge.Mqtt.Session
import IndustrialIot.Edge.Serializer

/-!
# The application of the node

`app_main` serializes a record with the next value of its counter, publishes it and sleeps. What
of it reaches the line are records that the gateway parses back, each with a counter value that
was drawn.
-/

namespace IndustrialIot.Edge

open Gateway (SensorData)
open Mqtt (Action Line PublishArgs ConnectInfo)
open ControlPacket (Packet encodeAll)

/-- `"industrial/telemetry/sensor"` -/
def telemetryTopic : List UInt8 :=
  [105, 110, 100, 117, 115, 116, 114, 105, 97, 108, 47, 116, 101, 108, 101, 109, 101, 116, 114,
    121, 47, 115, 101, 110, 115, 111, 114]

/-- `"ESP32-NODE-01"` -/
def nodeId : List UInt8 := [69, 83, 80, 51, 50, 45, 78, 79, 68, 69, 45, 48, 49]

/-- `25.4f` -/
def nodeTemperature : UInt32 := 0x41CB3333

/-- `48.2f` -/
def nodeHumidity : UInt32 := 0x4240CCCD

/-- The payload of the loop in `app_main` for a value of its counter. -/
def telemetry (counter : UInt32) : List UInt8 :=
  serializeSensorData nodeId nodeTemperature nodeHumidity counter

/-- The time that `vTaskDelay(pdMS_TO_TICKS(10000))` lasts at least: of the thousand ticks of ten
milliseconds the first may be over at once. -/
def delayMs : Nat := 9990

/-- The locals of `app_main` and the node with its line. -/
structure App where
  line : Line
  counter : UInt32
  /-- The end of `vTaskDelay`. -/
  wakeAt : Nat
  deriving DecidableEq

/-- What can happen to the application and to the rest of the node. -/
inductive AppAction where
  /-- The loop comes round, with some memory around the payload. -/
  | send (beyond before : List UInt8)
  /-- Any step of the node but a call of `publish`. -/
  | node (a : Action)
  deriving DecidableEq

/-- The arguments of `publish`. -/
def App.args (s : App) (beyond before : List UInt8) : PublishArgs where
  topic := telemetryTopic
  payload := telemetry s.counter
  null := false
  beyond := beyond
  before := before

/-- Whether a step can be taken: the loop comes round after its sleep, and nobody else calls
`publish`. -/
def App.Ready (s : App) : AppAction → Prop
  | .send _ _ => s.wakeAt ≤ s.line.node.client.now
  | .node (.call _) => False
  | .node _ => True

instance (s : App) : (a : AppAction) → Decidable (s.Ready a)
  | .send _ _ => inferInstanceAs (Decidable (_ ≤ _))
  | .node (.call _) => inferInstanceAs (Decidable False)
  | .node (.publish _) | .node .begin | .node (.round _) | .node (.poll _) | .node .abort
  | .node .exit | .node (.advance _) => inferInstanceAs (Decidable True)

/-- The step of the node that a step of the application is. -/
def App.action (s : App) : AppAction → Action
  | .send beyond before => .call (s.args beyond before)
  | .node a => a

/-- `counter++` -/
def App.nextCounter (s : App) : AppAction → UInt32
  | .send _ _ => s.counter + 1
  | .node _ => s.counter

/-- The loop sleeps once `publish` has returned. -/
def App.nextWake (s : App) (line : Line) : Nat :=
  if s.line.node.results.length < line.node.results.length then line.node.client.now + delayMs
  else s.wakeAt

/-- The steps of the application. -/
def appStep (s : App) (a : AppAction) : Option App :=
  if s.Ready a then
    (Mqtt.lineStep s.line (s.action a)).map fun line => ⟨line, s.nextCounter a, s.nextWake line⟩
  else none

/-- All runs of `app_main` on a node that was started. -/
def app (information : ConnectInfo) (now : Nat) : Machine App AppAction where
  init := ⟨(Mqtt.line information now).init, 0, now⟩
  step := appStep

theorem appStep_eq_some {s s' : App} {a : AppAction} (h : appStep s a = some s') :
    s.Ready a ∧ Mqtt.lineStep s.line (s.action a) = some s'.line ∧
      s'.counter = s.nextCounter a ∧ s'.wakeAt = s.nextWake s'.line := by
  obtain ⟨hready, h⟩ := Option.ite_none_right_eq_some.mp h
  obtain ⟨line, hline, rfl⟩ := Option.map_eq_some_iff.mp h
  exact ⟨hready, hline, rfl, rfl⟩

/-- A record with one of the first values of the counter. -/
def Telemetry (calls : Nat) (topic payload : List UInt8) : Prop :=
  topic = telemetryTopic ∧ ∃ k < calls, payload = telemetry (UInt32.ofNat k)

instance (calls : Nat) (topic payload : List UInt8) : Decidable (Telemetry calls topic payload) :=
  inferInstanceAs (Decidable (_ ∧ ∃ k < calls, payload = telemetry (UInt32.ofNat k)))

/-- A record is never empty, and fits the buffer. -/
theorem length_telemetry (counter : UInt32) :
    telemetry counter ≠ [] ∧ telemetryTopic.length + 9 + (telemetry counter).length ≤ 1024 := by
  have hlen : (storedId nodeId).length ≤ 31 := List.length_take_le ..
  have hbounds := sensorDataLength_bounds hlen nodeTemperature nodeHumidity counter
  have hlength := length_serializeSensorData nodeId nodeTemperature nodeHumidity counter
  have hid : storedId nodeId ≠ [] := by decide
  refine ⟨fun hnil => ?_, ?_⟩
  · rw [telemetry] at hnil
    rw [hnil] at hlength
    exact hid (hbounds.2.mp hlength.symm).1
  · rw [telemetry, hlength]
    exact Nat.le_trans (Nat.add_le_add_left hbounds.1 _) (by decide)

/-- A record is parsed back. -/
theorem parse_telemetry (counter : UInt32) :
    SensorData.parseFromString (telemetry counter) =
      some ⟨nodeId, by decide, nodeTemperature, nodeHumidity, counter⟩ := by
  rw [telemetry, parse_serializeSensorData]
  exact dif_pos (by decide)

/-! ## Runs -/

/-- The calls of `publish` are counted by their sender. -/
theorem calls_of_appStep {s s' : App} {a : AppAction} (h : appStep s a = some s') :
    (∃ beyond before, a = .send beyond before ∧ s'.counter = s.counter + 1 ∧
        s'.line.node.calls = s.line.node.calls + 1) ∨
      ∃ b, a = .node b ∧ s'.counter = s.counter ∧ s'.line.node.calls = s.line.node.calls := by
  obtain ⟨hready, hline, hcounter, _⟩ := appStep_eq_some h
  obtain ⟨node, hnode, hline⟩ := Option.map_eq_some_iff.mp hline
  rw [← hline]
  cases a with
  | send beyond before =>
    refine .inl ⟨beyond, before, rfl, hcounter, ?_⟩
    cases Mqtt.step_spec hnode <;> rfl
  | node b =>
    refine .inr ⟨b, rfl, hcounter, ?_⟩
    cases Mqtt.step_spec hnode with
    | called | refused => exact hready.elim
    | publish | begin | round | poll | abort | exit | advance => rfl

/-- A step under which packets stay whole. The application does its part. -/
def AppOrderly (s : App) : AppAction → Prop
  | .send _ _ => True
  | .node a => Mqtt.Orderly (Telemetry s.line.node.calls) s.line a

instance (s : App) : (a : AppAction) → Decidable (AppOrderly s a)
  | .send _ _ => inferInstanceAs (Decidable True)
  | .node _ => inferInstanceAs (Decidable (Mqtt.Orderly _ _ _))

/-- What holds of the application and its line. -/
structure AppInv (information : ConnectInfo) (s : App) : Prop where
  counter : s.counter = UInt32.ofNat s.line.node.calls
  line : Mqtt.LineInv (Telemetry s.line.node.calls) information s.line

theorem Telemetry.mono {calls calls' : Nat} (hle : calls ≤ calls') (topic payload : List UInt8)
    (h : Telemetry calls topic payload) : Telemetry calls' topic payload := by
  obtain ⟨htopic, k, hk, hpayload⟩ := h
  exact ⟨htopic, k, Nat.lt_of_lt_of_le hk hle, hpayload⟩

/-- What the application publishes is a record with its counter. -/
theorem AppInv.admissible {information : ConnectInfo} {s : App} (h : AppInv information s)
    (beyond before : List UInt8) :
    Mqtt.Admissible (Telemetry (s.line.node.calls + 1)) (s.args beyond before) := by
  have htopic : (s.args beyond before).cTopic = telemetryTopic := by
    change telemetryTopic.takeWhile _ = telemetryTopic
    decide
  obtain ⟨hne, hroom⟩ := length_telemetry s.counter
  refine ⟨⟨htopic, s.line.node.calls, Nat.lt_succ_self _, ?_⟩, hne, ?_⟩
  · rw [← h.counter]
    rfl
  · rw [htopic]
    exact hroom

theorem AppInv.step {information : ConnectInfo} {s s' : App} {a : AppAction}
    (h : AppInv information s) (horderly : AppOrderly s a) (hstep : appStep s a = some s') :
    AppInv information s' := by
  obtain ⟨_, hline, _, _⟩ := appStep_eq_some hstep
  rcases calls_of_appStep hstep with ⟨beyond, before, rfl, hcounter, hcalls⟩ |
    ⟨b, rfl, hcounter, hcalls⟩
  · have hold := h.line.imp (Telemetry.mono (Nat.le_succ s.line.node.calls))
    refine ⟨?_, ?_⟩
    · rw [hcounter, hcalls, h.counter, UInt32.ofNat_add]
      rfl
    · rw [hcalls]
      exact hold.step (a := .call _) (h.admissible beyond before) hline
  · refine ⟨?_, ?_⟩
    · rw [hcounter, hcalls, h.counter]
    · rw [hcalls]
      exact h.line.step horderly hline

/-- Whatever has happened to the node, its line carries the beginning of a session in which every
publication is a record that the gateway parses back, with a counter value that was drawn. -/
theorem telemetry_on_line {information : ConnectInfo} {now : Nat} {as : List AppAction} {s : App}
    (hrun : (app information now).exec (app information now).init as = some s)
    (horderly : (app information now).StepsMeet AppOrderly (app information now).init as) :
    ∃ ps, Mqtt.Session (fun topic payload => topic = telemetryTopic ∧
        ∃ k < s.line.node.calls, SensorData.parseFromString payload =
          some ⟨nodeId, by decide, nodeTemperature, nodeHumidity, UInt32.ofNat k⟩) information ps ∧
      s.line.bytes <+: encodeAll ps ∧
      (s.line.node.client.state = .connected → ps ≠ [] ∧ s.line.bytes = encodeAll ps) := by
  have hinv : AppInv information s :=
    Machine.exec_invariant_of_stepsMeet (M := app information now) (P := AppInv information)
      (fun _ _ _ h hmeet hstep => h.step hmeet hstep)
      ⟨rfl, Mqtt.lineInv_init _ information now⟩ horderly hrun
  refine (hinv.line.imp fun topic payload h => ?_).begun
  obtain ⟨htopic, k, hk, rfl⟩ := h
  exact ⟨htopic, k, hk, parse_telemetry _⟩

/-- Two records, the second one on a line that breaks. -/
def twoRecords : List AppAction :=
  [.node .begin, .node (.round Mqtt.quietRound), .send [] [],
    .node (.publish ⟨7, true, [[100]], 0⟩), .node (.advance 9990), .send [] [],
    .node (.publish ⟨8, true, [[30]], 0⟩)]

theorem telemetry_on_line_twoRecords :
    ∃ s, (app Mqtt.information 0).exec (app Mqtt.information 0).init twoRecords = some s ∧
      (s.counter, s.line.node.results, s.line.bytes.length) = (2, [(0, true), (1, false)], 103) ∧
      ∃ ps, Mqtt.Session (fun topic payload => topic = telemetryTopic ∧
          ∃ k < s.line.node.calls, SensorData.parseFromString payload =
            some ⟨nodeId, by decide, nodeTemperature, nodeHumidity, UInt32.ofNat k⟩)
          Mqtt.information ps ∧
        s.line.bytes <+: encodeAll ps ∧
        (s.line.node.client.state = .connected → ps ≠ [] ∧ s.line.bytes = encodeAll ps) := by
  have hrun : ((app Mqtt.information 0).exec (app Mqtt.information 0).init twoRecords).map
      (fun s => (s.counter, s.line.node.results, s.line.bytes.length)) =
        some (2, [(0, true), (1, false)], 103) := by
    decide +kernel
  obtain ⟨s, hs, hfacts⟩ := Option.map_eq_some_iff.mp hrun
  exact ⟨s, hs, hfacts, telemetry_on_line hs (by decide +kernel)⟩

end IndustrialIot.Edge
