import IndustrialIot.Edge.Mqtt.Acknowledged
import IndustrialIot.Edge.Telemetry
import IndustrialIot.Gateway.Shutdown

/-!
# From the sensor to the worker

The node and the gateway service around one broker. The broker is not a part of the repository
but for its configuration: it may receive any first part of what the transport of the node took,
and hand on what it has received as often and as late as it likes, or never.
-/

namespace IndustrialIot.Ingestion

open Edge (App AppAction telemetryTopic nodeId nodeTemperature nodeHumidity)
open Edge.Mqtt (ConnectInfo OutboxItem RoundInput publications said)
open Gateway (Record SensorData)
open Gateway.SafeQueue (pushed removed)

/-- `"industrial/telemetry"` -/
def telemetryRoot : List UInt8 :=
  [105, 110, 100, 117, 115, 116, 114, 105, 97, 108, 47, 116, 101, 108, 101, 109, 101, 116, 114, 121]

/-- Whether the filter `"industrial/telemetry/#"` of the gateway covers a topic. -/
def Covered (topic : List UInt8) : Prop := topic = telemetryRoot ∨ telemetryRoot ++ [47] <+: topic

instance (topic : List UInt8) : Decidable (Covered topic) := inferInstanceAs (Decidable (_ ∨ _))

/-- The node, the broker and the gateway. -/
structure State where
  app : App
  /-- The publications that the broker has received on the present connection. -/
  here : List (UInt16 × List UInt8 × List UInt8)
  /-- The topics and payloads that the broker has received. -/
  received : List (List UInt8 × List UInt8)
  /-- The payloads that the broker has handed on. -/
  delivered : List Record
  gateway : Gateway.Service.State

/-- What can happen anywhere. -/
inductive Action where
  | node (a : AppAction)
  /-- The broker has received a number of bytes of the present connection. -/
  | arrive (count : Nat)
  | gateway (a : Gateway.Service.Action)

/-- Whether the broker has a publication for the gateway with a payload. -/
def State.CanDeliver (s : State) (record : Record) : Prop :=
  ∃ r ∈ s.received, Covered r.1 ∧ r.2 = record

instance (s : State) (record : Record) : Decidable (s.CanDeliver record) :=
  inferInstanceAs (Decidable (∃ r ∈ s.received, _))

/-- A step of the gateway, which gets its messages from the broker. -/
def gatewayStep (s : State) (a : Gateway.Service.Action) : Option State :=
  match a with
  | .messageArrived record =>
    if s.CanDeliver record then
      (Gateway.Service.step s.gateway (.messageArrived record)).map fun gateway =>
        { s with gateway := gateway, delivered := s.delivered ++ [record] }
    else none
  | a => (Gateway.Service.step s.gateway a).map fun gateway => { s with gateway := gateway }

/-- The steps of the whole system. -/
def step (s : State) : Action → Option State
  | .node a => (Edge.appStep s.app a).map fun app =>
    { s with app := app, here := if s.app.line.opens (s.app.action a) then [] else s.here }
  | .arrive count =>
    let arrived := publications (s.app.line.bytes.take count)
    some { s with here := s.here ++ arrived, received := s.received ++ arrived.map Prod.snd }
  | .gateway a => gatewayStep s a

/-- All interleavings of a node, the broker and a gateway service. -/
def system (information : ConnectInfo) (now : Nat) : Machine State Action where
  init := ⟨(Edge.app information now).init, [], [], [], Gateway.Service.start⟩
  step := step

/-! ## The gateway -/

/-- The records that a step of the gateway pushes. -/
def arrivals : Gateway.Service.Action → List Record
  | .messageArrived record => [record]
  | _ => []

/-- Only a callback pushes a record. -/
theorem pushed_of_step {s t : Gateway.Service.State} {a : Gateway.Service.Action}
    (h : Gateway.Service.step s a = some t) :
    pushed t.history = pushed s.history ++ arrivals a := by
  cases Gateway.Service.step_spec h <;> simp [arrivals, pushed]

/-- What the gateway has parsed, holds and stores is what was pushed, in order. -/
theorem parsed_held_queued {s : Gateway.Service.State}
    (h : Gateway.Service.machine.Reachable s) :
    s.parsed ++ s.worker.held ++ s.queue.queue = pushed s.history := by
  rw [Gateway.Service.parsed_eq_removed h]
  exact (Gateway.SafeQueue.represents_of_reachable
    (Gateway.Service.simulation.reachable h)).contents

/-- A step of the gateway in the system is one of its own. -/
theorem gatewayStep_eq_some {s t : State} {a : Gateway.Service.Action}
    (h : gatewayStep s a = some t) :
    Gateway.Service.step s.gateway a = some t.gateway ∧ t.app = s.app ∧ t.here = s.here ∧
      t.received = s.received ∧ t.delivered = s.delivered ++ arrivals a ∧
      ∀ record ∈ arrivals a, s.CanDeliver record := by
  cases a with
  | messageArrived record =>
    obtain ⟨hcan, h⟩ := Option.ite_none_right_eq_some.mp h
    obtain ⟨gateway, hgateway, rfl⟩ := Option.map_eq_some_iff.mp h
    exact ⟨hgateway, rfl, rfl, rfl, rfl, by simpa [arrivals] using hcan⟩
  | signal | main | worker | spurious | suback | connectionLost =>
    obtain ⟨gateway, hgateway, rfl⟩ := Option.map_eq_some_iff.mp h
    exact ⟨hgateway, rfl, rfl, rfl, (List.append_nil _).symm, by simp [arrivals]⟩

/-! ## The line -/

/-- The filter of the gateway covers the topic of the node. -/
theorem covered_telemetryTopic : Covered telemetryTopic := by decide

/-- Whatever part of a session has arrived, the publications in it are allowed. -/
theorem publications_of_begun {Q : List UInt8 → List UInt8 → Prop} {information : ConnectInfo}
    {bytes : List UInt8} {intact : Prop} (h : Edge.Mqtt.Begun Q information bytes intact)
    (count : Nat) : ∀ s ∈ publications (bytes.take count), Q s.2.1 s.2.2 := by
  obtain ⟨ps, hps, hpre, _⟩ := h
  intro s hs
  obtain ⟨p, hp, hsaid⟩ := List.mem_filterMap.mp hs
  have hmem : p ∈ ps := (ControlPacket.packets_prefix
    ((List.take_prefix count bytes).trans hpre)).subset hp
  cases ps with
  | nil => exact absurd hmem List.not_mem_nil
  | cons first requests =>
    rcases List.mem_cons.mp hmem with rfl | hmem
    · rw [hps.1.said] at hsaid
      cases hsaid
    · exact (hps.2 p hmem).allowed hsaid

/-! ## Runs -/

section Runs

variable {information : ConnectInfo} {now : Nat} {s t : State} {a : Action}

/-- The condition on the steps of the node. -/
def Orderly (s : State) : Action → Prop
  | .node a => Edge.AppOrderly s.app a
  | _ => True

instance (s : State) : (a : Action) → Decidable (Orderly s a)
  | .node a => inferInstanceAs (Decidable (Edge.AppOrderly s.app a))
  | .arrive _ | .gateway _ => inferInstanceAs (Decidable True)

/-- What holds of the whole system. -/
structure Genuine (information : ConnectInfo) (s : State) : Prop where
  app : Edge.AppInv information s.app
  gateway : Gateway.Service.machine.Reachable s.gateway
  received : ∀ r ∈ s.received, Edge.Telemetry s.app.line.node.calls r.1 r.2
  delivered : ∀ record ∈ s.delivered, s.CanDeliver record
  pushed : pushed s.gateway.history = s.delivered

theorem Genuine.step (h : Genuine information s) (horderly : Orderly s a)
    (hstep : step s a = some t) : Genuine information t := by
  cases a with
  | node a =>
    obtain ⟨app, happ, rfl⟩ := Option.map_eq_some_iff.mp hstep
    have hcalls : s.app.line.node.calls ≤ app.line.node.calls := by
      rcases Edge.calls_of_appStep happ with ⟨_, _, _, _, hcalls⟩ | ⟨_, _, _, hcalls⟩
      · exact hcalls ▸ Nat.le_succ _
      · exact Nat.le_of_eq hcalls.symm
    exact ⟨h.app.step horderly happ, h.gateway, fun r hr => (h.received r hr).mono hcalls r.1 r.2,
      h.delivered, h.pushed⟩
  | arrive count =>
    cases hstep
    refine ⟨h.app, h.gateway, fun r hr => ?_, fun record hrecord => ?_, h.pushed⟩
    · rcases List.mem_append.mp hr with hold | hnew
      · exact h.received r hold
      · obtain ⟨said, hsaid, rfl⟩ := List.mem_map.mp hnew
        exact publications_of_begun h.app.line.begun count said hsaid
    · obtain ⟨r, hr, hcan⟩ := h.delivered record hrecord
      exact ⟨r, List.mem_append_left _ hr, hcan⟩
  | gateway a =>
    obtain ⟨hgateway, happ, _, hreceived, hdelivered, hcan⟩ := gatewayStep_eq_some hstep
    refine ⟨happ ▸ h.app, h.gateway.step hgateway, ?_, fun record hrecord => ?_, ?_⟩
    · rw [hreceived, happ]
      exact h.received
    · rw [State.CanDeliver, hreceived]
      rcases List.mem_append.mp (hdelivered ▸ hrecord) with hold | hnew
      · exact h.delivered record hold
      · exact hcan record hnew
    · rw [pushed_of_step hgateway, h.pushed, hdelivered]

theorem genuine_init (information : ConnectInfo) (now : Nat) :
    Genuine information (system information now).init :=
  ⟨⟨rfl, Edge.Mqtt.lineInv_init _ information now⟩, Gateway.Service.machine.reachable_init,
    fun _ hr => absurd hr List.not_mem_nil, fun _ hr => absurd hr List.not_mem_nil, rfl⟩

/-- The gateway has subscribed to everything that the node publishes. Its worker parses what the
broker hands on, in that order, and each of it is a record that the node drew a counter value for.
So no parse fails, whatever connections broke on the way. -/
theorem parsed_is_telemetry {as : List Action}
    (hrun : (system information now).exec (system information now).init as = some s)
    (horderly : (system information now).StepsMeet Orderly (system information now).init as) :
    (∀ r ∈ s.received, s.CanDeliver r.2) ∧ s.gateway.parsed <+: s.delivered ∧
      ∀ record ∈ s.gateway.parsed, ∃ k < s.app.line.node.calls,
        SensorData.parseFromString record =
          some ⟨nodeId, by decide, nodeTemperature, nodeHumidity, UInt32.ofNat k⟩ := by
  have hgenuine : Genuine information s :=
    Machine.exec_invariant_of_stepsMeet (M := system information now) (P := Genuine information)
      (fun _ _ _ h hmeet hstep => h.step hmeet hstep) (genuine_init information now) horderly hrun
  have hpre : s.gateway.parsed <+: s.delivered := by
    rw [← hgenuine.pushed, ← parsed_held_queued hgenuine.gateway, List.append_assoc]
    exact List.prefix_append _ _
  refine ⟨fun r hr => ⟨r, hr, (hgenuine.received r hr).1 ▸ covered_telemetryTopic, rfl⟩, hpre,
    fun record hrecord => ?_⟩
  obtain ⟨r, hr, _, rfl⟩ := hgenuine.delivered record (hpre.subset hrecord)
  obtain ⟨_, k, hk, hpayload⟩ := hgenuine.received r hr
  exact ⟨k, hk, hpayload ▸ Edge.parse_telemetry _⟩

/-- One record on its way, and half of the next one. -/
def oneRecord : List Action :=
  [.node (.node .begin), .node (.node (.round Edge.Mqtt.quietRound)), .node (.send [] []),
    .node (.node (.publish ⟨7, true, [[100]], 0⟩)), .node (.node (.advance 9990)),
    .node (.send [] []), .node (.node (.publish ⟨8, true, [[30]], 0⟩)), .arrive 90] ++
    Gateway.Service.connecting.map .gateway ++
    [.gateway (.messageArrived (Edge.telemetry 0)), .gateway .worker, .gateway .worker,
      .gateway .worker]

theorem parsed_is_telemetry_oneRecord :
    ∃ s, (system Edge.Mqtt.information 0).exec (system Edge.Mqtt.information 0).init oneRecord =
        some s ∧ s.gateway.parsed = [Edge.telemetry 0] ∧
      (∀ r ∈ s.received, s.CanDeliver r.2) ∧ s.gateway.parsed <+: s.delivered ∧
      ∀ record ∈ s.gateway.parsed, ∃ k < s.app.line.node.calls,
        SensorData.parseFromString record =
          some ⟨nodeId, by decide, nodeTemperature, nodeHumidity, UInt32.ofNat k⟩ := by
  have hrun : ((system Edge.Mqtt.information 0).exec (system Edge.Mqtt.information 0).init
      oneRecord).map (fun s => s.gateway.parsed) = some [Edge.telemetry 0] := by
    decide +kernel
  obtain ⟨s, hs, hparsed⟩ := Option.map_eq_some_iff.mp hrun
  exact ⟨s, hs, hparsed, parsed_is_telemetry hs (by decide +kernel)⟩

/-! ## Acknowledgements -/

/-- A publication draws an id that no stored record has, and that was not published on the present
connection. -/
def Fresh (s : State) : Action → Prop
  | .node a => Edge.Mqtt.Unused s.app.line (s.app.action a) ∧
    Edge.Mqtt.Unsent s.app.line (s.app.action a)
  | _ => True

instance (s : State) : (a : Action) → Decidable (Fresh s a)
  | .node _ => inferInstanceAs (Decidable (_ ∧ _))
  | .arrive _ | .gateway _ => inferInstanceAs (Decidable True)

/-- The broker answers what it has received on the present connection. -/
def State.Answers (s : State) (input : RoundInput) : Prop :=
  ∀ id, input.received = .puback id ∨ input.received = .pubcomp id → id ∈ s.here.map Prod.fst

/-- What holds of the node and of the broker's knowledge of it. -/
structure Followed (information : ConnectInfo) (s : State) : Prop where
  genuine : Genuine information s
  matched : Edge.Mqtt.Matched (Edge.Telemetry s.app.line.node.calls) information True s.app.line
  written : s.here ⊆ publications s.app.line.bytes
  kept : s.here.map Prod.snd ⊆ s.received

/-- A step of the application keeps its items matched. -/
theorem matched_appStep {app app' : App} {a : AppAction} (h : Edge.AppInv information app)
    (hmatched : Edge.Mqtt.Matched (Edge.Telemetry app.line.node.calls) information True app.line)
    (horderly : Edge.AppOrderly app a) (hunused : Edge.Mqtt.Unused app.line (app.action a))
    (hunsent : Edge.Mqtt.Unsent app.line (app.action a)) (hstep : Edge.appStep app a = some app') :
    Edge.Mqtt.Matched (Edge.Telemetry app'.line.node.calls) information True app'.line := by
  obtain ⟨_, hline, _, _⟩ := Edge.appStep_eq_some hstep
  rcases Edge.calls_of_appStep hstep with ⟨beyond, before, rfl, _, hcalls⟩ | ⟨b, rfl, _, hcalls⟩
  · rw [hcalls]
    exact (hmatched.imp (Edge.Telemetry.mono (Nat.le_succ app.line.node.calls))).step
      (a := .call _) (h.admissible beyond before) hunused (fun _ => hunsent) hline
  · rw [hcalls]
    exact hmatched.step horderly hunused (fun _ => hunsent) hline

theorem Followed.step (h : Followed information s) (horderly : Orderly s a) (hfresh : Fresh s a)
    (hstep : step s a = some t) : Followed information t := by
  have hgenuine := h.genuine.step horderly hstep
  cases a with
  | node a =>
    obtain ⟨app, happ, rfl⟩ := Option.map_eq_some_iff.mp hstep
    obtain ⟨_, hline, _, _⟩ := Edge.appStep_eq_some happ
    obtain ⟨node, _, hline⟩ := Option.map_eq_some_iff.mp hline
    refine ⟨hgenuine,
      matched_appStep h.genuine.app h.matched horderly hfresh.1 hfresh.2 happ, ?_, ?_⟩
    · simp only [← hline]
      split
      · exact List.nil_subset _
      · exact List.Subset.trans h.written
          (Edge.Mqtt.publications_mono (List.prefix_append _ _))
    · simp only
      split
      · exact List.nil_subset _
      · exact h.kept
  | arrive count =>
    cases hstep
    refine ⟨hgenuine, h.matched, ?_, ?_⟩
    · exact List.append_subset.mpr
        ⟨h.written, Edge.Mqtt.publications_mono (List.take_prefix ..)⟩
    · rw [List.map_append]
      exact List.append_subset.mpr ⟨List.subset_append_of_subset_left _ h.kept,
        List.subset_append_right _ _⟩
  | gateway a =>
    obtain ⟨_, happ, hhere, hreceived, _, _⟩ := gatewayStep_eq_some hstep
    exact ⟨hgenuine, happ ▸ h.matched, by rw [hhere, happ]; exact h.written,
      by rw [hhere, hreceived]; exact h.kept⟩

end Runs

end IndustrialIot.Ingestion
