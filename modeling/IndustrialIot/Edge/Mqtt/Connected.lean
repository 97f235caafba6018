import IndustrialIot.Edge.Mqtt.Manager
import IndustrialIot.Edge.Mqtt.Publish

/-!
# How a client comes to be connected

Only a round in the initial state connects, and every failure that the client notices takes it
out of the connected state within the same step.
-/

namespace IndustrialIot.Edge.Mqtt

/-- A client is connected after a publish only if it was before. -/
theorem Published.connected {c c' : Client} {fits : Prop} {record : Nat} {input : PublishInput}
    {result : Option UInt16} (h : Published c fits record input c' result)
    (hc' : c'.state = .connected) : c.state = .connected := by
  cases h with
  | rejected hrejected connection msgId type qos => exact hc'
  | offline hstored hstate connection buffer => exact hc'
  | cutOff hstored hstate connection buffer whole => exact hstate
  | sent hstored hstate connection buffer => exact hstate

/-- A client connects only over a transport, and when the broker accepts. -/
theorem initRound_connected {c : Client} {input : RoundInput} (hc : c.state = .init)
    (h : (initRound c input).state = .connected) :
    input.transportCreated = true ∧ input.transportConnected = true ∧ input.connack = true := by
  unfold initRound at h
  simp only at h
  split at h
  · rename_i hcreated
    split at h
    · rename_i hconnected
      refine ⟨hcreated, hconnected, ?_⟩
      split at h
      · rename_i hok
        unfold espMqttConnect at hok
        simp only at hok
        split at hok
        · cases hok
        · exact (Bool.and_eq_true_iff.mp hok).2
      · cases h
    · cases h
  · exact absurd (hc.symm.trans h) (by decide)

/-- A client that processes what it received badly loses its connection. -/
theorem connectedRound_connected {c : Client} {input : RoundInput}
    (h : (connectedRound c input).state = .connected) :
    (mqttProcessReceive (c.advance input.receiveTime) input).1 = true := by
  unfold connectedRound at h
  simp only at h
  split at h
  · assumption
  · cases h

/-- A client is connected after a step if it was before, or connects in this step. -/
theorem connected_of_step {n n' : Node} {a : Action} (h : Mqtt.step n a = some n')
    (hn' : n'.client.state = .connected) :
    n.client.state = .connected ∨ ∃ input, a = .round input ∧ n.client.state = .init ∧
      input.transportCreated = true ∧ input.transportConnected = true ∧ input.connack = true := by
  cases step_spec h with
  | called args hidle hflag => exact .inl hn'
  | refused args hidle hflag => exact .inl hn'
  | publish input call client result hid hcall hpublish =>
    exact .inl ((published hpublish).connected hn')
  | begin htask => cases hn'
  | round input htask hrun hid =>
    have hkeep : (mqttDeleteExpiredMessages n.client).state = n.client.state := rfl
    change (espMqttTaskRound n.client input).1.state = .connected at hn'
    unfold espMqttTaskRound at hn'
    simp only [hkeep] at hn'
    cases hstate : n.client.state with
    | init =>
      simp only [hstate] at hn'
      exact .inr ⟨input, rfl, rfl, initRound_connected (hkeep.trans hstate) hn'⟩
    | disconnected =>
      simp only [hstate] at hn'
      exact absurd ((hkeep.trans hstate).symm.trans hn') (by decide)
    | connected => exact .inl rfl
    | waitReconnect =>
      simp only [hstate] at hn'
      split at hn'
      · cases hn'
      · exact absurd ((hkeep.trans hstate).symm.trans hn') (by decide)
  | poll ok htask => exact .inl hn'
  | abort htask => cases hn'
  | exit htask hrun => cases hn'
  | advance ms => exact .inl hn'

end IndustrialIot.Edge.Mqtt
