import IndustrialIot.Core.Spacing
import IndustrialIot.Edge.Mqtt.Delivery
import IndustrialIot.Edge.Mqtt.Moves
import Mathlib.Data.Nat.Basic
import Mathlib.Order.Basic

/-!
# How often a client connects

A connection that ends, however it does, keeps the task from the next attempt for ten seconds. So
no two attempts to connect the transport come closer than that.
-/

namespace IndustrialIot.Edge.Mqtt

open Spacing (Spaced)

/-! ## Attempts to connect -/

/-- A node and the times at which it has tried to connect its transport. -/
structure Attempts where
  node : Node
  times : List Nat
  deriving DecidableEq, Repr

/-- Whether a step calls `esp_transport_connect`. -/
def Tries (n : Node) : Action → Prop
  | .round input => n.client.state = .init ∧ input.transportCreated = true
  | _ => False

instance (n : Node) : (a : Action) → Decidable (Tries n a)
  | .round _ => inferInstanceAs (Decidable (_ ∧ _))
  | .call _ | .publish _ | .begin | .poll _ | .abort | .exit | .advance _ =>
    inferInstanceAs (Decidable False)

/-- A step of the node, and when it has tried to connect. -/
def attemptsStep (s : Attempts) (a : Action) : Option Attempts :=
  (step s.node a).map fun node =>
    ⟨node, if Tries s.node a then s.times ++ [s.node.client.now] else s.times⟩

/-- All runs of a node with its attempts to connect. -/
def attempts (information : ConnectInfo) (now : Nat) : Machine Attempts Action where
  init := ⟨(node information now).init, []⟩
  step := attemptsStep

/-- What the attempts so far leave to the next one. -/
structure Rested (times : List Nat) (c : Client) : Prop where
  spaced : Spaced (reconnectTimeoutMs + 1) 1 times
  past : ∀ t ∈ times, t ≤ c.now
  init : c.state = .init → ∀ t ∈ times, t + (reconnectTimeoutMs + 1) ≤ c.now
  waiting : c.state = .waitReconnect →
    c.waitTimeoutMs = reconnectTimeoutMs ∧ ∀ t ∈ times, t ≤ c.reconnectTick

section

variable {times : List Nat} {c c' : Client}

/-- Every move keeps the distance: an abort starts the wait, and only its end leads on. -/
theorem Rested.move {k : Kind} (h : Rested times c) (hmove : Move k c c') : Rested times c' := by
  have hnow := hmove.now_le
  cases hmove with
  | work hsame =>
    refine ⟨h.spaced, fun t ht => (h.past t ht).trans hnow,
      fun hinit t ht => (h.init (hsame.state ▸ hinit) t ht).trans hnow, fun hwaiting => ?_⟩
    rw [hsame.waitTimeoutMs, hsame.reconnectTick]
    exact h.waiting (hsame.state ▸ hwaiting)
  | time =>
    exact ⟨h.spaced, fun t ht => (h.past t ht).trans hnow,
      fun hinit t ht => (h.init hinit t ht).trans hnow, h.waiting⟩
  | abort =>
    exact ⟨h.spaced, h.past, fun hinit => absurd hinit (by simp [espMqttAbortConnection]),
      fun _ => ⟨rfl, h.past⟩⟩
  | ping | pong | stop => exact ⟨h.spaced, h.past, h.init, h.waiting⟩
  | connect => exact ⟨h.spaced, h.past, by simp, by simp⟩
  | retry _ hstate hdue =>
    obtain ⟨htimeout, htimes⟩ := h.waiting hstate
    refine ⟨h.spaced, h.past, fun _ t ht => ?_, by simp⟩
    have hbefore := htimes t ht
    rw [htimeout] at hdue
    change t + (reconnectTimeoutMs + 1) ≤ c.now
    omega

theorem Rested.moves {kinds : List Kind} (h : Rested times c) (hmoves : Moves kinds c c') :
    Rested times c' :=
  hmoves.induct (P := Rested times) (fun _ _ _ _ hmove hd => hd.move hmove) h

/-- An attempt to connect starts the next wait if it fails. -/
theorem Rested.attempt {input : RoundInput} (h : Rested times c) (hstate : c.state = .init)
    (hcreated : input.transportCreated = true) :
    Rested (times ++ [c.now]) (initRound c input) := by
  have hpast : ∀ t ∈ times ++ [c.now], t ≤ c.now := by
    intro t ht
    rcases List.mem_append.mp ht with hold | hnew
    · exact h.past t hold
    · exact Nat.le_of_eq (List.mem_singleton.mp hnew)
  have hspaced : Spaced (reconnectTimeoutMs + 1) 1 (times ++ [c.now]) := by
    refine h.spaced.append (h.init hstate) (fun t ht => ?_) (Nat.le_refl _)
    exact Nat.le_of_eq (List.mem_singleton.mp ht).symm
  obtain ⟨d, hd, hlast⟩ := moves_initRound_created (c := c) hcreated
  have hpast' : ∀ t ∈ times ++ [c.now], t ≤ d.now := fun t ht => (hpast t ht).trans hd.now_le
  generalize initRound c input = e at hlast
  rcases hlast with hconnect | habort
  · cases hconnect
    exact ⟨hspaced, hpast', by simp, by simp⟩
  · cases habort
    exact ⟨hspaced, hpast', by simp [espMqttAbortConnection], fun _ => ⟨rfl, hpast'⟩⟩

/-- A round leaves the next attempt its distance. -/
theorem Rested.round {n : Node} {input : RoundInput} (h : Rested times n.client) :
    Rested (if Tries n (.round input) then times ++ [n.client.now] else times)
      (espMqttTaskRound n.client input).1 := by
  by_cases htries : Tries n (.round input)
  · obtain ⟨hstate, hcreated⟩ := htries
    have hsame : (mqttDeleteExpiredMessages n.client).state = .init := hstate
    have hexpire := h.move (.work same_mqttDeleteExpiredMessages)
    rw [if_pos ⟨hstate, hcreated⟩]
    unfold espMqttTaskRound
    simp only [hsame]
    exact hexpire.attempt hsame hcreated
  · rw [if_neg htries]
    exact h.moves moves_espMqttTaskRound

end

/-- What holds of a node and its attempts. -/
structure AttemptsInv (s : Attempts) : Prop where
  rested : Rested s.times s.node.client
  created : s.node.task = .created → s.times = []

theorem AttemptsInv.step {s : Attempts} {a : Action} {node : Node} (h : AttemptsInv s)
    (hstep : Mqtt.step s.node a = some node) :
    AttemptsInv ⟨node, if Tries s.node a then s.times ++ [s.node.client.now] else s.times⟩ := by
  cases step_spec hstep with
  | called | refused => exact ⟨h.rested, h.created⟩
  | publish input call client result hid hcall hpublish =>
    exact ⟨h.rested.moves ((published hpublish).moves (information_espMqttClientPublish hpublish)),
      h.created⟩
  | begin htask =>
    have hnone := h.created htask
    change AttemptsInv ⟨_, s.times⟩
    rw [hnone]
    exact ⟨⟨Spacing.spaced_nil _ _, by simp, by simp, by simp⟩, by simp⟩
  | round input htask hrun hid =>
    refine ⟨h.rested.round, fun hcreated => ?_⟩
    simp only at hcreated
    split at hcreated <;> cases hcreated
  | poll ok htask =>
    refine ⟨h.rested, fun hcreated => ?_⟩
    simp only at hcreated
    split at hcreated <;> cases hcreated
  | abort htask => exact ⟨h.rested.move (.abort _), by simp⟩
  | exit htask hrun =>
    exact ⟨⟨h.rested.spaced, h.rested.past, by simp [espMqttTaskExit], by simp [espMqttTaskExit]⟩,
      by simp⟩
  | advance ms => exact ⟨h.rested.move (.time _ ms), h.created⟩

/-- No two attempts to connect come closer than ten seconds, whatever ends the connections. -/
theorem attempts_spaced {information : ConnectInfo} {now : Nat} {s : Attempts}
    (h : (attempts information now).Reachable s) : Spaced (reconnectTimeoutMs + 1) 1 s.times := by
  have hinit : AttemptsInv (attempts information now).init :=
    ⟨⟨Spacing.spaced_nil _ _, by simp [attempts], by simp [attempts],
      by simp [attempts, node, constructed]⟩, fun _ => rfl⟩
  have hinv : AttemptsInv s := by
    refine h.invariant hinit fun s a t _ hs hstep => ?_
    obtain ⟨node, hnode, rfl⟩ := Option.map_eq_some_iff.mp hstep
    exact hs.step hnode
  exact hinv.rested.spaced

/-- Two attempts that fail. -/
def refusedTwice : List Action :=
  [.begin, .round { quietRound with transportConnected := false }, .poll true, .advance 10001,
    .round quietRound, .poll true, .round { quietRound with transportConnected := false }]

theorem attempts_spaced_refusedTwice :
    ∃ s, (attempts information 0).exec (attempts information 0).init refusedTwice = some s ∧
      s.times = [0, 10001] ∧ Spaced (reconnectTimeoutMs + 1) 1 s.times := by
  have hrun : ((attempts information 0).exec (attempts information 0).init refusedTwice).map
      Attempts.times = some [0, 10001] := by
    decide +kernel
  obtain ⟨s, hs, htimes⟩ := Option.map_eq_some_iff.mp hrun
  exact ⟨s, hs, htimes, attempts_spaced ⟨_, hs⟩⟩

end IndustrialIot.Edge.Mqtt
