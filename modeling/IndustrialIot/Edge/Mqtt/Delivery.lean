import IndustrialIot.Edge.Mqtt.Refinement
import Mathlib.Data.List.Induction

/-!
# What becomes of a published record

Three questions about the node's telemetry: where an accepted record is, whether a refused
one is gone, and in which order records reach the wire.
-/

namespace IndustrialIot.Edge.Mqtt

/-! ## Accepted records -/

/-- A reply that is for a packet the broker has, or deletes nothing. -/
def Received.Own (c : Client) : Received → Prop
  | .puback msgId => msgId ∈ c.journal.onWire.map Prod.fst
  | .pubcomp msgId => msgId ∉ c.outbox.map OutboxItem.msgId
  | _ => True

instance (c : Client) : ∀ received : Received, Decidable (received.Own c)
  | .puback msgId => inferInstanceAs (Decidable (msgId ∈ c.journal.onWire.map Prod.fst))
  | .pubcomp msgId => inferInstanceAs (Decidable (msgId ∉ c.outbox.map OutboxItem.msgId))
  | .nothing | .failure | .suback _ _ | .unsuback _ | .publish _ _ _ | .pubrec _ | .pubrel _
  | .pingresp | .other => isTrue trivial

/-- The condition on a step: a new packet gets an id that is neither stored nor waiting for an
answer, and replies delete only the packets they are for. -/
def OwnReplies (n : Node) : Action → Prop
  | .publish input =>
    input.random ∉ n.client.outbox.map OutboxItem.msgId ∧
      input.random ∉ n.client.journal.onWire.map Prod.fst
  | .round input => n.client.state = .connected → input.received.Own n.client
  | _ => True

instance (n : Node) : ∀ a : Action, Decidable (OwnReplies n a)
  | .publish _ => inferInstanceAs (Decidable (_ ∧ _))
  | .round _ => inferInstanceAs (Decidable (_ → _))
  | .call _ | .begin | .poll _ | .abort | .exit | .advance _ => isTrue trivial

theorem keys_view (c : Client) :
    c.view.entries.map StoreForward.Entry.key = c.outbox.map OutboxItem.msgId := by
  simp only [Client.view, Outbox.entries, List.map_map]
  rfl

theorem admits_faithful : Admits StoreForward.Faithful where
  mark _ _ _ := trivial
  resend _ := trivial
  retransmit _ := trivial
  expire _ _ := trivial
  link _ := trivial

/-- The condition on a step is the store's. -/
theorem demands_faithful {n : Node} {a : Action} (h : OwnReplies n a) :
    Demands StoreForward.Faithful n a := by
  cases a with
  | publish input =>
    have hfresh : input.random ∉ n.client.view.entries.map StoreForward.Entry.key ∧
        input.random ∉ n.client.view.onWire.map Prod.fst := by
      rw [keys_view]
      exact h
    intro call _
    exact ⟨fun _ => hfresh, fun _ _ _ _ => hfresh⟩
  | round input =>
    intro hstate a ha
    have h := h hstate
    generalize input.received = received at *
    cases received with
    | puback msgId =>
      cases ha
      exact h
    | pubcomp msgId =>
      cases ha
      intro hkey
      rw [keys_view] at hkey
      exact h ((List.filter_sublist.map _).subset hkey)
    | pubrec msgId =>
      cases ha
      trivial
    | nothing | failure | suback | unsuback | publish | pubrel | pingresp | other => cases ha
  | exit => trivial
  | call | begin | poll | abort | advance => trivial

/-- Expiry has the client's limit. -/
def Timely (_ : StoreForward.State UInt16) : StoreForward.Action UInt16 → Prop
  | .expire _ limit => outboxExpiredTimeoutMs ≤ limit
  | _ => True

theorem admits_timely : Admits Timely where
  mark _ _ _ := trivial
  resend _ := trivial
  retransmit _ := trivial
  expire _ _ := Nat.le_refl _
  link _ := trivial

theorem demands_timely (n : Node) (a : Action) : Demands Timely n a := by
  refine demands_of_publish ?_ ?_ fun _ => trivial
  · intro input ha
    subst ha
    intro _ _
    exact ⟨fun _ => trivial, fun _ _ _ _ => trivial⟩
  · intro received a ha _
    cases received <;> cases ha <;> trivial

/-- What expired was stored, or sent directly, more than the timeout before. -/
theorem expired_of_exec {information : ConnectInfo} {now : Nat} {as : List Action} {n : Node}
    (h : (node information now).exec (node information now).init as = some n) :
    ∀ x ∈ n.client.journal.expired, x.stamp + outboxExpiredTimeoutMs < x.time := by
  obtain ⟨bs, hbs, hq⟩ := run_of_stepsMeet admits_timely
    (Machine.stepsMeet_of_forall demands_timely _ _) h
  refine Machine.exec_invariant_of_stepsMeet
    (P := fun s : StoreForward.State UInt16 =>
      ∀ x ∈ s.expired, x.stamp + outboxExpiredTimeoutMs < x.time)
    (fun s a t hs hq ht => StoreForward.expired_step (fun now limit ha => ?_) hs ht)
    (by simp [StoreForward.start]) hq hbs
  subst ha
  exact hq

/-- The task stays ended. -/
theorem done_of_step {n n' : Node} {a : Action} (hdone : n.task = .done)
    (hstep : step n a = some n') : n'.task = .done := by
  cases step_spec hstep with
  | called | refused | publish | advance => exact hdone
  | begin htask | round _ htask | poll _ htask | abort htask => simp [hdone] at htask
  | exit => rfl

/-- Nothing is wiped before the task has ended. -/
theorem done_of_wiped {information : ConnectInfo} {now : Nat} {n : Node}
    (h : (node information now).Reachable n) :
    n.client.journal.wiped ≠ [] → n.task = .done := by
  refine h.invariant (P := fun n : Node => n.client.journal.wiped ≠ [] → n.task = .done)
    (fun hne => absurd rfl hne) ?_
  intro n a n' hn hdone (hstep : step n a = some n') hne
  by_cases hexit : a = .exit
  · subst hexit
    cases step_spec hstep
    rfl
  · have hdemands : Demands (Keeps StoreForward.State.wiped) n a := by
      cases a with
      | publish input =>
        refine fun call _ => ⟨fun stamp t ht => ?_, fun _ _ _ stamp t ht => ?_⟩ <;>
          cases StoreForward.step_spec ht <;> rfl
      | round input =>
        intro _ a ha
        exact settled_wiped.action ha _
      | exit => exact absurd rfl hexit
      | call | begin | poll | abort | advance => trivial
    have hsame := (refines_of_step settled_wiped.admits (inv_of_reachable hn) hdemands hstep).keeps
    refine done_of_step (hdone fun hnil => hne ?_) hstep
    exact hsame.trans hnil

/-- A record is stored, acknowledged, too old, gone with the task, or deleted by a reply to
something else. -/
def Accounted (n : Node) (record : Nat) : Prop :=
  record ∈ n.client.outbox.records ∨ record ∈ n.client.journal.acked ∨
    (∃ x ∈ n.client.journal.expired,
      x.record = record ∧ x.stamp + outboxExpiredTimeoutMs < x.time) ∨
    (n.task = .done ∧ record ∈ n.client.journal.wiped) ∨ record ∈ n.client.journal.misanswered

/-- Every record that a publish reported as accepted is accounted for, and replies delete only
the packets they are for while ids are not drawn twice and the broker answers what it has. -/
theorem accepted_accounted {information : ConnectInfo} {now : Nat} {as : List Action} {n : Node}
    (h : (node information now).exec (node information now).init as = some n) :
    (∀ record, (record, true) ∈ n.results → Accounted n record) ∧
      ((node information now).StepsMeet OwnReplies (node information now).init as →
        n.client.journal.misanswered = []) := by
  constructor
  · intro record hrecord
    obtain ⟨bs, hbs⟩ := run_of_exec h
    have hstored := (inv_of_reachable ⟨as, h⟩).accepted record hrecord
    rcases StoreForward.accounted_of_exec hbs record hstored with hs | ha | hx | hw | hm
    · rw [show n.client.view.entries = n.client.outbox.entries from rfl, map_record_entries] at hs
      exact Or.inl hs
    · exact Or.inr (Or.inl ha)
    · obtain ⟨x, hmem, rfl⟩ := List.mem_map.mp hx
      exact Or.inr (Or.inr (Or.inl ⟨x, hmem, rfl, expired_of_exec h x hmem⟩))
    · have hdone := done_of_wiped ⟨as, h⟩ (List.ne_nil_of_mem hw)
      exact Or.inr (Or.inr (Or.inr (Or.inl ⟨hdone, hw⟩)))
    · exact Or.inr (Or.inr (Or.inr (Or.inr hm)))
  · intro hq
    obtain ⟨bs, hbs, hmeet⟩ := run_of_stepsMeet admits_faithful
      (Machine.stepsMeet_mono (fun _ _ => demands_faithful) hq) h
    exact (StoreForward.identified_of_stepsMeet StoreForward.identified_start hmeet hbs).answers

/-- A node with a short client id and the default keepalive. -/
def information : ConnectInfo where
  clientId := [0x45]
  username := []
  password := []
  keepalive := 120
  cleanSession := true

/-- A round in which everything works and nothing is received. -/
def quietRound : RoundInput where
  transportCreated := true
  transportConnected := true
  connectWrites := [100]
  connack := true
  connectTime := 0
  received := .nothing
  receiveTime := 0
  random := 1
  replyWrites := [100]
  resendWrites := [100]
  resendTime := 0
  pubrelWrites := [100]
  pingWrites := [100]

/-- One byte for the topic `t`. -/
def oneByte : PublishArgs where
  topic := [0x74]
  payload := [0x08]
  null := false
  beyond := []
  before := []

/-- A packet is published and acknowledged. -/
def acknowledged : List Action :=
  [.begin, .round quietRound, .poll true, .call oneByte, .publish ⟨7, true, [[100]], 0⟩,
    .round { quietRound with received := .puback 7 }]

theorem accepted_accounted_acknowledged :
    ∃ n, (node information 0).exec (node information 0).init acknowledged = some n ∧
      n.results = [(0, true)] ∧ n.client.journal.acked = [0] ∧ Accounted n 0 ∧
      n.client.journal.misanswered = [] := by
  have hrun : ((node information 0).exec (node information 0).init acknowledged).map
      (fun n => (n.results, n.client.journal.acked)) = some ([(0, true)], [0]) := by decide
  obtain ⟨n, hn, hfacts⟩ := Option.map_eq_some_iff.mp hrun
  obtain ⟨hresults, hacked⟩ := Prod.mk.inj hfacts
  exact ⟨n, hn, hresults, hacked, (accepted_accounted hn).1 0 (by simp [hresults]),
    (accepted_accounted hn).2 (by decide)⟩

/-- An accepted record goes with the task when no transport can be created. -/
example : ((node information 0).exec (node information 0).init
    [.begin, .round quietRound, .poll true, .call oneByte, .publish ⟨7, true, [[100]], 0⟩,
      .round { quietRound with received := .failure }, .poll true, .advance 10001,
      .round quietRound, .poll true, .round { quietRound with transportCreated := false },
      .poll true, .exit]).map
        (fun n => (n.results, n.client.outbox, n.client.journal.acked, n.client.journal.wiped)) =
      some ([(0, true)], [], [], [0]) := by decide

/-- An accepted record is deleted by the answer to another packet with its id. -/
example : ((node information 0).exec (node information 0).init
    [.begin, .round quietRound, .call oneByte, .poll false, .abort, .publish ⟨7, true, [], 0⟩,
      .advance 10001, .round quietRound, .poll true, .round quietRound, .poll true,
      .call oneByte, .publish ⟨7, true, [[100]], 0⟩,
      .round { quietRound with received := .puback 7 }]).map
        (fun n => (n.results, n.client.outbox.records, n.client.journal.acked,
          n.client.journal.misanswered)) =
      some ([(0, true), (1, true)], [1], [1], [0]) := by decide

/-- The connection is lost between the test of the flag and the lock. -/
def lostInBetween : List Action :=
  [.begin, .round quietRound, .call oneByte, .poll false, .abort, .publish ⟨7, true, [], 0⟩,
    .advance 30001, .round quietRound]

/-- An accepted record that was never sent expires. -/
theorem expired_unsent :
    ∃ n, (node information 0).exec (node information 0).init lostInBetween = some n ∧
      n.results = [(0, true)] ∧ n.client.journal.sent = [] ∧
      ¬ (0 ∈ n.client.outbox.records ∨ 0 ∈ n.client.journal.acked) :=
  ⟨_, rfl, rfl, rfl, by decide⟩

/-! ## Refused records -/

/-- The call fails before it stores anything. -/
def FailsUnstored (n : Node) : Action → Prop
  | .publish input => ∀ call ∈ n.calling,
    ¬ (PublishFits n.client.connection call.args.cTopic call.args.data
      (payloadLength call.args.data call.args.payload.length) ∧ input.alloc = true)
  | _ => True

instance (n : Node) : ∀ a : Action, Decidable (FailsUnstored n a)
  | .publish _ => inferInstanceAs (Decidable (∀ call ∈ n.calling, ¬ _))
  | .call _ | .begin | .round _ | .poll _ | .abort | .exit | .advance _ => isTrue trivial

/-- A call of this number is over, and its record was never stored. -/
structure Refused (n : Node) (record : Nat) : Prop where
  past : record < n.calls
  idle : ∀ call ∈ n.calling, call.record ≠ record
  unstored : record ∉ n.client.journal.stored

/-- It stays so. -/
theorem Refused.step {n n' : Node} {a : Action} {record : Nat} (hinv : Inv n)
    (h : Refused n record) (hstep : Mqtt.step n a = some n') : Refused n' record := by
  cases step_spec hstep with
  | called args hidle hflag =>
    refine ⟨Nat.lt_succ_of_lt h.past, ?_, h.unstored⟩
    intro call hcall
    cases hcall
    exact Nat.ne_of_gt h.past
  | refused args hidle hflag => exact ⟨Nat.lt_succ_of_lt h.past, h.idle, h.unstored⟩
  | publish input call client result hid hcall hpublish =>
    refine ⟨h.past, fun call hcall => absurd hcall (by simp), fun hmem => h.unstored ?_⟩
    rcases (published hpublish).stored with ⟨_, hsame⟩ | hmore
    · exact hsame ▸ hmem
    · rw [hmore, List.mem_append, List.mem_singleton] at hmem
      exact hmem.resolve_right fun he => h.idle call hcall he.symm
  | begin | round | poll | abort | exit | advance =>
    obtain ⟨_, hstored⟩ := stored_of_ne_publish hinv (by simp) hstep
    exact ⟨h.past, h.idle, hstored ▸ h.unstored⟩

/-- What is sent was stored. -/
theorem stored_of_sent {information : ConnectInfo} {now : Nat} {n : Node}
    (h : (node information now).Reachable n) {record : Nat}
    (hsent : record ∈ n.client.journal.sent) : record ∈ n.client.journal.stored := by
  obtain ⟨as, has⟩ := h
  obtain ⟨bs, hbs⟩ := run_of_exec has
  exact (StoreForward.recorded_of_exec hbs).sent record hsent

/-- A refused record is never sent. -/
theorem Refused.not_sent {information : ConnectInfo} {now : Nat} {n m : Node} {record : Nat}
    {as : List Action} (hn : (node information now).Reachable n) (h : Refused n record)
    (hm : (node information now).exec n as = some m) : record ∉ m.client.journal.sent := by
  have hrefused := Machine.exec_invariant
    (P := fun n : Node => (node information now).Reachable n ∧ Refused n record)
    (fun s a t hs ht => ⟨hs.1.step ht, hs.2.step (inv_of_reachable hs.1) ht⟩) ⟨hn, h⟩ hm
  intro hsent
  exact hrefused.2.unstored (stored_of_sent hrefused.1 hsent)

/-- A failed publish leaves the outbox as it was, and its record is never sent, exactly when it
failed before it stored anything. -/
theorem failed_publish_clean_iff {information : ConnectInfo} {now : Nat} {n n' : Node}
    {a : Action} {record : Nat} (hn : (node information now).Reachable n)
    (hstep : step n a = some n') (hfailed : n'.results = n.results ++ [(record, false)]) :
    (n'.client.outbox = n.client.outbox ∧
      ∀ as m, (node information now).exec n' as = some m → record ∉ m.client.journal.sent) ↔
    FailsUnstored n a := by
  have hinv := inv_of_reachable hn
  have hn' := hn.step hstep
  cases step_spec hstep with
  | called args hidle hflag => simp at hfailed
  | refused args hidle hflag =>
    obtain rfl : n.calls = record := by simpa using hfailed
    have hrefused : Refused { n with
        calls := n.calls + 1
        results := n.results ++ [(n.calls, false)] } n.calls :=
      ⟨Nat.lt_succ_self _, by simp [hidle], fun hmem => Nat.lt_irrefl _ (hinv.stored _ hmem)⟩
    simp only [FailsUnstored, true_and, iff_true]
    intro as m hm
    exact hrefused.not_sent hn' hm
  | publish input call client result hid hcall hpublish =>
    obtain ⟨rfl, hresult⟩ : call.record = record ∧ result.isSome = false := by
      simpa using hfailed
    simp only [FailsUnstored, hcall, Option.mem_some_iff, forall_eq']
    obtain ⟨hpast, hnew⟩ := hinv.calling call hcall
    cases published hpublish with
    | rejected hrejected connection msgId type qos =>
      simp only [hrejected, not_false_eq_true, iff_true]
      refine ⟨rfl, fun as m hm => Refused.not_sent hn' ⟨hpast, by simp, fun hmem => ?_⟩ hm⟩
      exact Nat.lt_irrefl _ (hnew _ hmem)
    | offline | sent => simp at hresult
    | cutOff hstored hstate connection buffer whole =>
      -- The item is in the outbox, for the task to send.
      simp only [hstored, and_self, not_true_eq_false, iff_false, not_and]
      intro hsame
      exact absurd (congrArg List.length hsame) (by simp [espMqttAbortConnection,
        Client.afterSending, Client.advance, Client.storePublish, Client.store,
        Client.withMessage])
  | begin | round | poll | abort | exit | advance => simp at hfailed

/-- The only write of the packet fails, and the connection comes back. -/
def cutOff : List Action :=
  [.begin, .round quietRound, .poll true, .call oneByte, .publish ⟨7, true, [[-1]], 0⟩]

/-- The connection is made again, and the first queued packet is sent. -/
def reconnected : List Action :=
  [.advance 10001, .round quietRound, .poll true, .round quietRound, .poll true]

/-- The memory for the item is missing. -/
def outOfMemory : List Action :=
  [.begin, .round quietRound, .poll true, .call oneByte]

theorem failed_publish_clean_iff_outOfMemory :
    ∃ n n', step n (.publish ⟨7, false, [[100]], 0⟩) = some n' ∧ n'.results = [(0, false)] ∧
      (n'.client.outbox = n.client.outbox ∧
        ∀ as m, (node information 0).exec n' as = some m → 0 ∉ m.client.journal.sent) := by
  have hrun : ((node information 0).exec (node information 0).init outOfMemory).bind
      (fun n => (step n (.publish ⟨7, false, [[100]], 0⟩)).map fun n' =>
        (n.results, n'.results, decide (FailsUnstored n (.publish ⟨7, false, [[100]], 0⟩)))) =
          some ([], [(0, false)], true) := by decide
  obtain ⟨n, hn, hrun⟩ := Option.bind_eq_some_iff.mp hrun
  obtain ⟨n', hstep, hfacts⟩ := Option.map_eq_some_iff.mp hrun
  simp only [Prod.mk.injEq, decide_eq_true_eq] at hfacts
  obtain ⟨hbefore, hafter, hunstored⟩ := hfacts
  exact ⟨n, n', hstep, hafter,
    (failed_publish_clean_iff ⟨_, hn⟩ hstep (by rw [hbefore, hafter]; rfl)).mpr hunstored⟩

/-- A record that was reported as failed waits in the outbox and is sent later. -/
theorem cutOff_resent :
    ∃ n m, (node information 0).exec (node information 0).init cutOff = some n ∧
      n.results = [(0, false)] ∧ n.client.outbox.records = [0] ∧ n.client.journal.sent = [] ∧
      (node information 0).exec n (reconnected ++ [.round quietRound]) = some m ∧
      m.client.journal.sent = [0] := by
  have hrun : ((node information 0).exec (node information 0).init cutOff).bind
      (fun n => ((node information 0).exec n (reconnected ++ [.round quietRound])).map fun m =>
        (n.results, n.client.outbox.records, n.client.journal.sent, m.client.journal.sent)) =
          some ([(0, false)], [0], [], [0]) := by decide
  obtain ⟨n, hn, hrun⟩ := Option.bind_eq_some_iff.mp hrun
  obtain ⟨m, hm, hfacts⟩ := Option.map_eq_some_iff.mp hrun
  simp only [Prod.mk.injEq] at hfacts
  exact ⟨n, m, hn, hfacts.1, hfacts.2.1, hfacts.2.2.1, hm, hfacts.2.2.2⟩

/-! ## The order on the wire -/

/-- The condition on a step: a drawn id is not that of a stored record that has never been
completely written. -/
def DistinctIds (n : Node) : Action → Prop
  | .publish input => ∀ item ∈ n.client.outbox,
    item.record ∉ n.client.journal.sent → item.msgId ≠ input.random
  | _ => True

instance (n : Node) : ∀ a : Action, Decidable (DistinctIds n a)
  | .publish input => inferInstanceAs (Decidable (∀ item ∈ n.client.outbox,
    item.record ∉ n.client.journal.sent → item.msgId ≠ input.random))
  | .call _ | .begin | .round _ | .poll _ | .abort | .exit | .advance _ => isTrue trivial

/-- The condition on a step: the publish of `j` does not completely write it while `i` is stored
and has never been completely written. -/
def NotOvertaking (i j : Nat) (n : Node) : Action → Prop
  | .publish input => ∀ call ∈ n.calling, call.record = j →
    ∀ n' ∈ step n (.publish input), j ∈ n'.client.journal.sent →
      i ∈ n.client.outbox.records → i ∈ n.client.journal.sent
  | _ => True

instance (i j : Nat) (n : Node) : ∀ a : Action, Decidable (NotOvertaking i j n a)
  | .publish _ => inferInstanceAs (Decidable (∀ call ∈ n.calling, _))
  | .call _ | .begin | .round _ | .poll _ | .abort | .exit | .advance _ => isTrue trivial

theorem admits_inTurn (i j : Nat) : Admits (StoreForward.InTurn i j) where
  mark {s t key record stamp} hq hstep time e he := by
    have hmem := List.mem_of_find?_eq_some he
    have hkey : e.key = key := by simpa using List.find?_some he
    cases StoreForward.step_spec hstep
    rcases List.mem_append.mp hmem with hold | hnew
    · by_contra hunsent
      exact hq.1 e hold (fun hsent => hunsent (List.mem_append_left _ hsent)) hkey
    · rw [List.mem_singleton.mp hnew]
      exact List.mem_append_right _ (List.mem_singleton.mpr rfl)
  resend _ := trivial
  retransmit _ := trivial
  expire _ _ := trivial
  link _ := trivial

/-- The conditions on a step are the store's. -/
theorem demands_inTurn {i j : Nat} {n : Node} {a : Action} (hids : DistinctIds n a)
    (h : NotOvertaking i j n a) : Demands (StoreForward.InTurn i j) n a := by
  cases a with
  | publish input =>
    have hkeys : ∀ e ∈ n.client.view.entries, e.record ∉ n.client.view.sent →
        e.key ≠ input.random := by
      intro e he
      obtain ⟨item, hitem, rfl⟩ := List.mem_map.mp he
      exact hids item hitem
    intro call hcall
    refine ⟨fun _ => hkeys, ?_⟩
    intro n' hstep hsent stamp
    refine ⟨hkeys, ?_⟩
    intro hj hi
    rw [show n.client.view.entries = n.client.outbox.entries from rfl, map_record_entries] at hi
    exact h call hcall hj n' hstep (hj ▸ hsent) hi
  | round | exit | call | begin | poll | abort | advance =>
    exact demands_of_publish (by simp) (fun received a ha _ => by
      cases received <;> cases ha <;> trivial) fun _ => trivial

/-- Where `i` is first at the end, no publish of `j` has overtaken it. -/
theorem notOvertaking_of_first {information : ConnectInfo} {now : Nat} {as : List Action}
    {n : Node} {i j : Nat} (hij : i ≠ j)
    (h : (node information now).exec (node information now).init as = some n)
    (hfirst : j ∈ n.client.journal.sent → i ∈ n.client.journal.sent ∧
      n.client.journal.sent.idxOf i < n.client.journal.sent.idxOf j) :
    (node information now).StepsMeet (NotOvertaking i j) (node information now).init as := by
  induction as using List.reverseRecOn generalizing n with
  | nil => trivial
  | append_singleton as a ih =>
    obtain ⟨m, hm, hstep⟩ := (Machine.exec_snoc_eq_some _).mp h
    have hgrown := sent_prefix_of_step (inv_of_reachable ⟨as, hm⟩) hstep
    refine (Machine.stepsMeet_snoc_of_exec hm).mpr
      ⟨ih hm (StoreForward.first_of_grown hgrown hfirst), ?_⟩
    cases step_spec hstep with
    | publish input call client result hid hcall hpublish =>
      rintro call' hcall' rfl n' hstep' hsent _
      cases hstep.symm.trans hstep'
      cases hcall.symm.trans hcall'
      -- The publish sends nothing but its own record.
      have hi := (hfirst hsent).1
      rcases (published hpublish).sent_eq with hsame | hmore
      · exact hsame ▸ hi
      · rw [hmore, List.mem_append, List.mem_singleton] at hi
        exact hi.resolve_right hij
    | called | refused | begin | round | poll | abort | exit | advance => trivial

/-- Of two records the one of the earlier call is completely written first, exactly when the
publish of the later one did not write it directly while the other one was waiting. -/
theorem first_transmissions_in_order {information : ConnectInfo} {now : Nat} {as : List Action}
    {n : Node} {i j : Nat} (hij : i < j)
    (hids : (node information now).StepsMeet DistinctIds (node information now).init as)
    (h : (node information now).exec (node information now).init as = some n)
    (hi : i ∈ n.client.journal.sent) (hj : j ∈ n.client.journal.sent) :
    n.client.journal.sent.idxOf i < n.client.journal.sent.idxOf j ↔
      (node information now).StepsMeet (NotOvertaking i j) (node information now).init as := by
  constructor
  · intro hlt
    exact notOvertaking_of_first (Nat.ne_of_lt hij) h fun _ => ⟨hi, hlt⟩
  · intro hturn
    obtain ⟨bs, hbs, hmeet⟩ := run_of_stepsMeet (admits_inTurn i j)
      (Machine.stepsMeet_mono (fun _ _ hq => demands_inTurn hq.1 hq.2)
        (Machine.stepsMeet_and hids hturn)) h
    exact StoreForward.before_of_stepsMeet hij hmeet hbs hi hj

/-- The packet that was cut off is resent before the next call. -/
def resentFirst : List Action :=
  cutOff ++ reconnected ++ [.round quietRound, .poll true, .call oneByte,
    .publish ⟨8, true, [[100]], 0⟩]

theorem first_transmissions_in_order_resentFirst :
    ∃ n, (node information 0).exec (node information 0).init resentFirst = some n ∧
      n.client.journal.sent = [0, 1] ∧
      (n.client.journal.sent.idxOf 0 < n.client.journal.sent.idxOf 1 ↔
        (node information 0).StepsMeet (NotOvertaking 0 1) (node information 0).init
          resentFirst) := by
  have hrun : ((node information 0).exec (node information 0).init resentFirst).map
      (fun n => n.client.journal.sent) = some [0, 1] := by decide
  obtain ⟨n, hn, hsent⟩ := Option.map_eq_some_iff.mp hrun
  exact ⟨n, hn, hsent, first_transmissions_in_order (by decide) (by decide) hn (by simp [hsent])
    (by simp [hsent])⟩

/-- The next call comes before the task has resent the packet that was cut off. -/
def overtaking : List Action :=
  cutOff ++ reconnected ++ [.call oneByte, .publish ⟨8, true, [[100]], 0⟩, .round quietRound]

/-- A direct write overtakes a queued packet. -/
theorem overtaking_reorders :
    ∃ n, (node information 0).exec (node information 0).init overtaking = some n ∧
      n.client.journal.sent = [1, 0] ∧
      ¬ ∀ i ∈ n.client.journal.sent, ∀ j ∈ n.client.journal.sent, i < j →
        n.client.journal.sent.idxOf i < n.client.journal.sent.idxOf j := by
  have hrun : ((node information 0).exec (node information 0).init overtaking).map
      (fun n => n.client.journal.sent) = some [1, 0] := by decide
  obtain ⟨n, hn, hsent⟩ := Option.map_eq_some_iff.mp hrun
  exact ⟨n, hn, hsent, by rw [hsent]; decide⟩

end IndustrialIot.Edge.Mqtt
