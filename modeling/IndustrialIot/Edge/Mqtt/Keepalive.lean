import IndustrialIot.Edge.Mqtt.Delivery
import IndustrialIot.Edge.Mqtt.Outbound

/-!
# The end of a connection

A client gives up a connection for a cause only: what it received, a write that failed, or a ping
that was not answered in time. And it does give up a connection on which no ping is answered.
-/

namespace IndustrialIot.Edge.Mqtt

/-! ## What leaves the keepalive alone -/

/-- The keepalive clock is as it was, and so is the wait for an answer unless the connection was
aborted. -/
structure Unpinged (c c' : Client) : Prop where
  tick : c'.keepaliveTick = c.keepaliveTick
  before : c'.state = .connected → c.state = .connected
  waits : c'.state = .connected → c'.waitForPingResp = c.waitForPingResp

/-- Work, time and an abort leave the keepalive alone. -/
theorem Moves.unpinged {c c' : Client} (h : Moves [.work, .time, .abort] c c') :
    Unpinged c c' := by
  refine h.induct (P := Unpinged c) (fun k hk d d' hmove hd => ?_) ⟨rfl, id, fun _ => rfl⟩
  cases hmove with
  | work hsame =>
    exact ⟨hsame.keepaliveTick.trans hd.tick, fun hstate => hd.before (hsame.state ▸ hstate),
      fun hstate => hsame.waitForPingResp.trans (hd.waits (hsame.state ▸ hstate))⟩
  | time => exact ⟨hd.tick, hd.before, hd.waits⟩
  | abort => exact ⟨hd.tick, by simp [espMqttAbortConnection], by simp [espMqttAbortConnection]⟩
  | ping | pong | connect | stop | retry => exact absurd hk (by decide)

/-- A connection that is lost is one that waits to be made again. -/
theorem Moves.connected_or_waiting {c c' : Client}
    (h : Moves [.work, .time, .abort, .ping, .pong] c c') (hc : c.state = .connected)
    (hc' : c'.state ≠ .connected) : c'.state = .waitReconnect := by
  have hall : c'.state = .connected ∨ c'.state = .waitReconnect := by
    refine h.induct (P := fun d => d.state = .connected ∨ d.state = .waitReconnect)
      (fun k hk d d' hmove hd => ?_) (.inl hc)
    cases hmove with
    | work hsame => rwa [hsame.state]
    | abort => exact .inr rfl
    | time | ping | pong => exact hd
    | connect | stop | retry => exact absurd hk (by decide)
  exact hall.resolve_left hc'

/-! ## A broker that does not answer -/

/-- The client of a round before its keepalive. -/
def Client.resent (c : Client) (input : RoundInput) : Client :=
  resend (mqttProcessReceive (c.advance input.receiveTime) input).2.beginResend input

theorem connectedRound_eq {c : Client} {input : RoundInput}
    (h : (mqttProcessReceive (c.advance input.receiveTime) input).1 = true) :
    connectedRound c input = processKeepalive (c.resent input) input := by
  unfold connectedRound
  simp only
  rw [if_pos h]
  rfl

theorem moves_resent {c : Client} {input : RoundInput} (h : input.received ≠ .pingresp) :
    Moves [.work, .time, .abort] c (c.resent input) := by
  have hbegin : (mqttProcessReceive (c.advance input.receiveTime) input).2.Same
      (mqttProcessReceive (c.advance input.receiveTime) input).2.beginResend := by
    unfold Client.beginResend
    split <;> exact ⟨rfl, rfl, rfl, rfl, rfl, rfl, rfl, rfl, rfl⟩
  exact ((Move.time c _).moves (by decide)).trans (((same_mqttProcessReceive h).moves
    (by decide)).trans ((hbegin.moves (by decide)).trans moves_resend))

theorem now_processKeepalive (c : Client) (input : RoundInput) :
    (processKeepalive c input).now = c.now := by
  unfold processKeepalive
  simp only
  split
  · rfl
  · split
    · split <;> rfl
    · split
      · split <;> rfl
      · rfl

/-- The keepalive time in milliseconds. -/
def Client.keepaliveMs (c : Client) : Nat := c.information.keepalive * 1000

/-- A keepalive that leaves the client connected has nothing overdue, and has pinged where half
of the time was over. -/
theorem processKeepalive_connected_spec {c : Client} {input : RoundInput}
    (hkeepalive : c.information.keepalive ≠ 0)
    (h : (processKeepalive c input).state = .connected) :
    c.state = .connected ∧
      (processKeepalive c input).keepaliveTick = c.keepaliveTick ∧
      (c.waitForPingResp = true → c.now < c.keepaliveTick + c.keepaliveMs) ∧
      (c.waitForPingResp = true ∨ c.keepaliveTick + c.keepaliveMs / 2 ≤ c.now →
        (processKeepalive c input).waitForPingResp = true) := by
  unfold Client.keepaliveMs Client.information at *
  unfold processKeepalive hasTimedOut at h ⊢
  simp only [if_neg hkeepalive, decide_eq_true_eq] at h ⊢
  by_cases hwait : c.waitForPingResp = true
  · simp only [hwait, if_true] at h ⊢
    split at h
    · cases h
    · rename_i hintime
      rw [if_neg hintime]
      exact ⟨h, rfl, fun _ => Nat.lt_of_not_le hintime, fun _ => hwait⟩
  · simp only [hwait, Bool.false_eq_true, if_false] at h ⊢
    split at h
    · rename_i hdue
      rw [if_pos hdue]
      split at h
      · rename_i hping
        rw [if_pos hping]
        exact ⟨h, rfl, fun hfalse => hfalse.elim, fun _ => rfl⟩
      · cases h
    · rename_i hdue
      rw [if_neg hdue]
      exact ⟨h, rfl, fun hfalse => hfalse.elim, fun hor => hor.elim False.elim fun hlate =>
        absurd hlate hdue⟩

/-- What a step keeps of the keepalive when it leaves the client connected and no ping is
answered. -/
structure Pending (c c' : Client) : Prop where
  tick : c'.keepaliveTick = c.keepaliveTick
  waits : c.waitForPingResp = true → c'.waitForPingResp = true

/-- A round without an answer. -/
theorem connectedRound_unanswered {c : Client} {input : RoundInput}
    (hkeepalive : c.information.keepalive ≠ 0) (hreceived : input.received ≠ .pingresp)
    (h : (connectedRound c input).state = .connected) :
    Pending c (connectedRound c input) ∧
      (c.waitForPingResp = true →
        (connectedRound c input).now < c.keepaliveTick + c.keepaliveMs) ∧
      (c.keepaliveTick + c.keepaliveMs / 2 ≤ (connectedRound c input).now →
        (connectedRound c input).waitForPingResp = true) := by
  have hround := connectedRound_eq (connectedRound_connected h)
  have hmoves := moves_resent (c := c) hreceived
  have hresent := hmoves.unpinged
  have hinformation := hmoves.information
  rw [hround] at h ⊢
  rw [now_processKeepalive]
  obtain ⟨hstate, htick, hintime, hping⟩ :=
    processKeepalive_connected_spec (by rwa [hinformation]) h
  have hms : (c.resent input).keepaliveMs = c.keepaliveMs := by
    rw [Client.keepaliveMs, hinformation]
    rfl
  rw [hms, hresent.tick] at hintime hping
  rw [hresent.waits hstate] at hintime hping
  exact ⟨⟨htick.trans hresent.tick, fun hwait => hping (.inl hwait)⟩, hintime,
    fun hlate => hping (.inr hlate)⟩

theorem Pending.refl (c : Client) : Pending c c := ⟨rfl, id⟩

theorem Pending.trans {c c' c'' : Client} (h : Pending c c') (h' : Pending c' c'') :
    Pending c c'' := ⟨h'.tick.trans h.tick, fun hwait => h'.waits (h.waits hwait)⟩

/-- A step on a connection in which no ping is answered. -/
def Unanswered (n : Node) (a : Action) : Prop :=
  n.client.state = .connected ∧ ∀ input, a = .round input → input.received ≠ .pingresp

instance (n : Node) : (a : Action) → Decidable (Unanswered n a)
  | .round input =>
    decidable_of_iff (n.client.state = .connected ∧ input.received ≠ .pingresp)
      ⟨fun h => ⟨h.1, fun _ heq => by cases heq; exact h.2⟩, fun h => ⟨h.1, h.2 input rfl⟩⟩
  | .call _ | .publish _ | .begin | .poll _ | .abort | .exit | .advance _ =>
    decidable_of_iff (n.client.state = .connected)
      ⟨fun h => ⟨h, fun _ heq => by cases heq⟩, And.left⟩

/-- A round on a connection is the part of the loop for connected clients. -/
theorem round_of_connected {n n' : Node} {input : RoundInput} (hn : n.client.state = .connected)
    (hstep : step n (.round input) = some n') :
    n'.client = connectedRound (mqttDeleteExpiredMessages n.client) input := by
  have hsame : (mqttDeleteExpiredMessages n.client).state = .connected := hn
  cases step_spec hstep with
  | round input htask hrun hid =>
    unfold espMqttTaskRound
    simp only [hsame]

theorem Pending.step {n n' : Node} {a : Action} (hkeepalive : n.client.information.keepalive ≠ 0)
    (h : Unanswered n a) (hstep : Mqtt.step n a = some n') (hn' : n'.client.state = .connected) :
    Pending n.client n'.client := by
  cases step_spec hstep with
  | publish input call client result hid hcall hpublish =>
    have hunpinged :=
      ((published hpublish).moves (information_espMqttClientPublish hpublish)).unpinged
    exact ⟨hunpinged.tick, fun hwait => (hunpinged.waits hn').trans hwait⟩
  | round input htask hrun hid =>
    have hround := round_of_connected h.1 hstep
    rw [hround] at hn' ⊢
    obtain ⟨htick, hwaits⟩ := (connectedRound_unanswered
      (c := mqttDeleteExpiredMessages n.client) hkeepalive (h.2 input rfl) hn').1
    exact ⟨htick, hwaits⟩
  | called | refused | poll | advance => exact ⟨rfl, id⟩
  | begin | abort | exit => cases hn'

/-- A round without an answer, by what was pending. -/
theorem Pending.round {c : Client} {n n' : Node} {input : RoundInput} (h : Pending c n.client)
    (hkeepalive : c.information.keepalive ≠ 0) (hsame : n.client.information = c.information)
    (hunanswered : Unanswered n (.round input)) (hstep : Mqtt.step n (.round input) = some n')
    (hn' : n'.client.state = .connected) :
    Pending c n'.client ∧
      (n.client.waitForPingResp = true → n'.client.now < c.keepaliveTick + c.keepaliveMs) ∧
      (c.keepaliveTick + c.keepaliveMs / 2 ≤ n'.client.now →
        n'.client.waitForPingResp = true) := by
  have hround := round_of_connected hunanswered.1 hstep
  have hms : n.client.keepaliveMs = c.keepaliveMs := by
    rw [Client.keepaliveMs, hsame, Client.keepaliveMs]
  have hkeepalive' : n.client.information.keepalive ≠ 0 := hsame ▸ hkeepalive
  rw [hround] at hn' ⊢
  obtain ⟨⟨htick, hwaits⟩, hintime, hping⟩ := connectedRound_unanswered
    (c := mqttDeleteExpiredMessages n.client) hkeepalive' (hunanswered.2 input rfl) hn'
  change _ → _ < n.client.keepaliveTick + n.client.keepaliveMs at hintime
  change n.client.keepaliveTick + n.client.keepaliveMs / 2 ≤ _ → _ at hping
  rw [hms, h.tick] at hintime hping
  exact ⟨h.trans ⟨htick, hwaits⟩, hintime, hping⟩

/-- A run without an answer. -/
theorem Pending.exec {information : ConnectInfo} {now : Nat} {c : Client} {n n' : Node}
    {as : List Action} (hkeepalive : c.information.keepalive ≠ 0)
    (h : Pending c n.client) (hsame : n.client.information = c.information)
    (hunanswered : (node information now).StepsMeet Unanswered n as)
    (hrun : (node information now).exec n as = some n') :
    n'.client.information = c.information ∧
      (n'.client.state = .connected → Pending c n'.client) := by
  refine Machine.exec_invariant_of_stepsMeet (M := node information now)
    (P := fun n => n.client.information = c.information ∧
      (n.client.state = .connected → Pending c n.client)) ?_ ⟨hsame, fun _ => h⟩ hunanswered hrun
  intro m a m' hm hmeet hstep
  refine ⟨(information_step hstep).trans hm.1, fun hconnected => ?_⟩
  exact (hm.2 hmeet.1).trans (Pending.step (hm.1 ▸ hkeepalive) hmeet hstep hconnected)

/-- A connection on which no ping is answered is given up by the first round that is over when
the keepalive time is, as long as there was a round after half of the time. -/
theorem silent_connection_ends {information : ConnectInfo} {now : Nat} {n n₁ n₂ : Node}
    {as bs : List Action} {r₁ r₂ : RoundInput} (hkeepalive : n.client.information.keepalive ≠ 0)
    (hrun₁ : (node information now).exec n (as ++ [.round r₁]) = some n₁)
    (hrun₂ : (node information now).exec n₁ (bs ++ [.round r₂]) = some n₂)
    (hunanswered : (node information now).StepsMeet Unanswered n
      (as ++ [.round r₁] ++ (bs ++ [.round r₂])))
    (hhalf : n.client.keepaliveTick + n.client.keepaliveMs / 2 ≤ n₁.client.now)
    (hfull : n.client.keepaliveTick + n.client.keepaliveMs ≤ n₂.client.now) :
    n₂.client.state = .waitReconnect := by
  obtain ⟨hfirst, hsecond⟩ := Machine.stepsMeet_append.mp hunanswered
  obtain ⟨hmeet₁, hround₁⟩ := Machine.stepsMeet_snoc.mp hfirst
  obtain ⟨hmeet₂, hround₂⟩ := Machine.stepsMeet_snoc.mp (hsecond n₁ hrun₁)
  obtain ⟨m₁, hm₁, hstep₁⟩ := ((node information now).exec_snoc_eq_some).mp hrun₁
  obtain ⟨m₂, hm₂, hstep₂⟩ := ((node information now).exec_snoc_eq_some).mp hrun₂
  change step m₁ (.round r₁) = some n₁ at hstep₁
  change step m₂ (.round r₂) = some n₂ at hstep₂
  have hn₁ : n₁.client.state = .connected := by
    cases bs with
    | nil => exact (hround₂ n₁ rfl).1
    | cons b bs => exact hmeet₂.1.1
  -- The ping of the first round.
  obtain ⟨hsame₁, hpending₁⟩ := Pending.exec hkeepalive (.refl _) rfl hmeet₁ hm₁
  obtain ⟨hpending, _, hping⟩ := (hpending₁ (hround₁ m₁ hm₁).1).round hkeepalive hsame₁
    (hround₁ m₁ hm₁) hstep₁ hn₁
  have hwait : n₁.client.waitForPingResp = true := hping hhalf
  have hsame : n₁.client.information = n.client.information :=
    (information_step hstep₁).trans hsame₁
  -- It is still not answered in the second round.
  obtain ⟨hsame₂, hpending₂⟩ :=
    Pending.exec (hsame ▸ hkeepalive) (.refl n₁.client) rfl hmeet₂ hm₂
  have hm₂' := hround₂ m₂ hm₂
  have hwait₂ := (hpending₂ hm₂'.1).waits hwait
  have hlost : n₂.client.state ≠ .connected := by
    intro hconnected
    obtain ⟨_, hintime, _⟩ := (hpending.trans (hpending₂ hm₂'.1)).round hkeepalive
      (hsame₂.trans hsame) hm₂' hstep₂ hconnected
    have hlate := hintime hwait₂
    omega
  rw [round_of_connected hm₂'.1 hstep₂] at hlost ⊢
  exact moves_connectedRound.connected_or_waiting hm₂'.1 hlost

/-- After a minute the client pings, and after another one it gives up. -/
theorem silent_connection_ends_minutes :
    ∃ n n₁ n₂, (node information 0).exec (node information 0).init [.begin, .round quietRound] =
        some n ∧
      (node information 0).exec n [.poll true, .advance 60000, .round quietRound] = some n₁ ∧
      (node information 0).exec n₁ [.poll true, .advance 60000, .round quietRound] = some n₂ ∧
      n₁.client.state = .connected ∧ n₂.client.state = .waitReconnect := by
  have hrun : ((node information 0).exec (node information 0).init [.begin, .round quietRound]).bind
      (fun n => ((node information 0).exec n [.poll true, .advance 60000, .round quietRound]).bind
        fun n₁ => ((node information 0).exec n₁
          [.poll true, .advance 60000, .round quietRound]).map fun n₂ =>
            decide ((n.client.information.keepalive ≠ 0 ∧
                (node information 0).StepsMeet Unanswered n
                  ([.poll true, .advance 60000, .round quietRound] ++
                    [.poll true, .advance 60000, .round quietRound])) ∧
              n.client.keepaliveTick + n.client.keepaliveMs / 2 ≤ n₁.client.now ∧
              n.client.keepaliveTick + n.client.keepaliveMs ≤ n₂.client.now ∧
              n₁.client.state = .connected)) = some true := by
    decide +kernel
  obtain ⟨n, hn, hrun⟩ := Option.bind_eq_some_iff.mp hrun
  obtain ⟨n₁, hn₁, hrun⟩ := Option.bind_eq_some_iff.mp hrun
  obtain ⟨n₂, hn₂, hfacts⟩ := Option.map_eq_some_iff.mp hrun
  obtain ⟨⟨hkeepalive, hmeet⟩, hhalf, hfull, hconnected⟩ := of_decide_eq_true hfacts
  exact ⟨n, n₁, n₂, hn, hn₁, hn₂, hconnected,
    @silent_connection_ends information 0 n n₁ n₂ [.poll true, .advance 60000]
      [.poll true, .advance 60000] quietRound quietRound hkeepalive hn₁ hn₂ hmeet hhalf hfull⟩

/-! ## What a connection ends for -/

section

variable {c : Client} {input : RoundInput}

theorem state_mqttProcessReceive : (mqttProcessReceive c input).2.state = c.state := by
  refine moves_mqttProcessReceive.induct (P := fun d => d.state = c.state)
    (fun k hk d d' hmove hd => ?_) rfl
  cases hmove with
  | work hsame => exact hsame.state.trans hd
  | pong => exact hd
  | time | abort | ping | connect | stop | retry => exact absurd hk (by decide)

theorem mqttResendQueued_written {item : OutboxItem} (handle : Nat)
    (h : (queuedAttempt item input).ok = true) :
    (mqttResendQueued c item handle input).1 = true ∧
      (mqttResendQueued c item handle input).2.state = c.state := by
  unfold queuedAttempt Attempt.ok at h
  unfold mqttResendQueued
  by_cases hdup : item.msgType = MsgType.publish.code ∧ 0 < item.msgQos ∧
    item.pending = .transmitted
  · simp only [if_pos hdup] at h ⊢
    unfold Client.write
    simp only [h, if_true]
    exact ⟨trivial, rfl⟩
  · simp only [if_neg hdup] at h ⊢
    unfold Client.write
    simp only [h, if_true]
    exact ⟨trivial, rfl⟩

theorem resendFirstQueued_written {item : OutboxItem} {handle : Nat}
    (h : (queuedAttempt item input).ok = true) :
    (resendFirstQueued c item handle input).state = c.state := by
  obtain ⟨hok, hstate⟩ := mqttResendQueued_written (c := c) handle h
  unfold resendFirstQueued
  simp only [hok, if_true]
  split <;> split <;> exact hstate

theorem retransmitFirst_written (h : AllWritten (retransmitAttempts c input)) :
    (retransmitFirst c input).state = c.state := by
  unfold retransmitAttempts at h
  unfold retransmitFirst
  split
  · rename_i item handle hitem
    rw [hitem] at h
    simp only at h
    split
    · rename_i hdue
      rw [if_pos hdue] at h
      exact (mqttResendQueued_written _ (h _ List.mem_cons_self rfl)).2
    · rfl
  · rfl

theorem attempt_written {results : List Int} (h : AllWritten (c.attempt results true))
    (hne : c.connection.outboundMessage.data ≠ []) : c.write results = true := by
  unfold Client.attempt at h
  rw [if_neg hne] at h
  exact h _ List.mem_cons_self rfl

theorem retransmitPubrel_written (h : AllWritten (pubrelAttempts c input)) :
    (retransmitPubrel c input).state = c.state := by
  unfold pubrelAttempts at h
  unfold retransmitPubrel
  split
  · rename_i item handle hitem
    rw [hitem] at h
    simp only at h
    split
    · rename_i hdue
      rw [if_pos hdue] at h
      unfold mqttResendPubrel
      simp only
      split
      · rfl
      · rename_i hne
        have hwrite := attempt_written h hne
        unfold Client.write at hwrite ⊢
        simp only [hwrite, if_true]
    · rfl
  · rfl

/-- A client that writes all it resends keeps its connection. -/
theorem resend_written (h : AllWritten (resendAttempts c input)) :
    (resend c input).state = c.state := by
  unfold resendAttempts at h
  unfold resend
  split
  · rename_i item handle hitem
    rw [hitem] at h
    exact resendFirstQueued_written (h _ List.mem_cons_self rfl)
  · rename_i hnone
    rw [hnone] at h
    simp only at h
    split
    · rename_i hdue
      rw [if_pos hdue] at h
      have hfirst := retransmitFirst_written
        (c := { c with lastRetransmit := c.now }) fun a ha => h a (List.mem_append_left _ ha)
      have hpubrel := retransmitPubrel_written fun a ha => h a (List.mem_append_right _ ha)
      exact hpubrel.trans hfirst
    · rfl

/-- The keepalive finds a ping unanswered for too long, or cannot build one. -/
def KeepaliveFails (c : Client) : Prop :=
  c.information.keepalive ≠ 0 ∧
    if c.waitForPingResp then c.keepaliveTick + c.keepaliveMs ≤ c.now
    else c.keepaliveTick + c.keepaliveMs / 2 ≤ c.now ∧
      (mqttMsgPingreq c.connection).outboundMessage.data = []

instance (c : Client) : Decidable (KeepaliveFails c) := inferInstanceAs (Decidable (_ ∧ ite ..))

theorem allWritten_attempt_iff (results : List Int)
    (hne : c.connection.outboundMessage.data ≠ []) :
    AllWritten (c.attempt results true) ↔ c.write results = true :=
  ⟨fun h => attempt_written h hne, fun h => allWritten_attempt fun _ _ => h⟩

/-- The keepalive leaves the connection alone unless it fails or its ping is not written. -/
theorem processKeepalive_state :
    (processKeepalive c input).state = .connected ↔
      c.state = .connected ∧ ¬ KeepaliveFails c ∧ AllWritten (keepaliveAttempts c input) := by
  have hlost : (espMqttAbortConnection c).state ≠ .connected := by simp [espMqttAbortConnection]
  unfold processKeepalive KeepaliveFails keepaliveAttempts hasTimedOut Client.keepaliveMs
    Client.information
  simp only [decide_eq_true_eq]
  by_cases hkeepalive : c.connection.information.keepalive = 0
  · simp [hkeepalive, allWritten_nil]
  · simp only [hkeepalive, false_or, if_false, ne_eq, not_false_eq_true, true_and]
    by_cases hwait : c.waitForPingResp = true
    · simp only [hwait, if_true]
      split
      · rename_i hlate
        exact ⟨fun h => absurd h hlost, fun h => absurd hlate h.2.1⟩
      · rename_i hintime
        exact ⟨fun h => ⟨h, hintime, allWritten_nil⟩, And.left⟩
    · simp only [if_neg hwait]
      by_cases hdue : c.keepaliveTick + c.connection.information.keepalive * 1000 / 2 ≤ c.now
      · rw [if_pos hdue, if_pos hdue]
        by_cases hnil : (mqttMsgPingreq c.connection).outboundMessage.data = []
        · simp [hnil, hdue, espMqttAbortConnection]
        · have hwritten := allWritten_attempt_iff
            (c := { c with connection := mqttMsgPingreq c.connection }) input.pingWrites hnil
          rw [hwritten]
          simp only [hdue, hnil, true_and, not_false_eq_true]
          split
          · rename_i hwrite
            simp only [hwrite, and_true]
          · rename_i hwrite
            simp only [hwrite, and_false, espMqttAbortConnection, reduceCtorEq]
      · simp [hdue, allWritten_nil]

/-- What a connected round gives up its connection for. -/
def RoundFails (c : Client) (input : RoundInput) : Prop :=
  (mqttProcessReceive (c.advance input.receiveTime) input).1 = false ∨
    ¬ AllWritten (connectedAttempts c input) ∨ KeepaliveFails (c.resent input)

theorem connectedRound_state (hc : c.state = .connected) :
    (connectedRound c input).state = .connected ↔ ¬ RoundFails c input := by
  constructor
  · intro h
    have hok := connectedRound_connected h
    rintro (hreceive | hwritten | hkeepalive)
    · rw [hreceive] at hok
      cases hok
    · exact hwritten (connectedRound_allWritten h)
    · rw [connectedRound_eq hok] at h
      exact (processKeepalive_state.mp h).2.1 hkeepalive
  · intro h
    obtain ⟨hreceive, hrest⟩ := not_or.mp h
    obtain ⟨hwritten, hkeepalive⟩ := not_or.mp hrest
    have hok := Bool.eq_true_of_not_eq_false hreceive
    have hwritten := not_not.mp hwritten
    unfold connectedAttempts at hwritten
    simp only at hwritten
    rw [if_pos hok] at hwritten
    have hresend := resend_written fun a ha =>
      hwritten a (List.mem_append_right _ (List.mem_append_left _ ha))
    rw [connectedRound_eq hok]
    refine processKeepalive_state.mpr ⟨hresend.trans ?_, hkeepalive, fun a ha =>
      hwritten a (List.mem_append_right _ (List.mem_append_right _ ha))⟩
    have hreceived : (mqttProcessReceive (c.advance input.receiveTime) input).2.state = c.state :=
      state_mqttProcessReceive
    unfold Client.beginResend
    split <;> exact hreceived.trans hc

end

theorem state_noteSending (c : Client) (written : List UInt8) :
    (c.noteSending written).state = c.state := by
  unfold Client.noteSending
  split
  · rfl
  · split <;> rfl

/-- A publish gives up the connection when its direct transmission fails. -/
theorem publish_state {c c' : Client} {call : Call} {input : PublishInput}
    {result : Option UInt16} {p : Publication}
    (h : espMqttClientPublish c call.args.cTopic call.args.data call.args.payload.length 1 0
      call.record input = some (c', result))
    (hp : publication c call input = some p) (hc : c.state = .connected) :
    c'.state = .connected ↔ ∀ transfer ∈ p.transfer, transfer.ok = true := by
  unfold espMqttClientPublish at h
  unfold publication at hp
  simp only at h hp
  cases henqueue : mqttClientEnqueuePublish c call.args.cTopic call.args.data
      (payloadLength call.args.data call.args.payload.length) 1 0 false call.record input.random
      input.alloc with
  | none => simp [henqueue] at h
  | some stored =>
    obtain ⟨d, made⟩ := stored
    have hd : d.state = .connected := by
      rcases enqueuePublish_cases henqueue with ⟨_, _, _, _, _, _, rfl⟩ | ⟨_, _, _, _, _, _, rfl⟩
      · exact hc
      · exact hc
    cases made with
    | none =>
      simp only [henqueue] at h hp
      cases h
      cases hp
      simp [hd]
    | some messageId =>
      simp only [henqueue, ne_eq, hd, not_true_eq_false, if_false] at h hp
      obtain ⟨transfer, hsending, htransfer⟩ := Option.map_eq_some_iff.mp h
      rw [hsending] at hp
      cases hp
      simp only [Nat.one_pos, if_true] at htransfer
      split at htransfer
      · rename_i hok
        cases htransfer
        refine ⟨fun _ sent hsent => ?_, fun _ => (state_noteSending ..).trans rfl⟩
        cases hsent
        exact hok
      · rename_i hfailed
        cases htransfer
        exact ⟨fun hfalse => absurd hfalse (by simp [espMqttAbortConnection, Client.clearTotal]),
          fun hall => absurd (hall transfer rfl) hfailed⟩

/-- What a step gives up a connection for: a direct transmission that fails, a round that fails,
or the end of the task. -/
def Loses (n : Node) : Action → Prop
  | .publish input => ∃ call ∈ n.calling, ∃ p ∈ publication n.client call input,
    ∃ transfer ∈ p.transfer, transfer.ok = false
  | .round input => RoundFails (mqttDeleteExpiredMessages n.client) input
  | .begin | .abort | .exit => True
  | .call _ | .poll _ | .advance _ => False

/-- A connection is lost in a step exactly when there is a cause. -/
theorem step_state {n n' : Node} {a : Action} (hn : n.client.state = .connected)
    (hstep : step n a = some n') : n'.client.state = .connected ↔ ¬ Loses n a := by
  cases step_spec hstep with
  | called | refused | poll | advance => exact ⟨fun _ hfalse => hfalse, fun _ => hn⟩
  | begin | abort | exit =>
    exact ⟨fun hfalse => absurd hfalse (by simp [espMqttAbortConnection, espMqttTaskExit]),
      fun htrue => absurd trivial htrue⟩
  | round input htask hrun hid =>
    have hround := round_of_connected hn hstep
    rw [hround]
    exact connectedRound_state hn
  | publish input call client result hid hcall hpublish =>
    obtain ⟨p, hp, _⟩ := publication_of_publish hpublish
    rw [publish_state hpublish hp hn]
    constructor
    · rintro hall ⟨call', hcall', p', hp', transfer, htransfer, hfailed⟩
      cases hcall.symm.trans hcall'
      cases hp.symm.trans hp'
      rw [hall transfer htransfer] at hfailed
      cases hfailed
    · intro hno transfer htransfer
      by_contra hfailed
      exact hno ⟨call, hcall, p, hp, transfer, htransfer, Bool.eq_false_iff.mpr hfailed⟩

/-- A step after which the client is connected. -/
def Stands (n : Node) (a : Action) : Prop :=
  ∀ n', step n a = some n' → n'.client.state = .connected

/-- A connection stands throughout a run exactly when no step of the run has a cause to give it
up. -/
theorem connection_stands_iff {information : ConnectInfo} {now : Nat} {n n' : Node}
    {as : List Action} (hn : n.client.state = .connected)
    (hrun : (node information now).exec n as = some n') :
    (node information now).StepsMeet Stands n as ↔
      (node information now).StepsMeet (fun n a => ¬ Loses n a) n as := by
  induction as generalizing n with
  | nil => exact Iff.rfl
  | cons a as ih =>
    obtain ⟨m, hm, hrest⟩ := ((node information now).exec_cons_eq_some).mp hrun
    have hstep : step n a = some m := hm
    have hstate := step_state hn hstep
    constructor
    · rintro ⟨hstands, hmeet⟩
      have hconnected := hstands m hstep
      refine ⟨hstate.mp hconnected, fun t ht => ?_⟩
      cases hm.symm.trans ht
      exact (ih hconnected hrest).mp (hmeet m hm)
    · rintro ⟨hkeeps, hmeet⟩
      have hconnected := hstate.mpr hkeeps
      refine ⟨fun t ht => ?_, fun t ht => ?_⟩
      · cases hstep.symm.trans ht
        exact hconnected
      · cases hm.symm.trans ht
        exact (ih hconnected hrest).mpr (hmeet m hm)

theorem connection_stands_iff_ping :
    ∃ n n', (node information 0).exec (node information 0).init [.begin, .round quietRound] =
        some n ∧
      (node information 0).exec n [.poll true, .advance 60000, .round quietRound] = some n' ∧
      ((node information 0).StepsMeet Stands n [.poll true, .advance 60000, .round quietRound] ↔
        (node information 0).StepsMeet (fun n a => ¬ Loses n a) n
          [.poll true, .advance 60000, .round quietRound]) := by
  have hrun : ((node information 0).exec (node information 0).init [.begin, .round quietRound]).bind
      (fun n => ((node information 0).exec n [.poll true, .advance 60000, .round quietRound]).map
        fun n' => (n.client.state, n'.client.state)) = some (.connected, .connected) := by
    decide +kernel
  obtain ⟨n, hn, hrun⟩ := Option.bind_eq_some_iff.mp hrun
  obtain ⟨n', hn', hfacts⟩ := Option.map_eq_some_iff.mp hrun
  exact ⟨n, n', hn, hn', connection_stands_iff (Prod.mk.inj hfacts).1 hn'⟩

end IndustrialIot.Edge.Mqtt
