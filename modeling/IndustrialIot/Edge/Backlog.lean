import IndustrialIot.Core.Spacing
import IndustrialIot.Edge.Telemetry

/-!
# How many records wait

The application sleeps between its publications, and what has waited for half a minute is deleted
by the next round. So only a few records wait at a time, whatever the broker and the line do.
-/

namespace IndustrialIot.Edge.Mqtt

open StoreForward (Entry markSent updateFirst)

/-! ## When the stored packets were stored or sent -/

/-- The times of the entries of a store. -/
def stamps (entries : List (Entry UInt16)) : List Nat := entries.map Entry.stamp

/-- An action that stores nothing and gives no entry a new time. -/
def Thins (s : StoreForward.State UInt16) (a : StoreForward.Action UInt16) : Prop :=
  ∀ t, StoreForward.step s a = some t → (stamps t.entries).Sublist (stamps s.entries)

theorem stamps_setPhase (key : UInt16) (phase : StoreForward.Phase)
    (entries : List (Entry UInt16)) :
    stamps (StoreForward.setPhase key phase entries) = stamps entries :=
  StoreForward.map_updateFirst key (fun e => { e with phase := phase }) Entry.stamp
    (fun _ => rfl) entries

theorem admits_thins : Admits Thins where
  mark {s t key record stamp} h ht time := by
    have hlength := (h t ht).length_le
    cases StoreForward.step_spec ht
    simp [stamps] at hlength
  resend s t ht := by
    cases StoreForward.step_spec ht
    simp only [stamps_setPhase]
    exact .refl _
  retransmit s t ht := by
    cases StoreForward.step_spec ht
    exact .refl _
  expire s now t ht := by
    cases StoreForward.step_spec ht
    exact List.filter_sublist.map _
  link s t ht := by
    cases StoreForward.step_spec ht
    exact .refl _

theorem thins_received {received : Received} {a : StoreForward.Action UInt16}
    (ha : a ∈ received.action) (s : StoreForward.State UInt16) : Thins s a := by
  intro t ht
  cases received with
  | puback msgId | pubcomp msgId =>
    cases ha
    cases StoreForward.step_spec ht
    exact List.eraseP_sublist.map _
  | pubrec msgId =>
    cases ha
    cases StoreForward.step_spec ht
    simp only [stamps_setPhase]
    exact .refl _
  | nothing | failure | suback | unsuback | publish | pubrel | pingresp | other => cases ha

/-- What refines an action that thins out the times does so. -/
theorem Refines.stamps {c c' : Client} (h : Refines Thins c c') :
    (stamps c'.view.entries).Sublist (stamps c.view.entries) := by
  obtain ⟨as, has, hq⟩ := h.run
  exact Machine.exec_invariant_of_stepsMeet
    (P := fun s => (Mqtt.stamps s.entries).Sublist (Mqtt.stamps c.view.entries))
    (fun _ _ t hs hq ht => (hq t ht).trans hs) (.refl _) hq has

/-- Only a publish stores something, or gives an item a new time. -/
theorem stamps_of_ne_publish {n n' : Node} {a : Action} (h : Inv n)
    (ha : ∀ input, a ≠ .publish input) (hstep : step n a = some n') :
    (stamps n'.client.view.entries).Sublist (stamps n.client.view.entries) := by
  have hdemands : Demands Thins n a :=
    demands_of_publish (fun input he => absurd he (ha input)) (fun _ _ => thins_received)
      fun s t ht => by
        cases StoreForward.step_spec ht
        exact List.nil_sublist _
  exact (refines_of_step admits_thins h hdemands hstep).stamps

/-- A round keeps at most what it has not deleted for its age. -/
theorem stamps_espMqttTaskRound {c : Client} (hitems : c.outbox.PublishOnly) (input : RoundInput) :
    (stamps (espMqttTaskRound c input).1.view.entries).Sublist
      (stamps (mqttDeleteExpiredMessages c).view.entries) := by
  have hkept : (mqttDeleteExpiredMessages c).outbox.PublishOnly :=
    hitems.sublist List.filter_sublist
  unfold espMqttTaskRound
  simp only
  split
  · exact .refl _
  · exact (initRound_refines admits_thins hkept input).stamps
  · exact (connectedRound_refines admits_thins hkept input
      fun a ha => thins_received ha _).stamps
  · split <;> exact .refl _

/-- A new entry and the mark as sent put two new times in the place of an old one, or only one
where no old entry has the key. -/
theorem stamps_markSent (key : UInt16) (time : Nat) (new : Entry UInt16) (hnew : new.key = key)
    (entries : List (Entry UInt16)) :
    ∃ rest more, rest.Sublist (stamps entries) ∧
      (stamps (markSent key time (entries ++ [new]))).Perm (rest ++ more) ∧
      (more = [new.stamp, time] ∨ more = [time]) ∧
      ((∀ e ∈ entries, e.key ≠ key) → more = [time]) := by
  induction entries with
  | nil =>
    refine ⟨[], [time], .refl _, ?_, .inr rfl, fun _ => rfl⟩
    simp [markSent, updateFirst, hnew, stamps]
  | cons e entries ih =>
    by_cases hkey : e.key = key
    · refine ⟨stamps entries, [new.stamp, time], List.sublist_cons_self .., ?_, .inl rfl,
        fun hne => absurd hkey (hne e List.mem_cons_self)⟩
      have heq : stamps (markSent key time (e :: entries ++ [new])) =
          time :: (stamps entries ++ [new.stamp]) := by
        simp [markSent, updateFirst, hkey, stamps]
      rw [heq]
      exact (List.perm_append_singleton time _).symm.trans (by simp)
    · obtain ⟨rest, more, hsub, hperm, hmore, hfresh⟩ := ih
      refine ⟨e.stamp :: rest, more, hsub.cons_cons _, ?_, hmore,
        fun hne => hfresh fun x hx => hne x (List.mem_cons_of_mem e hx)⟩
      have heq : stamps (markSent key time (e :: entries ++ [new])) =
          e.stamp :: stamps (markSent key time (entries ++ [new])) := by
        simp [markSent, updateFirst, hkey, stamps]
      rw [heq]
      exact hperm.cons _

theorem stamps_store (c : Client) (connection : Connection) (buffer : List UInt8) (record : Nat)
    (input : PublishInput) :
    (c.storePublish connection buffer record input).view.entries =
      c.view.entries ++ [(publishItem buffer input.random record c.now).entry] :=
  List.map_append

theorem Published.now_le {c c' : Client} {fits : Prop} {record : Nat} {input : PublishInput}
    {result : Option UInt16} (h : Published c fits record input c' result) : c.now ≤ c'.now := by
  cases h with
  | rejected | offline => exact Nat.le_refl _
  | cutOff | sent => exact Nat.le_add_right ..

/-- What a publish leaves of the times. -/
theorem Published.stamps {c c' : Client} {fits : Prop} {record : Nat} {input : PublishInput}
    {result : Option UInt16} (h : Published c fits record input c' result) :
    ∃ rest more, rest.Sublist (stamps c.view.entries) ∧
      (Mqtt.stamps c'.view.entries).Perm (rest ++ more) ∧
      (∀ x ∈ more, c.now ≤ x ∧ x ≤ c'.now) ∧ more.length ≤ 2 ∧
      ((∀ e ∈ c.view.entries, e.key ≠ input.random) → more.length ≤ 1) := by
  have hnow := h.now_le
  cases h with
  | rejected hrejected connection msgId type qos =>
    exact ⟨Mqtt.stamps c.view.entries, [], .refl _, by simp [Client.withMessage, Client.view],
      by simp, by simp, by simp⟩
  | offline hstored hstate connection buffer =>
    refine ⟨Mqtt.stamps c.view.entries, [c.now], .refl _, ?_, by simpa using hnow, by simp, by simp⟩
    rw [stamps_store, Mqtt.stamps, List.map_append]
    exact .refl _
  | cutOff hstored hstate connection buffer whole =>
    refine ⟨Mqtt.stamps c.view.entries, [c.now], .refl _, ?_, by simpa using hnow, by simp, by simp⟩
    change (Mqtt.stamps (c.storePublish connection buffer record input).view.entries).Perm _
    rw [stamps_store, Mqtt.stamps, List.map_append]
    exact .refl _
  | sent hstored hstate connection buffer =>
    obtain ⟨rest, more, hsub, hperm, hmore, hfresh⟩ :=
      stamps_markSent input.random (c.now + input.elapsed)
        (publishItem buffer input.random record c.now).entry rfl c.view.entries
    refine ⟨rest, more, hsub, ?_, ?_, ?_, fun hne => ?_⟩
    · rw [← stamps_store] at hperm
      refine List.Perm.trans (.of_eq (congrArg Mqtt.stamps ?_)) hperm
      exact entries_setTick_setPending ..
    · intro x hx
      rcases hmore with rfl | rfl
      · rcases List.mem_pair.mp hx with rfl | rfl
        · exact ⟨Nat.le_refl _, hnow⟩
        · exact ⟨Nat.le_add_right .., Nat.le_refl _⟩
      · obtain rfl := List.mem_singleton.mp hx
        exact ⟨Nat.le_add_right .., Nat.le_refl _⟩
    · rcases hmore with rfl | rfl <;> simp
    · rw [hfresh hne]
      simp

end IndustrialIot.Edge.Mqtt

namespace IndustrialIot.Edge

open Mqtt (stamps)
open Spacing (Spaced)

/-- A publication that draws an id which no waiting record has. -/
def Fresh (s : App) : AppAction → Prop
  | .node (.publish input) => ∀ item ∈ s.line.node.client.outbox, item.msgId ≠ input.random
  | _ => True

instance (s : App) : (a : AppAction) → Decidable (Fresh s a)
  | .node (.publish input) =>
    inferInstanceAs (Decidable (∀ item ∈ s.line.node.client.outbox, item.msgId ≠ input.random))
  | .send _ _ | .node (.call _) | .node .begin | .node (.round _) | .node (.poll _) | .node .abort
  | .node .exit | .node (.advance _) => inferInstanceAs (Decidable True)

/-- At most `m` stored or renewed times in each sleep of the application. -/
structure Paced (m : Nat) (s : App) : Prop where
  inv : Mqtt.Inv s.line.node
  spaced : Spaced delayMs m (stamps s.line.node.client.view.entries)
  past : ∀ x ∈ stamps s.line.node.client.view.entries, x ≤ s.line.node.client.now
  wake : ∀ x ∈ stamps s.line.node.client.view.entries, x + delayMs ≤ s.wakeAt
  calling : s.line.node.calling ≠ none → s.wakeAt ≤ s.line.node.client.now

section

variable {m : Nat} {s s' : App} {a : AppAction}

/-- A step that stores nothing and gives no item a new time. -/
theorem Paced.quiet (h : Paced m s) (hinv : Mqtt.Inv s'.line.node)
    (hsub : (stamps s'.line.node.client.view.entries).Sublist
      (stamps s.line.node.client.view.entries))
    (hnow : s.line.node.client.now ≤ s'.line.node.client.now)
    (hwake : s'.wakeAt = s.wakeAt ∨ s'.wakeAt = s'.line.node.client.now + delayMs)
    (hcalling : s'.line.node.calling ≠ none → s'.wakeAt ≤ s'.line.node.client.now) :
    Paced m s' := by
  have hpast : ∀ x ∈ stamps s'.line.node.client.view.entries, x ≤ s'.line.node.client.now :=
    fun x hx => Nat.le_trans (h.past x (hsub.subset hx)) hnow
  refine ⟨hinv, h.spaced.sublist hsub, hpast, fun x hx => ?_, hcalling⟩
  rcases hwake with hsame | hlater
  · rw [hsame]
    exact h.wake x (hsub.subset hx)
  · rw [hlater]
    exact Nat.add_le_add_right (hpast x hx) _

/-- A publish comes after the sleep that followed the one before. -/
theorem Paced.publish (h : Paced m s) {call : Mqtt.Call} {input : Mqtt.PublishInput}
    {client : Mqtt.Client} {result : Option UInt16} (hinv : Mqtt.Inv s'.line.node)
    (hcall : s.line.node.calling = some call)
    (hpublish : Mqtt.espMqttClientPublish s.line.node.client call.args.cTopic call.args.data
      call.args.payload.length 1 0 call.record input = some (client, result))
    (hclient : s'.line.node.client = client) (hcalling : s'.line.node.calling = none)
    (hwake : s'.wakeAt = client.now + delayMs)
    (hm : 2 ≤ m ∨ 1 ≤ m ∧ ∀ item ∈ s.line.node.client.outbox, item.msgId ≠ input.random) :
    Paced m s' := by
  have hpublished := Mqtt.published hpublish
  have hawake := h.calling (by simp [hcall])
  obtain ⟨rest, more, hsub, hperm, hmore, htwo, hone⟩ := hpublished.stamps
  have hlength : more.length ≤ m := by
    rcases hm with hm | ⟨hm, hfresh⟩
    · exact Nat.le_trans htwo hm
    · refine Nat.le_trans (hone fun e he => ?_) hm
      obtain ⟨item, hitem, rfl⟩ := List.mem_map.mp he
      exact hfresh item hitem
  have hold : ∀ x ∈ rest, x + delayMs ≤ s.line.node.client.now :=
    fun x hx => Nat.le_trans (h.wake x (hsub.subset hx)) hawake
  have hpast : ∀ x ∈ stamps client.view.entries, x ≤ client.now := by
    intro x hx
    rcases List.mem_append.mp (hperm.subset hx) with hrest | hnew
    · exact Nat.le_trans (h.past x (hsub.subset hrest)) hpublished.now_le
    · exact (hmore x hnew).2
  have hspaced : Spaced delayMs m (stamps client.view.entries) :=
    ((h.spaced.sublist hsub).append hold (fun x hx => (hmore x hx).1) hlength).perm hperm
  refine ⟨hinv, hclient ▸ hspaced, hclient ▸ hpast, fun x hx => ?_, fun hne => absurd hcalling hne⟩
  rw [hwake]
  exact Nat.add_le_add_right (hpast x (hclient ▸ hx)) _

theorem Paced.step (h : Paced m s) (hm : 2 ≤ m ∨ 1 ≤ m ∧ Fresh s a)
    (hstep : appStep s a = some s') : Paced m s' := by
  obtain ⟨hready, hline, _, hwake⟩ := appStep_eq_some hstep
  obtain ⟨node, hnode, hline⟩ := Option.map_eq_some_iff.mp hline
  obtain rfl : node = s'.line.node := congrArg Mqtt.Line.node hline
  have hinv := h.inv.step hnode
  have hnow := Mqtt.now_le_step hnode
  have hnext : s'.wakeAt = s.wakeAt ∨ s'.wakeAt = s'.line.node.client.now + delayMs := by
    rw [hwake, App.nextWake]
    split
    · exact .inr rfl
    · exact .inl rfl
  have hquiet : (∀ input, s.action a ≠ .publish input) →
      (s'.line.node.calling ≠ none → s'.wakeAt ≤ s'.line.node.client.now) → Paced m s' :=
    fun hne hcalling => h.quiet hinv (Mqtt.stamps_of_ne_publish h.inv hne hnode) hnow hnext hcalling
  have hsame : (∀ input, s.action a ≠ .publish input) →
      s'.line.node.results = s.line.node.results →
      s'.line.node.calling = s.line.node.calling → Paced m s' := by
    refine fun hne hresults hcalling => hquiet hne fun hcall => ?_
    rw [hwake, App.nextWake, hresults, if_neg (Nat.lt_irrefl _)]
    exact Nat.le_trans (h.calling (hcalling ▸ hcall)) hnow
  rw [App.nextWake] at hwake
  generalize hact : s.action a = act at hnode hquiet hsame
  generalize hafter : s'.line.node = node at hnode hinv hquiet hsame hwake
  cases Mqtt.step_spec hnode with
  | called args hidle hflag =>
    rw [if_neg (Nat.lt_irrefl _)] at hwake
    cases a with
    | send beyond before => exact hquiet (by simp) fun _ => hwake ▸ hready
    | node b =>
      obtain rfl : b = .call args := hact
      exact hready.elim
  | refused args hidle hflag => exact hquiet (by simp) fun hcall => absurd hidle hcall
  | publish input call client result hid hcall hpublish =>
    rw [if_pos (by simp)] at hwake
    cases a with
    | send beyond before => cases hact
    | node b =>
      obtain rfl : b = .publish input := hact
      exact h.publish (hafter ▸ hinv) hcall hpublish (by rw [hafter]) (by rw [hafter]) hwake hm
  | begin | round | poll | abort | exit | advance => exact hsame (by simp) rfl rfl

/-- The records that wait and are not over their age. -/
def App.waiting (s : App) : Nat :=
  s.line.node.client.outbox.countP fun item =>
    decide (s.line.node.client.now - item.tick ≤ Mqtt.outboxExpiredTimeoutMs)

/-- In half a minute there are four times that the application can publish at. -/
theorem Paced.waiting_le (h : Paced m s) : s.waiting ≤ 4 * m := by
  have hstamps : s.waiting = (stamps s.line.node.client.view.entries).countP
      fun x => decide (s.line.node.client.now - x ≤ Mqtt.outboxExpiredTimeoutMs) := by
    unfold stamps Mqtt.Client.view Mqtt.Outbox.entries
    rw [List.countP_map, List.countP_map]
    rfl
  rw [hstamps]
  refine Nat.le_trans (List.countP_mono_left fun x hx hyoung => ?_)
    (h.spaced.countP_le 4 (s.line.node.client.now - Mqtt.outboxExpiredTimeoutMs))
  have hpast := h.past x hx
  have hlate := of_decide_eq_true hyoung
  refine decide_eq_true ?_
  unfold Mqtt.outboxExpiredTimeoutMs delayMs at *
  omega

/-- After a round nothing else waits. -/
theorem length_outbox_of_round {input : Mqtt.RoundInput} (hinv : Mqtt.Inv s.line.node)
    (hstep : appStep s (.node (.round input)) = some s') :
    s'.line.node.client.outbox.length ≤ s.waiting := by
  obtain ⟨_, hline, _, _⟩ := appStep_eq_some hstep
  obtain ⟨node, hnode, hline⟩ := Option.map_eq_some_iff.mp hline
  rw [← hline]
  cases Mqtt.step_spec hnode with
  | round input htask hrun hid =>
    have hlength := (Mqtt.stamps_espMqttTaskRound hinv.items input).length_le
    unfold stamps Mqtt.Client.view Mqtt.Outbox.entries at hlength
    simp only [List.length_map] at hlength
    rw [App.waiting, List.countP_eq_length_filter]
    exact hlength

/-- At most eight records wait that are not over their age, and at most four where no publication
draws an id that is in use. A round leaves no others, so this bounds the outbox. -/
theorem outbox_bounded {information : Mqtt.ConnectInfo} {now : Nat} {as : List AppAction} {s : App}
    (hrun : (app information now).exec (app information now).init as = some s) :
    s.waiting ≤ 8 ∧
      ((app information now).StepsMeet Fresh (app information now).init as → s.waiting ≤ 4) ∧
      ∀ input s', appStep s (.node (.round input)) = some s' →
        s'.line.node.client.outbox.length ≤ s.waiting := by
  have hinit : ∀ m, Paced m (app information now).init := fun m =>
    ⟨Mqtt.inv_init information now, Spacing.spaced_nil _ _, by simp [app, Mqtt.line, Mqtt.node,
      stamps, Mqtt.Client.view, Mqtt.constructed, Mqtt.Outbox.entries], by simp [app, Mqtt.line,
      Mqtt.node, stamps, Mqtt.Client.view, Mqtt.constructed, Mqtt.Outbox.entries],
      fun _ => Nat.le_refl _⟩
  have htwo : Paced 2 s := Machine.exec_invariant (M := app information now) (P := Paced 2)
    (fun _ _ _ h hstep => h.step (.inl (Nat.le_refl _)) hstep) (hinit 2) hrun
  refine ⟨htwo.waiting_le, fun hfresh => ?_, fun _ _ => length_outbox_of_round htwo.inv⟩
  exact (Machine.exec_invariant_of_stepsMeet (M := app information now) (P := Paced 1)
    (fun _ _ _ h hmeet hstep => h.step (.inr ⟨Nat.le_refl _, hmeet⟩) hstep)
    (hinit 1) hfresh hrun).waiting_le

/-- Four publications under different ids that the broker does not answer. -/
def unanswered : List AppAction :=
  [.node .begin, .node (.round Mqtt.quietRound), .send [] [],
    .node (.publish ⟨1, true, [[100]], 0⟩), .node (.advance 9990), .send [] [],
    .node (.publish ⟨2, true, [[100]], 0⟩), .node (.advance 9990), .send [] [],
    .node (.publish ⟨3, true, [[100]], 0⟩), .node (.advance 9990), .send [] [],
    .node (.publish ⟨4, true, [[100]], 0⟩)]

theorem outbox_bounded_unanswered :
    ∃ s, (app Mqtt.information 0).exec (app Mqtt.information 0).init unanswered = some s ∧
      s.waiting = 4 ∧ s.waiting ≤ 8 ∧
      ((app Mqtt.information 0).StepsMeet Fresh (app Mqtt.information 0).init unanswered →
        s.waiting ≤ 4) ∧
      ∀ input s', appStep s (.node (.round input)) = some s' →
        s'.line.node.client.outbox.length ≤ s.waiting := by
  have hrun : ((app Mqtt.information 0).exec (app Mqtt.information 0).init unanswered).map
      App.waiting = some 4 := by
    decide +kernel
  obtain ⟨s, hs, hwaiting⟩ := Option.map_eq_some_iff.mp hrun
  exact ⟨s, hs, hwaiting, outbox_bounded hs⟩

end

end IndustrialIot.Edge
