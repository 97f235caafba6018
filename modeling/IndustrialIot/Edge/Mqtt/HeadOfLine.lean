import IndustrialIot.Edge.Mqtt.Progress

/-!
# The first item holds back the others

An item that was sent is sent again only as the first of them in the outbox, and keeps its place
while it is. After a connection is lost, the items that were sent on it are therefore sent again
one after the other, each when the one before it has been acknowledged or has expired.
-/

namespace IndustrialIot.Edge.Mqtt

open StoreForward (waiting Drains Leads)

section Runs

variable {Q : List UInt8 → List UInt8 → Prop} {information : ConnectInfo} {l l' : Line}
  {input : RoundInput} {key id : UInt16}

/-- The ids of the stored items. -/
def Line.ids (l : Line) : List UInt16 := l.node.client.outbox.entries.map StoreForward.Entry.key

/-- A step after which both ids are stored. -/
def Retains (key id : UInt16) (l : Line) (a : Action) : Prop :=
  ∀ l', lineStep l a = some l' → key ∈ l'.ids ∧ id ∈ l'.ids

instance (key id : UInt16) (l : Line) (a : Action) : Decidable (Retains key id l a) :=
  match h : lineStep l a with
  | none => isTrue fun _ hl' => nomatch h.symm.trans hl'
  | some m => decidable_of_iff (key ∈ m.ids ∧ id ∈ m.ids)
      ⟨fun hm _ hl' => Option.some.inj (h.symm.trans hl') ▸ hm, fun hretains => hretains m h⟩

/-- One item comes first and was sent, and another one was sent too, but not on this connection. -/
structure Behind (key id : UInt16) (l : Line) : Prop where
  other : id ≠ key
  stored : key ∈ l.ids ∧ id ∈ l.ids
  leads : Leads key l.node.client.outbox.entries
  marked : id ∉ waiting l.node.client.outbox.entries
  unpublished : id ∉ (publications l.bytes).map Prod.fst

theorem Refines.leads {c c' : Client} (h : Refines Drains c c')
    (hkeys : (c.outbox.entries.map StoreForward.Entry.key).Nodup)
    (hleads : Leads key c.outbox.entries) : Leads key c'.outbox.entries := by
  obtain ⟨as, hrun, hmeet⟩ := h.run
  exact StoreForward.leads_of_stepsMeet hkeys hleads hmeet hrun

/-- What a round sends while the first item is stored and sent is that item, or a queued one. -/
theorem resends_of_leads {c : Client} (hleads : Leads key c.outbox.entries)
    (hkey : key ∈ c.outbox.entries.map StoreForward.Entry.key) {item : OutboxItem}
    (hitem : c.resends = some item) :
    item.msgId = key ∨ item.msgId ∈ waiting c.outbox.entries := by
  unfold Client.resends at hitem
  split at hitem
  · rename_i first handle hfirst
    cases hitem
    obtain ⟨hmem, hpending⟩ := mem_of_outboxDequeue hfirst
    exact .inr (StoreForward.mem_waiting.mpr ⟨item.entry, List.mem_map_of_mem hmem,
      PendingState.phase_eq_queued.mpr hpending, rfl⟩)
  · obtain ⟨_, hitem⟩ := Option.ite_none_right_eq_some.mp hitem
    obtain ⟨⟨found, handle⟩, hfound, hitem⟩ := Option.bind_eq_some_iff.mp hitem
    obtain ⟨_, hitem⟩ := Option.ite_none_right_eq_some.mp hitem
    cases hitem
    have hfirst := firstIn_of_outboxDequeue
      (fun p => PendingState.phase_eq_transmitted (p := p)) c.outbox
    obtain ⟨e, rest, hentries, hekey, hphase⟩ := hleads.exists_cons hkey
    have hlead : StoreForward.firstIn .transmitted c.outbox.entries = some e := by
      rw [hentries, StoreForward.firstIn]
      simp [hphase]
    rw [hlead, hfound] at hfirst
    have hentry : e = item.entry := Option.some.inj hfirst
    exact .inl ((congrArg StoreForward.Entry.key hentry).symm.trans hekey)

/-- What is published directly comes after what is stored. -/
theorem Behind.publish (h : Behind key id l) (hmatched : Matched Q information False l)
    {call : Call} {input : PublishInput} {client : Client} {result : Option UInt16}
    (hrandom : input.random ≠ 0) (hcall : l.node.calling = some call)
    (hpublish : espMqttClientPublish l.node.client call.args.cTopic call.args.data
      call.args.payload.length 1 0 call.record input = some (client, result))
    (horderly : Orderly Q l (.publish input)) (hunused : Unused l (.publish input))
    (hstored : key ∈ l'.ids ∧ id ∈ l'.ids) (hclient : l'.node.client = client)
    (hstand : l'.node.client.state = .connected)
    (hbytes : l'.bytes = l.bytes ++ emitted l.node (.publish input)) : Behind key id l' := by
  have hkeys : l.ids.Nodup := hmatched.named.keys
  have hfresh : input.random ∉ l.ids := hunused.fresh
  subst hclient
  have hpublished := published hpublish
  have hwaits := hpublished.waits hkeys hfresh hstand
  refine ⟨h.other, hstored, ?_, fun hmem => h.marked (hwaits id hmem).1, ?_⟩
  · rcases hpublished.entries with hsame | ⟨stored, hentries, ⟨_, hstate⟩ | ⟨stamp, hmarked⟩⟩
    · rw [hsame]
      exact h.leads
    · exact absurd hstand hstate
    · rw [hmarked, StoreForward.markSent]
      refine Leads.updateFirst ?_ (fun _ => rfl) fun _ => rfl
      rw [hentries]
      exact h.leads.append h.stored.1 _
  · rw [hbytes]
    rcases hmatched.line.publish_labels hrandom hcall hpublish horderly with
      ⟨_, hnothing⟩ | ⟨topic, payload, _, hsaid⟩
    · rw [hnothing hstand, List.append_nil]
      exact h.unpublished
    · rw [hsaid hstand, List.map_append, List.mem_append]
      rintro (hold | hnew)
      · exact h.unpublished hold
      · have hid : id = input.random := List.mem_singleton.mp hnew
        exact hfresh (hid ▸ h.stored.2)

/-- A round sends the first item, or one that waits. -/
theorem Behind.round (h : Behind key id l) (hmatched : Matched Q information False l)
    (hstate : l.node.client.state = .connected) (horderly : Orderly Q l (.round input))
    (hreceived : ∀ id, input.received ≠ .pubrec id) (hstored : key ∈ l'.ids ∧ id ∈ l'.ids)
    (hclient : l'.node.client = connectedRound (mqttDeleteExpiredMessages l.node.client) input)
    (hstand : l'.node.client.state = .connected)
    (hbytes : l'.bytes = l.bytes ++ emitted l.node (.round input)) : Behind key id l' := by
  have hitems := hmatched.inv.items
  have hkeys := hmatched.named.keys
  have hheard : Refines Drains l.node.client (l.heard input) :=
    refines_line_heard hitems hreceived
  have hresend := resend_refines admits_drains hheard.items input
  have hrefines := hheard.trans hresend
  rw [hclient] at hstand
  obtain ⟨houtbox, _⟩ := outbox_connectedRound hstand
  have houtbox : l'.node.client.outbox = (resend (l.heard input) input).outbox := by
    rw [hclient, houtbox]
    rfl
  have hsent : key ∈ (l.heard input).outbox.entries.map StoreForward.Entry.key := by
    have hkey := hstored.1
    rw [Line.ids, houtbox, keys_entries, labels_resend hheard.items] at hkey
    rw [keys_entries]
    exact hkey
  refine ⟨h.other, hstored, ?_, fun hmem => ?_, ?_⟩
  · rw [houtbox]
    exact hrefines.leads hkeys h.leads
  · rw [houtbox] at hmem
    exact h.marked (hrefines.drains.1 hmem)
  · rw [hbytes, hmatched.line.publications_round hstate hstand horderly, List.map_append,
      List.mem_append]
    rintro (hold | hnew)
    · exact h.unpublished hold
    · obtain ⟨s, hs, hid⟩ := List.mem_map.mp hnew
      obtain ⟨item, hitem, hsaid⟩ := List.mem_filterMap.mp hs
      have hresends := Option.mem_toList.mp hitem
      obtain ⟨_, topic, payload, hown⟩ := hmatched.named.said_resends hitems hresends
      obtain rfl := Option.some.inj (hown.symm.trans hsaid)
      rcases resends_of_leads (hheard.leads hkeys h.leads) hsent hresends with hfirst | hwaits
      · exact h.other (hid.symm.trans hfirst)
      · exact h.marked (hheard.drains.1 (hid ▸ hwaits))

theorem Behind.step {a : Action} (h : Behind key id l) (hmatched : Matched Q information False l)
    (hstate : l.node.client.state = .connected) (horderly : Orderly Q l a) (hunused : Unused l a)
    (hreplies : Replies l a) (hretains : Retains key id l a) (hstep : lineStep l a = some l')
    (hstand : l'.node.client.state = .connected) : Behind key id l' := by
  have hstored := hretains l' hstep
  obtain ⟨node, hnode, rfl⟩ := Option.map_eq_some_iff.mp hstep
  cases step_spec hnode with
  | called | refused | poll | advance =>
    refine ⟨h.other, hstored, h.leads, h.marked, ?_⟩
    exact (List.append_nil l.bytes).symm ▸ h.unpublished
  | publish input call client result hid hcall hpublish =>
    have hne : input.random ≠ 0 := fun hzero => by
      rw [hzero] at hid
      exact absurd hid.1 (by decide)
    exact h.publish hmatched hne hcall hpublish horderly hunused hstored rfl hstand rfl
  | begin | abort | exit => cases hstand
  | round input htask hrun hid =>
    have hopens : ¬ l.opens (.round input) := fun hopens =>
      absurd (hstate.symm.trans hopens.1) (by decide)
    exact h.round hmatched hstate horderly hreplies.not_pubrec hstored
      (round_of_connected hstate hnode) hstand (if_neg hopens)

/-- As long as a connection stands and two items stay stored that were sent before it, the later
one is not published on it: every look at the outbox finds the first. -/
theorem blocked_behind_first {information : ConnectInfo} {now : Nat} {as bs : List Action}
    (hrun : (line information now).exec (line information now).init as = some l)
    (hmeet : (line information now).StepsMeet
      (fun l a => Orderly Q l a ∧ Unused l a) (line information now).init as)
    (hconnected : l.node.client.state = .connected) (hbehind : Behind key id l)
    (hcontinued : (line information now).exec l bs = some l')
    (hstands : (line information now).StepsMeet
      (fun l a => (Orderly Q l a ∧ Unused l a ∧ Replies l a) ∧ Stands l.node a ∧ Retains key id l a)
      l bs) :
    id ∉ (publications l'.bytes).map Prod.fst := by
  have hstart : Matched Q information False l :=
    Machine.exec_invariant_of_stepsMeet (M := line information now)
      (P := Matched Q information False)
      (fun _ _ _ h hq hstep => h.step hq.1 hq.2 False.elim hstep)
      (matched_init Q information False now) hmeet hrun
  have hend := Machine.exec_invariant_of_stepsMeet (M := line information now)
    (P := fun l => (Matched Q information False l ∧ l.node.client.state = .connected) ∧
      Behind key id l)
    (fun l a l'' h hq hstep => by
      obtain ⟨node, hnode, hline⟩ := Option.map_eq_some_iff.mp hstep
      have hstate : l''.node.client.state = .connected := hline ▸ hq.2.1 node hnode
      exact ⟨⟨h.1.1.step hq.1.1 hq.1.2.1 False.elim hstep, hstate⟩,
        h.2.step h.1.1 h.1.2 hq.1.1 hq.1.2.1 hq.1.2.2 hq.2.2 hstep hstate⟩)
    ⟨⟨hstart, hconnected⟩, hbehind⟩ hstands hcontinued
  exact hend.2.unpublished

/-- Two messages are sent, the connection is lost, and another one is made. -/
def bothSent : List Action :=
  [.begin, .round quietRound, .call oneByte, .publish ⟨7, true, [[100]], 0⟩, .call oneByte,
    .publish ⟨8, true, [[100]], 0⟩, .poll true, .round { quietRound with received := .failure },
    .advance 11000, .poll true, .round quietRound, .poll true, .round quietRound]

/-- Every second the task looks at the outbox. -/
def unanswered : List Action :=
  [.poll true, .round quietRound, .advance 1001, .poll true, .round quietRound, .advance 1001,
    .poll true, .round quietRound]

/-- The first message is sent again and again, the second one is not. -/
theorem blocked_behind_first_bothSent :
    ∃ l l', (line Mqtt.information 0).exec (line Mqtt.information 0).init bothSent = some l ∧
      (line Mqtt.information 0).exec l unanswered = some l' ∧
      publications l'.bytes = [(7, [0x74], [0x08]), (7, [0x74], [0x08])] ∧
      8 ∉ (publications l'.bytes).map Prod.fst := by
  have hrun : ((line Mqtt.information 0).exec (line Mqtt.information 0).init
      bothSent).bind (fun l => ((line Mqtt.information 0).exec l unanswered).map fun l' =>
        decide ((l.node.client.state = .connected ∧
            (7 ∈ l.ids ∧ 8 ∈ l.ids) ∧ Leads 7 l.node.client.outbox.entries ∧
            8 ∉ waiting l.node.client.outbox.entries ∧
            8 ∉ (publications l.bytes).map Prod.fst) ∧
          (line Mqtt.information 0).StepsMeet (fun l a =>
            (Orderly (fun topic payload => topic = [0x74] ∧ payload = [0x08]) l a ∧ Unused l a ∧
              Replies l a) ∧ Stands l.node a ∧ Retains 7 8 l a) l unanswered ∧
          publications l'.bytes = [(7, [0x74], [0x08]), (7, [0x74], [0x08])])) = some true := by
    decide +kernel
  obtain ⟨l, hl, hrun⟩ := Option.bind_eq_some_iff.mp hrun
  obtain ⟨l', hl', hfacts⟩ := Option.map_eq_some_iff.mp hrun
  obtain ⟨⟨hstate, hstored, hleads, hmarked, hunpublished⟩, hstands, hpublications⟩ :=
    of_decide_eq_true hfacts
  have hmeet : (line Mqtt.information 0).StepsMeet (fun l a =>
      Orderly (fun topic payload => topic = [0x74] ∧ payload = [0x08]) l a ∧ Unused l a)
      (line Mqtt.information 0).init bothSent := by
    decide +kernel
  have hbehind : Behind 7 8 l := ⟨by decide, hstored, hleads, hmarked, hunpublished⟩
  exact ⟨l, l', hl, hl', hpublications,
    blocked_behind_first hl hmeet hstate hbehind hl' hstands⟩

end Runs

end IndustrialIot.Edge.Mqtt
