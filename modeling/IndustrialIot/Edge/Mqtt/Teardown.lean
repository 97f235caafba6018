import IndustrialIot.Edge.Mqtt.Lifecycle

/-!
# Destroying the manager

`~MqttManager` stops the client and frees it, whatever the stop answered. A stop waits for the
task only if the task has already set `run`, is not the caller, and is not leaving by itself;
and `start()` creates a task whenever the state is INIT or DISCONNECTED, which it is before the
first round of a task, between two connections and while a stop waits.
-/

namespace IndustrialIot.Edge.Mqtt.Lifecycle

/-- A task of the client that has statements left. -/
def Thread.unfinished (th : Thread) : Bool := th.kind == .mqttTask && !th.code.isEmpty

/-- Task `i` is a task of the client that has statements left. -/
def State.Unfinished (s : State) (i : Nat) : Prop :=
  ∃ th, s.threads[i]? = some th ∧ th.unfinished = true

/-- The client has at most one unfinished task. -/
def OneTask (s : State) : Prop := ∀ i j, s.Unfinished i → s.Unfinished j → i = j

/-- Task `i` executes a statement next. -/
def State.Next (s : State) (i : Nat) (op : Op) : Prop :=
  (s.threads[i]?.bind fun th => th.code.head?) = some op

theorem next_iff {s : State} {i : Nat} {op : Op} :
    s.Next i op ↔ ∃ kind rest, s.threads[i]? = some ⟨kind, op :: rest⟩ := by
  rw [State.Next, Option.bind_eq_some_iff]
  constructor
  · rintro ⟨⟨kind, code⟩, hi, hop⟩
    obtain ⟨rest, rfl⟩ := List.head?_eq_some_iff.mp hop
    exact ⟨kind, rest, hi⟩
  · rintro ⟨kind, rest, hi⟩
    exact ⟨_, hi, rfl⟩

/-- The destructor is safe in a state and at a step: at most one task is unfinished, and none
is when the client is freed. -/
def TeardownSafe (s : State) : Label → Prop
  | .step i _ => OneTask s ∧ (s.Next i .free → ∀ j, ¬ s.Unfinished j)
  | _ => OneTask s

/-- A `start()` that creates a task does so when no other is unfinished. -/
def StartsAlone (s : State) : Label → Prop
  | .step i o => s.Next i .createTask → s.client.startable = true → o = .ok →
    ∀ j, ¬ s.Unfinished j
  | _ => True

/-- The client is freed when the tasks created after the last completed wait are finished, and all
of them where no wait has been completed. -/
def FreesAlone (s : State) : Label → Prop
  | .step i _ => s.Next i .free → ∀ j, s.client.awaited ≤ j → ¬ s.Unfinished j
  | _ => True

/-- When a wait ends on the STOPPED bit, every task that is unfinished then has already cleared
it. -/
def SeesOwnStop (s : State) : Label → Prop
  | .step i _ => s.Next i .waitStopped → ∀ th ∈ s.threads, th.unfinished = true →
    .clearStopped ∉ th.code
  | _ => True

/-! ## The code of the tasks -/

/-- The tasks of the client end with a statement that has to be the last, and no other task
has one. -/
structure WellCoded (s : State) : Prop where
  tasks : ∀ (i : Nat) (th : Thread), s.threads[i]? = some th → th.kind = .mqttTask →
    complete th.code = true
  callers : ∀ (i : Nat) (th : Thread), s.threads[i]? = some th → th.kind ≠ .mqttTask →
    Open th.code

theorem open_call (call : Call) : Open call.code := by
  cases call <;> decide

theorem Open.append {code rest : List Op} (h : Open code) (h' : Open rest) :
    Open (code ++ rest) := by
  intro op hop
  rcases List.mem_append.mp hop with hop | hop
  · exact h op hop
  · exact h' op hop

/-- The code after a statement is as well formed as before. -/
private theorem wellCoded_exec {c c' : Shared} {n i : Nat} {o : Outcome} {op : Op}
    {rest code : List Op} {created : List Thread}
    (hx : exec c n i o op = some (c', code, created)) :
    (complete (op :: rest) = true → complete (code ++ rest) = true) ∧
      (Open (op :: rest) → Open (code ++ rest)) := by
  obtain ⟨hlast, hopen, -⟩ := exec_code hx
  constructor
  · intro h
    cases hop : op.last with
    | true =>
      rw [rest_eq_nil h hop, List.append_nil]
      exact hlast hop
    | false =>
      obtain ⟨hne, hrest⟩ := complete_rest h hop
      exact complete_append (hopen hop) hne hrest
  · intro h
    exact (hopen (h op List.mem_cons_self)).append fun x hx => h x (List.mem_cons_of_mem _ hx)

/-- Only the creation of a task creates one. -/
theorem exec_created {c c' : Shared} {n i : Nat} {o : Outcome} {op : Op} {code : List Op}
    {created : List Thread} (hx : exec c n i o op = some (c', code, created)) :
    created = [] ∨ op = .createTask ∧ c.startable = true ∧ o = .ok ∧
      created = [⟨.mqttTask, espMqttTask⟩] := by
  cases op with
  | createTask =>
    simp only [exec] at hx
    split at hx
    case isTrue h =>
      cases hx
      exact .inr ⟨rfl, h.1, h.2, rfl⟩
    case isFalse =>
      cases hx
      exact .inl rfl
  | _ =>
    simp only [exec] at hx
    repeat' split at hx
    all_goals cases hx
    all_goals exact .inl rfl

/-- A task after a statement of task `i`: the one that moved, another, or a new one. -/
theorem getElem?_step_cases {threads : List Thread} {c c' : Shared} {n i j : Nat} {o : Outcome}
    {op : Op} {code : List Op} {created : List Thread} {new th : Thread}
    (hx : exec c n i o op = some (c', code, created))
    (h : (threads.set i new ++ created)[j]? = some th) :
    j = i ∧ th = new ∨ j ≠ i ∧ threads[j]? = some th ∨
      j = threads.length ∧ th = ⟨.mqttTask, espMqttTask⟩ ∧ op = .createTask ∧
        c.startable = true ∧ o = .ok := by
  rcases exec_created hx with rfl | ⟨hop, hstartable, ho, rfl⟩
  · rw [List.append_nil] at h
    exact (getElem?_set_cases h).imp_right .inl
  · rcases getElem?_append_cases h with h | ⟨hj, hth⟩
    · exact (getElem?_set_cases h).imp_right .inl
    · exact .inr (.inr ⟨by rwa [List.length_set] at hj, hth, hop, hstartable, ho⟩)

private theorem wellCoded_step {s t : State} {a : Label} (hs : WellCoded s)
    (h : step s a = some t) : WellCoded t := by
  cases step_spec h with
  | call call r hr =>
    obtain ⟨-, hthreads, -, -⟩ := begin_spec hr
    rw [hthreads]
    constructor
    · intro j th hj hk
      rcases getElem?_append_cases hj with hj | ⟨-, rfl⟩
      · exact hs.tasks j th hj hk
      · cases hk
    · intro j th hj hk
      rcases getElem?_append_cases hj with hj | ⟨-, rfl⟩
      · exact hs.callers j th hj hk
      · exact open_call call
  | callback i call kind rest r hi hc hr =>
    obtain ⟨-, hthreads, -, -⟩ := begin_spec hr
    rw [hthreads]
    constructor
    · intro j th hj hk
      rcases getElem?_set_cases hj with ⟨-, rfl⟩ | ⟨-, hj⟩
      · exact complete_append (open_call call) (by simp) (hs.tasks i _ hi hk)
      · exact hs.tasks j th hj hk
    · intro j th hj hk
      rcases getElem?_set_cases hj with ⟨-, rfl⟩ | ⟨-, hj⟩
      · exact (open_call call).append (hs.callers i _ hi hk)
      · exact hs.callers j th hj hk
  | step i o kind op rest client code created hi hx =>
    constructor
    · intro j th hj hk
      rcases getElem?_step_cases hx hj with ⟨-, rfl⟩ | ⟨-, hj⟩ | ⟨-, rfl, -⟩
      · exact (wellCoded_exec hx).1 (hs.tasks i _ hi hk)
      · exact hs.tasks j th hj hk
      · rfl
    · intro j th hj hk
      rcases getElem?_step_cases hx hj with ⟨-, rfl⟩ | ⟨-, hj⟩ | ⟨-, rfl, -⟩
      · exact (wellCoded_exec hx).2 (hs.callers i _ hi hk)
      · exact hs.callers j th hj hk
      · exact absurd rfl hk

theorem wellCoded_of_reachable {s : State} (h : machine.Reachable s) : WellCoded s := by
  apply h.invariant
  · constructor <;> simp [machine, State.constructed]
  · intro s a t _ hs ht
    exact wellCoded_step hs ht

/-! ## The invariant of a well used manager -/

/-- At most one task is unfinished; it has not yet cleared a STOPPED bit that is set; and the
tasks the destructor has waited for are finished. -/
structure Contained (s : State) : Prop where
  one : OneTask s
  stopped : s.client.stoppedBit = true → ∀ (i : Nat) (th : Thread), s.threads[i]? = some th →
    th.unfinished = true → .clearStopped ∈ th.code
  awaited : s.client.awaited ≤ s.threads.length ∧ ∀ i < s.client.awaited, ¬ s.Unfinished i

theorem unfinished_iff {th : Thread} :
    th.unfinished = true ↔ th.kind = .mqttTask ∧ th.code ≠ [] := by
  simp [Thread.unfinished]

/-- What a statement does to the STOPPED bit and to what the destructor has waited for. -/
private theorem exec_stopped {c c' : Shared} {n i : Nat} {o : Outcome} {op : Op}
    {code : List Op} {created : List Thread}
    (hx : exec c n i o op = some (c', code, created)) :
    (c'.stoppedBit = true → op = .setStopped ∨ c.stoppedBit = true ∧ op ≠ .clearStopped) ∧
      (c'.awaited = c.awaited ∨ op = .waitStopped ∧ c.stoppedBit = true ∧ c'.awaited = n) := by
  cases op with
  | setStopped =>
    cases hx
    exact ⟨fun _ => .inl rfl, .inl rfl⟩
  | clearStopped =>
    cases hx
    exact ⟨fun h => by simp at h, .inl rfl⟩
  | waitStopped =>
    simp only [exec] at hx
    split at hx
    case isTrue h =>
      cases hx
      exact ⟨fun _ => .inr ⟨h, by simp⟩, .inr ⟨rfl, h, rfl⟩⟩
    case isFalse => cases hx
  | _ =>
    simp only [exec] at hx
    repeat' split at hx
    all_goals cases hx
    all_goals exact ⟨fun h => .inr ⟨h, by simp⟩, .inl rfl⟩

/-- Who is unfinished after a statement: a task that was before, or one that it created. -/
private theorem unfinished_step {s : State} {i j : Nat} {o : Outcome} {kind : Kind} {op : Op}
    {rest code : List Op} {client : Shared} {created : List Thread}
    (hi : s.threads[i]? = some ⟨kind, op :: rest⟩)
    (hx : exec s.client s.threads.length i o op = some (client, code, created))
    (h : { s with client, threads := s.threads.set i ⟨kind, code ++ rest⟩ ++ created }.Unfinished
      j) :
    s.Unfinished j ∨
      j = s.threads.length ∧ op = .createTask ∧ s.client.startable = true ∧ o = .ok := by
  obtain ⟨th, hj, hth⟩ := h
  rcases getElem?_step_cases hx hj with ⟨rfl, rfl⟩ | ⟨-, hj⟩ | ⟨hlen, -, hcreate⟩
  · exact .inl ⟨_, hi, unfinished_iff.mpr ⟨(unfinished_iff.mp hth).1, by simp⟩⟩
  · exact .inl ⟨th, hj, hth⟩
  · exact .inr ⟨hlen, hcreate⟩

/-- A call keeps the tasks that were unfinished, and makes none. -/
private theorem Contained.of_older {s t : State} (hs : Contained s)
    (hbit : t.client.stoppedBit = s.client.stoppedBit)
    (hawaited : t.client.awaited = s.client.awaited)
    (hlength : s.threads.length ≤ t.threads.length)
    (hold : ∀ (j : Nat) (th : Thread), t.threads[j]? = some th → th.unfinished = true →
      ∃ th₀, s.threads[j]? = some th₀ ∧ th₀.unfinished = true ∧
        (.clearStopped ∈ th₀.code → .clearStopped ∈ th.code)) : Contained t := by
  have hunfinished : ∀ j, t.Unfinished j → s.Unfinished j := by
    rintro j ⟨th, hj, hth⟩
    obtain ⟨th₀, hj, hth₀, -⟩ := hold j th hj hth
    exact ⟨th₀, hj, hth₀⟩
  refine ⟨?_, ?_, ?_, ?_⟩
  · intro j k hj hk
    exact hs.one j k (hunfinished j hj) (hunfinished k hk)
  · intro hset j th hj hth
    obtain ⟨th₀, hj, hth₀, hmem⟩ := hold j th hj hth
    exact hmem (hs.stopped (hbit ▸ hset) j th₀ hj hth₀)
  · exact hawaited ▸ Nat.le_trans hs.awaited.1 hlength
  · intro j hlt hj
    exact hs.awaited.2 j (hawaited ▸ hlt) (hunfinished j hj)

private theorem contained_step {s t : State} {a : Label} (hw : WellCoded s) (hs : Contained s)
    (hstart : StartsAlone s a) (hstop : SeesOwnStop s a) (h : step s a = some t) :
    Contained t := by
  cases step_spec h with
  | call call r hr =>
    obtain ⟨hclient, hthreads, -, -⟩ := begin_spec hr
    rw [hclient, hthreads]
    refine hs.of_older rfl rfl (by simp) ?_
    intro j th hj hth
    rcases getElem?_append_cases hj with hj | ⟨-, rfl⟩
    · exact ⟨th, hj, hth, id⟩
    · simp [Thread.unfinished] at hth
  | callback i call kind rest r hi hc hr =>
    obtain ⟨hclient, hthreads, -, -⟩ := begin_spec hr
    rw [hclient, hthreads]
    refine hs.of_older rfl rfl (by simp) ?_
    intro j th hj hth
    rcases getElem?_set_cases hj with ⟨rfl, rfl⟩ | ⟨-, hj⟩
    · refine ⟨_, hi, unfinished_iff.mpr ⟨(unfinished_iff.mp hth).1, by simp⟩, ?_⟩
      intro hmem
      exact List.mem_append_right _ hmem
    · exact ⟨th, hj, hth, id⟩
  | step i o kind op rest client code created hi hx =>
    have halone : op = .createTask → s.client.startable = true → o = .ok →
        ∀ j, ¬ s.Unfinished j := by
      rintro rfl
      exact hstart (next_iff.mpr ⟨kind, rest, hi⟩)
    obtain ⟨hbit, hawaited⟩ := exec_stopped hx
    refine ⟨?_, ?_, ?_⟩
    · intro j k hj hk
      rcases unfinished_step hi hx hj with hj | ⟨hjlen, hcreate⟩
      · rcases unfinished_step hi hx hk with hk | ⟨-, hcreate⟩
        · exact hs.one j k hj hk
        · exact absurd hj (halone hcreate.1 hcreate.2.1 hcreate.2.2 j)
      · rcases unfinished_step hi hx hk with hk | ⟨hklen, -⟩
        · exact absurd hk (halone hcreate.1 hcreate.2.1 hcreate.2.2 k)
        · rw [hjlen, hklen]
    · intro hset j th hj hth
      have hself : (⟨kind, code ++ rest⟩ : Thread).unfinished = true → s.Unfinished i := by
        intro h
        exact ⟨_, hi, unfinished_iff.mpr ⟨(unfinished_iff.mp h).1, by simp⟩⟩
      rcases hbit hset with rfl | ⟨hbefore, hop⟩
      · -- The task that sets the bit is over, and there is no other.
        have hk : kind = .mqttTask := by
          by_contra hk
          exact absurd (hw.callers i _ hi hk .setStopped List.mem_cons_self) (by decide)
        have hrest := rest_eq_nil (hw.tasks i _ hi hk) rfl
        have hi' : s.Unfinished i := ⟨_, hi, unfinished_iff.mpr ⟨hk, by simp⟩⟩
        cases hx
        rcases getElem?_set_cases (by simpa using hj) with ⟨-, rfl⟩ | ⟨hne, hj⟩
        · simp [Thread.unfinished, hrest] at hth
        · exact absurd (hs.one j i ⟨th, hj, hth⟩ hi') hne
      · rcases getElem?_step_cases hx hj with ⟨rfl, rfl⟩ | ⟨-, hj⟩ | ⟨-, rfl, -⟩
        · have hmem := hs.stopped hbefore j _ hi
            (unfinished_iff.mpr ⟨(unfinished_iff.mp hth).1, by simp⟩)
          rcases List.mem_cons.mp hmem with he | hmem
          · exact absurd he.symm hop
          · exact List.mem_append_right _ hmem
        · exact hs.stopped hbefore j th hj hth
        · decide
    · have hlength : s.threads.length ≤
          (s.threads.set i ⟨kind, code ++ rest⟩ ++ created).length := by simp
      rcases hawaited with hsame | ⟨rfl, hset, hall⟩
      · rw [hsame]
        refine ⟨Nat.le_trans hs.awaited.1 hlength, ?_⟩
        intro j hlt hj
        rcases unfinished_step hi hx hj with hj | ⟨rfl, -⟩
        · exact hs.awaited.2 j hlt hj
        · exact absurd hlt (Nat.not_lt.mpr hs.awaited.1)
      · rw [hall]
        refine ⟨hlength, ?_⟩
        intro j _ hj
        rcases unfinished_step hi hx hj with ⟨th, hj, hth⟩ | ⟨-, hcreate, -⟩
        · exact hstop (next_iff.mpr ⟨kind, rest, hi⟩) th (List.mem_of_getElem? hj) hth
            (hs.stopped hset j th hj hth)
        · cases hcreate

private theorem contained_of_stepsMeet {as : List Label} {s : State}
    (hq : machine.StepsMeet (fun s a => StartsAlone s a ∧ SeesOwnStop s a) machine.init as)
    (h : machine.exec machine.init as = some s) : Contained s := by
  have hboth : WellCoded s ∧ Contained s :=
    Machine.exec_invariant_of_stepsMeet (P := fun s => WellCoded s ∧ Contained s)
      (fun _ _ _ hs hq ht =>
        ⟨wellCoded_step hs.1 ht, contained_step hs.1 hs.2 hq.1 hq.2 ht⟩)
      ⟨wellCoded_of_reachable machine.reachable_init, by
        constructor <;> simp [OneTask, State.Unfinished, machine, State.constructed]⟩ hq h
  exact hboth.2

/-- A `start()` that finds another task unfinished makes two of them. -/
private theorem not_oneTask {s t : State} {a : Label} (hw : WellCoded s)
    (h : step s a = some t) (ha : ¬ StartsAlone s a) : ¬ OneTask t := by
  cases step_spec h with
  | call call r hr => exact absurd trivial ha
  | callback i call kind rest r hi hc hr => exact absurd trivial ha
  | step i o kind op rest client code created hi hx =>
    simp only [StartsAlone, not_forall, not_not] at ha
    obtain ⟨hnext, hstartable, rfl, j, th, hj, hth⟩ := ha
    obtain ⟨kind', rest', hi'⟩ := next_iff.mp hnext
    cases hi.symm.trans hi'
    simp only [exec, hstartable, and_self, ite_true, Option.some.injEq, Prod.mk.injEq] at hx
    obtain ⟨rfl, rfl, rfl⟩ := hx
    intro hone
    have hlt := (List.getElem?_eq_some_iff.mp hj).1
    have hnew : State.Unfinished { s with
        client := { s.client with taskHandle := some s.threads.length }
        threads := s.threads.set i ⟨kind, [] ++ rest⟩ ++ [⟨.mqttTask, espMqttTask⟩] }
        s.threads.length := by
      refine ⟨⟨.mqttTask, espMqttTask⟩, ?_, rfl⟩
      rw [List.getElem?_append_right (by simp)]
      simp
    have hold : State.Unfinished { s with
        client := { s.client with taskHandle := some s.threads.length }
        threads := s.threads.set i ⟨kind, [] ++ rest⟩ ++ [⟨.mqttTask, espMqttTask⟩] } j := by
      by_cases hji : j = i
      · -- The task calls `start()` itself, from the callback.
        subst hji
        cases hi.symm.trans hj
        have hk := (unfinished_iff.mp hth).1
        have hrest := (complete_rest (hw.tasks j _ hi hk) rfl).1
        refine ⟨⟨kind, rest⟩, ?_, unfinished_iff.mpr ⟨hk, hrest⟩⟩
        rw [List.getElem?_append_left (by simpa using hlt), List.getElem?_set_self hlt]
        rfl
      · refine ⟨th, ?_, hth⟩
        rw [List.getElem?_append_left (by simpa using hlt),
          List.getElem?_set_ne (Ne.symm hji), hj]
    exact absurd (hone j _ hold hnew) (Nat.ne_of_lt hlt)

/-- Exactly when the destructor is safe. In a run in which the STOPPED bit that ends a wait is never
one that an unfinished task has still to clear, there is never more than one unfinished task of the
client and none when the client is freed, if and only if every `start()` that creates a task finds
the others finished and the client is freed with all tasks finished that were created after the
last completed wait. -/
theorem teardown_safe_iff {as : List Label} {s : State}
    (h : machine.exec machine.init as = some s)
    (hstop : machine.StepsMeet SeesOwnStop machine.init as) :
    (machine.StepsMeet TeardownSafe machine.init as ∧ OneTask s) ↔
      machine.StepsMeet (fun s a => StartsAlone s a ∧ FreesAlone s a) machine.init as := by
  induction as using List.reverseRecOn generalizing s with
  | nil =>
    cases h
    simp [OneTask, State.Unfinished, machine, State.constructed]
  | append_singleton as a ih =>
    obtain ⟨r, hr, hs⟩ := machine.exec_snoc_eq_some.mp h
    have hwell := wellCoded_of_reachable ⟨as, hr⟩
    obtain ⟨hstop', hlast⟩ := (Machine.stepsMeet_snoc_of_exec hr).mp hstop
    rw [Machine.stepsMeet_snoc_of_exec hr, Machine.stepsMeet_snoc_of_exec hr]
    constructor
    · rintro ⟨⟨hsafe, hsafe'⟩, hone⟩
      have hone' : OneTask r := by
        cases a with
        | call call => exact hsafe'
        | callback i call => exact hsafe'
        | step i o => exact hsafe'.1
      refine ⟨(ih hr hstop').mp ⟨hsafe, hone'⟩, ?_, ?_⟩
      · by_contra hstart
        exact not_oneTask hwell hs hstart hone
      · cases a with
        | call call => trivial
        | callback i call => trivial
        | step i o =>
          intro hfree j _
          exact hsafe'.2 hfree j
    · rintro ⟨hmeets, hstart, hfree⟩
      have hboth := Machine.stepsMeet_and
        (Machine.stepsMeet_mono (fun _ _ h => h.1) hmeets) hstop'
      have hr' := contained_of_stepsMeet hboth hr
      have hs' := contained_step hwell hr' hstart hlast hs
      refine ⟨⟨((ih hr hstop').mpr hmeets).1, ?_⟩, hs'.one⟩
      cases a with
      | call call => exact hr'.one
      | callback i call => exact hr'.one
      | step i o =>
        refine ⟨hr'.one, ?_⟩
        intro hnext j
        by_cases hlt : j < r.client.awaited
        · exact hr'.awaited.2 j hlt
        · exact hfree hnext j (Nat.not_lt.mp hlt)

instance (s : State) : ∀ a, Decidable (SeesOwnStop s a)
  | .step i _ => inferInstanceAs (Decidable ((s.threads[i]?.bind fun th => th.code.head?) =
      some .waitStopped → ∀ th ∈ s.threads, th.unfinished = true → .clearStopped ∉ th.code))
  | .call _ | .callback _ _ => isTrue trivial

/-- `start()` by task 0, which creates task 1. -/
def starting : List Label := .call .start :: running 0 3

/-- The client's task has begun its loop when task 2 destroys the manager. -/
def orderly : List Label :=
  starting ++ running 1 4 ++ .call .destroy :: running 2 5 ++ running 1 8 ++ running 2 3

theorem teardown_safe_iff_orderly :
    ∃ s, machine.exec machine.init orderly = some s ∧ s.client.allocated = false ∧
      ((machine.StepsMeet TeardownSafe machine.init orderly ∧ OneTask s) ↔
        machine.StepsMeet (fun s a => StartsAlone s a ∧ FreesAlone s a) machine.init orderly) :=
  ⟨_, rfl, rfl, teardown_safe_iff rfl (by decide)⟩

/-- The manager is destroyed before its task has run. -/
def early : List Label := starting ++ .call .destroy :: running 2 4

/-- The manager is destroyed by the callback. -/
def inCallback : List Label :=
  starting ++ running 1 17 ++ .callback 1 .destroy :: running 1 7

/-- A second `start()` before the first task has run. -/
def twice : List Label := starting ++ .call .start :: running 2 3

/-- Both early and from the callback the destructor is about to free the client of an
unfinished task, and a second `start()` leaves two of them. -/
theorem teardown_unsafe :
    (∃ s, machine.exec machine.init early = some s ∧ s.Next 2 .free ∧ s.Unfinished 1 ∧
      ¬ TeardownSafe s (.step 2 .ok)) ∧
    (∃ s, machine.exec machine.init inCallback = some s ∧ s.Next 1 .free ∧ s.Unfinished 1 ∧
      ¬ TeardownSafe s (.step 1 .ok)) ∧
    ∃ s, machine.exec machine.init twice = some s ∧ s.Unfinished 1 ∧ s.Unfinished 3 ∧
      ¬ OneTask s :=
  ⟨⟨_, rfl, rfl, ⟨_, rfl, rfl⟩, fun h => h.2 rfl 1 ⟨_, rfl, rfl⟩⟩,
    ⟨_, rfl, rfl, ⟨_, rfl, rfl⟩, fun h => h.2 rfl 1 ⟨_, rfl, rfl⟩⟩,
    ⟨_, rfl, ⟨_, rfl, rfl⟩, ⟨_, rfl, rfl⟩, fun h =>
      absurd (h 1 3 ⟨_, rfl, rfl⟩ ⟨_, rfl, rfl⟩) (by decide)⟩⟩

end IndustrialIot.Edge.Mqtt.Lifecycle
