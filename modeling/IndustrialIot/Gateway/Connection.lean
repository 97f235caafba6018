import IndustrialIot.Gateway.Shutdown

/-!
# Losing the broker without noticing

`connect` turns every exception into `false`, `main` has no branch for `false`,
the token of `subscribe` is never waited for, and `connection_lost` only logs.
The process keeps running after each of these, and it never calls
`client_->connect` a second time. So it is deaf from the first failure on, and
only from then on.
-/

namespace IndustrialIot.Gateway.Service

/-- `main` has not yet got its result from the only connect and subscribe calls. -/
def MainPc.beforeResult : MainPc → Bool
  | installSigint | installSigterm | startWorker | constructClient | connect | awaitConnack
  | subscribe => true
  | _ => false

/-- The initial exchange with the broker is under way. -/
def Outstanding (s : State) : Prop :=
  s.main.beforeResult = true ∨
    (s.client.connected = true ∧ s.client.subscription = .requested)

/-- Telemetry reaches the client. -/
def Subscribed (s : State) : Prop :=
  s.client.connected = true ∧ s.client.subscription = .granted

/-- Some enabled step calls `client_->connect`. -/
def Retries (s : State) : Prop := ∃ a t, step s a = some t ∧ s.connects < t.connects

/-- Telemetry arrives, or may still arrive. -/
def Listening (s : State) : Prop := Outstanding s ∨ Subscribed s ∨ Retries s

/-- The condition on one step: neither of the two calls throws, the SUBSCRIBE is
not refused, and the connection is not lost after the SUBSCRIBE is sent. A loss
before it shows as the exception of `subscribe`. -/
def NoFailure (s : State) : Action → Prop
  | .main ok => s.main = .awaitConnack ∨ s.main = .subscribe → ok = true
  | .suback granted => granted = true
  | .connectionLost => s.main = .subscribe
  | _ => True

/-- `main` is past its two calls, without a subscription that is granted or pending. -/
def Deaf (s : State) : Prop := ¬ Outstanding s ∧ ¬ Subscribed s

/-- `connect` is called from one place, which no path of `main` comes back to. -/
theorem main_of_connects_lt {s t : State} {a : Action} (h : step s a = some t)
    (hc : s.connects < t.connects) : s.main = .connect := by
  cases step_spec h with
  | connect ok hm => exact hm
  | _ => exact absurd hc (Nat.lt_irrefl _)

/-- Nothing makes a deaf process listen again. -/
theorem listening_iff_not_deaf (s : State) : Listening s ↔ ¬ Deaf s := by
  constructor
  · rintro (ho | hs | ⟨a, t, ht, hc⟩) ⟨hno, hns⟩
    · exact hno ho
    · exact hns hs
    · exact hno (Or.inl (by rw [main_of_connects_lt ht hc]; rfl))
  · intro hd
    by_cases ho : Outstanding s
    · exact Or.inl ho
    · by_cases hs : Subscribed s
      · exact Or.inr (Or.inl hs)
      · exact absurd ⟨ho, hs⟩ hd

/-- Before `main` has its result nothing is subscribed, and the client is connected
only between its two calls. -/
structure Connecting (s : State) : Prop where
  unsent : s.main.beforeResult = true → s.client.subscription = .unsent
  between : s.main.beforeResult = true → s.client.connected = true → s.main = .subscribe

theorem connecting_of_reachable {s : State} (h : machine.Reachable s) : Connecting s := by
  apply h.invariant
  · exact ⟨fun _ => rfl, fun _ hc => by simp [machine, start] at hc⟩
  · intro s a t _ hs ht
    obtain ⟨hunsent, hbetween⟩ := hs
    cases step_spec ht with
    | suback granted hc hr =>
      exact ⟨fun hm => by simp [hunsent hm] at hr, fun hm _ => hbetween hm hc⟩
    | connectionLost hc => exact ⟨hunsent, fun _ hc => by simp at hc⟩
    | signal | again | leave | popItem | popNone | wait | parse | exit | spurious
    | messageArrived => exact ⟨hunsent, hbetween⟩
    | _ => constructor <;> simp_all [MainPc.beforeResult]

/-- A step makes the process deaf exactly when it fails. -/
private theorem deaf_step {s t : State} {a : Action} (hs : Connecting s)
    (h : step s a = some t) (hm : t.main ≠ .returned) :
    Deaf t ↔ Deaf s ∨ ¬ NoFailure s a := by
  obtain ⟨hunsent, hbetween⟩ := hs
  cases step_spec h with
  | connackFailed hw =>
    have hu := hunsent (by rw [hw]; rfl)
    simp [Deaf, Outstanding, Subscribed, NoFailure, MainPc.beforeResult, hw, hu]
  | subscribeFailed hw =>
    have hu := hunsent (by rw [hw]; rfl)
    simp [Deaf, Outstanding, Subscribed, NoFailure, MainPc.beforeResult, hw, hu]
  | suback granted hc hr =>
    have hb : s.main.beforeResult = false := by
      cases hb : s.main.beforeResult with
      | false => rfl
      | true => simp [hunsent hb] at hr
    cases granted <;> simp [Deaf, Outstanding, Subscribed, NoFailure, hc, hr, hb]
  | connectionLost hc =>
    cases hb : s.main.beforeResult with
    | false =>
      have hw : s.main ≠ .subscribe := fun hw => by simp [hw, MainPc.beforeResult] at hb
      simp [Deaf, Outstanding, Subscribed, NoFailure, hb, hw]
    | true =>
      have hw := hbetween hb hc
      simp [Deaf, Outstanding, Subscribed, NoFailure, MainPc.beforeResult, hw]
  | disconnect ok hw => simp at hm
  | _ => simp_all [Deaf, Outstanding, Subscribed, NoFailure, MainPc.beforeResult]

/-- A run leaves the process listening exactly when no step of it failed. -/
theorem stepsMeet_noFailure_iff {as : List Action} {s : State}
    (h : machine.exec machine.init as = some s) (hm : s.main ≠ .returned) :
    machine.StepsMeet NoFailure machine.init as ↔ ¬ Deaf s := by
  induction as using List.reverseRecOn generalizing s with
  | nil =>
    cases h
    simp [Deaf, Outstanding, machine, start, MainPc.beforeResult]
  | append_singleton as a ih =>
    obtain ⟨r, hr, hs⟩ := machine.exec_snoc_eq_some.mp h
    have hm' : r.main ≠ .returned := fun hret => by
      have : s.main = .returned := by
        cases step_spec hs <;> simp_all
      exact hm this
    rw [Machine.stepsMeet_snoc_of_exec hr, ih hr hm',
      deaf_step (connecting_of_reachable ⟨as, hr⟩) hs hm, not_or, not_not]

/-- Exactly when the running daemon is not deaf: in every run, a state in which
`running` is set has an exchange under way, a granted subscription or a retry
ahead if and only if no earlier step was a refused, failed or lost connection,
a failed subscribe or a refused subscription. -/
theorem listening_iff {as : List Action} {s : State}
    (h : machine.exec machine.init as = some s) (hr : s.running = true) :
    Listening s ↔ machine.StepsMeet NoFailure machine.init as := by
  have hm : s.main ≠ .returned := fun hm => by
    have := (ordered_of_reachable ⟨as, h⟩).pastLoop (by rw [hm]; rfl)
    simp [hr] at this
  rw [listening_iff_not_deaf, stepsMeet_noFailure_iff h hm]

theorem listening_iff_connecting :
    ∃ s, machine.exec machine.init connecting = some s ∧
      s.client = ⟨true, .granted⟩ ∧
      (Listening s ↔ machine.StepsMeet NoFailure machine.init connecting) :=
  ⟨_, rfl, rfl, listening_iff rfl rfl⟩

/-- The broker refuses the connection of the starting daemon. -/
def refused : List Action :=
  [.main true, .main true, .main true, .main true, .main true, .main false]

/-- The refused daemon goes on with its idle loop, connected to nothing. -/
theorem refused_not_listening :
    ∃ s, machine.exec machine.init refused = some s ∧ s.running = true ∧
      s.main = .testRunning ∧ ¬ Listening s := by
  refine ⟨_, rfl, rfl, rfl, ?_⟩
  rw [listening_iff_not_deaf, not_not]
  exact ⟨by simp [Outstanding, MainPc.beforeResult, machine, start],
    by simp [Subscribed, machine, start]⟩

end IndustrialIot.Gateway.Service
