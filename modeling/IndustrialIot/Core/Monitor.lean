import IndustrialIot.Core.Machine
import Mathlib.Data.Fintype.Basic
import Mathlib.Data.Fintype.Card
import Mathlib.Logic.Function.Basic

/-!
# Monitors with one mutex and one condition variable

Threads run operations on shared data under a mutex. An operation waits until
its guard holds, runs its body, notifies none, one or all of the waiters, and
unlocks. Waiting releases the mutex and joins the wait set in one step; a
notified or spuriously woken thread has to take the mutex again and to test its
guard again, so other threads may run in between.

The history lists the bodies in the order in which they ran. It is a ghost
field: no step reads it.
-/

namespace IndustrialIot

universe u v w x

/-- How many waiters an operation notifies before it unlocks. -/
inductive Signal where
  | none
  | one
  | all
  deriving DecidableEq, Repr

/-- The operations of a monitor, as sequential code on the data it protects. -/
structure Monitor (δ : Type u) (ω : Type v) (ρ : Type w) where
  /-- The predicate the operation waits for. -/
  guard : ω → δ → Bool
  /-- The reply and the new data, computed once the guard holds. -/
  body : ω → δ → ρ × δ
  /-- What the operation notifies. -/
  signal : ω → Signal

namespace Monitor

/-- Where a thread stands in its current operation. -/
inductive Pc (ω : Type v) (ρ : Type w) where
  /-- In no operation. -/
  | idle
  /-- Called, and contending for the mutex. -/
  | entering (o : ω)
  /-- Holds the mutex and is about to test the guard. -/
  | holding (o : ω)
  /-- In the wait set. -/
  | asleep (o : ω)
  /-- Out of the wait set, contending for the mutex, guard not yet tested again. -/
  | woken (o : ω)
  /-- Ran the body, holds the mutex and is about to notify. -/
  | notifying (o : ω) (r : ρ)
  /-- Notified, and about to unlock and return. -/
  | leaving (o : ω) (r : ρ)
  deriving DecidableEq, Repr

namespace Pc

variable {ω : Type v} {ρ : Type w}

/-- Is the thread in the wait set? -/
def isAsleep : Pc ω ρ → Bool
  | asleep _ => true
  | _ => false

/-- Is the thread woken with its guard not yet tested again? -/
def isWoken : Pc ω ρ → Bool
  | woken _ => true
  | _ => false

/-- Does the thread hold the mutex? -/
def inside : Pc ω ρ → Bool
  | holding _ | notifying _ _ | leaving _ _ => true
  | _ => false

/-- The operation of a thread that contends for the mutex. -/
def contending : Pc ω ρ → Option ω
  | entering o | woken o => some o
  | _ => none

/-- The operation the thread is in. -/
def op : Pc ω ρ → Option ω
  | idle => none
  | entering o | holding o | asleep o | woken o | notifying o _ | leaving o _ => some o

/-- What a broadcast does to one thread. -/
def rouse : Pc ω ρ → Pc ω ρ
  | asleep o => woken o
  | p => p

theorem isAsleep_rouse (p : Pc ω ρ) : p.rouse.isAsleep = false := by
  cases p <;> rfl

end Pc

/-- The data, the mutex, the threads and the ghost history. -/
structure State (τ : Type x) (δ : Type u) (ω : Type v) (ρ : Type w) where
  /-- The protected data. -/
  data : δ
  /-- The holder of the mutex. -/
  owner : Option τ
  /-- Every thread's place. -/
  pc : τ → Pc ω ρ
  /-- The bodies run so far with their replies. -/
  history : List (ω × ρ)

/-- A step of one thread. `notify` names the waiter a single notification takes. -/
inductive Action (τ : Type x) (ω : Type v) where
  | call (t : τ) (o : ω)
  | acquire (t : τ)
  | test (t : τ)
  | notify (t : τ) (u : Option τ)
  | release (t : τ)
  | spurious (t : τ)
  deriving DecidableEq, Repr

variable {τ : Type x} {δ : Type u} {ω : Type v} {ρ : Type w}
variable [DecidableEq τ] [Fintype τ]

/-- Move waiters out of the wait set. A single notification takes any one of
them and is lost only when there is none. -/
def wake : Signal → Option τ → (τ → Pc ω ρ) → Option (τ → Pc ω ρ)
  | .none, none, pc => some pc
  | .one, some u, pc =>
    match pc u with
    | .asleep o => some (Function.update pc u (.woken o))
    | _ => none
  | .one, none, pc => if ∀ u, (pc u).isAsleep = false then some pc else none
  | .all, none, pc => some fun u => (pc u).rouse
  | _, _, _ => none

variable (M : Monitor δ ω ρ)

/-- One step of one thread, present exactly when the thread can take it. -/
def step (s : State τ δ ω ρ) : Action τ ω → Option (State τ δ ω ρ)
  | .call t o =>
    match s.pc t with
    | .idle => some { s with pc := Function.update s.pc t (.entering o) }
    | _ => none
  | .acquire t =>
    match s.owner, (s.pc t).contending with
    | none, some o =>
      some { s with owner := some t, pc := Function.update s.pc t (.holding o) }
    | _, _ => none
  | .test t =>
    match s.pc t with
    | .holding o =>
      if M.guard o s.data then
        some { s with
          data := (M.body o s.data).2
          pc := Function.update s.pc t (.notifying o (M.body o s.data).1)
          history := s.history ++ [(o, (M.body o s.data).1)] }
      else
        -- Releasing the mutex and joining the wait set is one step.
        some { s with owner := none, pc := Function.update s.pc t (.asleep o) }
    | _ => none
  | .notify t u =>
    match s.pc t with
    | .notifying o r =>
      (wake (M.signal o) u s.pc).map fun pc =>
        { s with pc := Function.update pc t (.leaving o r) }
    | _ => none
  | .release t =>
    match s.pc t with
    | .leaving _ _ => some { s with owner := none, pc := Function.update s.pc t .idle }
    | _ => none
  | .spurious t =>
    match s.pc t with
    | .asleep o => some { s with pc := Function.update s.pc t (.woken o) }
    | _ => none

/-- The monitor with every thread outside and nothing run. -/
def start (d : δ) : State τ δ ω ρ := ⟨d, none, fun _ => .idle, []⟩

/-- All interleavings of a set of threads on the monitor. -/
def machine (τ : Type x) [DecidableEq τ] [Fintype τ] (d : δ) :
    Machine (State τ δ ω ρ) (Action τ ω) :=
  ⟨start d, M.step⟩

/-- What one step does, one constructor for each branch of `step`. -/
inductive Step (s : State τ δ ω ρ) : Action τ ω → State τ δ ω ρ → Prop
  | call (t o) (h : s.pc t = .idle) :
      Step s (.call t o) { s with pc := Function.update s.pc t (.entering o) }
  | acquire (t o) (hfree : s.owner = none) (h : (s.pc t).contending = some o) :
      Step s (.acquire t)
        { s with owner := some t, pc := Function.update s.pc t (.holding o) }
  | run (t o) (h : s.pc t = .holding o) (hg : M.guard o s.data = true) :
      Step s (.test t)
        { s with
          data := (M.body o s.data).2
          pc := Function.update s.pc t (.notifying o (M.body o s.data).1)
          history := s.history ++ [(o, (M.body o s.data).1)] }
  | sleep (t o) (h : s.pc t = .holding o) (hg : M.guard o s.data = false) :
      Step s (.test t) { s with owner := none, pc := Function.update s.pc t (.asleep o) }
  | notify (t u o r pc) (h : s.pc t = .notifying o r) (hw : wake (M.signal o) u s.pc = some pc) :
      Step s (.notify t u) { s with pc := Function.update pc t (.leaving o r) }
  | release (t o r) (h : s.pc t = .leaving o r) :
      Step s (.release t) { s with owner := none, pc := Function.update s.pc t .idle }
  | spurious (t o) (h : s.pc t = .asleep o) :
      Step s (.spurious t) { s with pc := Function.update s.pc t (.woken o) }

/-- Every enabled step is one of the listed ones. -/
theorem step_spec {s s' : State τ δ ω ρ} {a : Action τ ω} (h : M.step s a = some s') :
    M.Step s a s' := by
  cases a with
  | call t o =>
    simp only [step] at h
    cases hp : s.pc t <;> simp only [hp, reduceCtorEq, Option.some.injEq] at h
    exact h ▸ .call t o hp
  | acquire t =>
    simp only [step] at h
    cases ho : s.owner with
    | some u => simp [ho] at h
    | none =>
      cases hc : (s.pc t).contending with
      | none => simp [ho, hc] at h
      | some o =>
        simp only [ho, hc, Option.some.injEq] at h
        exact h ▸ .acquire t o ho hc
  | test t =>
    simp only [step] at h
    cases hp : s.pc t <;> simp only [hp, reduceCtorEq] at h
    rename_i o
    cases hg : M.guard o s.data with
    | true =>
      simp only [hg, ite_true, Option.some.injEq] at h
      exact h ▸ .run t o hp hg
    | false =>
      simp only [hg, Bool.false_eq_true, ite_false, Option.some.injEq] at h
      exact h ▸ .sleep t o hp hg
  | notify t u =>
    simp only [step] at h
    cases hp : s.pc t <;> simp only [hp, reduceCtorEq] at h
    rename_i o r
    obtain ⟨pc, hw, rfl⟩ := Option.map_eq_some_iff.mp h
    exact .notify t u o r pc hp hw
  | release t =>
    simp only [step] at h
    cases hp : s.pc t <;> simp only [hp, reduceCtorEq, Option.some.injEq] at h
    rename_i o r
    exact h ▸ .release t o r hp
  | spurious t =>
    simp only [step] at h
    cases hp : s.pc t <;> simp only [hp, reduceCtorEq, Option.some.injEq] at h
    rename_i o
    exact h ▸ .spurious t o hp

/-! ## What a notification does -/

/-- A notification changes a thread at most by waking it. -/
theorem wake_eq_or {g : Signal} {u : Option τ} {pc pc' : τ → Pc ω ρ}
    (h : wake g u pc = some pc') (t : τ) :
    pc' t = pc t ∨ ∃ o, pc t = .asleep o ∧ pc' t = .woken o := by
  cases g with
  | none =>
    cases u <;> simp only [wake, Option.some.injEq, reduceCtorEq] at h
    exact Or.inl (h ▸ rfl)
  | one =>
    cases u with
    | none =>
      simp only [wake, Option.ite_none_right_eq_some, Option.some.injEq] at h
      exact Or.inl (h.2 ▸ rfl)
    | some u =>
      simp only [wake] at h
      cases hp : pc u <;> simp only [hp, reduceCtorEq, Option.some.injEq] at h
      rename_i o
      subst h
      by_cases ht : t = u
      · subst ht
        exact Or.inr ⟨o, hp, Function.update_self ..⟩
      · exact Or.inl (Function.update_of_ne ht ..)
  | all =>
    cases u <;> simp only [wake, Option.some.injEq, reduceCtorEq] at h
    subst h
    cases hp : pc t with
    | asleep o => exact Or.inr ⟨o, rfl, by simp only [hp, Pc.rouse]⟩
    | _ => exact Or.inl (by simp only [hp, Pc.rouse])

/-- A thread that is not in the wait set is not touched. -/
theorem wake_of_not_asleep {g : Signal} {u : Option τ} {pc pc' : τ → Pc ω ρ}
    (h : wake g u pc = some pc') {t : τ} (ht : (pc t).isAsleep = false) : pc' t = pc t := by
  rcases wake_eq_or h t with he | ⟨o, ho, _⟩
  · exact he
  · simp [ho, Pc.isAsleep] at ht

/-- Waking takes no mutex. -/
theorem inside_wake {g : Signal} {u : Option τ} {pc pc' : τ → Pc ω ρ}
    (h : wake g u pc = some pc') (t : τ) : (pc' t).inside = (pc t).inside := by
  rcases wake_eq_or h t with he | ⟨o, ho, hw⟩
  · rw [he]
  · rw [ho, hw]
    rfl

/-! ## Mutual exclusion -/

/-- The mutex is held by exactly the threads that stand inside. -/
def Exclusive (s : State τ δ ω ρ) : Prop :=
  ∀ t, s.owner = some t ↔ (s.pc t).inside = true

omit [Fintype τ] in
private theorem exclusive_enter {s : State τ δ ω ρ} (hs : Exclusive s) (hfree : s.owner = none)
    (t : τ) {p : Pc ω ρ} (hp : p.inside = true) (u : τ) :
    some t = some u ↔ (Function.update s.pc t p u).inside = true := by
  by_cases hu : u = t
  · subst hu
    simp [hp]
  · have hout : (s.pc u).inside = true ↔ False := by simp [← hs u, hfree]
    rw [Function.update_of_ne hu, hout]
    simp [Ne.symm hu]

omit [Fintype τ] in
private theorem exclusive_keep {s : State τ δ ω ρ} (hs : Exclusive s) {t : τ} {p : Pc ω ρ}
    (hp : p.inside = (s.pc t).inside) (u : τ) :
    s.owner = some u ↔ (Function.update s.pc t p u).inside = true := by
  by_cases hu : u = t
  · subst hu
    simpa [hp] using hs u
  · simpa [Function.update_of_ne hu] using hs u

omit [Fintype τ] in
private theorem exclusive_leave {s : State τ δ ω ρ} (hs : Exclusive s) {t : τ} {p : Pc ω ρ}
    (ht : (s.pc t).inside = true) (hp : p.inside = false) (u : τ) :
    none = some u ↔ (Function.update s.pc t p u).inside = true := by
  by_cases hu : u = t
  · subst hu
    simp [hp]
  · have hown := (hs t).mpr ht
    have hout : (s.pc u).inside = true ↔ False := by simp [← hs u, hown, Ne.symm hu]
    rw [Function.update_of_ne hu, hout]
    simp

theorem Exclusive.step {s s' : State τ δ ω ρ} {a : Action τ ω} (hs : Exclusive s)
    (h : M.step s a = some s') : Exclusive s' := by
  intro u
  cases M.step_spec h with
  | call t o hp => exact exclusive_keep hs (by simp [hp, Pc.inside]) u
  | acquire t o hfree hc => exact exclusive_enter hs hfree t rfl u
  | run t o hp hg => exact exclusive_keep hs (by simp [hp, Pc.inside]) u
  | sleep t o hp hg => exact exclusive_leave hs (by simp [hp, Pc.inside]) rfl u
  | notify t v o r pc hp hw =>
    have hpc : Exclusive { s with pc := pc } := fun y => by
      rw [inside_wake hw y]
      exact hs y
    have ht : pc t = .notifying o r := by
      rw [wake_of_not_asleep hw (by simp [hp, Pc.isAsleep]), hp]
    exact exclusive_keep hpc (by simp [ht, Pc.inside]) u
  | release t o r hp => exact exclusive_leave hs (by simp [hp, Pc.inside]) rfl u
  | spurious t o hp => exact exclusive_keep hs (by simp [hp, Pc.inside]) u

/-- At most one thread is ever inside. -/
theorem exclusive_of_reachable {d : δ} {s : State τ δ ω ρ}
    (h : (M.machine τ d).Reachable s) : Exclusive s := by
  apply h.invariant
  · intro t
    simp [machine, start, Pc.inside]
  · intro s a t _ hs ht
    exact hs.step M ht

/-! ## Linearization -/

/-- Running the bodies of the history one after another, each under its guard,
produces the listed replies and the given data. -/
inductive Sequential (d : δ) : List (ω × ρ) → δ → Prop
  | nil : Sequential d [] d
  | snoc {hist e o} : Sequential d hist e → M.guard o e = true →
      Sequential d (hist ++ [(o, (M.body o e).1)]) (M.body o e).2

/-- Every interleaving is equivalent to its history run sequentially. -/
theorem sequential_of_reachable {d : δ} {s : State τ δ ω ρ}
    (h : (M.machine τ d).Reachable s) : M.Sequential d s.history s.data := by
  apply h.invariant (P := fun s => M.Sequential d s.history s.data)
  · exact .nil
  · intro s a t _ hs ht
    cases M.step_spec ht with
    | run u o hp hg => exact .snoc hs hg
    | _ => exact hs

/-! ## Whole critical sections -/

/-- A contender that finds the mutex free and its guard true runs through to the unlock. -/
theorem exec_critical {d : δ} {s : State τ δ ω ρ} {t : τ} {o : ω} {w : Option τ}
    {pc : τ → Pc ω ρ} (hfree : s.owner = none) (hc : (s.pc t).contending = some o)
    (hg : M.guard o s.data = true)
    (hw : wake (M.signal o) w
      (Function.update s.pc t (.notifying o (M.body o s.data).1)) = some pc) :
    (M.machine τ d).exec s [.acquire t, .test t, .notify t w, .release t] =
      some ⟨(M.body o s.data).2, none, Function.update pc t .idle,
        s.history ++ [(o, (M.body o s.data).1)]⟩ := by
  simp [Machine.exec_cons, machine, step, hfree, hc, hg, hw]

/-- A contender that finds its guard false joins the wait set. -/
theorem exec_critical_sleep {d : δ} {s : State τ δ ω ρ} {t : τ} {o : ω}
    (hfree : s.owner = none) (hc : (s.pc t).contending = some o)
    (hg : M.guard o s.data = false) :
    (M.machine τ d).exec s [.acquire t, .test t] =
      some { s with pc := Function.update s.pc t (.asleep o) } := by
  simp [Machine.exec_cons, machine, step, hfree, hc, hg]

/-- A call followed by further steps of the machine. -/
theorem exec_call {d : δ} {s : State τ δ ω ρ} {t : τ} (o : ω) (as : List (Action τ ω))
    (hp : s.pc t = .idle) :
    (M.machine τ d).exec s (.call t o :: as) =
      (M.machine τ d).exec { s with pc := Function.update s.pc t (.entering o) } as := by
  simp [Machine.exec_cons, machine, step, hp]

end Monitor

end IndustrialIot
