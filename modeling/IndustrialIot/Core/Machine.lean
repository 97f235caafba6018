import Mathlib.Data.List.Basic

/-!
# Labelled machines and their runs

A label resolves every choice of a step, so a machine is a partial function of
state and label and a run is a list of labels. Schedulers, message loss and the
outcome of an outside call are all labels; a theorem about every label list is
a theorem about every interleaving.
-/

namespace IndustrialIot

universe u v w x

/-- A start state and the partial successor function of its labelled steps. -/
structure Machine (σ : Type u) (α : Type v) where
  /-- The state before the first step. -/
  init : σ
  /-- The successor under a label, absent when that label is not enabled. -/
  step : σ → α → Option σ

namespace Machine

variable {σ : Type u} {α : Type v} (M : Machine σ α)

/-- Take the labels in order, failing at the first label that is not enabled. -/
def exec : σ → List α → Option σ
  | s, [] => some s
  | s, a :: as => (M.step s a).bind fun t => exec t as

@[simp] theorem exec_nil (s : σ) : M.exec s [] = some s := rfl

theorem exec_cons (s : σ) (a : α) (as : List α) :
    M.exec s (a :: as) = (M.step s a).bind fun t => M.exec t as := rfl

theorem exec_cons_eq_some {s t : σ} {a : α} {as : List α} :
    M.exec s (a :: as) = some t ↔ ∃ r, M.step s a = some r ∧ M.exec r as = some t := by
  rw [exec_cons, Option.bind_eq_some_iff]

theorem exec_append (s : σ) (as bs : List α) :
    M.exec s (as ++ bs) = (M.exec s as).bind fun t => M.exec t bs := by
  induction as generalizing s with
  | nil => rfl
  | cons a as ih =>
    rw [List.cons_append, exec_cons, exec_cons]
    cases M.step s a with
    | none => rfl
    | some r => exact ih r

theorem exec_append_eq_some {s t : σ} {as bs : List α} :
    M.exec s (as ++ bs) = some t ↔ ∃ r, M.exec s as = some r ∧ M.exec r bs = some t := by
  rw [exec_append, Option.bind_eq_some_iff]

theorem exec_singleton (s : σ) (a : α) : M.exec s [a] = M.step s a := by
  rw [exec_cons]
  cases M.step s a <;> rfl

/-- Expose the last step of a run. -/
theorem exec_snoc_eq_some {s t : σ} {as : List α} {a : α} :
    M.exec s (as ++ [a]) = some t ↔ ∃ r, M.exec s as = some r ∧ M.step r a = some t := by
  simp only [exec_append_eq_some, exec_singleton]

/-- A state some run ends in. -/
def Reachable (s : σ) : Prop := ∃ as, M.exec M.init as = some s

theorem reachable_init : M.Reachable M.init := ⟨[], rfl⟩

variable {M}

theorem Reachable.step {s t : σ} {a : α} (h : M.Reachable s) (ht : M.step s a = some t) :
    M.Reachable t := by
  obtain ⟨as, hs⟩ := h
  exact ⟨as ++ [a], M.exec_snoc_eq_some.mpr ⟨s, hs, ht⟩⟩

theorem Reachable.exec {s t : σ} {as : List α} (h : M.Reachable s) (ht : M.exec s as = some t) :
    M.Reachable t := by
  obtain ⟨bs, hs⟩ := h
  exact ⟨bs ++ as, M.exec_append_eq_some.mpr ⟨s, hs, ht⟩⟩

/-- A property kept by every step is kept by every run. -/
theorem exec_invariant {P : σ → Prop}
    (hstep : ∀ s a t, P s → M.step s a = some t → P t)
    {s t : σ} {as : List α} (hs : P s) (ht : M.exec s as = some t) : P t := by
  induction as generalizing s with
  | nil =>
    cases ht
    exact hs
  | cons a as ih =>
    obtain ⟨r, hr, hrt⟩ := M.exec_cons_eq_some.mp ht
    exact ih (hstep s a r hs hr) hrt

/-- The invariant rule: true at the start and kept by every step out of a reachable state. -/
theorem Reachable.invariant {P : σ → Prop} (hinit : P M.init)
    (hstep : ∀ s a t, M.Reachable s → P s → M.step s a = some t → P t)
    {s : σ} (h : M.Reachable s) : P s := by
  obtain ⟨as, hs⟩ := h
  have hboth : M.Reachable s ∧ P s :=
    exec_invariant (P := fun s => M.Reachable s ∧ P s)
      (fun s a t hp ht => ⟨hp.1.step ht, hstep s a t hp.1 hp.2 ht⟩)
      ⟨M.reachable_init, hinit⟩ hs
  exact hboth.2

/-! ## Runs whose steps all meet a condition -/

variable (M) in
/-- Every step of the run meets a condition on its label and on the state before it. -/
def StepsMeet (Q : σ → α → Prop) : σ → List α → Prop
  | _, [] => True
  | s, a :: as => Q s a ∧ ∀ t, M.step s a = some t → StepsMeet Q t as

@[simp] theorem stepsMeet_nil (Q : σ → α → Prop) (s : σ) : M.StepsMeet Q s [] := trivial

/-- A condition that every step meets is met by every run. -/
theorem stepsMeet_of_forall {Q : σ → α → Prop} (hQ : ∀ s a, Q s a) (s : σ) (as : List α) :
    M.StepsMeet Q s as := by
  induction as generalizing s with
  | nil => trivial
  | cons a as ih => exact ⟨hQ s a, fun t _ => ih t⟩

/-- A weaker condition is met as well. -/
theorem stepsMeet_mono {Q R : σ → α → Prop} (h : ∀ s a, Q s a → R s a) {s : σ} {as : List α}
    (hq : M.StepsMeet Q s as) : M.StepsMeet R s as := by
  induction as generalizing s with
  | nil => trivial
  | cons a as ih => exact ⟨h s a hq.1, fun t ht => ih (hq.2 t ht)⟩

/-- Two conditions are met together. -/
theorem stepsMeet_and {Q R : σ → α → Prop} {s : σ} {as : List α} (hq : M.StepsMeet Q s as)
    (hr : M.StepsMeet R s as) : M.StepsMeet (fun s a => Q s a ∧ R s a) s as := by
  induction as generalizing s with
  | nil => trivial
  | cons a as ih => exact ⟨⟨hq.1, hr.1⟩, fun t ht => ih (hq.2 t ht) (hr.2 t ht)⟩

/-- A condition that can be tested on every step can be tested on a run. -/
instance decidableStepsMeet (Q : σ → α → Prop) [∀ s a, Decidable (Q s a)] :
    ∀ (s : σ) (as : List α), Decidable (M.StepsMeet Q s as)
  | _, [] => isTrue trivial
  | s, a :: as =>
    match h : M.step s a with
    | none =>
      decidable_of_iff (Q s a) ⟨fun hq => ⟨hq, fun t ht => by simp [h] at ht⟩, And.left⟩
    | some r =>
      have := decidableStepsMeet Q r as
      decidable_of_iff (Q s a ∧ M.StepsMeet Q r as)
        ⟨fun hq => ⟨hq.1, fun t ht => by cases h.symm.trans ht; exact hq.2⟩,
          fun hq => ⟨hq.1, hq.2 r h⟩⟩

/-- The condition on a longer run is the condition on its two parts. -/
theorem stepsMeet_append {Q : σ → α → Prop} {s : σ} {as bs : List α} :
    M.StepsMeet Q s (as ++ bs) ↔
      M.StepsMeet Q s as ∧ ∀ t, M.exec s as = some t → M.StepsMeet Q t bs := by
  induction as generalizing s with
  | nil =>
    constructor
    · intro hq
      exact ⟨trivial, fun t ht => by cases ht; exact hq⟩
    · rintro ⟨_, hq⟩
      exact hq s rfl
  | cons b as ih =>
    constructor
    · rintro ⟨hb, hrest⟩
      refine ⟨⟨hb, fun r hr => (ih.mp (hrest r hr)).1⟩, ?_⟩
      intro t ht
      obtain ⟨r, hr, hrt⟩ := M.exec_cons_eq_some.mp ht
      exact (ih.mp (hrest r hr)).2 t hrt
    · rintro ⟨⟨hb, hrest⟩, hlast⟩
      refine ⟨hb, ?_⟩
      intro r hr
      refine ih.mpr ⟨hrest r hr, ?_⟩
      intro t ht
      exact hlast t (M.exec_cons_eq_some.mpr ⟨r, hr, ht⟩)

/-- The condition on a longer run is the condition on its prefix and on its last step. -/
theorem stepsMeet_snoc {Q : σ → α → Prop} {s : σ} {as : List α} {a : α} :
    M.StepsMeet Q s (as ++ [a]) ↔
      M.StepsMeet Q s as ∧ ∀ t, M.exec s as = some t → Q t a := by
  rw [stepsMeet_append]
  constructor
  · rintro ⟨has, hlast⟩
    exact ⟨has, fun t ht => (hlast t ht).1⟩
  · rintro ⟨has, hlast⟩
    exact ⟨has, fun t ht => ⟨hlast t ht, fun _ _ => trivial⟩⟩

/-- The condition on a longer run whose prefix is known to end in a state. -/
theorem stepsMeet_snoc_of_exec {Q : σ → α → Prop} {s r : σ} {as : List α} {a : α}
    (hr : M.exec s as = some r) :
    M.StepsMeet Q s (as ++ [a]) ↔ M.StepsMeet Q s as ∧ Q r a := by
  simp [stepsMeet_snoc, hr]

/-- A property kept by every step that meets the condition is kept by every run of such steps. -/
theorem exec_invariant_of_stepsMeet {Q : σ → α → Prop} {P : σ → Prop}
    (hstep : ∀ s a t, P s → Q s a → M.step s a = some t → P t)
    {s t : σ} {as : List α} (hs : P s) (hq : M.StepsMeet Q s as)
    (ht : M.exec s as = some t) : P t := by
  induction as generalizing s with
  | nil =>
    cases ht
    exact hs
  | cons a as ih =>
    obtain ⟨r, hr, hrt⟩ := M.exec_cons_eq_some.mp ht
    exact ih (hstep s a r hs hq.1 hr) (hq.2 r hr) hrt

/-! ## Ranks -/

variable (M) in
/-- How many steps of a run meet a condition on their label and on the state before them. -/
def count (Q : σ → α → Prop) [∀ s a, Decidable (Q s a)] : σ → List α → Nat
  | _, [] => 0
  | s, a :: as =>
    (if Q s a then 1 else 0) + (M.step s a).elim 0 fun t => count Q t as

/-- A rank that no step raises and each counted step lowers is lower by their number at the end of
a run, or zero. -/
theorem rank_of_exec {Q R : σ → α → Prop} [∀ s a, Decidable (Q s a)] {P : σ → Prop}
    (rank : σ → Nat)
    (hstep : ∀ s a t, P s → R s a → M.step s a = some t → P t ∧ rank t ≤ rank s ∧
      (Q s a → rank s ≠ 0 → rank t < rank s))
    {s t : σ} {as : List α} (hs : P s) (hr : M.StepsMeet R s as) (ht : M.exec s as = some t) :
    P t ∧ rank t ≤ rank s - M.count Q s as := by
  induction as generalizing s with
  | nil =>
    cases ht
    exact ⟨hs, Nat.le_refl _⟩
  | cons a as ih =>
    obtain ⟨r, hr', hrt⟩ := M.exec_cons_eq_some.mp ht
    obtain ⟨hp, hle, hlt⟩ := hstep s a r hs hr.1 hr'
    obtain ⟨hpt, hrest⟩ := ih hp (hr.2 r hr') hrt
    refine ⟨hpt, ?_⟩
    have hcount : M.count Q s (a :: as) = (if Q s a then 1 else 0) + M.count Q r as := by
      rw [count, hr']
      rfl
    rw [hcount]
    by_cases hq : Q s a
    · rw [if_pos hq]
      have := hlt hq
      omega
    · rw [if_neg hq]
      omega

/-! ## Simulation -/

/-- Every step of `M` is a run of `N` between the abstractions of its end states. -/
structure Simulation {τ : Type w} {β : Type x} (M : Machine σ α) (N : Machine τ β)
    (abs : σ → τ) : Prop where
  /-- The start states correspond. -/
  init : abs M.init = N.init
  /-- A step out of a reachable state is matched by finitely many abstract steps. -/
  step : ∀ s a t, M.Reachable s → M.step s a = some t →
    ∃ bs, N.exec (abs s) bs = some (abs t)

/-- Reachable states abstract to reachable states. -/
theorem Simulation.reachable {τ : Type w} {β : Type x} {N : Machine τ β} {abs : σ → τ}
    (h : Simulation M N abs) {s : σ} (hs : M.Reachable s) : N.Reachable (abs s) := by
  apply hs.invariant (P := fun s => N.Reachable (abs s))
  · rw [h.init]
    exact N.reachable_init
  · intro s a t hreach habs ht
    obtain ⟨bs, hbs⟩ := h.step s a t hreach ht
    exact habs.exec hbs

end Machine

end IndustrialIot
