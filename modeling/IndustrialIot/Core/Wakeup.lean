import IndustrialIot.Core.Monitor
import Mathlib.Algebra.BigOperators.Group.Finset.Piecewise

/-!
# No lost wakeups

A monitor whose waiters each need one permit, whose single notifications follow
the release of at most one permit, and whose broadcasts follow the closing of
the monitor, never leaves a waiter asleep next to a permit nobody is going to
take. The proof counts permits against the woken threads that have not tested
their guard again.
-/

namespace IndustrialIot

universe u v w x

/-- Replacing one value of a function changes the number of hits by that value alone. -/
theorem card_filter_update {τ : Type x} {α : Type v} [Fintype τ] [DecidableEq τ]
    (f : τ → α) (t : τ) (a : α) (b : α → Bool) :
    (Finset.univ.filter fun u => b (Function.update f t a u) = true).card + (b (f t)).toNat =
      (Finset.univ.filter fun u => b (f u) = true).card + (b a).toNat := by
  have hnew := Finset.add_sum_erase Finset.univ
    (fun u => if b (Function.update f t a u) = true then 1 else 0) (Finset.mem_univ t)
  have hold := Finset.add_sum_erase Finset.univ
    (fun u => if b (f u) = true then 1 else 0) (Finset.mem_univ t)
  have hrest : (∑ u ∈ Finset.univ.erase t, if b (Function.update f t a u) = true then 1 else 0) =
      ∑ u ∈ Finset.univ.erase t, if b (f u) = true then 1 else 0 := by
    apply Finset.sum_congr rfl
    intro u hu
    rw [Function.update_of_ne (Finset.ne_of_mem_erase hu)]
  simp only [Function.update_self] at hnew
  rw [Finset.card_filter, Finset.card_filter, ← hnew, ← hold, hrest]
  cases b a <;> cases b (f t) <;> simp <;> omega

namespace Monitor

variable {τ : Type x} {δ : Type u} {ω : Type v} {ρ : Type w}
variable [DecidableEq τ] [Fintype τ]

/-- The number of woken threads that have not tested their guard again. -/
def wokenCount (s : State τ δ ω ρ) : Nat :=
  (Finset.univ.filter fun t => (s.pc t).isWoken = true).card

/-- Nobody is in the wait set. -/
def NoneAsleep (s : State τ δ ω ρ) : Prop := ∀ t, (s.pc t).isAsleep = false

/-- A permit discipline: what waiters wait for, counted on the protected data. -/
structure Permits (M : Monitor δ ω ρ) where
  /-- The permits the data offers. -/
  permits : δ → Nat
  /-- No operation waits any longer. -/
  closed : δ → Bool
  /-- The operations that may have to wait. -/
  waits : ω → Bool
  /-- Only a waiting operation can find its guard false. -/
  guard_of_not_waits : ∀ o d, waits o = false → M.guard o d = true
  /-- A guard is false only without permits and before closing. -/
  of_guard_false : ∀ o d, M.guard o d = false → permits d = 0 ∧ closed d = false
  /-- A waiting operation takes a permit. -/
  takes : ∀ o d, waits o = true → M.guard o d = true → closed d = false →
    permits (M.body o d).2 + 1 ≤ permits d
  /-- A single notification stands for at most one permit. -/
  releases : ∀ o d, waits o = false → M.signal o = .one →
    permits (M.body o d).2 ≤ permits d + 1
  /-- An operation that notifies nobody releases nothing. -/
  silent : ∀ o d, waits o = false → M.signal o = .none →
    permits (M.body o d).2 ≤ permits d
  /-- Only a broadcast closes. -/
  closes : ∀ o d, M.signal o ≠ .all → closed (M.body o d).2 = closed d
  /-- Nothing opens again. -/
  stays : ∀ o d, closed d = true → closed (M.body o d).2 = true

namespace Permits

variable {M : Monitor δ ω ρ} (P : Permits M)

/-- A broadcast is about to empty the wait set. -/
def Broadcasting (M : Monitor δ ω ρ) (s : State τ δ ω ρ) : Prop :=
  ∃ t o r, s.owner = some t ∧ s.pc t = .notifying o r ∧ M.signal o = .all

/-- The permit a thread inside the monitor accounts for: the one it is about to
take, or the one it is about to notify. -/
def slackOf : Pc ω ρ → Nat
  | .holding o => (P.waits o).toNat
  | .notifying o _ => if M.signal o = .one then 1 else 0
  | _ => 0

/-- The permit accounted for by the holder of the mutex. -/
def slack (s : State τ δ ω ρ) : Nat :=
  match s.owner with
  | none => 0
  | some t => P.slackOf (s.pc t)

/-- The counting invariant. -/
structure Accounts (s : State τ δ ω ρ) : Prop where
  /-- Only waiting operations sleep or are woken. -/
  sleepers : ∀ t o, s.pc t = .asleep o ∨ s.pc t = .woken o → P.waits o = true
  /-- A closed monitor has no sleeper a broadcast is not about to reach. -/
  closedAwake : P.closed s.data = true → NoneAsleep s ∨ Broadcasting M s
  /-- Next to a sleeper, every permit has a woken thread or the holder to take it. -/
  covered : P.closed s.data = false →
    NoneAsleep s ∨ Broadcasting M s ∨ P.permits s.data ≤ wokenCount s + P.slack s

/-! ### Preservation -/

variable {P}

omit [DecidableEq τ] [Fintype τ] in
private theorem broadcasting_iff {s : State τ δ ω ρ} {t : τ} (ht : s.owner = some t) :
    Broadcasting M s ↔ ∃ o r, s.pc t = .notifying o r ∧ M.signal o = .all := by
  constructor
  · rintro ⟨u, o, r, hu, hp, hall⟩
    have he : t = u := Option.some.inj (ht.symm.trans hu)
    subst he
    exact ⟨o, r, hp, hall⟩
  · rintro ⟨o, r, hp, hall⟩
    exact ⟨t, o, r, ht, hp, hall⟩

omit [DecidableEq τ] [Fintype τ] in
private theorem not_broadcasting {s : State τ δ ω ρ} {t : τ} (ht : s.owner = some t)
    (hp : ∀ o r, s.pc t = .notifying o r → M.signal o ≠ .all) : ¬ Broadcasting M s := by
  rw [broadcasting_iff ht]
  rintro ⟨o, r, he, hall⟩
  exact hp o r he hall

omit [Fintype τ] in
private theorem noneAsleep_update {pc : τ → Pc ω ρ} (h : ∀ u, (pc u).isAsleep = false)
    (t : τ) {p : Pc ω ρ} (hp : p.isAsleep = false) (u : τ) :
    (Function.update pc t p u).isAsleep = false := by
  by_cases hu : u = t
  · subst hu
    simpa using hp
  · simpa [Function.update_of_ne hu] using h u

omit [Fintype τ] in
/-- A thread outside the monitor moves: the holder's account is the same. -/
private theorem outside_eq {s : State τ δ ω ρ} (hs : Exclusive s) {t : τ} {p : Pc ω ρ}
    (ht : (s.pc t).inside = false) :
    P.slack { s with pc := Function.update s.pc t p } = P.slack s ∧
      (Broadcasting M s → Broadcasting M { s with pc := Function.update s.pc t p }) := by
  have hne : ∀ u, s.owner = some u → u ≠ t := by
    rintro u hu rfl
    simp [(hs u).mp hu] at ht
  constructor
  · unfold slack
    cases ho : s.owner with
    | none => rfl
    | some u => simp only [Function.update_of_ne (hne u ho)]
  · rintro ⟨u, o, r, hu, hp, hall⟩
    exact ⟨u, o, r, hu, by rw [← hp]; exact Function.update_of_ne (hne u hu) .., hall⟩

private theorem wokenCount_update (s : State τ δ ω ρ) (t : τ) (p : Pc ω ρ) :
    wokenCount { s with pc := Function.update s.pc t p } + (s.pc t).isWoken.toNat =
      wokenCount s + p.isWoken.toNat :=
  card_filter_update s.pc t p Pc.isWoken

/-- A thread that becomes a contender, asleep or not before, keeps the account. -/
private theorem Accounts.outside {s : State τ δ ω ρ} (hs : Exclusive s) (h : P.Accounts s)
    {t : τ} {p : Pc ω ρ} (ht : (s.pc t).inside = false) (hp : p.isAsleep = false)
    (hw : (s.pc t).isWoken = false) (hpw : ∀ o, p = .woken o → s.pc t = .asleep o) :
    P.Accounts { s with pc := Function.update s.pc t p } := by
  obtain ⟨hslack, hbroad⟩ := outside_eq (P := P) hs (p := p) ht
  have hcount := wokenCount_update s t p
  have hnone : NoneAsleep s → NoneAsleep { s with pc := Function.update s.pc t p } :=
    fun hn => noneAsleep_update hn t hp
  refine ⟨?_, fun hc => (h.closedAwake hc).imp hnone hbroad, ?_⟩
  · intro u o hu
    by_cases he : u = t
    · subst he
      simp only [Function.update_self] at hu
      rcases hu with hu | hu
      · simp [hu, Pc.isAsleep] at hp
      · exact h.sleepers u o (Or.inl (hpw o hu))
    · simp only [Function.update_of_ne he] at hu
      exact h.sleepers u o hu
  · intro hc
    rcases h.covered hc with hn | hb | hle
    · exact Or.inl (hnone hn)
    · exact Or.inr (Or.inl (hbroad hb))
    · refine Or.inr (Or.inr ?_)
      rw [hslack]
      simp only [hw, Bool.toNat_false] at hcount
      exact hle.trans (by omega)

/-- Taking the mutex turns a woken thread into the holder that accounts for it. -/
private theorem Accounts.acquire {s : State τ δ ω ρ} (h : P.Accounts s) {t : τ} {o : ω}
    (hfree : s.owner = none) (hc : (s.pc t).contending = some o) :
    P.Accounts { s with owner := some t, pc := Function.update s.pc t (.holding o) } := by
  have hidle : ¬ Broadcasting M s := by
    rintro ⟨u, _, _, hu, _⟩
    simp [hfree] at hu
  have hcount := wokenCount_update s t (.holding o)
  have hnone : NoneAsleep s → NoneAsleep
      { s with owner := some t, pc := Function.update s.pc t (.holding o) } :=
    fun hn => noneAsleep_update hn t rfl
  refine ⟨?_, ?_, ?_⟩
  · intro u o' hu
    by_cases he : u = t
    · subst he
      simp at hu
    · simp only [Function.update_of_ne he] at hu
      exact h.sleepers u o' hu
  · intro hcl
    exact Or.inl (hnone ((h.closedAwake hcl).resolve_right hidle))
  · intro hcl
    rcases h.covered hcl with hn | hb | hle
    · exact Or.inl (hnone hn)
    · exact absurd hb hidle
    · refine Or.inr (Or.inr ?_)
      have hnew : wokenCount { s with pc := Function.update s.pc t (.holding o) } +
          (P.waits o).toNat ≥ wokenCount s := by
        cases hp : s.pc t <;> simp only [hp, Pc.contending, reduceCtorEq, Option.some.injEq] at hc
        · simp only [hp, Pc.isWoken, Bool.toNat_false] at hcount
          omega
        · subst hc
          have hwait := h.sleepers t _ (Or.inr hp)
          simp only [hp, Pc.isWoken, Bool.toNat_false, Bool.toNat_true] at hcount
          rw [hwait, Bool.toNat_true]
          omega
      simp only [slack, hfree, Nat.add_zero] at hle
      simp only [slack, Function.update_self, slackOf]
      exact hle.trans hnew

/-- Running the body takes the holder's permit, or leaves one to notify. -/
private theorem Accounts.run {s : State τ δ ω ρ} (hs : Exclusive s) (h : P.Accounts s)
    {t : τ} {o : ω} (hp : s.pc t = .holding o) (hg : M.guard o s.data = true) :
    P.Accounts { s with
      data := (M.body o s.data).2
      pc := Function.update s.pc t (.notifying o (M.body o s.data).1)
      history := s.history ++ [(o, (M.body o s.data).1)] } := by
  have hown : s.owner = some t := (hs t).mpr (by simp [hp, Pc.inside])
  have hidle : ¬ Broadcasting M s := not_broadcasting hown (by simp [hp])
  have hcount := wokenCount_update s t (.notifying o (M.body o s.data).1)
  simp only [hp, Pc.isWoken, Bool.toNat_false, Nat.add_zero] at hcount
  refine ⟨?_, ?_, ?_⟩
  · intro u o' hu
    by_cases he : u = t
    · subst he
      simp at hu
    · simp only [Function.update_of_ne he] at hu
      exact h.sleepers u o' hu
  · intro hcl
    by_cases hall : M.signal o = .all
    · exact Or.inr ⟨t, o, _, hown, Function.update_self .., hall⟩
    · have hcl' : P.closed s.data = true := by rw [← P.closes o s.data hall]; exact hcl
      have hn := (h.closedAwake hcl').resolve_right hidle
      exact Or.inl (noneAsleep_update hn t rfl)
  · intro hcl
    by_cases hall : M.signal o = .all
    · exact Or.inr (Or.inl ⟨t, o, _, hown, Function.update_self .., hall⟩)
    have hopen : P.closed s.data = false := by rw [← P.closes o s.data hall]; exact hcl
    rcases h.covered hopen with hn | hb | hle
    · exact Or.inl (noneAsleep_update hn t rfl)
    · exact absurd hb hidle
    refine Or.inr (Or.inr ?_)
    have hcount' : wokenCount { s with
        data := (M.body o s.data).2
        pc := Function.update s.pc t (.notifying o (M.body o s.data).1)
        history := s.history ++ [(o, (M.body o s.data).1)] } = wokenCount s := hcount
    rw [hcount']
    simp only [slack, hown, hp, slackOf, Function.update_self] at hle ⊢
    cases hwait : P.waits o with
    | true =>
      -- The holder took the permit it accounted for.
      have htake := P.takes o s.data hwait hg hopen
      simp only [hwait, Bool.toNat_true] at hle
      omega
    | false =>
      simp only [hwait, Bool.toNat_false, Nat.add_zero] at hle
      cases hsig : M.signal o with
      | none =>
        have := P.silent o s.data hwait hsig
        omega
      | one =>
        have := P.releases o s.data hwait hsig
        simp only [ite_true]
        omega
      | all => exact absurd hsig hall

/-- A notification turns the holder's account into a woken thread. -/
private theorem Accounts.notify {s : State τ δ ω ρ} (hs : Exclusive s) (h : P.Accounts s)
    {t : τ} {u : Option τ} {o : ω} {r : ρ} {pc : τ → Pc ω ρ} (hp : s.pc t = .notifying o r)
    (hw : wake (M.signal o) u s.pc = some pc) :
    P.Accounts { s with pc := Function.update pc t (.leaving o r) } := by
  have hown : s.owner = some t := (hs t).mpr (by simp [hp, Pc.inside])
  have hpt : pc t = .notifying o r := by
    rw [wake_of_not_asleep hw (by simp [hp, Pc.isAsleep]), hp]
  have hcount := wokenCount_update { s with pc := pc } t (.leaving o r)
  simp only [hpt, Pc.isWoken, Bool.toNat_false, Nat.add_zero] at hcount
  have hsleep : ∀ v, (s.pc v).isAsleep = false → (pc v).isAsleep = false := fun v hv => by
    rw [wake_of_not_asleep hw hv, hv]
  have hnone : NoneAsleep s → NoneAsleep { s with pc := Function.update pc t (.leaving o r) } :=
    fun hn => noneAsleep_update (fun v => hsleep v (hn v)) t rfl
  have hsleepers : ∀ v o', Function.update pc t (.leaving o r) v = .asleep o' ∨
      Function.update pc t (.leaving o r) v = .woken o' → P.waits o' = true := by
    intro v o' hv
    by_cases he : v = t
    · subst he
      simp at hv
    · simp only [Function.update_of_ne he] at hv
      rcases wake_eq_or hw v with hsame | ⟨o'', ho, hwok⟩
      · rw [hsame] at hv
        exact h.sleepers v o' hv
      · simp only [hwok, reduceCtorEq, Pc.woken.injEq, false_or] at hv
        exact hv ▸ h.sleepers v o'' (Or.inl ho)
  cases hsig : M.signal o with
  | all =>
    rw [hsig] at hw
    cases u <;> simp only [wake, Option.some.injEq, reduceCtorEq] at hw
    have hn : NoneAsleep { s with pc := Function.update pc t (.leaving o r) } :=
      noneAsleep_update (fun v => by rw [← hw]; exact Pc.isAsleep_rouse _) t rfl
    exact ⟨hsleepers, fun _ => Or.inl hn, fun _ => Or.inl hn⟩
  | none =>
    have hidle : ¬ Broadcasting M s := not_broadcasting hown (by simp [hp, hsig])
    rw [hsig] at hw
    cases u <;> simp only [wake, Option.some.injEq, reduceCtorEq] at hw
    subst hw
    refine ⟨hsleepers, fun hc => Or.inl (hnone ((h.closedAwake hc).resolve_right hidle)), ?_⟩
    intro hc
    rcases h.covered hc with hn | hb | hle
    · exact Or.inl (hnone hn)
    · exact absurd hb hidle
    · refine Or.inr (Or.inr ?_)
      simp only [slack, hown, hp, slackOf, hsig, reduceCtorEq, ite_false] at hle
      rw [hcount]
      exact hle.trans (Nat.le_add_right ..)
  | one =>
    have hidle : ¬ Broadcasting M s := not_broadcasting hown (by simp [hp, hsig])
    refine ⟨hsleepers, fun hc => Or.inl (hnone ((h.closedAwake hc).resolve_right hidle)), ?_⟩
    intro hc
    rw [hsig] at hw
    rcases h.covered hc with hn | hb | hle
    · exact Or.inl (hnone hn)
    · exact absurd hb hidle
    simp only [slack, hown, hp, slackOf, hsig, ite_true] at hle
    cases u with
    | none =>
      -- The notification is lost, but only because nobody sleeps.
      simp only [wake, Option.ite_none_right_eq_some, Option.some.injEq] at hw
      exact Or.inl (hnone hw.1)
    | some v =>
      refine Or.inr (Or.inr ?_)
      simp only [wake] at hw
      cases hpv : s.pc v <;> simp only [hpv, reduceCtorEq, Option.some.injEq] at hw
      rename_i ov
      have hwoken := wokenCount_update s v (.woken ov)
      simp only [hpv, Pc.isWoken, Bool.toNat_false, Bool.toNat_true, Nat.add_zero] at hwoken
      rw [hw] at hwoken
      rw [hcount, hwoken]
      exact hle.trans (Nat.le_add_right ..)

/-- Unlocking, with nothing left to account for. -/
private theorem Accounts.release {s : State τ δ ω ρ} (hs : Exclusive s) (h : P.Accounts s)
    {t : τ} {o : ω} {r : ρ} (hp : s.pc t = .leaving o r) :
    P.Accounts { s with owner := none, pc := Function.update s.pc t .idle } := by
  have hown : s.owner = some t := (hs t).mpr (by simp [hp, Pc.inside])
  have hidle : ¬ Broadcasting M s := not_broadcasting hown (by simp [hp])
  have hcount := wokenCount_update s t .idle
  simp only [hp, Pc.isWoken, Bool.toNat_false, Nat.add_zero] at hcount
  have hnone : NoneAsleep s →
      NoneAsleep { s with owner := none, pc := Function.update s.pc t .idle } :=
    fun hn => noneAsleep_update hn t rfl
  refine ⟨?_, fun hc => Or.inl (hnone ((h.closedAwake hc).resolve_right hidle)), ?_⟩
  · intro u o' hu
    by_cases he : u = t
    · subst he
      simp at hu
    · simp only [Function.update_of_ne he] at hu
      exact h.sleepers u o' hu
  · intro hc
    rcases h.covered hc with hn | hb | hle
    · exact Or.inl (hnone hn)
    · exact absurd hb hidle
    · simp only [slack, hown, hp, slackOf] at hle
      exact Or.inr (Or.inr (hle.trans (le_of_eq (congrArg (· + 0) hcount.symm))))

/-- Going to sleep is possible only when there is no permit and the monitor is open. -/
private theorem Accounts.sleep {s : State τ δ ω ρ} (h : P.Accounts s) {t : τ} {o : ω}
    (hg : M.guard o s.data = false) :
    P.Accounts { s with owner := none, pc := Function.update s.pc t (.asleep o) } := by
  obtain ⟨hzero, hopen⟩ := P.of_guard_false o s.data hg
  refine ⟨?_, ?_, ?_⟩
  · intro u o' hu
    by_cases he : u = t
    · subst he
      simp only [Function.update_self, Pc.asleep.injEq, reduceCtorEq, or_false] at hu
      subst hu
      by_contra hw
      simp [P.guard_of_not_waits o s.data (by simpa using hw)] at hg
    · simp only [Function.update_of_ne he] at hu
      exact h.sleepers u o' hu
  · intro hc
    simp only [hopen, Bool.false_eq_true] at hc
  · intro _
    exact Or.inr (Or.inr (by simp [hzero]))

/-- Every step keeps the account. -/
theorem Accounts.step {s s' : State τ δ ω ρ} {a : Action τ ω} (hs : Exclusive s)
    (h : P.Accounts s) (ha : M.step s a = some s') : P.Accounts s' := by
  cases M.step_spec ha with
  | call t o hp =>
    exact h.outside hs (by simp [hp, Pc.inside]) rfl (by simp [hp, Pc.isWoken]) (by simp)
  | acquire t o hfree hc => exact h.acquire hfree hc
  | run t o hp hg => exact h.run hs hp hg
  | sleep t o hp hg => exact h.sleep hg
  | notify t u o r pc hp hw => exact h.notify hs hp hw
  | release t o r hp => exact h.release hs hp
  | spurious t o hp =>
    exact h.outside hs (by simp [hp, Pc.inside]) rfl (by simp [hp, Pc.isWoken])
      (by simpa using hp)

/-- The account holds in every reachable state. -/
theorem accounts_of_reachable (P : Permits M) {d : δ} {s : State τ δ ω ρ}
    (h : (M.machine τ d).Reachable s) : P.Accounts s := by
  apply h.invariant
  · exact ⟨by simp [machine, start], fun _ => Or.inl fun _ => rfl, fun _ => Or.inl fun _ => rfl⟩
  · intro s a t hreach hs ht
    exact hs.step (M.exclusive_of_reachable hreach) ht

/-- With the mutex free, a closed monitor has no sleeper. -/
theorem noneAsleep_of_closed (P : Permits M) {d : δ} {s : State τ δ ω ρ}
    (h : (M.machine τ d).Reachable s) (hfree : s.owner = none)
    (hc : P.closed s.data = true) : NoneAsleep s := by
  refine ((P.accounts_of_reachable h).closedAwake hc).resolve_right ?_
  rintro ⟨t, _, _, ht, _⟩
  simp [hfree] at ht

/-- With the mutex free and somebody asleep, every permit has a woken thread. -/
theorem permits_le_wokenCount (P : Permits M) {d : δ} {s : State τ δ ω ρ}
    (h : (M.machine τ d).Reachable s) (hfree : s.owner = none)
    (hc : P.closed s.data = false) (hsome : ¬ NoneAsleep s) :
    P.permits s.data ≤ wokenCount s := by
  rcases (P.accounts_of_reachable h).covered hc with hn | ⟨t, _, _, ht, _⟩ | hle
  · exact absurd hn hsome
  · simp [hfree] at ht
  · simpa [slack, hfree] using hle

end Permits

end Monitor

end IndustrialIot
