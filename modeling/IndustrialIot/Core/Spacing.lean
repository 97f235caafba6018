import Mathlib.Data.List.Perm.Basic

/-!
# Times that are spaced

Times of which no window of a length holds more than a few. Where everything new comes a window's
length after everything old, the spacing is kept, and a longer window holds no more than its parts.
-/

namespace IndustrialIot.Spacing

/-- The times of a window. -/
def inWindow (start length : Nat) (x : Nat) : Bool := decide (start ≤ x ∧ x < start + length)

/-- No window of length `d` holds more than `m` of the times. -/
def Spaced (d m : Nat) (xs : List Nat) : Prop := ∀ start, xs.countP (inWindow start d) ≤ m

theorem spaced_nil (d m : Nat) : Spaced d m [] := fun _ => Nat.zero_le m

section

variable {d m : Nat} {xs ys : List Nat}

theorem Spaced.sublist (h : Spaced d m xs) (hsub : ys.Sublist xs) : Spaced d m ys :=
  fun start => Nat.le_trans (hsub.countP_le) (h start)

theorem Spaced.perm (h : Spaced d m xs) (hperm : ys.Perm xs) : Spaced d m ys := by
  intro start
  rw [hperm.countP_eq]
  exact h start

/-- A few new times at a distance from the old ones. -/
theorem Spaced.append (h : Spaced d m xs) {time : Nat} (hold : ∀ x ∈ xs, x + d ≤ time)
    (hnew : ∀ y ∈ ys, time ≤ y) (hlength : ys.length ≤ m) : Spaced d m (xs ++ ys) := by
  intro start
  rw [List.countP_append]
  by_cases hreach : start + d ≤ time
  · have hnone : ys.countP (inWindow start d) = 0 := by
      refine List.countP_eq_zero.mpr fun y hy hin => ?_
      have hlate := hnew y hy
      have hwindow := (of_decide_eq_true hin).2
      omega
    rw [hnone, Nat.add_zero]
    exact h start
  · have hnone : xs.countP (inWindow start d) = 0 := by
      refine List.countP_eq_zero.mpr fun x hx hin => ?_
      have hearly := hold x hx
      have hwindow := (of_decide_eq_true hin).1
      omega
    rw [hnone, Nat.zero_add]
    exact Nat.le_trans List.countP_le_length hlength

/-- A window is made of two. -/
theorem countP_inWindow_add (xs : List Nat) (start a b : Nat) :
    xs.countP (inWindow start (a + b)) =
      xs.countP (inWindow start a) + xs.countP (inWindow (start + a) b) := by
  induction xs with
  | nil => rfl
  | cons x xs ih =>
    have hsplit : (if inWindow start (a + b) x then 1 else 0) =
        (if inWindow start a x then 1 else 0) + if inWindow (start + a) b x then 1 else 0 := by
      simp only [inWindow, decide_eq_true_eq]
      split <;> split <;> split <;> omega
    rw [List.countP_cons, List.countP_cons, List.countP_cons, ih, hsplit]
    omega

/-- A window of `k` lengths holds at most `k` times as many. -/
theorem Spaced.countP_le (h : Spaced d m xs) (k start : Nat) :
    xs.countP (inWindow start (k * d)) ≤ k * m := by
  induction k generalizing start with
  | zero =>
    refine Nat.le_of_eq ?_
    rw [Nat.zero_mul, Nat.zero_mul]
    refine List.countP_eq_zero.mpr fun x _ hin => ?_
    have hwindow := of_decide_eq_true hin
    omega
  | succ k ih =>
    rw [Nat.succ_mul, countP_inWindow_add, Nat.succ_mul]
    exact Nat.add_le_add (ih start) (h _)

end

end IndustrialIot.Spacing
