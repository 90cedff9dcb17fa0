import Mathlib.Order.Bounds.Basic
import ZeroCurve.Newton

/-!
# The course of a search

A search counts its passes and asks two things of the counter: after each pass whether it may go on,
and at the end whether it has stopped before the cap. It always ends, with the first settled iterate
if that comes before the cap and with nothing otherwise, so a higher cap never changes what has been
found.
-/

namespace ZeroCurve.Newton

variable {α : Type} [Scalar α] (n : Newton α) (f : α → α)

/-- What a search comes to that has made a number of passes and is at `y`. A fault ends it, and so
does a pass that moves by no more than the tolerance or that reaches the cap. -/
inductive Course : Int → α → Except ArithmeticFault (Option α) → Prop where
  | fault {made : Int} {y : α} {fault : ArithmeticFault} (h : n.advance f y = .error fault) :
      Course made y (.error fault)
  | stop {made : Int} {y next : α} (h : n.advance f y = .ok next)
      (hend : ¬ (n.isMoving y next = true ∧ made + 1 < n.maxPasses)) :
      Course made y (.ok (if made + 1 < n.maxPasses then some next else none))
  | go {made : Int} {y next : α} {outcome : Except ArithmeticFault (Option α)}
      (h : n.advance f y = .ok next) (hgo : n.isMoving y next = true ∧ made + 1 < n.maxPasses)
      (rest : Course (made + 1) next outcome) : Course made y outcome

/-- The iterate of this number, counted from the start; a fault if a step on the way divides by
zero. -/
def iterate (start : α) : Nat → Except ArithmeticFault α
  | 0 => .ok start
  | k + 1 => do n.advance f (← iterate start k)

/-- Whether the step from the iterate of this number is made, and whether it is too large to stop
at. -/
def Steps (start : α) (k : Nat) (moving : Bool) : Prop :=
  ∃ y next, n.iterate f start k = .ok y ∧ n.advance f y = .ok next ∧ n.isMoving y next = moving

/-- Whether the iterate of this number is settled: a step leads to it that is not too large to stop
at. -/
def IsSettled (start : α) (k : Nat) : Prop := ∃ j, k = j + 1 ∧ n.Steps f start j false

/-- Whether a search makes a pass from the iterate of this number, its last pass counted. There is
always a first one. -/
def Reaches (start : α) (k : Nat) : Prop :=
  (k : Int) < max 1 n.maxPasses ∧ ∀ j < k, n.Steps f start j true

variable {n f} {start y next : α} {made : Int} {outcome : Except ArithmeticFault (Option α)}

theorem course_iff_of_error {fault : ArithmeticFault} (h : n.advance f y = .error fault) :
    n.Course f made y outcome ↔ outcome = .error fault := by
  constructor
  · intro hcourse
    cases hcourse with
    | fault h' =>
      cases h'.symm.trans h
      rfl
    | stop h' _ => cases h'.symm.trans h
    | go h' _ _ => cases h'.symm.trans h
  · rintro rfl
    exact .fault h

theorem course_iff_of_stop (h : n.advance f y = .ok next)
    (hend : ¬ (n.isMoving y next = true ∧ made + 1 < n.maxPasses)) :
    n.Course f made y outcome ↔
      outcome = .ok (if made + 1 < n.maxPasses then some next else none) := by
  constructor
  · intro hcourse
    cases hcourse with
    | fault h' => cases h'.symm.trans h
    | stop h' _ =>
      cases h'.symm.trans h
      rfl
    | go h' hgo _ =>
      cases h'.symm.trans h
      exact absurd hgo hend
  · rintro rfl
    exact .stop h hend

theorem course_iff_of_go (h : n.advance f y = .ok next)
    (hgo : n.isMoving y next = true ∧ made + 1 < n.maxPasses) :
    n.Course f made y outcome ↔ n.Course f (made + 1) next outcome := by
  constructor
  · intro hcourse
    cases hcourse with
    | fault h' => cases h'.symm.trans h
    | stop h' hend =>
      cases h'.symm.trans h
      exact absurd hgo hend
    | go h' _ rest =>
      cases h'.symm.trans h
      exact rest
  · exact .go h hgo

theorem search_of_error {fault : ArithmeticFault} (h : n.advance f y = .error fault)
    (passes : Nat) : n.search f passes y = .error fault := by
  cases passes with
  | zero =>
    rw [search, h]
    rfl
  | succ passes =>
    rw [search, h]
    rfl

theorem search_zero (h : n.advance f y = .ok next) : n.search f 0 y = .ok none := by
  rw [search, h]
  rfl

theorem search_succ (h : n.advance f y = .ok next) (passes : Nat) :
    n.search f (passes + 1) y =
      if n.isMoving y next = true then n.search f passes next else .ok (some next) := by
  rw [search, h]
  rfl

/-- The search with a bound on its passes is the only course, as long as the bound is the number of
passes left before the last one: the counter goes up as the bound goes down. -/
theorem course_iff_search (passes : Nat) (h : (n.maxPasses - made - 1).toNat = passes) :
    n.Course f made y outcome ↔ outcome = n.search f passes y := by
  induction passes generalizing made y with
  | zero =>
    have hlast : ¬ made + 1 < n.maxPasses := by omega
    cases hstep : n.advance f y with
    | error fault => rw [course_iff_of_error hstep, search_of_error hstep]
    | ok next =>
      rw [course_iff_of_stop hstep (hlast ·.2), if_neg hlast, search_zero hstep]
  | succ passes ih =>
    have hleft : made + 1 < n.maxPasses := by omega
    cases hstep : n.advance f y with
    | error fault => rw [course_iff_of_error hstep, search_of_error hstep]
    | ok next =>
      rw [search_succ hstep]
      by_cases hmoving : n.isMoving y next = true
      · rw [if_pos hmoving, course_iff_of_go hstep ⟨hmoving, hleft⟩, ih (by omega)]
      · rw [if_neg hmoving, course_iff_of_stop hstep (hmoving ·.1), if_pos hleft]

/-- A search comes to an end, and in one way only. -/
theorem course_iff : n.Course f 0 start outcome ↔ outcome = n.solve f start :=
  course_iff_search _ (by rw [Int.sub_zero])

theorem iterate_succ {k : Nat} (h : n.iterate f start k = .ok y) :
    n.iterate f start (k + 1) = n.advance f y := by
  rw [iterate, h]
  rfl

theorem iterate_one : n.iterate f start 1 = n.advance f start :=
  iterate_succ (by rw [iterate])

/-- The iterates from the first on are those counted from there. -/
theorem iterate_succ_of_advance (h : n.advance f start = .ok next) (k : Nat) :
    n.iterate f start (k + 1) = n.iterate f next k := by
  induction k with
  | zero => rw [iterate_one, h, iterate]
  | succ k ih => rw [iterate, ih, iterate]

/-- What comes after a fault is a fault. -/
theorem iterate_ok_of_le {j k : Nat} (hjk : j ≤ k) (h : n.iterate f start k = .ok y) :
    ∃ z, n.iterate f start j = .ok z := by
  induction hjk generalizing y with
  | refl => exact ⟨y, h⟩
  | @step k _ ih =>
    cases hk : n.iterate f start k with
    | error fault =>
      rw [iterate, hk] at h
      cases h
    | ok z => exact ih hk

theorem iterate_succ_ne_ok_of_error {fault : ArithmeticFault} (h : n.advance f start = .error fault)
    (k : Nat) : n.iterate f start (k + 1) ≠ .ok y := by
  intro hy
  obtain ⟨next, hnext⟩ := iterate_ok_of_le (Nat.le_add_left 1 k) hy
  rw [iterate_one, h] at hnext
  cases hnext

theorem Steps.iterate_ok {moving : Bool} {k : Nat} (h : n.Steps f start k moving) :
    ∃ next, n.iterate f start (k + 1) = .ok next := by
  obtain ⟨y, next, hy, hnext, -⟩ := h
  exact ⟨next, (iterate_succ hy).trans hnext⟩

theorem Steps.not_isSettled {k : Nat} (h : n.Steps f start k true) :
    ¬ n.IsSettled f start (k + 1) := by
  rintro ⟨j, hj, y', next', hy', hnext', hsmall⟩
  obtain ⟨y, next, hy, hnext, hlarge⟩ := h
  cases hj
  cases hy.symm.trans hy'
  cases hnext.symm.trans hnext'
  exact Bool.false_ne_true (hsmall.symm.trans hlarge)

/-- On the way to an iterate every step is made, so a step that does not settle is a large one. -/
theorem steps_true_of_not_isSettled {j k : Nat} (hjk : j < k) (h : n.iterate f start k = .ok y)
    (hsettled : ¬ n.IsSettled f start (j + 1)) : n.Steps f start j true := by
  obtain ⟨next, hnext⟩ := iterate_ok_of_le hjk h
  obtain ⟨z, hz⟩ := iterate_ok_of_le j.le_succ hnext
  refine ⟨z, next, hz, (iterate_succ hz).symm.trans hnext, ?_⟩
  rw [← Bool.not_eq_false]
  exact fun hsmall => hsettled ⟨j, rfl, z, next, hz, (iterate_succ hz).symm.trans hnext, hsmall⟩

theorem steps_zero_iff {moving : Bool} (h : n.advance f start = .ok next) :
    n.Steps f start 0 moving ↔ n.isMoving start next = moving := by
  constructor
  · rintro ⟨y, z, hy, hz, hmoving⟩
    cases hy
    cases hz.symm.trans h
    exact hmoving
  · exact fun hmoving => ⟨start, next, rfl, h, hmoving⟩

theorem steps_succ_iff {moving : Bool} {k : Nat} (h : n.advance f start = .ok next) :
    n.Steps f start (k + 1) moving ↔ n.Steps f next k moving := by
  rw [Steps, iterate_succ_of_advance h, ← Steps]

theorem forall_steps_succ_iff {k : Nat} {moving : Bool} (h : n.advance f start = .ok next) :
    (∀ j < k + 1, n.Steps f start j moving) ↔
      n.isMoving start next = moving ∧ ∀ j < k, n.Steps f next j moving := by
  simp only [Nat.forall_lt_succ_left, steps_zero_iff h, steps_succ_iff h]

/-- A search finds what the first small step leads to, if a pass is left for it. -/
theorem search_eq_some_iff (passes : Nat) :
    n.search f passes start = .ok (some y) ↔
      ∃ k < passes, (∀ j < k, n.Steps f start j true) ∧ n.Steps f start k false ∧
        n.iterate f start (k + 1) = .ok y := by
  induction passes generalizing start with
  | zero =>
    cases hstep : n.advance f start with
    | error fault => simp [search_of_error hstep]
    | ok next => simp [search_zero hstep]
  | succ passes ih =>
    cases hstep : n.advance f start with
    | error fault => simp [search_of_error hstep, iterate_succ_ne_ok_of_error hstep]
    | ok next =>
      simp only [search_succ hstep, Nat.exists_lt_succ_left, forall_steps_succ_iff hstep,
        steps_zero_iff hstep, steps_succ_iff hstep, iterate_succ_of_advance hstep]
      cases hmoving : n.isMoving start next with
      | true => simp [ih]
      | false => simp [iterate]

/-- A search finds nothing if all steps with a pass left are large; the last pass is made too. -/
theorem search_eq_none_iff (passes : Nat) :
    n.search f passes start = .ok none ↔
      (∀ j < passes, n.Steps f start j true) ∧ ∃ y, n.iterate f start (passes + 1) = .ok y := by
  induction passes generalizing start with
  | zero =>
    cases hstep : n.advance f start with
    | error fault => simp [search_of_error hstep, iterate_succ_ne_ok_of_error hstep]
    | ok next => simp [search_zero hstep, iterate_one, hstep]
  | succ passes ih =>
    cases hstep : n.advance f start with
    | error fault => simp [search_of_error hstep, iterate_succ_ne_ok_of_error hstep]
    | ok next =>
      rw [search_succ hstep, forall_steps_succ_iff hstep, iterate_succ_of_advance hstep]
      cases hmoving : n.isMoving start next with
      | true => simp [ih]
      | false => simp

/-- A search ends with a fault if a pass that it makes does. -/
theorem search_eq_error_iff {fault : ArithmeticFault} (passes : Nat) :
    n.search f passes start = .error fault ↔
      ∃ k < passes + 1, (∀ j < k, n.Steps f start j true) ∧
        ∃ y, n.iterate f start k = .ok y ∧ n.advance f y = .error fault := by
  induction passes generalizing start with
  | zero =>
    cases hstep : n.advance f start with
    | error fault' => simp [search_of_error hstep, iterate, hstep]
    | ok next => simp [search_zero hstep, iterate, hstep]
  | succ passes ih =>
    rw [Nat.exists_lt_succ_left]
    cases hstep : n.advance f start with
    | error fault' =>
      rw [search_of_error hstep]
      constructor
      · rintro ⟨⟩
        exact .inl ⟨fun j hj => absurd hj j.not_lt_zero, start, rfl, hstep⟩
      · rintro (⟨-, y, hy, hfault⟩ | ⟨k, -, -, y, hy, -⟩)
        · cases hy
          cases hstep.symm.trans hfault
          rfl
        · exact absurd hy (iterate_succ_ne_ok_of_error hstep k)
    | ok next =>
      simp only [search_succ hstep, forall_steps_succ_iff hstep, iterate_succ_of_advance hstep]
      cases hmoving : n.isMoving start next with
      | true => simp [ih, iterate, hstep]
      | false => simp [iterate, hstep]

/-- The first settled iterate is the one that the first small step leads to. -/
theorem isLeast_isSettled_iff {k : Nat} :
    IsLeast {k | n.IsSettled f start k} (k + 1) ↔
      (∀ j < k, n.Steps f start j true) ∧ n.Steps f start k false := by
  constructor
  · rintro ⟨⟨k', hk', hsteps⟩, hleast⟩
    cases hk'
    obtain ⟨next, hnext⟩ := hsteps.iterate_ok
    refine ⟨fun j hj => steps_true_of_not_isSettled (Nat.lt_succ_of_lt hj) hnext ?_, hsteps⟩
    exact fun hsettled => hj.not_ge (Nat.le_of_succ_le_succ (hleast hsettled))
  · rintro ⟨hlarge, hsteps⟩
    refine ⟨⟨k, rfl, hsteps⟩, ?_⟩
    rintro - ⟨j, rfl, hsmall⟩
    refine Nat.succ_le_succ (not_lt.1 fun hj => ?_)
    exact (hlarge j hj).not_isSettled ⟨j, rfl, hsmall⟩

theorem solve_eq_some_iff :
    n.solve f start = .ok (some y) ↔
      ∃ k, IsLeast {k | n.IsSettled f start k} k ∧ (k : Int) < n.maxPasses ∧
        n.iterate f start k = .ok y := by
  rw [solve, search_eq_some_iff]
  constructor
  · rintro ⟨k, hk, hlarge, hsmall, hy⟩
    exact ⟨k + 1, isLeast_isSettled_iff.2 ⟨hlarge, hsmall⟩, by omega, hy⟩
  · rintro ⟨k, hleast, hk, hy⟩
    obtain ⟨j, rfl, -⟩ := hleast.1
    obtain ⟨hlarge, hsmall⟩ := isLeast_isSettled_iff.1 hleast
    exact ⟨j, by omega, hlarge, hsmall, hy⟩

theorem solve_eq_none_iff :
    n.solve f start = .ok none ↔
      (∀ k, n.IsSettled f start k → n.maxPasses ≤ k) ∧
        ∃ y, n.iterate f start (max 1 n.maxPasses).toNat = .ok y := by
  -- the passes that are made, the last one included
  have hpasses : (max 1 n.maxPasses).toNat = (n.maxPasses - 1).toNat + 1 := by omega
  rw [solve, search_eq_none_iff, hpasses]
  refine and_congr_left ?_
  rintro ⟨y, hy⟩
  constructor
  · rintro hlarge - ⟨j, rfl, hsmall⟩
    by_contra hlt
    exact (hlarge j (by omega)).not_isSettled ⟨j, rfl, hsmall⟩
  · intro hcap j hj
    refine steps_true_of_not_isSettled (Nat.lt_succ_of_lt hj) hy fun hsettled => ?_
    have hle := hcap (j + 1) hsettled
    omega

theorem solve_eq_error_iff {fault : ArithmeticFault} :
    n.solve f start = .error fault ↔
      ∃ k y, n.Reaches f start k ∧ n.iterate f start k = .ok y ∧ n.advance f y = .error fault := by
  rw [solve, search_eq_error_iff]
  constructor
  · rintro ⟨k, hk, hlarge, y, hy, hfault⟩
    exact ⟨k, y, ⟨by omega, hlarge⟩, hy, hfault⟩
  · rintro ⟨k, y, ⟨hk, hlarge⟩, hy, hfault⟩
    exact ⟨k, by omega, hlarge, y, hy, hfault⟩

/-- If every step is made, a search ends without a fault. -/
theorem solve_ok_of_advance_ok (h : ∀ y, ∃ next, n.advance f y = .ok next) (start : α) :
    ∃ found, n.solve f start = .ok found := by
  cases hsolve : n.solve f start with
  | ok found => exact ⟨found, rfl⟩
  | error fault =>
    obtain ⟨k, y, -, -, hfault⟩ := solve_eq_error_iff.1 hsolve
    obtain ⟨next, hnext⟩ := h y
    cases hnext.symm.trans hfault

end ZeroCurve.Newton
