import ZeroCurve.Proofs.Scalar.Exact
import ZeroCurve.Proofs.View.Course

/-!
# Changes taken back

In exact arithmetic every change of a view has an opposite that takes it back. The length of a move
depends on the zoom, so changes do not commute; but a move keeps the zoom, so its opposite goes the
same length. A sequence of codes is taken back by the opposite codes in reverse order. Only a new
equation is not: it forgets the view.
-/

namespace ZeroCurve.View

/-- The change that takes a change back. -/
def Move.opposite : Move → Move
  | .zoomIn => .zoomOut
  | .zoomOut => .zoomIn
  | .left => .right
  | .right => .left
  | .up => .down
  | .down => .up

/-- The code of the opposite change; a code of no change is its own opposite. -/
def oppositeCode : Text → Text
  | ['1'] => ['2']
  | ['2'] => ['1']
  | ['3'] => ['4']
  | ['4'] => ['3']
  | ['5'] => ['6']
  | ['6'] => ['5']
  | code => code

theorem ofCode?_oppositeCode {code : Text} {m : Move}
    (h : Command.ofCode? code = some (.change m)) :
    Command.ofCode? (oppositeCode code) = some (.change m.opposite) := by
  unfold Command.ofCode? at h
  split at h <;> cases h <;> rfl

theorem oppositeCode_of_forall_ne {code : Text}
    (h : ∀ m, Command.ofCode? code ≠ some (.change m)) : oppositeCode code = code := by
  unfold oppositeCode
  split
  case h_7 => rfl
  all_goals exact absurd rfl (h _)

variable {v : View ℚ}

theorem make_eq_ok {zoom xOffset yOffset : ℚ} (hzoom : zoom = v.zoom) (hx : xOffset = v.xOffset)
    (hy : yOffset = v.yOffset) : make zoom xOffset yOffset = .ok v := by
  subst hzoom hx hy
  exact make_eq v.zoom_pos v.xOffset v.yOffset

/-- Every change is made, and its opposite takes it back. -/
theorem move_opposite (v : View ℚ) (m : Move) :
    ∃ next, v.move m = .ok next ∧ next.move m.opposite = .ok v := by
  have hzoom : (0 : ℚ) < v.zoom := v.zoom_pos
  have hstep : (0 : ℚ) < zoomStep := by decide +kernel
  cases m with
  | zoomIn =>
    exact ⟨_, make_eq (mul_pos hzoom hstep) _ _,
      make_eq_ok (mul_div_cancel_right₀ _ hstep.ne') rfl rfl⟩
  | zoomOut =>
    exact ⟨_, make_eq (div_pos hzoom hstep) _ _,
      make_eq_ok (div_mul_cancel₀ _ hstep.ne') rfl rfl⟩
  -- the zoom is the same before and after, and so is the length of the step
  | left => exact ⟨_, make_eq v.zoom_pos _ _, make_eq_ok rfl (sub_add_cancel _ _) rfl⟩
  | right => exact ⟨_, make_eq v.zoom_pos _ _, make_eq_ok rfl (add_sub_cancel_right _ _) rfl⟩
  | up => exact ⟨_, make_eq v.zoom_pos _ _, make_eq_ok rfl rfl (add_sub_cancel_right _ _)⟩
  | down => exact ⟨_, make_eq v.zoom_pos _ _, make_eq_ok rfl rfl (sub_add_cancel _ _)⟩

theorem eq_of_ofCode?_newEquation {code : Text} (h : Command.ofCode? code = some .newEquation) :
    code = "7".toList := by
  unfold Command.ofCode? at h
  split at h
  case h_7 => rfl
  all_goals cases h

/-- A code of no change leaves the view as it is, but for a new equation. -/
theorem exists_apply_eq_self {α : Type} [Scalar α] {code : Text}
    (hchange : ∀ m, Command.ofCode? code ≠ some (.change m)) (h : code ≠ "7".toList) (v : View α) :
    ∃ action, v.apply code = .ok (v, action) := by
  cases hcode : Command.ofCode? code with
  | none => exact ⟨.invalid, by rw [apply, hcode]; rfl⟩
  | some command =>
    cases command with
    | change m => exact absurd hcode (hchange m)
    | newEquation => exact absurd (eq_of_ofCode?_newEquation hcode) h
    | exit => exact ⟨.exit, by rw [apply, hcode]; rfl⟩

/-- Every code but that of a new equation is taken back by its opposite. -/
theorem apply_oppositeCode (v : View ℚ) {code : Text} (h : code ≠ "7".toList) :
    ∃ next action action', v.apply code = .ok (next, action) ∧
      next.apply (oppositeCode code) = .ok (v, action') := by
  by_cases hchange : ∃ m, Command.ofCode? code = some (.change m)
  · obtain ⟨m, hm⟩ := hchange
    obtain ⟨next, hnext, hback⟩ := v.move_opposite m
    exact ⟨next, _, _, apply_change hm hnext, apply_change (ofCode?_oppositeCode hm) hback⟩
  · have hnone := not_exists.1 hchange
    obtain ⟨action, hsame⟩ := exists_apply_eq_self hnone h v
    rw [oppositeCode_of_forall_ne hnone]
    exact ⟨v, action, action, hsame, hsame⟩

/-- A sequence of codes without a new equation is taken back by the opposite codes in reverse
order: zoom and offsets are again what they were. -/
theorem applyAll_oppositeCode (v : View ℚ) {codes : List Text} (h : "7".toList ∉ codes) :
    ∃ last, v.applyAll codes = .ok last ∧
      last.applyAll (codes.reverse.map oppositeCode) = .ok v := by
  induction codes generalizing v with
  | nil => exact ⟨v, rfl, rfl⟩
  | cons code codes ih =>
    rw [List.mem_cons, not_or] at h
    obtain ⟨next, action, action', hnext, hback⟩ := v.apply_oppositeCode (Ne.symm h.1)
    obtain ⟨last, hlast, hrest⟩ := ih next h.2
    refine ⟨last, (applyAll_cons hnext codes).trans hlast, ?_⟩
    rw [List.reverse_cons, List.map_append, applyAll_append hrest]
    exact applyAll_cons hback []

/-- Zooming in, to the right, out and up again is taken back: the step to the right was one of two
thirds, and so is the step to the left. -/
theorem applyAll_oppositeCode_zoomed_step :
    "7".toList ∉ ["1".toList, "4".toList, "2".toList, "5".toList] ∧
    ∃ last, (default : View ℚ).applyAll ["1".toList, "4".toList, "2".toList, "5".toList] =
        .ok last ∧
      last.xOffset = 2 / 3 ∧
      last.applyAll ["6".toList, "1".toList, "3".toList, "2".toList] = .ok default := by
  have hcodes : "7".toList ∉ ["1".toList, "4".toList, "2".toList, "5".toList] := by decide
  obtain ⟨last, hlast, hback⟩ := applyAll_oppositeCode default hcodes
  refine ⟨hcodes, last, hlast, ?_, hback⟩
  have hoffset : ((default : View ℚ).applyAll
      ["1".toList, "4".toList, "2".toList, "5".toList]).toOption.map xOffset = some (2 / 3) := by
    decide +kernel
  rw [hlast] at hoffset
  exact Option.some.inj hoffset

end ZeroCurve.View
