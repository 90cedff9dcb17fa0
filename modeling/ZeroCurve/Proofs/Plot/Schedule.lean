import ZeroCurve.Plot
import ZeroCurve.Proofs.Canvas.Shard
import ZeroCurve.Scalar.Double

/-!
# The schedule of a plot

The guesses of a plot may be followed at the same time. The picture does not depend on how their
steps are scheduled.
-/

namespace ZeroCurve.Plot

variable {α : Type} [Scalar α]

/-- Every schedule of the guesses of a plot ends in the same picture, from any canvas: the overlay of
what the guesses draw there when they are followed alone. This is also the picture that the plot
makes by following one guess after the other. -/
theorem run_traces_iff (p : Plot α) (f : α → α → α) {ts : List Trace} (h : p.traces f = .ok ts) :
    (∀ g : Canvas p.width p.height,
      (∀ t ∈ ts, ∀ g', Shard.Run g [.ofTrace t] g' ↔ g' = t.draw g) ∧
      ∀ g', Shard.Run g (ts.map .ofTrace) g' ↔ g' = g.overlay (ts.map (Trace.draw g))) ∧
    p.render f = .ok (p.axes.overlay (ts.map (Trace.draw p.axes))) := by
  refine ⟨fun g => ⟨fun t _ g' => Shard.run_singleton_iff, fun g' => Shard.run_ofTrace_iff⟩, ?_⟩
  rw [render, h, ← Trace.foldl_draw_eq_overlay]
  rfl

/-- Two guesses on a small grid. -/
def twoGuesses : Plot Float where
  projection := ⟨3, 5, 1.0, 1.0, 0.0, 0.0⟩
  newton := ⟨none, 10, 0.001, 0.5, 1.0⟩
  window := (-1.0, 1.0)
  guesses := 2
  samples := 1

/-- What they find of the two lines `y² = 1`. -/
def lineTraces : List Trace := [[[3], [3], [3]], [[1], [1], [1]]]

/-- However the two guesses are scheduled, the picture shows both lines. -/
theorem run_traces_lines :
    twoGuesses.traces (fun _ y => y * y - 1.0) = .ok lineTraces ∧
    ∃ g, twoGuesses.render (fun _ y => y * y - 1.0) = .ok g ∧
      (∀ g', Shard.Run twoGuesses.axes (lineTraces.map .ofTrace) g' ↔ g' = g) ∧
      g.get ⟨1, by decide⟩ ⟨2, by decide⟩ = Canvas.curve ∧
      g.get ⟨3, by decide⟩ ⟨2, by decide⟩ = Canvas.curve := by
  have htraces : twoGuesses.traces (fun _ y => y * y - 1.0) = .ok lineTraces := by
    have hsome : (twoGuesses.traces fun _ y => y * y - 1.0).toOption =
        some lineTraces := by decide +kernel
    cases h : twoGuesses.traces fun _ y => y * y - 1.0 with
    | error fault =>
      rw [h] at hsome
      cases hsome
    | ok ts =>
      rw [h] at hsome
      exact congrArg Except.ok (Option.some.inj hsome)
  obtain ⟨hrun, hrender⟩ := run_traces_iff twoGuesses (fun _ y => y * y - 1.0) htraces
  refine ⟨htraces, _, hrender, (hrun twoGuesses.axes).2, ?_, ?_⟩
  · decide +kernel
  · decide +kernel

end ZeroCurve.Plot
