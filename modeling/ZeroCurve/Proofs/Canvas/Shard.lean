import ZeroCurve.Proofs.Canvas.Touch
import ZeroCurve.Proofs.List.Basic

/-!
# Shards on one canvas

Traces that are drawn at the same time. A shard draws one trace on a canvas that all shards share,
and its steps are single accesses to a cell: filling a cell is a look at it and, in a step of its
own, a write if it looked blank. Other shards may come between the two. Still every schedule ends in
the same canvas, because each step keeps the forecast of every cell.
-/

namespace ZeroCurve

/-- A touch of a cell on the grid. -/
inductive Task (width height : Nat) where
  | cover (r : Fin height) (c : Fin width)
  | fill (r : Fin height) (c : Fin width)
deriving DecidableEq, Repr

/-- The task that a touch amounts to; there is none off the grid. -/
def Touch.task? {width height : Nat} : Touch → Option (Task width height)
  | .cover cell => (Canvas.locate? cell).map fun place => .cover place.1 place.2
  | .fill cell => (Canvas.locate? cell).map fun place => .fill place.1 place.2

/-- A shard at work: the cell that it has looked at last with what it saw there, until it acts on
it, and the tasks that are left. -/
structure Shard (width height : Nat) where
  held : Option (Fin height × Fin width × UInt8)
  todo : List (Task width height)
deriving DecidableEq, Repr

namespace Shard

variable {width height : Nat}

/-- A shard that is about to draw a trace. -/
def ofTrace (t : Trace) : Shard width height := ⟨none, t.touches.filterMap Touch.task?⟩

/-- One step of a shard on the shared canvas; there is none once it has finished. -/
def step (g : Canvas width height) :
    Shard width height → Option (Canvas width height × Shard width height)
  | ⟨some (r, c, seen), todo⟩ =>
    some (if seen = Canvas.blank then g.set r c Canvas.curve else g, ⟨none, todo⟩)
  | ⟨none, .cover r c :: todo⟩ => some (g.set r c Canvas.curve, ⟨none, todo⟩)
  | ⟨none, .fill r c :: todo⟩ => some (g, ⟨some (r, c, g.get r c), todo⟩)
  | ⟨none, []⟩ => none

/-- A run of several shards from one canvas to another: at each step any shard that has not finished
may go on, and the run ends when all have finished. -/
inductive Run : Canvas width height → List (Shard width height) → Canvas width height → Prop where
  | done {g : Canvas width height} {shards : List (Shard width height)}
    (hdone : ∀ s ∈ shards, s.step g = none) : Run g shards g
  | step {g g₁ g' : Canvas width height} {shards : List (Shard width height)}
    {s s₁ : Shard width height} {i : Nat} (hs : shards[i]? = some s)
    (hstep : s.step g = some (g₁, s₁)) (hrest : Run g₁ (shards.set i s₁) g') : Run g shards g'

/-- Whether a shard, left alone, would yet put a point into a cell that holds `now`. -/
def Paints (s : Shard width height) (now : UInt8) (r : Fin height) (c : Fin width) : Prop :=
  .cover r c ∈ s.todo ∨ (now = Canvas.blank ∧ .fill r c ∈ s.todo) ∨
    s.held = some (r, c, Canvas.blank)

instance (s : Shard width height) (now : UInt8) (r : Fin height) (c : Fin width) :
    Decidable (s.Paints now r c) :=
  inferInstanceAs (Decidable (_ ∨ _ ∨ _))

/-- What a cell is going to hold when all shards have finished. -/
def forecast (g : Canvas width height) (shards : List (Shard width height)) (r : Fin height)
    (c : Fin width) : UInt8 :=
  if ∃ s ∈ shards, s.Paints (g.get r c) r c then Canvas.curve else g.get r c

/-- A step puts a point where the shard was to paint, or leaves the cell alone and the shard as much
to paint there as before. -/
theorem get_step {g g₁ : Canvas width height} {s s₁ : Shard width height}
    (h : s.step g = some (g₁, s₁)) (r : Fin height) (c : Fin width) :
    (g₁.get r c = Canvas.curve ∧ s.Paints (g.get r c) r c) ∨
      (g₁.get r c = g.get r c ∧ (s₁.Paints (g.get r c) r c ↔ s.Paints (g.get r c) r c)) := by
  match s, h with
  | ⟨some (r', c', seen), todo⟩, h =>
    -- the write depends on what was seen, not on what the cell holds by now
    by_cases hwrite : seen = Canvas.blank ∧ r' = r ∧ c' = c
    · obtain ⟨rfl, rfl, rfl⟩ := hwrite
      cases h
      refine .inl ⟨?_, .inr (.inr rfl)⟩
      rw [if_pos rfl, Canvas.get_set, if_pos ⟨rfl, rfl⟩]
    · cases h
      refine .inr ⟨?_, ?_⟩
      · split
        next hseen => rw [Canvas.get_set, if_neg fun hrc => hwrite ⟨hseen, hrc⟩]
        next => rfl
      · have hheld : some (r', c', seen) ≠ some (r, c, Canvas.blank) := by
          rintro ⟨⟩
          exact hwrite ⟨rfl, rfl, rfl⟩
        simp [Paints, hheld]
  | ⟨none, .cover r' c' :: todo⟩, h =>
    cases h
    by_cases hrc : r' = r ∧ c' = c
    · obtain ⟨rfl, rfl⟩ := hrc
      refine .inl ⟨?_, .inl List.mem_cons_self⟩
      rw [Canvas.get_set, if_pos ⟨rfl, rfl⟩]
    · refine .inr ⟨by rw [Canvas.get_set, if_neg hrc], ?_⟩
      have hne : Task.cover r c ≠ Task.cover r' c' := by
        rintro ⟨⟩
        exact hrc ⟨rfl, rfl⟩
      simp [Paints, hne]
  | ⟨none, .fill r' c' :: todo⟩, h =>
    cases h
    -- a look moves the cell from the tasks to what is held, if it saw a blank
    refine .inr ⟨rfl, ?_⟩
    by_cases hrc : r' = r ∧ c' = c
    · obtain ⟨rfl, rfl⟩ := hrc
      by_cases hblank : g.get r' c' = Canvas.blank <;> simp [Paints, hblank]
    · have hne : Task.fill r c ≠ Task.fill r' c' := by
        rintro ⟨⟩
        exact hrc ⟨rfl, rfl⟩
      have hheld : some (r', c', g.get r' c') ≠ some (r, c, Canvas.blank) := by
        simp only [ne_eq, Option.some.injEq, Prod.mk.injEq]
        exact fun h => hrc ⟨h.1, h.2.1⟩
      simp [Paints, hne, hheld]

/-- No step changes a forecast. -/
theorem forecast_step {g g₁ : Canvas width height} {shards : List (Shard width height)}
    {s s₁ : Shard width height} {i : Nat} (hs : shards[i]? = some s)
    (hstep : s.step g = some (g₁, s₁)) (r : Fin height) (c : Fin width) :
    forecast g₁ (shards.set i s₁) r c = forecast g shards r c := by
  rcases get_step hstep r c with ⟨hcurve, hpaints⟩ | ⟨hsame, hpaints⟩
  · have hold : forecast g shards r c = Canvas.curve := if_pos ⟨s, List.mem_of_getElem? hs, hpaints⟩
    rw [hold, forecast, hcurve, ite_self]
  · -- the cell is unchanged, so to the other shards nothing has happened
    have hexists := List.exists_mem_set (P := fun s => s.Paints (g.get r c) r c) hs hpaints
    unfold forecast
    rw [hsame]
    simp only [hexists]

theorem not_paints_of_step_eq_none {g : Canvas width height} {s : Shard width height}
    (h : s.step g = none) (now : UInt8) (r : Fin height) (c : Fin width) :
    ¬ s.Paints now r c := by
  match s, h with
  | ⟨none, []⟩, _ => simp [Paints]

/-- A run ends with what was forecast. -/
theorem Run.get_eq {g g' : Canvas width height} {shards : List (Shard width height)}
    (h : Run g shards g') (r : Fin height) (c : Fin width) :
    g'.get r c = forecast g shards r c := by
  induction h with
  | done hdone =>
    rw [forecast, if_neg]
    rintro ⟨s, hs, hpaints⟩
    exact not_paints_of_step_eq_none (hdone s hs) _ r c hpaints
  | step hs hstep hrest ih => rw [ih, forecast_step hs hstep]

/-- How many steps a shard has left. -/
def left (s : Shard width height) : Nat := 2 * s.todo.length + s.held.toList.length

theorem left_of_step {g g₁ : Canvas width height} {s s₁ : Shard width height}
    (h : s.step g = some (g₁, s₁)) : s₁.left < s.left := by
  match s, h with
  | ⟨some (r, c, seen), todo⟩, h | ⟨none, .cover r c :: todo⟩, h | ⟨none, .fill r c :: todo⟩, h =>
    cases h
    simp only [left, List.length_cons, Option.toList, List.length_nil]
    omega

/-- How many steps several shards have left. -/
def leftOfAll : List (Shard width height) → Nat
  | [] => 0
  | s :: shards => s.left + leftOfAll shards

theorem leftOfAll_set_lt {shards : List (Shard width height)} {s s₁ : Shard width height} {i : Nat}
    (hs : shards[i]? = some s) (hlt : s₁.left < s.left) :
    leftOfAll (shards.set i s₁) < leftOfAll shards := by
  induction shards generalizing i with
  | nil => cases hs
  | cons a shards ih =>
    cases i with
    | zero =>
      cases hs
      exact Nat.add_lt_add_right hlt _
    | succ i => exact Nat.add_lt_add_left (ih hs) _

/-- Shards can be run to the end from every state. -/
theorem exists_run (g : Canvas width height) (shards : List (Shard width height)) :
    ∃ g', Run g shards g' := by
  by_cases hdone : ∀ s ∈ shards, s.step g = none
  · exact ⟨g, .done hdone⟩
  · have ⟨s, hs, hne⟩ : ∃ s ∈ shards, s.step g ≠ none := by simpa using hdone
    obtain ⟨⟨g₁, s₁⟩, hstep⟩ := Option.ne_none_iff_exists'.1 hne
    obtain ⟨i, hi⟩ := List.mem_iff_getElem?.1 hs
    have hlt := leftOfAll_set_lt hi (left_of_step hstep)
    obtain ⟨g', hrest⟩ := exists_run g₁ (shards.set i s₁)
    exact ⟨g', .step hi hstep hrest⟩
termination_by leftOfAll shards

theorem task?_eq_cover_iff {t : Touch} {r : Fin height} {c : Fin width} :
    t.task? = some (.cover r c) ↔ t = .cover ⟨r, c⟩ := by
  cases t with
  | cover cell => simp [Touch.task?, ← Canvas.locate?_eq_some_iff]
  | fill cell => simp [Touch.task?]

theorem task?_eq_fill_iff {t : Touch} {r : Fin height} {c : Fin width} :
    t.task? = some (.fill r c) ↔ t = .fill ⟨r, c⟩ := by
  cases t with
  | cover cell => simp [Touch.task?]
  | fill cell => simp [Touch.task?, ← Canvas.locate?_eq_some_iff]

/-- A shard that has not begun paints what its trace does. -/
theorem paints_ofTrace {t : Trace} {now : UInt8} {r : Fin height} {c : Fin width} :
    (ofTrace t : Shard width height).Paints now r c ↔ Touch.Paints t.touches now ⟨r, c⟩ := by
  simp [Paints, ofTrace, Touch.Paints, List.mem_filterMap, task?_eq_cover_iff, task?_eq_fill_iff]

theorem exists_paints_ofTrace {ts : List Trace} {now : UInt8} {r : Fin height} {c : Fin width} :
    (∃ s ∈ ts.map ofTrace, s.Paints now r c) ↔
      Touch.Paints (ts.flatMap Trace.touches) now ⟨r, c⟩ := by
  rw [Trace.paints_flatMap_touches]
  constructor
  · rintro ⟨s, hs, hpaints⟩
    obtain ⟨t, ht, rfl⟩ := List.mem_map.1 hs
    exact ⟨t, ht, paints_ofTrace.1 hpaints⟩
  · rintro ⟨t, ht, hpaints⟩
    exact ⟨ofTrace t, List.mem_map_of_mem ht, paints_ofTrace.2 hpaints⟩

/-- The forecast at the start is the overlay of what the traces draw alone. -/
theorem forecast_ofTrace (g : Canvas width height) (ts : List Trace) (r : Fin height)
    (c : Fin width) :
    forecast g (ts.map ofTrace) r c = (g.overlay (ts.map (Trace.draw g))).get r c := by
  rw [Trace.get_overlay_draw]
  simp only [forecast, exists_paints_ofTrace]

/-- Every schedule of the shards of some traces ends in the same canvas, on which a cell is a point
of a curve if one of the traces alone would have made it one. -/
theorem run_ofTrace_iff {g g' : Canvas width height} {ts : List Trace} :
    Run g (ts.map ofTrace) g' ↔ g' = g.overlay (ts.map (Trace.draw g)) := by
  have hunique : ∀ {g'}, Run g (ts.map ofTrace) g' → g' = g.overlay (ts.map (Trace.draw g)) := by
    intro g' hrun
    refine Canvas.ext_get fun r c => ?_
    rw [hrun.get_eq, forecast_ofTrace]
  refine ⟨hunique, ?_⟩
  rintro rfl
  obtain ⟨g', hrun⟩ := exists_run g (ts.map ofTrace)
  exact hunique hrun ▸ hrun

/-- A shard that runs alone draws its trace. -/
theorem run_singleton_iff {g g' : Canvas width height} {t : Trace} :
    Run g [ofTrace t] g' ↔ g' = t.draw g := by
  have hoverlay : t.draw g = g.overlay ([t].map (Trace.draw g)) :=
    Trace.foldl_draw_eq_overlay g [t]
  have hrun := @run_ofTrace_iff width height g g' [t]
  rw [hoverlay]
  exact hrun

end Shard

end ZeroCurve
