import Letrec.Evaluation.Run
import Mathlib.Order.Defs.PartialOrder

/-!
# What single actions of a run do

`runFrom` runs an action from a given usage. Each action of the evaluator has one equation for it;
entering an expression is split into counting the step (`Usage.count`) and finding a reason not to
take it (`halt?`). Usages are ordered by what a run can only add to.
-/

namespace Letrec

-- ---------------------------------------------------------------------------
-- Usages
-- ---------------------------------------------------------------------------

namespace Usage

def note (u : Usage) (setup : Setup) (what : Happening) (span : Option Span) : Usage :=
  if setup.tracing then { u with events := u.events.push ⟨what, setup.runId, span⟩ } else u

/-- The usage after the last event of a body that ended in `r`; without fuel there is no end
to report. -/
def close (u : Usage) (setup : Setup) (what : Happening) (span : Option Span) :
    Except Failure α → Usage
  | .error .outOfFuel => u
  | _ => u.note setup what span

@[simp] theorem count_steps (u : Usage) : (u.count depth).steps = u.steps + 1 := rfl
@[simp] theorem count_maxDepth (u : Usage) : (u.count depth).maxDepth = max u.maxDepth depth := rfl
@[simp] theorem count_events (u : Usage) : (u.count depth).events = u.events := rfl

@[simp] theorem note_steps (u : Usage) : (u.note setup what span).steps = u.steps := by
  unfold note; split <;> rfl

@[simp] theorem note_maxDepth (u : Usage) : (u.note setup what span).maxDepth = u.maxDepth := by
  unfold note; split <;> rfl

theorem note_events (u : Usage) : (u.note setup what span).events.toList =
    u.events.toList ++ if setup.tracing then [⟨what, setup.runId, span⟩] else [] := by
  unfold note; split <;> simp_all

theorem close_cases (u : Usage) (r : Except Failure α) :
    r = .error .outOfFuel ∧ u.close setup what span r = u ∨
      r ≠ .error .outOfFuel ∧ u.close setup what span r = u.note setup what span := by
  unfold close
  split
  · exact .inl ⟨rfl, rfl⟩
  · rename_i h
    exact .inr ⟨h, rfl⟩

@[simp] theorem close_steps (u : Usage) (r : Except Failure α) :
    (u.close setup what span r).steps = u.steps := by
  unfold close; split <;> simp

@[simp] theorem close_maxDepth (u : Usage) (r : Except Failure α) :
    (u.close setup what span r).maxDepth = u.maxDepth := by
  unfold close; split <;> simp

/-- A usage lies below another if a run can go on from it to the other: counters grow and events are
added at the end. -/
instance : Preorder Usage where
  le u v := u.steps ≤ v.steps ∧ u.maxDepth ≤ v.maxDepth ∧ u.events.toList <+: v.events.toList
  le_refl u := ⟨Nat.le_refl _, Nat.le_refl _, List.prefix_refl _⟩
  le_trans _ _ _ h h' := ⟨Nat.le_trans h.1 h'.1, Nat.le_trans h.2.1 h'.2.1, h.2.2.trans h'.2.2⟩

theorem le_steps {u v : Usage} (h : u ≤ v) : u.steps ≤ v.steps := h.1
theorem le_maxDepth {u v : Usage} (h : u ≤ v) : u.maxDepth ≤ v.maxDepth := h.2.1
theorem le_events {u v : Usage} (h : u ≤ v) : u.events.toList <+: v.events.toList := h.2.2

theorem le_count (u : Usage) : u ≤ u.count depth :=
  ⟨Nat.le_succ _, Nat.le_max_left _ _, List.prefix_refl _⟩

theorem le_note (u : Usage) : u ≤ u.note setup what span :=
  ⟨by simp, by simp, by rw [note_events]; exact List.prefix_append _ _⟩

theorem le_close (u : Usage) (r : Except Failure α) : u ≤ u.close setup what span r := by
  unfold close
  split
  · exact le_refl u
  · exact u.le_note

end Usage

namespace Run

-- ---------------------------------------------------------------------------
-- Actions from a usage
-- ---------------------------------------------------------------------------

def runFrom (m : Run α) (u : Usage) : Except Failure α × Usage := m.run.run u

@[simp] theorem runFrom_pure : (pure a : Run α).runFrom u = (.ok a, u) := rfl

@[simp] theorem runFrom_throw : (throw f : Run α).runFrom u = (.error f, u) := rfl

@[simp] theorem runFrom_get : (get : Run Usage).runFrom u = (.ok u, u) := rfl

theorem runFrom_bind {m : Run α} {k : α → Run β} : (m >>= k).runFrom u =
    match m.runFrom u with
    | (.ok a, v) => (k a).runFrom v
    | (.error f, v) => (.error f, v) := by
  simp only [runFrom, ExceptT.run_bind, StateT.run_bind]
  rcases m.run.run u with ⟨f | a, v⟩ <;> rfl

theorem runFrom_bind_ok {m : Run α} {k : α → Run β} (h : m.runFrom u = (.ok a, v)) :
    (m >>= k).runFrom u = (k a).runFrom v := by
  rw [runFrom_bind, h]

theorem runFrom_bind_error {m : Run α} {k : α → Run β} (h : m.runFrom u = (.error f, v)) :
    (m >>= k).runFrom u = (.error f, v) := by
  rw [runFrom_bind, h]

@[simp] theorem runFrom_emit :
    (emit setup what span).runFrom u = (.ok (), u.note setup what span) := by
  unfold emit Usage.note
  split <;> rfl

@[simp] theorem runFrom_conclude {r : Except Failure α} : (conclude r).runFrom u = (r, u) := by
  cases r <;> rfl

@[simp] theorem runFrom_located {r : Except Failure α} :
    (located place r).runFrom u = (r.mapError (Failure.located place), u) := by
  cases r <;> rfl

theorem runFrom_attempt {body : Run α} : (attempt body).runFrom u =
    match body.runFrom u with
    | (.error .outOfFuel, v) => (.error .outOfFuel, v)
    | (r, v) => (.ok r, v) := by
  simp only [runFrom, attempt]
  rcases h : body.run.run u with ⟨f | a, v⟩
  · cases f <;> simp [h] <;> rfl
  · simp [h]; rfl

theorem runFrom_bracket {body : Run α} :
    (do emit setup first span
        let r ← attempt body
        emit setup last span
        conclude r : Run α).runFrom u =
      ((body.runFrom (u.note setup first span)).1,
        (body.runFrom (u.note setup first span)).2.close setup last span
          (body.runFrom (u.note setup first span)).1) := by
  rw [runFrom_bind_ok runFrom_emit, runFrom_bind, runFrom_attempt]
  rcases body.runFrom (u.note setup first span) with ⟨f | a, v⟩
  · cases f <;> simp [runFrom_bind, Usage.close]
  · simp [runFrom_bind, Usage.close]

theorem runFrom_call (h : body.runFrom (u.note setup (.callStart param depth) span) = (r, v)) :
    (call setup param depth span body).runFrom u =
      (r, v.close setup (.callEnd param depth) span r) := by
  rw [call, runFrom_bracket, h]

-- ---------------------------------------------------------------------------
-- Entering an expression
-- ---------------------------------------------------------------------------

namespace Halt

def failure (span : Option Span) : Halt → Failure
  | .exceeded limit bound => .exceeded limit bound span
  | .cancelled => .cancelled

def note (setup : Setup) (span : Option Span) (u : Usage) : Halt → Usage
  | .exceeded limit _ => u.note setup (.budgetExceeded limit) span
  | .cancelled => u

@[simp] theorem note_steps (halt : Halt) (u : Usage) :
    (halt.note setup span u).steps = u.steps := by
  cases halt <;> simp [Halt.note]

@[simp] theorem note_maxDepth (halt : Halt) (u : Usage) :
    (halt.note setup span u).maxDepth = u.maxDepth := by
  cases halt <;> simp [Halt.note]

theorem failure_ne_outOfFuel (halt : Halt) : halt.failure span ≠ .outOfFuel := by
  cases halt <;> exact nofun

theorem le_note (halt : Halt) : u ≤ halt.note setup span u := by
  cases halt with
  | exceeded => exact u.le_note
  | cancelled => exact le_refl u

end Halt

theorem passed?_eq_none : passed? limit bound used = none ↔ ∀ b ∈ bound, (used : Int) ≤ b := by
  cases bound <;> simp [passed?]

theorem passed?_eq_some : passed? limit bound used = some halt ↔
    ∃ b ∈ bound, b < (used : Int) ∧ halt = .exceeded limit b := by
  cases bound <;> simp [passed?, eq_comm]

theorem halt?_eq_none {setup : Setup} : halt? setup depth u = none ↔
    (∀ m ∈ setup.limits.maxSteps, (u.steps : Int) ≤ m) ∧
    (∀ d ∈ setup.limits.maxDepth, (depth : Int) ≤ d) ∧ interruption? setup u = none := by
  rw [halt?, Option.or_eq_none_iff, Option.or_eq_none_iff, passed?_eq_none,
    passed?_eq_none, and_assoc]

theorem interruption?_eq_none (htime : setup.limits.timeMs = none)
    (hcancel : ∀ step events, setup.cancelled step events = false) :
    interruption? setup u = none := by
  simp [interruption?, isCancelled, htime, hcancel]

@[simp] theorem runFrom_modify {g : Usage → Usage} :
    (modify g : Run Unit).runFrom u = (.ok (), g u) := rfl

@[simp] theorem runFrom_exceed : (exceed setup limit bound span : Run α).runFrom u =
    (.error (.exceeded limit bound span), u.note setup (.budgetExceeded limit) span) := by
  rw [exceed, runFrom_bind_ok runFrom_emit, runFrom_throw]

theorem runFrom_enter : (enter setup depth e).runFrom u =
    match halt? setup depth (u.count depth) with
    | none => (.ok (), u.count depth)
    | some halt =>
      (.error (halt.failure e.span.known?), halt.note setup e.span.known? (u.count depth)) := by
  rw [enter, runFrom_bind_ok runFrom_modify, runFrom_bind_ok runFrom_get]
  cases halt? setup depth (u.count depth) with
  | none => rfl
  | some halt => cases halt <;> simp [Halt.failure, Halt.note]

theorem execute_eq (h : (Run.eval setup fuel 0 e env.orEmpty).runFrom
    (Usage.note {} setup .runStart e.span.known?) = (r, u)) :
    execute setup fuel e env = ⟨r, u.close setup .runEnd e.span.known? r⟩ := by
  have hrun : (do
      emit setup .runStart e.span.known?
      let r ← attempt (Run.eval setup fuel 0 e env.orEmpty)
      emit setup .runEnd e.span.known?
      conclude r : Run Value).runFrom {} = (r, u.close setup .runEnd e.span.known? r) := by
    rw [runFrom_bracket, h]
  exact congrArg (fun x : Except Failure Value × Usage => Outcome.mk x.1 x.2) hrun

theorem execute_result : (execute setup fuel e env).result =
    ((Run.eval setup fuel 0 e env.orEmpty).runFrom
      (Usage.note {} setup .runStart e.span.known?)).1 := by
  exact congrArg Outcome.result (execute_eq rfl)

end Run

end Letrec
