import Letrec.Proofs.Evaluation.Linked
import Letrec.Proofs.Evaluation.Lockstep
import Mathlib.Algebra.Group.Nat.Defs

/-!
# Limits force an end

A run that runs out of fuel is nested as deep as the fuel (`fuel_le_maxDepth`), and is nested no
deeper than it has steps (`maxDepth_le_steps`). So a limit on either of them bounds the fuel that a
run can use, and the run ends. Under a limit on the depth alone the steps are bounded by the size of
a full tree in which every evaluation has three below it: operator, operand and body of a call.
-/

namespace Letrec

namespace Run

variable {setup : Setup}

-- ---------------------------------------------------------------------------
-- One level of nesting
-- ---------------------------------------------------------------------------

section
variable {I : Nat → Nat → Nat → Prop} {E : Failure → Nat → Nat → Prop}

/-- What one level of nesting does to the numbers of steps and of levels: `I n` holds of them with
`n` evaluations to go, and `E` at a failure. -/
theorem eval_counters {fuel depth : Nat} {u : Usage}
    (hhalt : ∀ halt, halt? setup (depth + 1) (u.count (depth + 1)) = some halt →
      E (halt.failure e.span.known?) (u.steps + 1) (max u.maxDepth (depth + 1)))
    (hstep : halt? setup (depth + 1) (u.count (depth + 1)) = none →
      I 3 (u.steps + 1) (max u.maxDepth (depth + 1)) ∧
      ∀ n e env v, I (n + 1) v.steps v.maxDepth → Triple (eval setup fuel (depth + 1) e env) v
        (fun _ w => v ≤ w → I n w.steps w.maxDepth) (fun f w => v ≤ w → E f w.steps w.maxDepth))
    (hless : ∀ n s d, I (n + 1) s d → I n s d) (hfail : ∀ n f s d, f.OfProgram →
      I n s d → E f s d) :
    Triple (eval setup (fuel + 1) depth e env) u (fun _ v => I 0 v.steps v.maxDepth)
      (fun f v => E f v.steps v.maxDepth) := by
  rw [Triple, runFrom_eval_succ]
  cases h : halt? setup (depth + 1) (u.count (depth + 1)) with
  | some halt => simpa using hhalt halt h
  | none =>
    obtain ⟨hstart, hev⟩ := hstep h
    refine carryOut_triple (I := fun n v => I n v.steps v.maxDepth)
      (E := fun f v => E f v.steps v.maxDepth)
      ?_ (fun n v => hless n _ _) (fun _ _ _ _ h => by simpa using h)
        (fun _ _ _ _ _ h => by simpa using h)
      (fun n f v => hfail n f _ _) plan_atMost hstart
    intro n e env v hv
    have hle : v ≤ ((eval setup fuel (depth + 1) e env).runFrom v).2 := le_eval
    rcases hr : (eval setup fuel (depth + 1) e env).runFrom v with ⟨f | a, w⟩ <;> rw [hr] at hle
    · exact .of_error hr ((hev n e env v hv).error hr hle)
    · exact .of_ok hr ((hev n e env v hv).ok hr hle)

end

-- ---------------------------------------------------------------------------
-- Nesting
-- ---------------------------------------------------------------------------

theorem eval_nesting : Triple (eval setup fuel depth e env) u
    (fun _ v => v.maxDepth ≤ max u.maxDepth (depth + (v.steps - u.steps)))
    (fun _ v => v.maxDepth ≤ max u.maxDepth (depth + (v.steps - u.steps))) := by
  induction fuel generalizing depth e env u with
  | zero => exact .of_error runFrom_throw (Nat.le_max_left _ _)
  | succ fuel ih =>
    refine .mono (eval_counters
      (I := fun _ s d => u.steps < s ∧ d ≤ max u.maxDepth (depth + (s - u.steps)))
      (E := fun _ s d => u.steps < s ∧ d ≤ max u.maxDepth (depth + (s - u.steps)))
      (fun _ _ => by omega) (fun _ => ⟨by omega, fun n e env v hv => ?_⟩) (fun _ _ _ h => h)
      (fun _ _ _ _ _ h => h)) (fun _ _ h => h.2) (fun _ _ h => h.2)
    refine ih.mono ?_ ?_ <;> intro _ w hw hle <;> have := Usage.le_steps hle <;> omega

theorem eval_shallow : Triple (eval setup fuel depth e env) u
    (fun _ v => v.maxDepth ≤ max u.maxDepth (depth + fuel))
    (fun _ v => v.maxDepth ≤ max u.maxDepth (depth + fuel)) := by
  induction fuel generalizing depth e env u with
  | zero => exact .of_error runFrom_throw (Nat.le_max_left _ _)
  | succ fuel ih =>
    refine .mono (eval_counters
      (I := fun _ _ d => d ≤ max u.maxDepth (depth + (fuel + 1)))
      (E := fun _ _ d => d ≤ max u.maxDepth (depth + (fuel + 1)))
      (fun _ _ => by omega) (fun _ => ⟨by omega, fun n e env v hv => ?_⟩) (fun _ _ _ h => h)
      (fun _ _ _ _ _ h => h)) (fun _ _ h => h) (fun _ _ h => h)
    exact ih.mono (fun _ w hw _ => by omega) (fun _ w hw _ => by omega)

theorem eval_outOfFuel (hu : depth ≤ u.maxDepth) : Triple (eval setup fuel depth e env) u
    (fun _ _ => True) (fun f v => f = .outOfFuel → depth + fuel ≤ v.maxDepth) := by
  induction fuel generalizing depth e env u with
  | zero => exact .of_error runFrom_throw fun _ => hu
  | succ fuel ih =>
    refine .mono (eval_counters
      (I := fun _ _ d => depth + 1 ≤ d) (E := fun f _ d => f = .outOfFuel → depth + (fuel + 1) ≤ d)
      (fun halt _ h => absurd h halt.failure_ne_outOfFuel)
        (fun _ => ⟨by omega, fun n e env v hv => ?_⟩)
      (fun _ _ _ h => h) (fun _ _ _ _ hf _ h => by subst h; exact hf.elim))
      (fun _ _ _ => trivial) (fun _ _ h => h)
    refine (ih hv).mono (fun _ w _ hle => ?_) (fun _ w hw _ hf => ?_)
    · exact Nat.le_trans hv (Usage.le_maxDepth hle)
    · have := hw hf
      omega

-- ---------------------------------------------------------------------------
-- Limits
-- ---------------------------------------------------------------------------

/-- One step may pass the limit on steps, and then the run is over. -/
theorem eval_steps (hm : setup.limits.maxSteps = some m) : Triple (eval setup fuel depth e env) u
    (fun _ v => (v.steps : Int) ≤ m)
    (fun f v => v.steps ≤ max u.steps m.toNat + if f = .outOfFuel then 0 else 1) := by
  induction fuel generalizing depth e env u with
  | zero => exact .of_error runFrom_throw (Nat.le_max_left _ _)
  | succ fuel ih =>
    refine .mono (eval_counters
      (I := fun _ s _ => (s : Int) ≤ m)
      (E := fun f s _ => s ≤ max u.steps m.toNat + if f = .outOfFuel then 0 else 1)
      (fun halt _ => ?_) (fun h => ⟨?_, fun n e env v hv => ?_⟩) (fun _ _ _ h => h)
      (fun _ _ _ _ _ h => by omega)) (fun _ _ h => h) (fun _ _ h => h)
    · rw [if_neg halt.failure_ne_outOfFuel]
      omega
    · exact (halt?_eq_none.mp h).1 m hm
    · exact ih.mono (fun _ w hw _ => hw) (fun _ w hw _ => by omega)

theorem eval_depth (hd : setup.limits.maxDepth = some d) (hdepth : depth ≤ d.toNat) :
    Triple (eval setup fuel depth e env) u
      (fun _ v => 0 < d ∧ v.maxDepth ≤ max u.maxDepth d.toNat)
      (fun f v => v.maxDepth ≤ max u.maxDepth (d.toNat + if f = .outOfFuel then 0 else 1)) := by
  induction fuel generalizing depth e env u with
  | zero => exact .of_error runFrom_throw (Nat.le_max_left _ _)
  | succ fuel ih =>
    refine .mono (eval_counters
      (I := fun _ _ k => (depth + 1 : Int) ≤ d ∧ k ≤ max u.maxDepth d.toNat)
      (E := fun f _ k => k ≤ max u.maxDepth (d.toNat + if f = .outOfFuel then 0 else 1))
      (fun halt _ => ?_) (fun h => ?_) (fun _ _ _ h => h) (fun _ _ _ _ _ h => by omega))
      (fun _ _ h => by omega) (fun _ _ h => h)
    · rw [if_neg halt.failure_ne_outOfFuel]
      omega
    · have hlevel := (halt?_eq_none.mp h).2.1 d hd
      refine ⟨by omega, fun n e env v hv => ?_⟩
      exact (ih (by omega)).mono (fun _ w hw _ => by omega) (fun _ w hw _ => by omega)

/-- The number of nodes of a tree of the given height in which each node has three below it. -/
def treeSize : Nat → Nat
  | 0 => 0
  | height + 1 => 3 * treeSize height + 1

theorem treeSize_eq (height : Nat) : treeSize height = (3 ^ height - 1) / 2 := by
  have h : 2 * treeSize height + 1 = 3 ^ height := by
    induction height with
    | zero => rfl
    | succ height ih => rw [treeSize, Nat.pow_succ, ← ih]; omega
  omega

/-- Under a limit on depth the evaluations below an expression are nodes of a tree of limited
height, save for one that passes the limit. -/
theorem eval_tree (hd : setup.limits.maxDepth = some d) (hdepth : depth ≤ d.toNat) :
    Triple (eval setup fuel depth e env) u
      (fun _ v => v.steps ≤ u.steps + treeSize (d.toNat - depth))
      (fun _ v => v.steps ≤ u.steps + treeSize (d.toNat - depth) + 1) := by
  induction fuel generalizing depth e env u with
  | zero => exact .of_error runFrom_throw (by omega)
  | succ fuel ih =>
    -- Each of the `n` evaluations to go may still take the steps of a tree of one level less.
    let below := treeSize (d.toNat - (depth + 1))
    have hbelow : depth < d.toNat → treeSize (d.toNat - depth) = 3 * below + 1 := fun h => by
      rw [show d.toNat - depth = d.toNat - (depth + 1) + 1 by omega, treeSize]
    refine .mono (eval_counters
      (I := fun n s _ => s + n * below ≤ u.steps + treeSize (d.toNat - depth))
      (E := fun _ s _ => s ≤ u.steps + treeSize (d.toNat - depth) + 1)
      (fun _ _ => by omega) (fun h => ?_) (fun n s _ h => ?_) (fun _ _ _ _ _ h => by omega))
      (fun _ _ h => by omega) (fun _ _ h => h)
    · have hlevel := (halt?_eq_none.mp h).2.1 d hd
      have hsize := hbelow (by omega)
      refine ⟨by omega, fun n e env v hv => ?_⟩
      rw [Nat.add_mul] at hv
      exact (ih (by omega)).mono (fun _ w hw _ => by omega) (fun _ w hw _ => by omega)
    · rw [Nat.add_mul] at h
      omega

end Run

-- ---------------------------------------------------------------------------
-- Whole runs
-- ---------------------------------------------------------------------------

theorem execute_counters (setup : Setup) (fuel : Nat) (e : Expr) (env : Env)
    {Q : Nat → Nat → Prop} {E : Failure → Nat → Nat → Prop}
    (h : ∀ u, u.steps = 0 → u.maxDepth = 0 → Run.Triple (Run.eval setup fuel 0 e env.orEmpty) u
      (fun _ v => Q v.steps v.maxDepth) (fun f v => E f v.steps v.maxDepth)) :
    let o := execute setup fuel e env
    (∀ v, o.result = .ok v → Q o.usage.steps o.usage.maxDepth) ∧
      ∀ f, o.result = .error f → E f o.usage.steps o.usage.maxDepth := by
  have htriple := h (Usage.note {} setup .runStart e.span.known?) (by simp) (by simp)
  rcases hr : (Run.eval setup fuel 0 e env.orEmpty).runFrom
    (Usage.note {} setup .runStart e.span.known?) with ⟨f | v, u⟩ <;> rw [Run.execute_eq hr]
  · refine ⟨fun _ h => (nomatch h), fun f h => ?_⟩
    cases h
    simpa using htriple.error hr
  · refine ⟨fun v h => ?_, fun _ h => (nomatch h)⟩
    simpa using htriple.ok hr

theorem maxDepth_le_steps (setup : Setup) (fuel : Nat) (e : Expr) (env : Env) :
    (execute setup fuel e env).usage.maxDepth ≤ (execute setup fuel e env).usage.steps := by
  obtain ⟨hok, herror⟩ := execute_counters setup fuel e env (Q := fun s d => d ≤ s)
    (E := fun _ s d => d ≤ s) fun u hs hd =>
      Run.eval_nesting.mono (fun _ v hv => by omega) (fun _ v hv => by omega)
  cases hr : (execute setup fuel e env).result with
  | ok v => exact hok v hr
  | error f => exact herror f hr

theorem fuel_le_maxDepth (h : (execute setup fuel e env).result = .error .outOfFuel) :
    fuel ≤ (execute setup fuel e env).usage.maxDepth := by
  obtain ⟨_, herror⟩ := execute_counters setup fuel e env (Q := fun _ _ => True)
    (E := fun f _ d => f = .outOfFuel → fuel ≤ d) fun u hs hd =>
      (Run.eval_outOfFuel (by omega)).mono (fun _ _ _ => trivial)
        (fun _ v hv hf => by have := hv hf; omega)
  exact herror .outOfFuel h rfl

theorem execute_steps (setup : Setup) (fuel : Nat) (e : Expr) (env : Env)
    (hm : setup.limits.maxSteps = some m) :
    let o := execute setup fuel e env
    (∀ v, o.result = .ok v → (o.usage.steps : Int) ≤ m) ∧
      ∀ f, o.result = .error f → o.usage.steps ≤ m.toNat + if f = .outOfFuel then 0 else 1 :=
  execute_counters setup fuel e env (Q := fun s _ => (s : Int) ≤ m)
    (E := fun f s _ => s ≤ m.toNat + if f = .outOfFuel then 0 else 1) fun u hs _ =>
      (Run.eval_steps hm).mono (fun _ _ h => h) (fun _ v hv => by omega)

theorem execute_steps_le (setup : Setup) (fuel : Nat) (e : Expr) (env : Env)
    (hm : setup.limits.maxSteps = some m) :
    (execute setup fuel e env).usage.steps ≤ m.toNat + 1 := by
  obtain ⟨hok, herror⟩ := execute_steps setup fuel e env hm
  cases hr : (execute setup fuel e env).result with
  | ok v => have := hok v hr; omega
  | error f => have := herror f hr; split at this <;> omega

theorem execute_depth (setup : Setup) (fuel : Nat) (e : Expr) (env : Env)
    (hd : setup.limits.maxDepth = some d) :
    let o := execute setup fuel e env
    (∀ v, o.result = .ok v → 0 < d ∧ o.usage.maxDepth ≤ d.toNat) ∧
      ∀ f, o.result = .error f → o.usage.maxDepth ≤ d.toNat + if f = .outOfFuel then 0 else 1 :=
  execute_counters setup fuel e env (Q := fun _ k => 0 < d ∧ k ≤ d.toNat)
    (E := fun f _ k => k ≤ d.toNat + if f = .outOfFuel then 0 else 1) fun u _ hu =>
      (Run.eval_depth hd (Nat.zero_le _)).mono (fun _ v hv => by omega) (fun _ v hv => by omega)

theorem execute_depth_le (setup : Setup) (fuel : Nat) (e : Expr) (env : Env)
    (hd : setup.limits.maxDepth = some d) :
    (execute setup fuel e env).usage.maxDepth ≤ d.toNat + 1 := by
  obtain ⟨hok, herror⟩ := execute_depth setup fuel e env hd
  cases hr : (execute setup fuel e env).result with
  | ok v => have := hok v hr; omega
  | error f => have := herror f hr; split at this <;> omega

theorem execute_tree (setup : Setup) (fuel : Nat) (e : Expr) (env : Env)
    (hd : setup.limits.maxDepth = some d) :
    (execute setup fuel e env).usage.steps ≤ Run.treeSize d.toNat + 1 := by
  obtain ⟨hok, herror⟩ :=
    execute_counters setup fuel e env (Q := fun s _ => s ≤ Run.treeSize d.toNat + 1)
    (E := fun _ s _ => s ≤ Run.treeSize d.toNat + 1) fun u hs _ =>
      (Run.eval_tree hd (Nat.zero_le _)).mono (fun _ v hv => by simp at hv; omega)
        (fun _ v hv => by simp at hv; omega)
  cases hr : (execute setup fuel e env).result with
  | ok v => exact hok v hr
  | error f => exact herror f hr

theorem executeWithin_ends (setup : Setup) (e : Expr) (env : Env)
    (h : setup.limits.maxSteps ≠ none ∨ setup.limits.maxDepth ≠ none) :
    Ends setup e env (executeWithin setup e env) := by
  refine ⟨fun hout => ?_, _, rfl⟩
  have hfuel := fuel_le_maxDepth hout
  have hdeep := maxDepth_le_steps setup setup.limits.fuel e env
  cases hm : setup.limits.maxSteps with
  | none =>
    cases hd : setup.limits.maxDepth with
    | none => simp [hm, hd] at h
    | some d =>
      have hlimit := (execute_depth setup setup.limits.fuel e env hd).2 _ hout
      simp only [Limits.fuel, hm, hd, if_true] at hfuel hlimit
      omega
  | some m =>
    have hsteps := (execute_steps setup setup.limits.fuel e env hm).2 _ hout
    cases hd : setup.limits.maxDepth with
    | none =>
      simp only [Limits.fuel, hm, hd, if_true] at hfuel hdeep hsteps
      omega
    | some d =>
      have hlimit := (execute_depth setup setup.limits.fuel e env hd).2 _ hout
      simp only [Limits.fuel, hm, hd, if_true] at hfuel hdeep hsteps hlimit
      omega

-- ---------------------------------------------------------------------------
-- Either limit
-- ---------------------------------------------------------------------------

/-- Either limit alone forces an end. -/
theorem limit_forces_end (setup : Setup) (e : Expr) (env : Env) :
    let o := executeWithin setup e env
    (∀ m, setup.limits.maxSteps = some m →
      Ends setup e env o ∧ (o.usage.steps : Int) ≤ max m 0 + 1 ∧
      ∀ v, o.result = .ok v → (o.usage.steps : Int) ≤ m) ∧
    (∀ d, setup.limits.maxDepth = some d →
      Ends setup e env o ∧ (o.usage.maxDepth : Int) ≤ max d 0 + 1 ∧
      o.usage.steps ≤ (3 ^ (max d 0).toNat - 1) / 2 + 1 ∧
      ∀ v, o.result = .ok v → (o.usage.maxDepth : Int) ≤ d) ∧
    (env.Linked → o.result ≠ .error .noEnvironment) ∧
    ∀ o', Ends setup e env o' → o'.usage.maxDepth ≤ o'.usage.steps := by
  intro o
  refine ⟨fun m hm => ?_, fun d hd => ?_, execute_ne_noEnvironment setup _ e, ?_⟩
  · have hle : o.usage.steps ≤ m.toNat + 1 := execute_steps_le setup _ e env hm
    refine ⟨executeWithin_ends setup e env (.inl (by simp [hm])), by omega, ?_⟩
    exact (execute_steps setup _ e env hm).1
  · have hle : o.usage.maxDepth ≤ d.toNat + 1 := execute_depth_le setup _ e env hd
    have htree : o.usage.steps ≤ Run.treeSize d.toNat + 1 := execute_tree setup _ e env hd
    refine ⟨executeWithin_ends setup e env (.inr (by simp [hd])), by omega, ?_, fun v hr => ?_⟩
    · rwa [show (max d 0).toNat = d.toNat by omega, ← Run.treeSize_eq]
    · obtain ⟨hpos, hdeep⟩ : 0 < d ∧ o.usage.maxDepth ≤ d.toNat :=
        (execute_depth setup _ e env hd).1 v hr
      omega
  · rintro o' ⟨_, fuel, rfl⟩
    exact maxDepth_le_steps setup fuel e env

/-- `letrec f(x) = (f x) in (f 0)` calls itself for ever without a limit. -/
theorem limit_forces_end_loop :
    let e : Expr := .letRec default "f" "x" (.call default (.var default "f") (.var default "x"))
      (.call default (.var default "f") (.const default 0))
    let setup : Setup := { limits := { maxSteps := some 10, maxDepth := some 4 } }
    let o := executeWithin setup e .empty
    Ends setup e .empty o ∧ o.usage.steps ≤ 11 ∧ o.usage.maxDepth ≤ 5 ∧ o.usage.steps ≤ 41 ∧
      o.result ≠ .error .noEnvironment ∧ o.usage.maxDepth ≤ o.usage.steps := by
  intro e setup o
  obtain ⟨hsteps, hdepth, henv, hnested⟩ := limit_forces_end setup e .empty
  obtain ⟨hends, hsteps, _⟩ := hsteps 10 rfl
  obtain ⟨_, hdepth, htree, _⟩ := hdepth 4 rfl
  exact ⟨hends, Int.ofNat_le.mp hsteps, Int.ofNat_le.mp hdepth, htree, henv trivial,
    hnested o hends⟩

end Letrec
