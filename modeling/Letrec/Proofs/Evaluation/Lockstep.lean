import Letrec.Proofs.Evaluation.Plan

/-!
# Two runs in lockstep

Two runs of one expression, under different setups or on different fuel, do the same until one of
them is cut short. `Lockstep` is what is asked of the two setups, and `Lockstep.execute` what
follows for whole runs. Its first use is fuel: more of it changes nothing but where a run is cut
short, so that `Ends`, which says how a run ends, leaves it out.
-/

namespace Letrec

namespace Run

/-- From `u` both actions do the same and keep `I`, or the first one fails where the second
goes on. -/
def Tracks (I : Usage → Prop) (Cut : Failure → Usage → Usage → Prop) (m m' : Run α)
    (u : Usage) : Prop :=
  (∃ r v, m.runFrom u = (r, v) ∧ m'.runFrom u = (r, v) ∧ I v) ∨
    ∃ f v, m.runFrom u = (.error f, v) ∧ Cut f v (m'.runFrom u).2

/-- Two setups under which runs do the same until the first one is cut short. `Cut f v w` tells how:
it fails with `f` and leaves `v`, while the other has come to `w`. -/
structure Lockstep (I : Usage → Prop) (Cut : Failure → Usage → Usage → Prop)
    (setup setup' : Setup) : Prop where
  run : setup'.run = setup.run
  tracing : setup'.tracing = setup.tracing
  runId : setup'.runId = setup.runId
  enter : ∀ depth e u, I u → Tracks I Cut (enter setup depth e) (enter setup' depth e) u
  note : ∀ u what span, (∀ limit, what ≠ .budgetExceeded limit) → I u → I (u.note setup what span)
  cutNote : ∀ f v w what span, f ≠ .outOfFuel → Cut f v w → Cut f (v.note setup what span) w
  cutLe : ∀ f v w w', w ≤ w' → Cut f v w → Cut f v w'

variable {I : Usage → Prop} {Cut : Failure → Usage → Usage → Prop}
    {setup setup' : Setup} {u : Usage}

theorem Tracks.bind {m m' : Run α} {k k' : α → Run β} (h : Tracks I Cut m m' u)
    (hcut : ∀ f v w w', w ≤ w' → Cut f v w → Cut f v w')
    (hle : ∀ a v, v ≤ ((k' a).runFrom v).2)
    (hk : ∀ a v, I v → Tracks I Cut (k a) (k' a) v) : Tracks I Cut (m >>= k) (m' >>= k') u := by
  rcases h with ⟨r, v, hm, hm', hv⟩ | ⟨f, v, hm, hc⟩
  · cases r with
    | error f => exact .inl ⟨.error f, v, runFrom_bind_error hm, runFrom_bind_error hm', hv⟩
    | ok a =>
      rw [Tracks, runFrom_bind_ok hm, runFrom_bind_ok hm']
      exact hk a v hv
  · -- The first action is over here; whatever the second one does next is added to its usage.
    refine .inr ⟨f, v, runFrom_bind_error hm, ?_⟩
    rcases hr : m'.runFrom u with ⟨f' | a, w⟩ <;> rw [hr] at hc
    · rwa [runFrom_bind_error hr]
    · rw [runFrom_bind_ok hr]
      exact hcut f v w _ (hle a w) hc

namespace Lockstep

theorem note_eq (h : Lockstep I Cut setup setup') :
    u.note setup' what span = u.note setup what span := by
  rw [Usage.note, Usage.note, h.tracing, h.runId]

theorem close_eq {r : Except Failure α} (h : Lockstep I Cut setup setup') :
    u.close setup' what span r = u.close setup what span r := by
  unfold Usage.close
  split
  · rfl
  · exact h.note_eq

theorem close (h : Lockstep I Cut setup setup') {m m' : Run α} (hm : Tracks I Cut m m' u)
    (what : Happening) (span : Option Span) (hwhat : ∀ limit, what ≠ .budgetExceeded limit) :
    (∃ r v, m.runFrom u = (r, v) ∧ m'.runFrom u = (r, v) ∧ I (v.close setup what span r)) ∨
    ∃ f v r' w, m.runFrom u = (.error f, v) ∧ m'.runFrom u = (r', w) ∧
      Cut f (v.close setup what span (.error f : Except Failure α))
        (w.close setup' what span r') := by
  rcases hm with ⟨r, v, hm, hm', hv⟩ | ⟨f, v, hm, hc⟩
  · refine .inl ⟨r, v, hm, hm', ?_⟩
    rcases v.close_cases r with ⟨_, hclose⟩ | ⟨_, hclose⟩ <;> rw [hclose]
    · exact hv
    · exact h.note v what span hwhat hv
  · refine .inr ⟨f, v, _, _, hm, rfl, h.cutLe _ _ _ _ (Usage.le_close _ _) ?_⟩
    rcases v.close_cases (.error f : Except Failure α) with ⟨_, hclose⟩ |
      ⟨hf, hclose⟩ <;> rw [hclose]
    · exact hc
    · exact h.cutNote f v _ what span (fun hf' => hf (congrArg _ hf')) hc

theorem carryOut (h : Lockstep I Cut setup setup') {p : Plan}
    (hle : ∀ e env u, u ≤ ((ev' e env).runFrom u).2)
    (hev : ∀ e env u, I u → Tracks I Cut (ev e env) (ev' e env) u) (hu : I u) :
    Tracks I Cut (p.carryOut setup depth ev) (p.carryOut setup' depth ev') u := by
  induction p generalizing u with
  | done r => exact .inl ⟨r, u, runFrom_conclude, runFrom_conclude, hu⟩
  | bound name param span rest ih =>
    refine .bind (.inl ⟨.ok (), _, runFrom_emit, ?_, h.note u _ span (fun _ => nofun) hu⟩) h.cutLe
      (fun _ _ => le_carryOut hle) (fun _ _ hv => ih hv)
    rw [runFrom_emit, h.note_eq]
  | operand e env rest ih =>
    exact .bind (hev e env u hu) h.cutLe (fun _ _ => le_carryOut hle) (fun a v hv => ih a hv)
  | body param span e env =>
    have hbody := hev e env _ (h.note u (.callStart param depth) span (fun _ => nofun) hu)
    rcases h.close hbody (.callEnd param depth) span (fun _ => nofun) with
      ⟨r, v, hm, hm', hv⟩ | ⟨f, v, r', w, hm, hm', hc⟩
    · refine .inl ⟨r, _, runFrom_call hm, ?_, hv⟩
      rw [← h.note_eq] at hm'
      rw [Plan.carryOut, runFrom_call hm', h.close_eq]
    · refine .inr ⟨f, _, runFrom_call hm, ?_⟩
      rw [← h.note_eq] at hm'
      rwa [Plan.carryOut, runFrom_call hm']

/-- The first run may have less fuel if running out of it is a way to be cut short. -/
theorem eval (h : Lockstep I Cut setup setup') (hu : I u)
    (hfuel : fuel = fuel' ∨ fuel ≤ fuel' ∧ ∀ u w, u ≤ w → I u → Cut .outOfFuel u w) :
    Tracks I Cut (eval setup fuel depth e env) (eval setup' fuel' depth e env) u := by
  induction fuel generalizing fuel' depth e env u with
  | zero =>
    rcases hfuel with rfl | ⟨_, hcut⟩
    · exact .inl ⟨_, u, runFrom_throw, runFrom_throw, hu⟩
    · exact .inr ⟨_, u, runFrom_throw, hcut u _ le_eval hu⟩
  | succ fuel ih =>
    obtain ⟨fuel', rfl⟩ : ∃ k, fuel' = k + 1 := ⟨fuel' - 1, by omega⟩
    -- Both runs go down one level of nesting and lose one unit of fuel, so that they compare as
    -- before.
    replace hfuel := hfuel.imp Nat.succ.inj (And.imp_left Nat.le_of_succ_le_succ)
    rw [eval_succ, eval_succ, h.run]
    refine .bind (h.enter (depth + 1) e u hu) h.cutLe ?_ ?_
    · intro _ v
      rw [runFrom_bind_ok runFrom_get]
      exact le_carryOut fun _ _ _ => le_eval
    · intro _ v hv
      rw [Tracks, runFrom_bind_ok runFrom_get, runFrom_bind_ok runFrom_get]
      exact h.carryOut (fun _ _ _ => le_eval) (fun _ _ _ hw => ih hw hfuel) hv

theorem execute (h : Lockstep I Cut setup setup') (e : Expr) (env : Env)
    (hu : I (Usage.note {} setup .runStart e.span.known?))
    (hfuel : fuel = fuel' ∨ fuel ≤ fuel' ∧ ∀ u w, u ≤ w → I u → Cut .outOfFuel u w) :
    (execute setup' fuel' e env = execute setup fuel e env ∧ I (execute setup fuel e env).usage) ∨
    ∃ f, (execute setup fuel e env).result = .error f ∧
      Cut f (execute setup fuel e env).usage (execute setup' fuel' e env).usage := by
  have heval : Tracks I Cut (Run.eval setup fuel 0 e env.orEmpty)
      (Run.eval setup' fuel' 0 e env.orEmpty) _ :=
    h.eval hu hfuel
  rcases h.close heval .runEnd e.span.known? (fun _ => nofun) with
    ⟨r, v, hm, hm', hv⟩ | ⟨f, v, r', w, hm, hm', hc⟩
  · rw [← h.note_eq] at hm'
    rw [execute_eq hm, execute_eq hm', h.close_eq]
    exact .inl ⟨rfl, hv⟩
  · rw [← h.note_eq] at hm'
    rw [execute_eq hm, execute_eq hm']
    exact .inr ⟨f, rfl, hc⟩

end Lockstep

-- ---------------------------------------------------------------------------
-- Fuel
-- ---------------------------------------------------------------------------

theorem lockstep_fuel (setup : Setup) :
    Lockstep (fun _ => True) (fun f v w => f = .outOfFuel ∧ v ≤ w) setup setup where
  run := rfl
  tracing := rfl
  runId := rfl
  enter _ _ _ _ := .inl ⟨_, _, rfl, rfl, trivial⟩
  note _ _ _ _ _ := trivial
  cutNote _ _ _ _ _ hf hc := absurd hc.1 hf
  cutLe _ _ _ _ hle hc := ⟨hc.1, le_trans hc.2 hle⟩

end Run

theorem execute_mono (h : fuel ≤ fuel') (setup : Setup) (e : Expr) (env : Env) :
    execute setup fuel' e env = execute setup fuel e env ∨
    (execute setup fuel e env).result = .error .outOfFuel ∧
      (execute setup fuel e env).usage ≤ (execute setup fuel' e env).usage := by
  have hrun := (Run.lockstep_fuel setup).execute e env trivial
    (.inr ⟨h, fun _ _ hle _ => ⟨rfl, hle⟩⟩)
  rcases hrun with ⟨heq, _⟩ | ⟨f, hf, rfl, hle⟩
  · exact .inl heq
  · exact .inr ⟨hf, hle⟩

def Ends (setup : Setup) (e : Expr) (env : Env) (o : Outcome) : Prop :=
  o.result ≠ .error .outOfFuel ∧ ∃ fuel, execute setup fuel e env = o

def Diverges (setup : Setup) (e : Expr) (env : Env) : Prop :=
  ∀ fuel, (execute setup fuel e env).result = .error .outOfFuel

theorem Ends.execute (h : Ends setup e env o) (fuel : Nat) :
    execute setup fuel e env = o ∨
    (execute setup fuel e env).result = .error .outOfFuel ∧
      (execute setup fuel e env).usage ≤ o.usage := by
  obtain ⟨hne, fuel', rfl⟩ := h
  rcases Nat.le_total fuel fuel' with hle | hle
  · rcases execute_mono hle setup e env with heq | h
    · exact .inl heq.symm
    · exact .inr h
  · rcases execute_mono hle setup e env with heq | ⟨h, _⟩
    · exact .inl heq
    · exact absurd h hne

theorem Ends.unique (h : Ends setup e env o) (h' : Ends setup e env o') : o = o' := by
  obtain ⟨hne, fuel, hfuel⟩ := h'
  rcases h.execute fuel with heq | ⟨hout, _⟩
  · exact heq.symm.trans hfuel
  · exact absurd (hfuel ▸ hout) hne

end Letrec
