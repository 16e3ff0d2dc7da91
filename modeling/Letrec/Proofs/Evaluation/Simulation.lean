import Letrec.Proofs.Evaluation.Lockstep

/-!
# Two expressions in step

Two runs under one setup, of expressions and in environments that are related, go through the same
plans with related values. `Simulation` is what is asked of the relations: related expressions have
plans that match. Places need to be the same only as far as `view` shows them; everything else that
is counted and reported is the same in both runs.
-/

namespace Letrec

-- ---------------------------------------------------------------------------
-- Places as they are seen
-- ---------------------------------------------------------------------------

variable {view : Option Span → Option Span}

def Failure.seen (view : Option Span → Option Span) : Failure → Failure
  | .unbound x span => .unbound x (view span)
  | .mismatch expected actual span => .mismatch expected actual (view span)
  | .exceeded limit bound span => .exceeded limit bound (view span)
  | f => f

def Event.seen (view : Option Span → Option Span) (event : Event) : Event :=
  { event with span := view event.span }

def Usage.seen (view : Option Span → Option Span) (u : Usage) : Usage :=
  { u with events := u.events.map (Event.seen view) }

theorem Failure.seen_eq_outOfFuel (view : Option Span → Option Span) {f : Failure} :
    f.seen view = .outOfFuel ↔ f = .outOfFuel := by
  cases f <;> simp [seen]

namespace Usage

theorem seen_count (u : Usage) : (u.count depth).seen view = (u.seen view).count depth := rfl

theorem seen_note (u : Usage) :
    (u.note setup what span).seen view = (u.seen view).note setup what (view span) := by
  unfold note
  split <;> simp [seen, Event.seen]

theorem seen_steps {u u' : Usage} (h : u.seen view = u'.seen view) : u.steps = u'.steps :=
  congrArg (·.steps) h

theorem seen_maxDepth {u u' : Usage} (h : u.seen view = u'.seen view) : u.maxDepth = u'.maxDepth :=
  congrArg (·.maxDepth) h

theorem note_congr {u u' : Usage} (setup : Setup) (what : Happening)
    (h : u.seen view = u'.seen view) (hspan : view span = view span') :
    (u.note setup what span).seen view = (u'.note setup what span').seen view := by
  rw [seen_note, seen_note, h, hspan]

end Usage

theorem Run.halt?_seen (view : Option Span → Option Span) (u : Usage) :
    halt? setup depth (u.seen view) = halt? setup depth u := by
  have hcancel : isCancelled setup (u.seen view) = isCancelled setup u := by
    simp [isCancelled, Usage.seen]
  rw [halt?, halt?, interruption?, interruption?, hcancel]
  rfl

-- ---------------------------------------------------------------------------
-- Results and outcomes that match
-- ---------------------------------------------------------------------------

inductive ResultLike (view : Option Span → Option Span) (V : Value → Value → Prop) :
    Except Failure Value → Except Failure Value → Prop
  | ok (h : V v w) : ResultLike view V (.ok v) (.ok w)
  | error (h : f.seen view = g.seen view) : ResultLike view V (.error f) (.error g)

structure OutcomeLike (view : Option Span → Option Span) (V : Value → Value → Prop)
    (o o' : Outcome) : Prop where
  result : ResultLike view V o.result o'.result
  usage : o.usage.seen view = o'.usage.seen view

/-- Both runs go on for ever, or both end, with outcomes that match. -/
def EndAlike (Like : Outcome → Outcome → Prop) (setup : Setup) (e : Expr) (env : Env) (e' : Expr)
    (env' : Env) : Prop :=
  (Diverges setup e env ∧ Diverges setup e' env') ∨
    ∃ o o', Ends setup e env o ∧ Ends setup e' env' o' ∧ Like o o'

theorem endAlike_of_execute {Like : Outcome → Outcome → Prop}
    (hfuel : ∀ o o', Like o o' → (o.result = .error .outOfFuel ↔ o'.result = .error .outOfFuel))
    (h : ∀ fuel, Like (execute setup fuel e env) (execute setup fuel e' env')) :
    EndAlike Like setup e env e' env' := by
  by_cases hends : ∃ fuel, (execute setup fuel e env).result ≠ .error .outOfFuel
  · obtain ⟨fuel, hne⟩ := hends
    have hne' : (execute setup fuel e' env').result ≠ .error .outOfFuel :=
      fun heq => hne ((hfuel _ _ (h fuel)).mpr heq)
    exact .inr ⟨_, _, ⟨hne, fuel, rfl⟩, ⟨hne', fuel, rfl⟩, h fuel⟩
  · have hout : Diverges setup e env :=
      fun fuel => Classical.byContradiction fun hne => hends ⟨fuel, hne⟩
    exact .inl ⟨hout, fun fuel => (hfuel _ _ (h fuel)).mp (hout fuel)⟩

variable {V : Value → Value → Prop} {setup : Setup}

theorem ResultLike.outOfFuel_iff (h : ResultLike view V r r') :
    r = .error .outOfFuel ↔ r' = .error .outOfFuel := by
  cases h with
  | ok => simp
  | error h =>
    simp only [Except.error.injEq]
    rw [← Failure.seen_eq_outOfFuel view, h, Failure.seen_eq_outOfFuel]

theorem ResultLike.close (h : ResultLike view V r r') {u u' : Usage}
    (hu : u.seen view = u'.seen view) (hspan : view span = view span') :
    (u.close setup what span r).seen view = (u'.close setup what span' r').seen view := by
  rcases u.close_cases r with ⟨hr, hclose⟩ | ⟨hr, hclose⟩ <;>
    rcases u'.close_cases r' with ⟨hr', hclose'⟩ | ⟨hr', hclose'⟩ <;> rw [hclose, hclose']
  · exact hu
  · exact absurd (h.outOfFuel_iff.mp hr) hr'
  · exact absurd (h.outOfFuel_iff.mpr hr') hr
  · exact Usage.note_congr setup _ hu hspan

namespace Run

-- ---------------------------------------------------------------------------
-- Plans that match
-- ---------------------------------------------------------------------------

inductive Plan.Like (view : Option Span → Option Span) (S : Expr → Env → Expr → Env → Prop)
    (V : Value → Value → Prop) : Plan → Plan → Prop
  | done (h : ResultLike view V r r') : Like view S V (.done r) (.done r')
  | bound (hspan : view span = view span') (h : Like view S V rest rest') :
      Like view S V (.bound name param span rest) (.bound name param span' rest')
  | operand (h : S e env e' env') (hrest : ∀ v w, V v w → Like view S V (rest v) (rest' w)) :
      Like view S V (.operand e env rest) (.operand e' env' rest')
  | body (hspan : view span = view span') (h : S e env e' env') :
      Like view S V (.body param span e env) (.body param span' e' env')

/-- Related expressions in related environments have plans that match, and places that look
the same. -/
structure Simulation (view : Option Span → Option Span) (S : Expr → Env → Expr → Env → Prop)
    (V : Value → Value → Prop) : Prop where
  plan : ∀ stamp e env e' env', S e env e' env' →
    Plan.Like view S V (plan stamp env e) (plan stamp env' e')
  span : ∀ e env e' env', S e env e' env' → view e.span.known? = view e'.span.known?

def RunLike (view : Option Span → Option Span) (V : Value → Value → Prop)
    (x y : Except Failure Value × Usage) : Prop :=
  ResultLike view V x.1 y.1 ∧ x.2.seen view = y.2.seen view

variable {S : Expr → Env → Expr → Env → Prop}

theorem Plan.Like.last (h : S e env e' env') : Like view S V (.last e env) (.last e' env') :=
  .operand h fun _ _ hv => .done (.ok hv)

theorem Plan.Like.narrow (has : Value.Narrows as k) (hkind : v.kind = w.kind)
    (hplace : view place.known? = view place'.known?)
    (hrest : ∀ a b, as v = .ok a → as w = .ok b → Like view S V (rest a) (rest' b)) :
    Like view S V (.narrow place (as v) rest) (.narrow place' (as w) rest') := by
  rcases has v with ⟨hv, a, ha⟩ | ⟨hv, ha⟩ <;> rcases has w with ⟨hw, b, hb⟩ | ⟨hw, hb⟩
  · rw [ha, hb]
    exact hrest a b ha hb
  · exact absurd (hkind ▸ hv) hw
  · exact absurd (hkind.trans hw) hv
  · rw [ha, hb]
    refine .done (.error ?_)
    simp [Failure.located, Failure.seen, hkind, hplace]

theorem carryOut_like {p p' : Plan} (h : Plan.Like view S V p p')
    (hev : ∀ e env e' env' u u', S e env e' env' → u.seen view = u'.seen view →
      RunLike view V ((ev e env).runFrom u) ((ev' e' env').runFrom u'))
    (hu : u.seen view = u'.seen view) :
    RunLike view V ((p.carryOut setup depth ev).runFrom u)
      ((p'.carryOut setup depth ev').runFrom u') := by
  induction h generalizing u u' with
  | done h =>
    rw [Plan.carryOut, Plan.carryOut, runFrom_conclude, runFrom_conclude]
    exact ⟨h, hu⟩
  | bound hspan h ih =>
    rw [Plan.carryOut, Plan.carryOut, runFrom_bind_ok runFrom_emit, runFrom_bind_ok runFrom_emit]
    exact ih (Usage.note_congr setup _ hu hspan)
  | @operand e env e' env' rest rest' h hrest ih =>
    obtain ⟨hr, hv⟩ := hev e env e' env' u u' h hu
    rw [Plan.carryOut, Plan.carryOut]
    rcases hm : (ev e env).runFrom u with ⟨r, v⟩
    rcases hm' : (ev' e' env').runFrom u' with ⟨r', v'⟩
    rw [hm, hm'] at hr hv
    cases hr with
    | ok hval =>
      rw [runFrom_bind_ok hm, runFrom_bind_ok hm']
      exact ih _ _ hval hv
    | error hf =>
      rw [runFrom_bind_error hm, runFrom_bind_error hm']
      exact ⟨.error hf, hv⟩
  | @body span span' e env e' env' param hspan h =>
    have hbody := hev e env e' env' _ _ h (Usage.note_congr setup (.callStart param depth) hu hspan)
    rcases hm : (ev e env).runFrom (u.note setup (.callStart param depth) span) with ⟨r, v⟩
    rcases hm' : (ev' e' env').runFrom (u'.note setup (.callStart param depth) span') with ⟨r', v'⟩
    rw [hm, hm'] at hbody
    rw [Plan.carryOut, Plan.carryOut, runFrom_call hm, runFrom_call hm']
    exact ⟨hbody.1, hbody.1.close hbody.2 hspan⟩

namespace Simulation

theorem eval (h : Simulation view S V) (setup : Setup) (fuel depth : Nat) (hS : S e env e' env')
    (hu : u.seen view = u'.seen view) : RunLike view V ((Run.eval setup fuel depth e env).runFrom u)
      ((Run.eval setup fuel depth e' env').runFrom u') := by
  induction fuel generalizing depth e env e' env' u u' with
  | zero => exact ⟨.error rfl, hu⟩
  | succ fuel ih =>
    have hspan := h.span _ _ _ _ hS
    have hcount : (u.count (depth + 1)).seen view = (u'.count (depth + 1)).seen view := by
      rw [Usage.seen_count, Usage.seen_count, hu]
    rw [runFrom_eval_succ, runFrom_eval_succ, ← halt?_seen view (u.count _), hcount, halt?_seen,
      Usage.seen_steps hu]
    cases halt? setup (depth + 1) (u'.count (depth + 1)) with
    | none => exact carryOut_like (h.plan _ _ _ _ _ hS) (fun _ _ _ _ _ _ hS hu => ih _ hS hu) hcount
    | some halt =>
      cases halt with
      | exceeded limit bound =>
        refine ⟨.error ?_, Usage.note_congr setup _ hcount hspan⟩
        simp [Halt.failure, Failure.seen, hspan]
      | cancelled => exact ⟨.error rfl, hcount⟩

theorem execute (h : Simulation view S V) (hS : S e env.orEmpty e' env'.orEmpty) (setup : Setup)
    (fuel : Nat) : OutcomeLike view V (execute setup fuel e env) (execute setup fuel e' env') := by
  have hspan := h.span _ _ _ _ hS
  obtain ⟨hr, hv⟩ := h.eval setup fuel 0 hS (Usage.note_congr (u := {}) setup .runStart rfl hspan)
  rw [execute_eq rfl, execute_eq rfl]
  exact ⟨hr, hr.close hv hspan⟩

end Simulation

end Run

end Letrec
