import Letrec.Proofs.Scope.Soundness

/-!
# Failures have causes

A value is refused only for being of another kind, a limit is passed only if it is set, and a run is
cancelled only if its setup says so. Together with the soundness of the check this leaves few ends
for a checked program.
-/

namespace Letrec

def Limits.bound? (l : Limits) : Limit → Option Int
  | .steps => l.maxSteps
  | .depth => l.maxDepth
  | .time => l.timeMs

/-- What the failure is about is there in the setup of the run. -/
def Failure.Justified (setup : Setup) : Failure → Prop
  | .mismatch expected actual _ => expected ≠ actual
  | .exceeded limit bound _ => setup.limits.bound? limit = some bound
  | .cancelled => ∃ step events, setup.cancelled step events
  | .unbound .. | .noExpression | .noEnvironment | .outOfFuel => True

def JustifiedResult (setup : Setup) : Except Failure Value → Prop
  | .ok _ => True
  | .error f => f.Justified setup

theorem Env.lookup_justified (setup : Setup) : ∀ {env : Env}, env.lookup x = .error f →
    (f.located place).Justified setup
  | .empty, h => by cases h; trivial
  | .absent, h => by cases h; trivial
  | .bind _ name _ tail, h => by
    rw [Env.lookup] at h
    split at h
    · cases h
    · exact tail.lookup_justified setup h
  | .recur _ name _ _ tail, h => by
    rw [Env.lookup] at h
    split at h
    · cases h
    · exact tail.lookup_justified setup h

namespace Run

variable {setup : Setup}

theorem halt?_justified (h : halt? setup depth u = some halt) :
    (halt.failure span).Justified setup := by
  rw [halt?, Option.or_eq_some_iff, Option.or_eq_some_iff, passed?_eq_some, passed?_eq_some] at h
  rcases h with (⟨b, hb, _, rfl⟩ | ⟨_, b, hb, _, rfl⟩) | ⟨_, h⟩
  · exact hb
  · exact hb
  · unfold interruption? at h
    split at h
    · rw [Option.or_eq_some_iff, Option.bind_eq_some_iff] at h
      rcases h with ⟨b, hb, h⟩ | ⟨_, h⟩
      · split at h
        · cases h
          exact hb
        · cases h
      · split at h
        · rename_i hcancelled
          cases h
          exact ⟨_, _, hcancelled⟩
        · cases h
    · cases h

theorem plan_justified (stamp : Stamp) (env : Env) (e : Expr) :
    (plan stamp env e).Keeps (fun _ _ => True) (JustifiedResult setup) := by
  cases e with
  | const => trivial
  | var o x =>
    simp only [plan]
    cases hx : env.lookup x with
    | ok v => trivial
    | error f => exact Env.lookup_justified setup hx
  | diff =>
    refine ⟨trivial, fun a _ => .narrow Value.narrows_asInt Ne.symm fun m _ => ?_⟩
    exact ⟨trivial, fun b _ => .narrow Value.narrows_asInt Ne.symm fun n _ => trivial⟩
  | zeroTest => exact ⟨trivial, fun a _ => .narrow Value.narrows_asInt Ne.symm fun n _ => trivial⟩
  | ifThenElse =>
    exact ⟨trivial, fun a _ => .narrow Value.narrows_asBool Ne.symm fun b _ => .last trivial⟩
  | letIn => exact ⟨trivial, fun v _ => .last trivial⟩
  | letRec => exact .bound (.last trivial)
  | proc => trivial
  | call =>
    refine ⟨trivial, fun a _ => .narrow Value.narrows_asClosure Ne.symm fun c _ => ?_⟩
    exact ⟨trivial, fun v _ => trivial⟩
  | absent => trivial

end Run

theorem execute_justified (setup : Setup) (fuel : Nat) (e : Expr) (env : Env) :
    JustifiedResult setup (execute setup fuel e env).result := by
  rw [Run.execute_result]
  exact Run.eval_good (fun _ _ _ _ => Run.plan_justified _ _ _)
    (fun _ _ _ _ h => Run.halt?_justified h) trivial trivial

theorem execute_goesWell (setup : Setup) (fuel : Nat) (henv : env.Scoped)
    (he : e.Scoped env.names) : GoesWell (execute setup fuel e env).result := by
  rw [Run.execute_result, henv.orEmpty]
  exact Run.eval_goesWell henv he

theorem execute_checked (setup : Setup) (fuel : Nat) (henv : env.Scoped) (he : e.Scoped env.names)
    (hcancel : ∀ step events, setup.cancelled step events = false) :
    let r := (execute setup fuel e env).result
    (∃ v, r = .ok v ∧ v ≠ .absent) ∨
    (∃ expected actual span, r = .error (.mismatch expected actual span) ∧ expected ≠ actual ∧
      actual ≠ .absent) ∨
    (∃ limit bound span, r = .error (.exceeded limit bound span) ∧
      setup.limits.bound? limit = some bound) ∨
    r = .error .outOfFuel := by
  intro r
  have hwell : GoesWell r := execute_goesWell setup fuel henv he
  have hjust : JustifiedResult setup r := execute_justified setup fuel e env
  cases hr : r with
  | ok v =>
    rw [hr] at hwell
    refine .inl ⟨v, rfl, ?_⟩
    rintro rfl
    exact hwell
  | error f =>
    rw [hr] at hwell hjust
    cases f with
    | mismatch expected actual span => exact .inr (.inl ⟨expected, actual, span, rfl, hjust, hwell⟩)
    | exceeded limit bound span => exact .inr (.inr (.inl ⟨limit, bound, span, rfl, hjust⟩))
    | cancelled =>
      obtain ⟨step, events, hcancelled⟩ := hjust
      simp [hcancel] at hcancelled
    | outOfFuel => exact .inr (.inr (.inr rfl))
    | unbound => exact hwell.elim
    | noExpression => exact hwell.elim
    | noEnvironment => exact hwell.elim

end Letrec
