import Letrec.Proofs.Evaluation.Plan

/-!
# Environments without gaps

A frame may lack its tail, and looking a name up past it is no failure of the program. Frames that
are made by `extend` and `extendRec` have a tail, and runs make no others: from an environment
without gaps every name is looked up in some environment.
-/

namespace Letrec

mutual
/-- No frame within it lacks a tail. -/
def Value.Linked : Value → Prop
  | .closure _ _ env => env.Linked
  | .int _ | .bool _ | .absent => True

def Env.Linked : Env → Prop
  | .empty | .absent => True
  | .bind _ _ value tail => value.Linked ∧ tail ≠ .absent ∧ tail.Linked
  | .recur _ _ _ _ tail => tail ≠ .absent ∧ tail.Linked
end

namespace Env

theorem orEmpty_ne_absent (env : Env) : env.orEmpty ≠ .absent := by
  cases env <;> exact nofun

theorem Linked.orEmpty {env : Env} (h : env.Linked) : env.orEmpty.Linked := by
  cases env <;> exact h

theorem extend_ne_absent (env : Env) : env.extend stamp x v ≠ .absent := by
  rw [extend]
  exact nofun

theorem extendRec_ne_absent (env : Env) : env.extendRec stamp f x body ≠ .absent := by
  rw [extendRec]
  exact nofun

theorem Linked.extend {env : Env} (h : env.Linked) (hv : v.Linked) :
    (env.extend stamp x v).Linked :=
  ⟨hv, env.orEmpty_ne_absent, h.orEmpty⟩

theorem Linked.extendRec {env : Env} (h : env.Linked) : (env.extendRec stamp f x body).Linked :=
  ⟨env.orEmpty_ne_absent, h.orEmpty⟩

theorem Linked.lookup : ∀ {env : Env}, env.Linked → env ≠ .absent →
    (∃ v, env.lookup x = .ok v ∧ v.Linked) ∨ env.lookup x = .error (.unbound x none)
  | .empty, _, _ => .inr rfl
  | .absent, _, h => absurd rfl h
  | .bind _ name v tail, ⟨hv, hne, htail⟩, _ => by
    rw [Env.lookup]
    split
    · exact .inl ⟨v, rfl, hv⟩
    · exact Linked.lookup htail hne
  | .recur stamp name param body tail, ⟨hne, htail⟩, _ => by
    rw [Env.lookup]
    split
    · exact .inl ⟨_, rfl, hne, htail⟩
    · exact Linked.lookup htail hne

end Env

def LinkedResult : Except Failure Value → Prop
  | .ok v => v.Linked
  | .error f => f ≠ .noEnvironment

theorem LinkedResult.mismatch : LinkedResult (.error (.mismatch expected actual span)) := nofun

namespace Run

theorem plan_linked (h : env ≠ .absent ∧ env.Linked) :
    (plan stamp env e).Keeps (fun _ env => env ≠ .absent ∧ env.Linked) LinkedResult := by
  cases e with
  | const => exact trivial
  | var o x =>
    rcases h.2.lookup (x := x) h.1 with ⟨v, hx, hv⟩ | hx <;> simp only [plan, hx]
    · exact hv
    · intro hunbound
      cases hunbound
  | diff =>
    refine ⟨h, fun a ha => .narrow Value.narrows_asInt (fun _ => .mismatch) fun m _ => ?_⟩
    exact ⟨h, fun b hb => .narrow Value.narrows_asInt (fun _ => .mismatch) fun n _ => trivial⟩
  | zeroTest =>
    exact ⟨h, fun a ha => .narrow Value.narrows_asInt (fun _ => .mismatch) fun n _ => trivial⟩
  | ifThenElse =>
    exact ⟨h, fun a ha => .narrow Value.narrows_asBool (fun _ => .mismatch) fun b _ => .last h⟩
  | letIn => exact ⟨h, fun v hv => .last ⟨env.extend_ne_absent, h.2.extend hv⟩⟩
  | letRec => exact .bound (.last ⟨env.extendRec_ne_absent, h.2.extendRec⟩)
  | proc => exact h.2
  | call =>
    refine ⟨h, fun a ha => .narrow Value.narrows_asClosure (fun _ => .mismatch) fun c hc => ?_⟩
    rw [Value.asClosure_ok hc] at ha
    exact ⟨h, fun v hv => ⟨c.2.2.extend_ne_absent, Env.Linked.extend ha hv⟩⟩
  | absent =>
    intro hnone
    cases hnone

theorem eval_linked (h : env ≠ .absent ∧ env.Linked) :
    LinkedResult ((eval setup fuel depth e env).runFrom u).1 :=
  eval_good (fun _ _ _ => plan_linked) (fun _ _ halt _ _ => by cases halt <;> exact nofun) nofun h

end Run

theorem execute_ne_noEnvironment (setup : Setup) (fuel : Nat) (e : Expr) (h : env.Linked) :
    (execute setup fuel e env).result ≠ .error .noEnvironment := by
  have hgood : LinkedResult (execute setup fuel e env).result := by
    rw [Run.execute_result]
    exact Run.eval_linked ⟨env.orEmpty_ne_absent, h.orEmpty⟩
  intro heq
  rw [heq] at hgood
  exact hgood rfl

end Letrec
