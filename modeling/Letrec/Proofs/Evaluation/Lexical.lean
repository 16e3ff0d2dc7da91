import Letrec.Program
import Letrec.Proofs.Evaluation.Simulation
import Letrec.Proofs.Scope.Free

/-!
# Lexical scope

A run depends on its environment only by the free variables of the expression. Values are related if
they cannot be told apart by that: closures with the same parameter and body, in environments that
agree on the other variables of the body. A recursive closure is found in its own environment, so
that `Related` is the largest relation with this property, and the closures of two recursive frames
are related by coinduction.
-/

namespace Letrec

/-- Each of the names is unbound in both environments, or bound to values that `R` relates. -/
def Env.Agree (R : Value → Value → Prop) (names : List String) (env env' : Env) : Prop :=
  ∀ x ∈ names,
    (env.lookup x = .error (.unbound x none) ∧ env'.lookup x = .error (.unbound x none)) ∨
    ∃ v w, env.lookup x = .ok v ∧ env'.lookup x = .ok w ∧ R v w

namespace Value

inductive RelatedVia (R : Value → Value → Prop) : Value → Value → Prop
  | int : RelatedVia R (.int n) (.int n)
  | bool : RelatedVia R (.bool b) (.bool b)
  | closure (h : Env.Agree R (body.free.filter (· ≠ x)) env.orEmpty env'.orEmpty) :
      RelatedVia R (.closure x body env) (.closure x body env')

/-- The largest relation `R` that implies `RelatedVia R`. -/
def Related (v w : Value) : Prop :=
  ∃ R : Value → Value → Prop, (∀ v w, R v w → RelatedVia R v w) ∧ R v w

end Value

open Value (Related)

-- ---------------------------------------------------------------------------
-- Environments that agree
-- ---------------------------------------------------------------------------

namespace Env.Agree

variable {R R' : Value → Value → Prop} {names : List String} {env env' : Env}

theorem imp (h : Agree R names env env') (hR : ∀ v w, R v w → R' v w) :
    Agree R' names env env' := by
  intro x hx
  rcases h x hx with hunbound | ⟨v, w, hv, hw, hvw⟩
  · exact .inl hunbound
  · exact .inr ⟨v, w, hv, hw, hR v w hvw⟩

theorem mono (h : Agree R names env env') (hsub : names' ⊆ names) : Agree R names' env env' :=
  fun x hx => h x (hsub hx)

theorem orEmpty (h : Agree R names env env') : Agree R names env.orEmpty env'.orEmpty := by
  intro x hx
  have hlookup {env : Env} (hne : env.lookup x ≠ .error .noEnvironment) :
      env.orEmpty.lookup x = env.lookup x := by
    cases env with
    | absent => exact absurd rfl hne
    | _ => rfl
  rcases h x hx with ⟨hv, hw⟩ | ⟨v, w, hv, hw, hvw⟩
  · rw [hlookup (by simp [hv]), hlookup (by simp [hw])]
    exact .inl ⟨hv, hw⟩
  · rw [hlookup (by simp [hv]), hlookup (by simp [hw])]
    exact .inr ⟨v, w, hv, hw, hvw⟩

theorem extend (h : Agree R (names.filter (· ≠ x)) env.orEmpty env'.orEmpty) (hvw : R v w) :
    Agree R names (env.extend stamp x v) (env'.extend stamp' x w) := by
  intro y hy
  by_cases hxy : x = y
  · exact .inr ⟨v, w, if_pos hxy, if_pos hxy, hvw⟩
  · have hlookup := h y (List.mem_filter.mpr ⟨hy, by simp [Ne.symm hxy]⟩)
    simpa [Env.extend, lookup, hxy] using hlookup

end Env.Agree

-- ---------------------------------------------------------------------------
-- Related values
-- ---------------------------------------------------------------------------

namespace Value

theorem RelatedVia.imp (h : RelatedVia R v w) (hR : ∀ v w, R v w → R' v w) : RelatedVia R' v w := by
  cases h with
  | int => exact .int
  | bool => exact .bool
  | closure h => exact .closure (h.imp hR)

theorem Related.via (h : Related v w) : RelatedVia Related v w := by
  obtain ⟨R, hR, hvw⟩ := h
  exact (hR v w hvw).imp fun v w h => ⟨R, hR, h⟩

theorem related_iff : Related v w ↔ RelatedVia Related v w :=
  ⟨Related.via, fun h => ⟨RelatedVia Related, fun _ _ h => h.imp fun _ _ => Related.via, h⟩⟩

theorem Related.kind_eq (h : Related v w) : v.kind = w.kind := by
  cases h.via <;> rfl

theorem Related.asInt_eq (h : Related v w) : v.asInt = w.asInt := by
  cases h.via <;> rfl

theorem Related.asBool_eq (h : Related v w) : v.asBool = w.asBool := by
  cases h.via <;> rfl

theorem Related.recur (h : Env.Agree Related ((p.free.filter (· ≠ x)).filter (· ≠ f)) env env') :
    Related (.closure x p (.recur stamp f x p env)) (.closure x p (.recur stamp' f x p env')) := by
  refine ⟨fun v w => v.Related w ∨
    v = .closure x p (.recur stamp f x p env) ∧ w = .closure x p (.recur stamp' f x p env'),
    ?_, .inr ⟨rfl, rfl⟩⟩
  rintro v w (hvw | ⟨rfl, rfl⟩)
  · exact hvw.via.imp fun _ _ => .inl
  · refine .closure fun y hy => ?_
    simp only [Env.orEmpty, Env.lookup]
    by_cases hfy : f = y
    · -- Here the two closures meet themselves.
      exact .inr ⟨_, _, if_pos hfy, if_pos hfy, .inr ⟨rfl, rfl⟩⟩
    · rw [if_neg hfy, if_neg hfy]
      exact h.imp (fun _ _ => .inl) y (List.mem_filter.mpr ⟨hy, by simp [Ne.symm hfy]⟩)

end Value

theorem Env.Agree.extendRec {names : List String}
    (hproc : Agree Related ((p.free.filter (· ≠ x)).filter (· ≠ f)) env env')
    (hbody : Agree Related (names.filter (· ≠ f)) env env') :
    Agree Related names (env.extendRec stamp f x p) (env'.extendRec stamp' f x p) := by
  intro y hy
  by_cases hfy : f = y
  · exact .inr ⟨_, _, if_pos hfy, if_pos hfy, .recur hproc.orEmpty⟩
  · have hlookup := hbody.orEmpty y (List.mem_filter.mpr ⟨hy, by simp [Ne.symm hfy]⟩)
    simpa [Env.extendRec, lookup, hfy] using hlookup

-- ---------------------------------------------------------------------------
-- Runs
-- ---------------------------------------------------------------------------

namespace Run

theorem plan_lexical (stamp : Stamp) {e : Expr} (h : Env.Agree Related e.free env env') :
    Plan.Like id (fun e env e' env' => e' = e ∧ Env.Agree Related e.free env env') Related
      (plan stamp env e) (plan stamp env' e) := by
  cases e with
  | const => exact .done (.ok (Value.related_iff.mpr .int))
  | var o x =>
    rcases h x (.head _) with ⟨hv, hw⟩ | ⟨v, w, hv, hw, hvw⟩ <;> simp only [plan, hv, hw]
    · exact .done (.error rfl)
    · exact .done (.ok hvw)
  | diff o left right =>
    refine .operand ⟨rfl, h.mono (List.subset_append_left _ _)⟩ fun a a' ha => ?_
    refine .narrow Value.narrows_asInt ha.kind_eq rfl fun m m' hm hm' => ?_
    refine .operand ⟨rfl, h.mono (List.subset_append_right _ _)⟩ fun b b' hb => ?_
    refine .narrow Value.narrows_asInt hb.kind_eq rfl fun n n' hn hn' => ?_
    rw [← ha.asInt_eq, hm] at hm'
    rw [← hb.asInt_eq, hn] at hn'
    cases hm'
    cases hn'
    exact .done (.ok (Value.related_iff.mpr .int))
  | zeroTest o operand =>
    refine .operand ⟨rfl, h⟩ fun a a' ha => ?_
    refine .narrow Value.narrows_asInt ha.kind_eq rfl fun m m' hm hm' => ?_
    rw [← ha.asInt_eq, hm] at hm'
    cases hm'
    exact .done (.ok (Value.related_iff.mpr .bool))
  | ifThenElse o test yes no =>
    simp only [Expr.free] at h
    refine .operand ⟨rfl, h.mono (List.subset_append_left _ _)⟩ fun a a' ha => ?_
    refine .narrow Value.narrows_asBool ha.kind_eq rfl fun b b' hb hb' => ?_
    rw [← ha.asBool_eq, hb] at hb'
    cases hb'
    have hbranches := h.mono (List.subset_append_right _ _)
    cases b with
    | true => exact .last ⟨rfl, hbranches.mono (List.subset_append_left _ _)⟩
    | false => exact .last ⟨rfl, hbranches.mono (List.subset_append_right _ _)⟩
  | letIn o x value body =>
    refine .operand ⟨rfl, h.mono (List.subset_append_left _ _)⟩ fun v w hvw => ?_
    exact .last ⟨rfl, .extend (h.mono (List.subset_append_right _ _)).orEmpty hvw⟩
  | letRec o f x procBody body =>
    refine .bound rfl (.last ⟨rfl, .extendRec ?_ ?_⟩)
    · exact h.mono (List.subset_append_left _ _)
    · exact h.mono (List.subset_append_right _ _)
  | proc o x body => exact .done (.ok (Value.related_iff.mpr (.closure h.orEmpty)))
  | call o operator operand =>
    refine .operand ⟨rfl, h.mono (List.subset_append_left _ _)⟩ fun a a' ha => ?_
    refine .narrow Value.narrows_asClosure ha.kind_eq rfl ?_
    rintro ⟨x, body, closed⟩ ⟨x', body', closed'⟩ hc hc'
    rw [Value.asClosure_ok hc, Value.asClosure_ok hc'] at ha
    cases ha.via with
    | closure hclosed =>
      refine .operand ⟨rfl, h.mono (List.subset_append_right _ _)⟩ fun v w hvw => ?_
      exact .body rfl ⟨rfl, .extend hclosed hvw⟩
  | absent => exact .done (.error rfl)

theorem lexical :
    Simulation id (fun e env e' env' => e' = e ∧ Env.Agree Related e.free env env') Related where
  plan stamp e env e' env' := by
    rintro ⟨rfl, h⟩
    exact plan_lexical stamp h
  span e env e' env' := by
    rintro ⟨rfl, _⟩
    rfl

end Run

structure Outcome.Agrees (o o' : Outcome) : Prop where
  usage : o.usage = o'.usage
  result : (∃ f, o.result = .error f ∧ o'.result = .error f) ∨
    ∃ v w, o.result = .ok v ∧ o'.result = .ok w ∧ v.Related w

theorem Outcome.Agrees.outOfFuel_iff {o o' : Outcome} (h : o.Agrees o') :
    o.result = .error .outOfFuel ↔ o'.result = .error .outOfFuel := by
  rcases h.result with ⟨f, ho, ho'⟩ | ⟨v, w, ho, ho', _⟩ <;> simp [ho, ho']

theorem Failure.seen_id (f : Failure) : f.seen id = f := by
  cases f <;> rfl

theorem Usage.seen_id (u : Usage) : u.seen id = u := by
  have hevent : Event.seen id = id := rfl
  simp [seen, hevent]

theorem OutcomeLike.agrees (h : OutcomeLike id Related o o') : o.Agrees o' := by
  obtain ⟨r, u⟩ := o
  obtain ⟨r', u'⟩ := o'
  obtain ⟨hresult, husage⟩ := h
  rw [Usage.seen_id, Usage.seen_id] at husage
  refine ⟨husage, ?_⟩
  cases hresult with
  | ok h => exact .inr ⟨_, _, rfl, rfl, h⟩
  | error h =>
    rw [Failure.seen_id, Failure.seen_id] at h
    exact .inl ⟨_, rfl, congrArg _ h.symm⟩

inductive EvaluatedAlike : Except Refusal Outcome → Except Refusal Outcome → Prop
  | refused : EvaluatedAlike (.error r) (.error r)
  | ran (h : o.Agrees o') : EvaluatedAlike (.ok o) (.ok o')

theorem execute_agrees (h : Env.Agree Related e.free env.orEmpty env'.orEmpty) (setup : Setup)
    (fuel : Nat) : (execute setup fuel e env).Agrees (execute setup fuel e env') :=
  (Run.lexical.execute ⟨rfl, h⟩ setup fuel).agrees

theorem evaluate_closed {e : Expr} (he : e.free = []) (s : Settings) (hp : p.env 1 = .ok env)
    (hp' : p'.env 1 = .ok env') :
    EvaluatedAlike (Settings.evaluate { s with prelude := p } e)
      (Settings.evaluate { s with prelude := p' } e) := by
  have hscope : e.scopeErrors p.names = e.scopeErrors p'.names :=
    scopeErrors_congr (by simp [he]) (by simp [he])
  simp only [Settings.evaluate, hscope, hp, hp']
  cases e.scopeErrors p'.names with
  | nil => exact .ran (execute_agrees (by simp [he, Env.Agree]) _ _)
  | cons => exact .refused

/-- Runs in environments that agree on the free variables of an expression agree. An expression
without free variables is checked and run alike with every prelude that has an environment, as the
standard one and the empty one have. -/
theorem evaluation_is_lexical :
    (∀ (e : Expr) (env env' : Env), Env.Agree Related e.free env.orEmpty env'.orEmpty → ∀ setup,
      (∀ fuel, (execute setup fuel e env).Agrees (execute setup fuel e env')) ∧
      EndAlike Outcome.Agrees setup e env e env') ∧
    (∀ e : Expr, e.free = [] → ∀ (s : Settings) (p p' : Prelude) (env env' : Env),
      p.env 1 = .ok env → p'.env 1 = .ok env' →
      e.scopeErrors p.names = e.scopeErrors p'.names ∧
      EvaluatedAlike (Settings.evaluate { s with prelude := p } e)
        (Settings.evaluate { s with prelude := p' } e)) ∧
    (∃ env, Prelude.standard.env 1 = .ok env) ∧ ∃ env, Prelude.empty.env 1 = .ok env := by
  refine ⟨?_, ?_, ⟨_, rfl⟩, ⟨_, rfl⟩⟩
  · intro e env env' h setup
    have hagrees := execute_agrees h setup
    exact ⟨hagrees, endAlike_of_execute (fun _ _ h => h.outOfFuel_iff) hagrees⟩
  · intro e he s p p' env env' hp hp'
    exact ⟨scopeErrors_congr (by simp [he]) (by simp [he]), evaluate_closed he s hp hp'⟩

/-- A call of a recursive procedure, whose frame stands before different frames. -/
theorem evaluation_is_lexical_recur :
    let body : Expr := .ifThenElse default (.zeroTest default (.var default "n")) (.const default 5)
      (.call default (.var default "f") (.diff default (.var default "n") (.const default 1)))
    let env : Env := .recur default "f" "n" body .empty
    let env' : Env := .recur ⟨1, 2⟩ "f" "n" body (.bind default "n" (.bool true) .empty)
    let e : Expr := .call default (.var default "f") (.const default 2)
    Env.Agree Related e.free env.orEmpty env'.orEmpty ∧
      (execute {} 20 e env).Agrees (execute {} 20 e env') ∧
    EvaluatedAlike (Settings.evaluate { prelude := .standard }
      (.proc default "x" (.var default "x")))
      (Settings.evaluate {} (.proc default "x" (.var default "x"))) := by
  intro body env env' e
  have hagree : Env.Agree Related e.free env.orEmpty env'.orEmpty := by
    rintro x (_ | ⟨_, ⟨⟩⟩)
    exact .inr ⟨_, _, rfl, rfl, .recur (by simp [body, Expr.free, Env.Agree])⟩
  have hclosed :=
    evaluation_is_lexical.2.1 (.proc default "x" (.var default "x")) (by decide) {} .standard .empty
  exact ⟨hagree, (evaluation_is_lexical.1 e env env' hagree {}).1 20, (hclosed _ _ rfl rfl).2⟩

end Letrec
