import Letrec.Proofs.Evaluation.Simulation
import Letrec.Proofs.Expr.Likeness

/-!
# Places play no part in evaluation

A run of a bare expression goes as the run of the expression itself does, but for the places it
reports: values come out bare, and failures are the same but for their places. So runs of
expressions that are alike come to the same.
-/

namespace Letrec

mutual
def Value.bare : Value → Value
  | .int n => .int n
  | .bool b => .bool b
  | .closure param body env => .closure param body.bare env.bare
  | .absent => .absent

def Env.bare : Env → Env
  | .empty => .empty
  | .bind stamp name value tail => .bind stamp name value.bare tail.bare
  | .recur stamp name param body tail => .recur stamp name param body.bare tail.bare
  | .absent => .absent
end

def hidden : Option Span → Option Span := fun _ => none

namespace Value

theorem kind_bare (v : Value) : v.bare.kind = v.kind := by
  cases v <;> rfl

theorem text_bare (v : Value) : v.bare.text = v.text := by
  cases v <;> rfl

theorem toJson_bare (v : Value) : v.bare.toJson = v.toJson := by
  cases v <;> rfl

theorem asInt_bare (v : Value) : v.bare.asInt = v.asInt := by
  cases v <;> rfl

theorem asBool_bare (v : Value) : v.bare.asBool = v.asBool := by
  cases v <;> rfl

end Value

namespace Env

theorem bare_orEmpty (env : Env) : env.orEmpty.bare = env.bare.orEmpty := by
  cases env <;> rfl

theorem bare_extend (env : Env) : (env.extend stamp x v).bare = env.bare.extend stamp x v.bare := by
  simp [extend, bare, bare_orEmpty]

theorem bare_extendRec (env : Env) :
    (env.extendRec stamp f x p).bare = env.bare.extendRec stamp f x p.bare := by
  simp [extendRec, bare, bare_orEmpty]

theorem lookup_bare : ∀ env : Env, env.bare.lookup x = (env.lookup x).map Value.bare
  | .empty => rfl
  | .absent => rfl
  | .bind _ name v tail => by
    rw [bare, lookup, lookup, tail.lookup_bare]
    split <;> rfl
  | .recur stamp name param body tail => by
    rw [bare, lookup, lookup, tail.lookup_bare]
    split <;> rfl

end Env

theorem Failure.seen_located (f : Failure) : (f.located place).seen hidden = f.seen hidden := by
  unfold located
  split <;> rfl

theorem Failure.message_seen (f : Failure) : (f.seen hidden).message = f.message := by
  cases f <;> rfl

theorem Failure.code?_seen (f : Failure) : (f.seen hidden).code? = f.code? := by
  cases f <;> rfl

namespace Run

theorem plan_bare (stamp : Stamp) (e : Expr) (env : Env) :
    Plan.Like hidden (fun e env e' env' => e' = e.bare ∧ env' = env.bare) (fun v w => w = v.bare)
      (plan stamp env e) (plan stamp env.bare e.bare) := by
  cases e with
  | const => exact .done (.ok rfl)
  | var o x =>
    simp only [plan, Expr.bare, Env.lookup_bare]
    cases env.lookup x with
    | ok v => exact .done (.ok rfl)
    | error f =>
      exact .done (.error (by rw [Failure.seen_located]; exact (Failure.seen_located f).symm))
  | diff o left right =>
    refine .operand ⟨rfl, rfl⟩ fun a _ ha => ?_
    subst ha
    refine .narrow Value.narrows_asInt a.kind_bare.symm rfl fun m m' hm hm' => ?_
    refine .operand ⟨rfl, rfl⟩ fun b _ hb => ?_
    subst hb
    refine .narrow Value.narrows_asInt b.kind_bare.symm rfl fun n n' hn hn' => ?_
    rw [a.asInt_bare, hm] at hm'
    rw [b.asInt_bare, hn] at hn'
    cases hm'
    cases hn'
    exact .done (.ok rfl)
  | zeroTest o operand =>
    refine .operand ⟨rfl, rfl⟩ fun a _ ha => ?_
    subst ha
    refine .narrow Value.narrows_asInt a.kind_bare.symm rfl fun m m' hm hm' => ?_
    rw [a.asInt_bare, hm] at hm'
    cases hm'
    exact .done (.ok rfl)
  | ifThenElse o test yes no =>
    refine .operand ⟨rfl, rfl⟩ fun a _ ha => ?_
    subst ha
    refine .narrow Value.narrows_asBool a.kind_bare.symm rfl fun b b' hb hb' => ?_
    rw [a.asBool_bare, hb] at hb'
    cases hb'
    cases b <;> exact .last ⟨rfl, rfl⟩
  | letIn o x value body =>
    refine .operand ⟨rfl, rfl⟩ fun v _ hv => ?_
    subst hv
    exact .last ⟨rfl, env.bare_extend.symm⟩
  | letRec o f x procBody body => exact .bound rfl (.last ⟨rfl, env.bare_extendRec.symm⟩)
  | proc => exact .done (.ok rfl)
  | call o operator operand =>
    refine .operand ⟨rfl, rfl⟩ fun a _ ha => ?_
    subst ha
    refine .narrow Value.narrows_asClosure a.kind_bare.symm rfl ?_
    rintro ⟨x, body, closed⟩ ⟨x', body', closed'⟩ hc hc'
    rw [Value.asClosure_ok hc] at hc'
    cases hc'
    refine .operand ⟨rfl, rfl⟩ fun v _ hv => ?_
    subst hv
    exact .body rfl ⟨rfl, closed.bare_extend.symm⟩
  | absent => exact .done (.error rfl)

theorem placeless :
    Simulation hidden (fun e env e' env' => e' = e.bare ∧ env' = env.bare)
      (fun v w => w = v.bare) where
  plan stamp e env e' env' := by
    rintro ⟨rfl, rfl⟩
    exact plan_bare stamp e env
  span _ _ _ _ _ := rfl

end Run

/-- The same counts, and values that look the same or failures that are the same but for their
places. -/
structure Outcome.Alike (o o' : Outcome) : Prop where
  steps : o.usage.steps = o'.usage.steps
  maxDepth : o.usage.maxDepth = o'.usage.maxDepth
  result :
    (∃ v w, o.result = .ok v ∧ o'.result = .ok w ∧ v.kind = w.kind ∧ v.text = w.text ∧
      v.toJson = w.toJson) ∨
    ∃ f g, o.result = .error f ∧ o'.result = .error g ∧ f.code? = g.code? ∧ f.message = g.message ∧
      f.seen hidden = g.seen hidden

theorem Outcome.Alike.outOfFuel_iff {o o' : Outcome} (h : o.Alike o') :
    o.result = .error .outOfFuel ↔ o'.result = .error .outOfFuel := by
  rcases h.result with ⟨v, w, ho, ho', _⟩ | ⟨f, g, ho, ho', _, _, hfg⟩
  · simp [ho, ho']
  · rw [ho, ho', Except.error.injEq, Except.error.injEq, ← Failure.seen_eq_outOfFuel hidden, hfg,
      Failure.seen_eq_outOfFuel]

theorem OutcomeLike.alike (h : OutcomeLike hidden (fun v w => w = v.bare) o b)
    (h' : OutcomeLike hidden (fun v w => w = v.bare) o' b) : o.Alike o' := by
  obtain ⟨r, u⟩ := o
  obtain ⟨r', u'⟩ := o'
  obtain ⟨s, w⟩ := b
  obtain ⟨hr, hu⟩ := h
  obtain ⟨hr', hu'⟩ := h'
  have husage := hu.trans hu'.symm
  refine ⟨Usage.seen_steps husage, Usage.seen_maxDepth husage, ?_⟩
  cases hr with
  | @ok v _ hv =>
    cases hr' with
    | @ok v' _ hv' =>
      have hbare : v.bare = v'.bare := hv.symm.trans hv'
      refine .inl ⟨v, v', rfl, rfl, ?_, ?_, ?_⟩
      · rw [← v.kind_bare, hbare, v'.kind_bare]
      · rw [← v.text_bare, hbare, v'.text_bare]
      · rw [← v.toJson_bare, hbare, v'.toJson_bare]
  | @error f _ hf =>
    cases hr' with
    | @error f' _ hf' =>
      have hseen := hf.trans hf'.symm
      refine .inr ⟨f, f', rfl, rfl, ?_, ?_, hseen⟩
      · rw [← f.code?_seen, hseen, f'.code?_seen]
      · rw [← f.message_seen, hseen, f'.message_seen]

theorem execute_bare (setup : Setup) (fuel : Nat) (e : Expr) (env : Env) :
    OutcomeLike hidden (fun v w => w = v.bare) (execute setup fuel e env)
      (execute setup fuel e.bare env.bare) :=
  Run.placeless.execute ⟨rfl, env.bare_orEmpty.symm⟩ setup fuel

theorem execute_alike (h : e.bare = e'.bare) (setup : Setup) (fuel : Nat) (env : Env) :
    (execute setup fuel e env).Alike (execute setup fuel e' env) :=
  (execute_bare setup fuel e env).alike (h ▸ execute_bare setup fuel e' env)

theorem endAlike_of_bare (h : e.bare = e'.bare) (setup : Setup) (env : Env) :
    EndAlike Outcome.Alike setup e env e' env :=
  endAlike_of_execute (fun _ _ h => h.outOfFuel_iff) fun fuel => execute_alike h setup fuel env

-- ---------------------------------------------------------------------------
-- Events and closures
-- ---------------------------------------------------------------------------

structure Outcome.AlikeThroughout (o o' : Outcome) : Prop extends Outcome.Alike o o' where
  events : o.usage.events.toList.map (Event.seen hidden) =
    o'.usage.events.toList.map (Event.seen hidden)
  closures : ∀ x body env, o.result = .ok (.closure x body env) → ∃ body' env',
    o'.result = .ok (.closure x body' env') ∧ body.alike body' ∧ env.bare = env'.bare

theorem Usage.seen_events {u u' : Usage} (h : u.seen view = u'.seen view) :
    u.events.toList.map (Event.seen view) = u'.events.toList.map (Event.seen view) := by
  have hevents := congrArg (fun u : Usage => u.events.toList) h
  simpa [seen] using hevents

theorem Value.eq_closure_of_bare {w : Value} (h : w.bare = .closure x body env) :
    ∃ body' env', w = .closure x body' env' ∧ body'.bare = body ∧ env'.bare = env := by
  cases w with
  | closure y body' env' =>
    obtain ⟨rfl, hbody, henv⟩ := Value.closure.inj h
    exact ⟨body', env', rfl, hbody, henv⟩
  | _ => cases h

theorem OutcomeLike.alikeThroughout (h : OutcomeLike hidden (fun v w => w = v.bare) o b)
    (h' : OutcomeLike hidden (fun v w => w = v.bare) o' b) : o.AlikeThroughout o' where
  toAlike := h.alike h'
  events := Usage.seen_events (h.usage.trans h'.usage.symm)
  closures x body env ho := by
    obtain ⟨r', u'⟩ := o'
    obtain ⟨s, w⟩ := b
    have hr := h.result
    have hr' := h'.result
    rw [ho] at hr
    cases hr with
    | ok hv =>
      cases hr' with
      | @ok v' _ hv' =>
        obtain ⟨body', env', rfl, hbody, henv⟩ := Value.eq_closure_of_bare (hv'.symm.trans hv)
        exact ⟨body', env', rfl, Expr.alike_iff.mpr hbody.symm, henv.symm⟩

theorem execute_alikeThroughout (h : e.bare = e'.bare) (henv : env.bare = env'.bare) (setup : Setup)
    (fuel : Nat) : (execute setup fuel e env).AlikeThroughout (execute setup fuel e' env') := by
  have hbare := execute_bare setup fuel e env
  rw [h, henv] at hbare
  exact hbare.alikeThroughout (execute_bare setup fuel e' env')

/-- Expressions that are alike run alike, in environments that are the same but for the places and
identities of nodes: on any fuel, hence for ever or to the same end. -/
theorem places_play_no_part (a b : Expr) (h : a.alike b) (setup : Setup) (env env' : Env)
    (henv : env.bare = env'.bare) :
    (∀ fuel, (execute setup fuel a env).AlikeThroughout (execute setup fuel b env')) ∧
      EndAlike Outcome.AlikeThroughout setup a env b env' := by
  have hexecute := execute_alikeThroughout (Expr.alike_iff.mp h) henv setup
  exact ⟨hexecute, endAlike_of_execute (fun _ _ h => h.outOfFuel_iff) hexecute⟩

/-- `((proc (f) proc (y) -(y, y)) 5)`, read from a file that holds `y` once, and built without
places. -/
theorem places_play_no_part_shared :
    let origin (index : Nat) : Origin := ⟨⟨1, index⟩, ⟨"f", 1, index⟩⟩
    let y : Expr := .var (origin 6) "y"
    let a : Expr :=
      .call (origin 1) (.proc (origin 2) "f" (.proc (origin 3) "y" (.diff (origin 4) y y)))
      (.const (origin 5) 5)
    let o := execute { tracing := true } 3 a .empty
    let o' := execute { tracing := true } 3 a.bare .empty
    a.alike a.bare ∧ o.usage.events ≠ o'.usage.events ∧ o.AlikeThroughout o' ∧
      ∃ env body' env', o.result = .ok (.closure "y" (.diff (origin 4) y y) env) ∧
        o'.result = .ok (.closure "y" body' env') ∧ (Expr.diff (origin 4) y y).alike body' := by
  intro origin y a o o'
  have halike : a.alike a.bare := by decide
  have hends := (places_play_no_part a a.bare halike { tracing := true } .empty .empty rfl).1 3
  obtain ⟨body', env', ho', hbody, _⟩ := hends.closures _ _ _ rfl
  exact ⟨halike, by decide, hends, _, body', env', rfl, ho', hbody⟩

end Letrec
