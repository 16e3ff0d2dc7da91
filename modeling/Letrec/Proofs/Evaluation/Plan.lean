import Letrec.Proofs.Evaluation.Usage

/-!
# What is left to do for an expression

Once an expression has been entered, its evaluation may report a recursive binding, evaluates
operands one after the other, and ends in a result or in the body of a procedure. `plan` says in
which, and counts nothing. Evaluation is entering the expression and carrying out its plan
(`eval_succ`), so that what holds of every run is shown by induction on plans; only what depends on
the language looks at the kinds of expressions.
-/

namespace Letrec

def Failure.OfProgram : Failure → Prop
  | .unbound .. | .mismatch .. | .noExpression | .noEnvironment => True
  | .exceeded .. | .cancelled | .outOfFuel => False

theorem Failure.OfProgram.located (h : Failure.OfProgram f) : (f.located place).OfProgram := by
  unfold Failure.located
  split
  · trivial
  · trivial
  · exact h.elim
  · exact h

theorem Env.lookup_ofProgram : ∀ {env : Env}, env.lookup x = .error f → f.OfProgram
  | .empty, h => by cases h; trivial
  | .absent, h => by cases h; trivial
  | .bind _ _ _ tail, h => by
    rw [Env.lookup] at h
    split at h
    · cases h
    · exact tail.lookup_ofProgram h
  | .recur _ _ _ _ tail, h => by
    rw [Env.lookup] at h
    split at h
    · cases h
    · exact tail.lookup_ofProgram h

namespace Value

def Narrows (as : Value → Except Failure α) (k : Kind) : Prop :=
  ∀ v, (v.kind = k ∧ ∃ a, as v = .ok a) ∨ (v.kind ≠ k ∧ as v = .error (.mismatch k v.kind none))

theorem narrows_asInt : Narrows asInt .int := by
  intro v
  cases v with
  | int n => exact .inl ⟨rfl, n, rfl⟩
  | _ => exact .inr ⟨nofun, rfl⟩

theorem narrows_asBool : Narrows asBool .bool := by
  intro v
  cases v with
  | bool b => exact .inl ⟨rfl, b, rfl⟩
  | _ => exact .inr ⟨nofun, rfl⟩

theorem narrows_asClosure : Narrows asClosure .closure := by
  intro v
  cases v with
  | closure => exact .inl ⟨rfl, _, rfl⟩
  | _ => exact .inr ⟨nofun, rfl⟩

theorem Narrows.error (has : Narrows as k) (h : as v = .error f) :
    f = .mismatch k v.kind none ∧ v.kind ≠ k := by
  rcases has v with ⟨_, a, hok⟩ | ⟨hne, herror⟩
  · rw [hok] at h; cases h
  · rw [herror] at h; cases h; exact ⟨rfl, hne⟩

theorem asInt_ok {v : Value} (h : v.asInt = .ok n) : v = .int n := by
  cases v <;> cases h
  rfl

theorem asBool_ok {v : Value} (h : v.asBool = .ok b) : v = .bool b := by
  cases v <;> cases h
  rfl

theorem asClosure_ok {v : Value} (h : v.asClosure = .ok c) : v = .closure c.1 c.2.1 c.2.2 := by
  cases v <;> cases h
  rfl

end Value

namespace Run

inductive Plan where
  | done (result : Except Failure Value)
  | bound (name param : String) (span : Option Span) (rest : Plan)
  | operand (e : Expr) (env : Env) (rest : Value → Plan)
  | body (param : String) (span : Option Span) (e : Expr) (env : Env)

namespace Plan

def narrow (place : Span) (r : Except Failure α) (rest : α → Plan) : Plan :=
  match r with
  | .ok a => rest a
  | .error f => .done (.error (f.located place))

def last (e : Expr) (env : Env) : Plan := .operand e env fun v => .done (.ok v)

def carryOut (setup : Setup) (depth : Nat) (ev : Expr → Env → Run Value) : Plan → Run Value
  | .done r => conclude r
  | .bound name param span rest => do
    emit setup (.letrecBind name param) span
    rest.carryOut setup depth ev
  | .operand e env rest => do
    let v ← ev e env
    (rest v).carryOut setup depth ev
  | .body param span e env => call setup param depth span (ev e env)

theorem carryOut_narrow {r : Except Failure α} : (narrow place r rest).carryOut setup depth ev =
    (do let a ← located place r; (rest a).carryOut setup depth ev) := by
  cases r <;> simp [narrow, carryOut, located, conclude]

theorem carryOut_last : (last e env).carryOut setup depth ev = ev e env := by
  simp [last, carryOut, conclude]

end Plan

/-- What is left to do for an expression once it has been entered; `stamp` marks the frame it
may make. -/
def plan (stamp : Stamp) (env : Env) : Expr → Plan
  | .const _ n => .done (.ok (.int n))
  | .var o x => .done ((env.lookup x).mapError (Failure.located o.span))
  | .diff _ left right =>
    .operand left env fun a => .narrow left.span a.asInt fun m =>
    .operand right env fun b => .narrow right.span b.asInt fun n =>
    .done (.ok (.int (m - n)))
  | .zeroTest _ operand =>
    .operand operand env fun a => .narrow operand.span a.asInt fun n =>
    .done (.ok (.bool (n == 0)))
  | .ifThenElse _ test yes no =>
    .operand test env fun a => .narrow test.span a.asBool fun b =>
    .last (if b then yes else no) env
  | .letIn _ x value body => .operand value env fun v => .last body (env.extend stamp x v)
  | .letRec o f x procBody body =>
    .bound f x o.span.known? (.last body (env.extendRec stamp f x procBody))
  | .proc _ x body => .done (.ok (.closure x body env))
  | .call o operator operand =>
    .operand operator env fun a => .narrow operator.span a.asClosure fun (x, body, closed) =>
    .operand operand env fun v => .body x o.span.known? body (closed.extend stamp x v)
  | .absent => .done (.error .noExpression)

theorem eval_succ : eval setup (fuel + 1) depth e env = (do
    enter setup (depth + 1) e
    let u ← get
    (plan ⟨setup.run, u.steps⟩ env e).carryOut setup (depth + 1)
      (eval setup fuel (depth + 1))) := by
  cases e with
  | const => rfl
  | var o x =>
    simp only [eval, plan, Plan.carryOut]
    congr; funext _; congr; funext _
    cases env.lookup x <;> rfl
  | diff => simp only [eval, plan, Plan.carryOut, Plan.carryOut_narrow]; rfl
  | zeroTest => simp only [eval, plan, Plan.carryOut, Plan.carryOut_narrow]; rfl
  | ifThenElse =>
    simp only [eval, plan, Plan.carryOut, Plan.carryOut_narrow, Plan.carryOut_last]
    congr; funext _; congr; funext _; congr; funext _; congr; funext b
    cases b <;> rfl
  | letIn => simp only [eval, plan, Plan.carryOut, Plan.carryOut_last]
  | letRec => simp only [eval, plan, Plan.carryOut, Plan.carryOut_last]
  | proc => rfl
  | call => simp only [eval, plan, Plan.carryOut, Plan.carryOut_narrow]
  | absent => rfl

theorem runFrom_eval_succ : (eval setup (fuel + 1) depth e env).runFrom u =
    match halt? setup (depth + 1) (u.count (depth + 1)) with
    | none => ((plan ⟨setup.run, u.steps + 1⟩ env e).carryOut setup (depth + 1)
        (eval setup fuel (depth + 1))).runFrom (u.count (depth + 1))
    | some halt => (.error (halt.failure e.span.known?),
        halt.note setup e.span.known? (u.count (depth + 1))) := by
  rw [eval_succ, runFrom_bind, runFrom_enter]
  cases halt? setup (depth + 1) (u.count (depth + 1)) with
  | none => exact runFrom_bind_ok runFrom_get
  | some halt => rfl

-- ---------------------------------------------------------------------------
-- Triples
-- ---------------------------------------------------------------------------

/-- From `u` the action ends in a value with `Q` or in a failure with `E`. -/
def Triple (m : Run α) (u : Usage) (Q : α → Usage → Prop) (E : Failure → Usage → Prop) : Prop :=
  match m.runFrom u with
  | (.ok a, v) => Q a v
  | (.error f, v) => E f v

namespace Triple

theorem of_ok (h : m.runFrom u = (.ok a, v)) (hQ : Q a v) : Triple m u Q E := by
  rw [Triple, h]; exact hQ

theorem of_error (h : m.runFrom u = (.error f, v)) (hE : E f v) : Triple m u Q E := by
  rw [Triple, h]; exact hE

theorem ok (h : Triple m u Q E) (hr : m.runFrom u = (.ok a, v)) : Q a v := by
  rw [Triple, hr] at h; exact h

theorem error (h : Triple m u Q E) (hr : m.runFrom u = (.error f, v)) : E f v := by
  rw [Triple, hr] at h; exact h

theorem bind {k : α → Run β} (h : Triple m u R E) (hk : ∀ a v, R a v → Triple (k a) v Q E) :
    Triple (m >>= k) u Q E := by
  rcases hr : m.runFrom u with ⟨f | a, v⟩
  · exact of_error (runFrom_bind_error hr) (h.error hr)
  · rw [Triple, runFrom_bind_ok hr]
    exact hk a v (h.ok hr)

theorem mono (h : Triple m u Q E) (hQ : ∀ a v, Q a v → Q' a v) (hE : ∀ f v, E f v → E' f v) :
    Triple m u Q' E' := by
  rcases hr : m.runFrom u with ⟨f | a, v⟩
  · exact of_error hr (hE f v (h.error hr))
  · exact of_ok hr (hQ a v (h.ok hr))

end Triple

-- ---------------------------------------------------------------------------
-- Usage along a plan
-- ---------------------------------------------------------------------------

/-- At most so many expressions are evaluated, one after the other, and only the program is to blame
if the plan itself fails. -/
inductive Plan.AtMost : Nat → Plan → Prop
  | value : AtMost n (.done (.ok v))
  | failure (h : f.OfProgram) : AtMost n (.done (.error f))
  | bound (h : AtMost n rest) : AtMost n (.bound name param span rest)
  | operand (h : ∀ v, AtMost n (rest v)) : AtMost (n + 1) (.operand e env rest)
  | body : AtMost (n + 1) (.body param span e env)

theorem Plan.AtMost.narrow (has : Value.Narrows as k) (h : ∀ a, AtMost n (rest a)) :
    AtMost n (.narrow place (as v) rest) := by
  cases hr : as v with
  | ok a => exact h a
  | error f =>
    obtain ⟨rfl, _⟩ := has.error hr
    exact .failure trivial

theorem plan_atMost : Plan.AtMost 3 (plan stamp env e) := by
  have hlast {n : Nat} {e : Expr} {env : Env} : Plan.AtMost (n + 1) (.last e env) :=
    .operand fun _ => .value
  cases e with
  | const => exact .value
  | var o x =>
    simp only [plan]
    cases h : env.lookup x with
    | ok v => exact .value
    | error f => exact .failure (Env.lookup_ofProgram h).located
  | diff =>
    refine .operand fun a => .narrow Value.narrows_asInt fun m => ?_
    exact .operand fun b => .narrow Value.narrows_asInt fun n => .value
  | zeroTest => exact .operand fun a => .narrow Value.narrows_asInt fun n => .value
  | ifThenElse => exact .operand fun a => .narrow Value.narrows_asBool fun b => hlast
  | letIn => exact .operand fun v => hlast
  | letRec => exact .bound hlast
  | proc => exact .value
  | call =>
    refine .operand fun a => .narrow Value.narrows_asClosure fun c => ?_
    exact .operand fun v => .body
  | absent => exact .failure trivial

section
variable {setup : Setup} {depth : Nat} {ev : Expr → Env → Run Value}
  {I : Nat → Usage → Prop} {E : Failure → Usage → Prop}

/-- What an evaluation keeps up with a number of evaluations to go, a plan keeps up: `I` as long as
evaluations succeed, `E` at the first failure. -/
theorem carryOut_triple
    (hev : ∀ n e env u, I (n + 1) u → Triple (ev e env) u (fun _ v => I n v) E)
    (hless : ∀ n u, I (n + 1) u → I n u)
    (hnote : ∀ n u what span, I n u → I n (u.note setup what span))
    (hend : ∀ f u param span, f ≠ .outOfFuel → E f u →
      E f (u.note setup (.callEnd param depth) span))
    (hfail : ∀ n f u, f.OfProgram → I n u → E f u)
    (hp : Plan.AtMost n p) (hu : I n u) :
    Triple (p.carryOut setup depth ev) u (fun _ v => I 0 v) E := by
  -- A plan may end before it has made all the evaluations that it was allowed.
  have hzero : ∀ n u, I n u → I 0 u := by
    intro n
    induction n with
    | zero => exact fun _ h => h
    | succ n ih => exact fun u h => ih u (hless n u h)
  induction hp generalizing u with
  | value => exact .of_ok runFrom_conclude (hzero _ _ hu)
  | failure h => exact .of_error runFrom_conclude (hfail _ _ _ h hu)
  | bound h ih => exact .bind (.of_ok runFrom_emit (hnote _ _ _ _ hu)) fun _ _ hv => ih hv
  | operand h ih => exact .bind (hev _ _ _ _ hu) fun v _ hv => ih v hv
  | @body n param span e env =>
    -- The last event of the call comes after a failure too, unless it was fuel that was lacking.
    have hbody := hev n e env _ (hnote _ _ (.callStart param depth) span hu)
    rcases hr : (ev e env).runFrom (u.note setup (.callStart param depth) span) with ⟨f | a, v⟩
    · refine .of_error (runFrom_call hr) ?_
      rcases v.close_cases (.error f : Except Failure Value) with ⟨_, h⟩ | ⟨hf, h⟩ <;> rw [h]
      · exact hbody.error hr
      · exact hend _ _ _ _ (fun hf' => hf (congrArg _ hf')) (hbody.error hr)
    · exact .of_ok (runFrom_call hr) (hnote _ _ _ _ (hzero _ _ (hbody.ok hr)))

end

theorem le_carryOut {p : Plan} (hev : ∀ e env u, u ≤ ((ev e env).runFrom u).2) :
    u ≤ ((p.carryOut setup depth ev).runFrom u).2 := by
  induction p generalizing u with
  | done r => rw [Plan.carryOut, runFrom_conclude]
  | bound name param span rest ih =>
    rw [Plan.carryOut, runFrom_bind_ok runFrom_emit]
    exact le_trans u.le_note ih
  | operand e env rest ih =>
    have hle := hev e env u
    rcases hr : (ev e env).runFrom u with ⟨f | a, v⟩ <;> rw [hr] at hle
    · rwa [Plan.carryOut, runFrom_bind_error hr]
    · rw [Plan.carryOut, runFrom_bind_ok hr]
      exact le_trans hle (ih a)
  | body param span e env =>
    have hle := hev e env (u.note setup (.callStart param depth) span)
    rcases hr : (ev e env).runFrom (u.note setup (.callStart param depth) span) with ⟨r, v⟩
    rw [hr] at hle
    rw [Plan.carryOut, runFrom_call hr]
    exact le_trans u.le_note (le_trans hle (v.le_close r))

theorem count_le_eval :
    u.count (depth + 1) ≤ ((eval setup (fuel + 1) depth e env).runFrom u).2 := by
  induction fuel generalizing depth e env u with
  | zero =>
    rw [runFrom_eval_succ]
    cases halt? setup (depth + 1) (u.count (depth + 1)) with
    | some halt => exact halt.le_note
    | none => exact le_carryOut fun _ _ v => le_refl v
  | succ fuel ih =>
    rw [runFrom_eval_succ]
    cases halt? setup (depth + 1) (u.count (depth + 1)) with
    | some halt => exact halt.le_note
    | none => exact le_carryOut fun _ _ v => le_trans v.le_count ih

theorem le_eval : u ≤ ((eval setup fuel depth e env).runFrom u).2 := by
  cases fuel with
  | zero => exact le_refl u
  | succ fuel => exact le_trans u.le_count count_le_eval

-- ---------------------------------------------------------------------------
-- Results along a plan
-- ---------------------------------------------------------------------------

/-- A plan that evaluates only what is ready, and ends well as long as that does. -/
def Plan.Keeps (Ready : Expr → Env → Prop) (Good : Except Failure Value → Prop) : Plan → Prop
  | .done r => Good r
  | .bound _ _ _ rest => rest.Keeps Ready Good
  | .operand e env rest => Ready e env ∧ ∀ v, Good (.ok v) → (rest v).Keeps Ready Good
  | .body _ _ e env => Ready e env

section
variable {setup : Setup} {Ready : Expr → Env → Prop} {Good : Except Failure Value → Prop}

theorem Plan.Keeps.narrow {rest : α → Plan} (has : Value.Narrows as k)
    (hf : v.kind ≠ k → Good (.error (.mismatch k v.kind place.known?)))
    (h : ∀ a, as v = .ok a → (rest a).Keeps Ready Good) :
    (Plan.narrow place (as v) rest).Keeps Ready Good := by
  cases hr : as v with
  | ok a => exact h a hr
  | error f =>
    obtain ⟨rfl, hne⟩ := has.error hr
    exact hf hne

theorem Plan.Keeps.bound (h : Plan.Keeps Ready Good rest) :
    (Plan.bound name param span rest).Keeps Ready Good := h

theorem Plan.Keeps.last (h : Ready e env) : (Plan.last e env).Keeps Ready Good :=
  ⟨h, fun _ hv => hv⟩

theorem carryOut_good {p : Plan} (hev : ∀ e env u, Ready e env → Good ((ev e env).runFrom u).1)
    (hp : p.Keeps Ready Good) : Good ((p.carryOut setup depth ev).runFrom u).1 := by
  induction p generalizing u with
  | done r => rw [Plan.carryOut, runFrom_conclude]; exact hp
  | bound name param span rest ih => rw [Plan.carryOut, runFrom_bind_ok runFrom_emit]; exact ih hp
  | operand e env rest ih =>
    obtain ⟨hready, hrest⟩ := hp
    have hgood := hev e env u hready
    rcases hr : (ev e env).runFrom u with ⟨f | a, v⟩
    · rw [Plan.carryOut, runFrom_bind_error hr]
      rwa [hr] at hgood
    · rw [Plan.carryOut, runFrom_bind_ok hr]
      rw [hr] at hgood
      exact ih a (hrest a hgood)
  | body param span e env =>
    have hgood := hev e env (u.note setup (.callStart param depth) span) hp
    rcases hr : (ev e env).runFrom (u.note setup (.callStart param depth) span) with ⟨r, v⟩
    rw [Plan.carryOut, runFrom_call hr]
    rwa [hr] at hgood

theorem eval_good (hplan : ∀ stamp e env, Ready e env → (plan stamp env e).Keeps Ready Good)
    (hhalt : ∀ depth u halt span, halt? setup depth u = some halt →
      Good (.error (halt.failure span)))
    (hfuel : Good (.error .outOfFuel)) (hready : Ready e env) :
    Good ((eval setup fuel depth e env).runFrom u).1 := by
  induction fuel generalizing depth e env u with
  | zero => exact hfuel
  | succ fuel ih =>
    rw [runFrom_eval_succ]
    cases hh : halt? setup (depth + 1) (u.count (depth + 1)) with
    | some halt => exact hhalt _ _ halt _ hh
    | none => exact carryOut_good (fun _ _ _ h => ih h) (hplan _ e env hready)

end

end Run

end Letrec
