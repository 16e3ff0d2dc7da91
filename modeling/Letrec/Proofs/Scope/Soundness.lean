import Letrec.Prelude
import Letrec.Proofs.Evaluation.Lockstep
import Letrec.Proofs.Scope.Check

/-!
# Checked programs do not go wrong

In an environment in which every closure is well scoped, the evaluation of a well-scoped expression
makes only such closures, so that it looks up no name in vain and never lacks an expression or a
value. The names that the check takes for known are those of a prelude; if its definitions are
checked as well, each against the names before it, its environment is one of those.
-/

namespace Letrec

namespace Expr

theorem Scoped.mono {e : Expr} (h : e.Scoped names) (hsub : names ⊆ names') : e.Scoped names' := by
  induction e generalizing names names' with
  | const => trivial
  | var o x => exact ⟨h.1, hsub h.2⟩
  | diff o left right ihl ihr => exact ⟨ihl h.1 hsub, ihr h.2 hsub⟩
  | zeroTest o operand ih => exact ih h hsub
  | ifThenElse o test yes no iht ihy ihn => exact ⟨iht h.1 hsub, ihy h.2.1 hsub, ihn h.2.2 hsub⟩
  | letIn o x value body ihv ihb =>
    exact ⟨h.1, ihv h.2.1 hsub, ihb h.2.2 (List.cons_subset_cons _ hsub)⟩
  | letRec o f x procBody body ihp ihb =>
    obtain ⟨hf, hx, hproc, hbody⟩ := h
    exact ⟨hf, hx, ihp hproc (List.cons_subset_cons _ (List.cons_subset_cons _ hsub)),
      ihb hbody (List.cons_subset_cons _ hsub)⟩
  | proc o x body ih => exact ⟨h.1, ih h.2 (List.cons_subset_cons _ hsub)⟩
  | call o operator operand ihp ihe => exact ⟨ihp h.1 hsub, ihe h.2 hsub⟩
  | absent => exact h

end Expr

-- ---------------------------------------------------------------------------
-- Values and environments
-- ---------------------------------------------------------------------------

mutual
/-- There is a value, and if it is a closure, all it can use is bound in it. -/
def Value.Scoped : Value → Prop
  | .int _ | .bool _ => True
  | .closure x body env => env.Scoped ∧ body.Scoped (x :: env.names)
  | .absent => False

def Env.Scoped : Env → Prop
  | .empty => True
  | .bind _ _ value tail => value.Scoped ∧ tail.Scoped
  | .recur _ f x body tail => body.Scoped (x :: f :: tail.names) ∧ tail.Scoped
  | .absent => False
end

theorem Value.Scoped.kind_ne {v : Value} (h : v.Scoped) : v.kind ≠ .absent := by
  cases v with
  | absent => exact h.elim
  | _ => exact nofun

namespace Env

@[simp] theorem mem_names_bind : y ∈ (Env.bind stamp x v tail).names ↔ y = x ∨ y ∈ tail.names := by
  by_cases h : y = x <;> simp [names_bind, h]

@[simp] theorem mem_names_recur :
    y ∈ (Env.recur stamp f x body tail).names ↔ y = f ∨ y ∈ tail.names := by
  by_cases h : y = f <;> simp [names_recur, h]

theorem names_bind_subset : x :: tail.names ⊆ (Env.bind stamp x v tail).names := by
  intro y hy
  simpa using hy

theorem names_recur_subset : f :: tail.names ⊆ (Env.recur stamp f x body tail).names := by
  intro y hy
  simpa using hy

namespace Scoped

theorem orEmpty {env : Env} (h : env.Scoped) : env.orEmpty = env := by
  cases env with
  | absent => exact h.elim
  | _ => rfl

theorem extend {env : Env} (h : env.Scoped) (hv : v.Scoped) : (env.extend stamp x v).Scoped := by
  rw [Env.extend, h.orEmpty]
  exact ⟨hv, h⟩

theorem extendRec {env : Env} (h : env.Scoped) (hbody : body.Scoped (x :: f :: env.names)) :
    (env.extendRec stamp f x body).Scoped := by
  rw [Env.extendRec, h.orEmpty]
  exact ⟨hbody, h⟩

theorem names_extend {env : Env} (h : env.Scoped) :
    x :: env.names ⊆ (env.extend stamp x v).names := by
  rw [Env.extend, h.orEmpty]
  exact names_bind_subset

theorem names_extendRec {env : Env} (h : env.Scoped) :
    f :: env.names ⊆ (env.extendRec stamp f x body).names := by
  rw [Env.extendRec, h.orEmpty]
  exact names_recur_subset

theorem lookup : ∀ {env : Env}, env.Scoped → x ∈ env.names → ∃ v, env.lookup x = .ok v ∧ v.Scoped
  | .empty, _, hx => by simp at hx
  | .absent, h, _ => h.elim
  | .bind _ name v tail, ⟨hv, htail⟩, hx => by
    rw [Env.lookup]
    split
    · exact ⟨v, rfl, hv⟩
    · rename_i hne
      exact lookup htail ((mem_names_bind.mp hx).resolve_left (Ne.symm hne))
  | .recur stamp name param body tail, ⟨hbody, htail⟩, hx => by
    rw [Env.lookup]
    split
    · refine ⟨_, rfl, ⟨hbody, htail⟩, hbody.mono (List.cons_subset_cons _ names_recur_subset)⟩
    · rename_i hne
      exact lookup htail ((mem_names_recur.mp hx).resolve_left (Ne.symm hne))

end Scoped

end Env

-- ---------------------------------------------------------------------------
-- Evaluation
-- ---------------------------------------------------------------------------

/-- What may come of a checked program: a value, a value of the wrong kind, or that it is
stopped. -/
def GoesWell : Except Failure Value → Prop
  | .ok v => v.Scoped
  | .error f => match f with
    | .mismatch _ actual _ => actual ≠ .absent
    | .exceeded .. | .cancelled | .outOfFuel => True
    | .unbound .. | .noExpression | .noEnvironment => False

namespace Run

theorem plan_goesWell (henv : env.Scoped) (he : e.Scoped env.names) :
    (plan stamp env e).Keeps (fun e env => env.Scoped ∧ e.Scoped env.names) GoesWell := by
  cases e with
  | const => trivial
  | var o x =>
    obtain ⟨v, hx, hv⟩ := henv.lookup he.2
    simp only [plan, hx]
    exact hv
  | diff o left right =>
    refine ⟨⟨henv, he.1⟩, fun a ha => .narrow Value.narrows_asInt (fun _ => ha.kind_ne)
      fun m _ => ?_⟩
    exact ⟨⟨henv, he.2⟩, fun b hb => .narrow Value.narrows_asInt (fun _ => hb.kind_ne)
      fun n _ => trivial⟩
  | zeroTest o operand =>
    exact ⟨⟨henv, he⟩, fun a ha => .narrow Value.narrows_asInt (fun _ => ha.kind_ne)
      fun n _ => trivial⟩
  | ifThenElse o test yes no =>
    refine ⟨⟨henv, he.1⟩, fun a ha => .narrow Value.narrows_asBool (fun _ => ha.kind_ne)
      fun b _ => .last ?_⟩
    cases b with
    | true => exact ⟨henv, he.2.1⟩
    | false => exact ⟨henv, he.2.2⟩
  | letIn o x value body =>
    exact ⟨⟨henv, he.2.1⟩, fun v hv => .last ⟨henv.extend hv, he.2.2.mono henv.names_extend⟩⟩
  | letRec o f x procBody body =>
    exact .bound (.last ⟨henv.extendRec he.2.2.1, he.2.2.2.mono henv.names_extendRec⟩)
  | proc o x body => exact ⟨henv, he.2⟩
  | call o operator operand =>
    refine ⟨⟨henv, he.1⟩, fun a ha => .narrow Value.narrows_asClosure (fun _ => ha.kind_ne)
      fun c hc => ?_⟩
    rw [Value.asClosure_ok hc] at ha
    obtain ⟨hclosed, hbody⟩ := ha
    exact ⟨⟨henv, he.2⟩, fun v hv => ⟨hclosed.extend hv, hbody.mono hclosed.names_extend⟩⟩
  | absent => exact he.elim

theorem eval_goesWell (henv : env.Scoped) (he : e.Scoped env.names) :
    GoesWell ((eval setup fuel depth e env).runFrom u).1 :=
  eval_good (fun _ _ _ h => plan_goesWell h.1 h.2)
    (fun _ _ halt _ _ => by cases halt <;> trivial) trivial ⟨henv, he⟩

end Run

-- ---------------------------------------------------------------------------
-- Preludes
-- ---------------------------------------------------------------------------

def Definition.Checked (known : List String) (d : Definition) : Prop :=
  d.expr.Coherent ∧ d.expr.scopeErrors known = []

theorem Definition.checked_iff {d : Definition} :
    d.Checked known ↔ d.expr.Coherent ∧ d.expr.Scoped known :=
  and_congr_right scopeErrors_eq_nil

instance (known : List String) (d : Definition) : Decidable (d.Checked known) :=
  decidable_of_iff _ Definition.checked_iff.symm

namespace Prelude

def CheckedFrom (known : List String) : List Definition → Prop
  | [] => True
  | d :: rest => d.Checked known ∧ CheckedFrom (known ++ [d.name]) rest

def Checked (p : Prelude) : Prop := CheckedFrom [] p.definitions

instance decidableCheckedFrom (known : List String) :
    (ds : List Definition) → Decidable (CheckedFrom known ds)
  | [] => .isTrue trivial
  | d :: rest =>
    have := decidableCheckedFrom (known ++ [d.name]) rest
    inferInstanceAs (Decidable (_ ∧ _))

theorem extendBy_scoped {env env' : Env} (henv : env.Scoped) (hknown : known ⊆ env.names)
    (hds : CheckedFrom known ds) (h : extendBy run env ds = .ok env') :
    env'.Scoped ∧ known ++ ds.map Definition.name ⊆ env'.names := by
  induction ds generalizing run env known with
  | nil =>
    cases h
    exact ⟨henv, by simpa using hknown⟩
  | cons d rest ih =>
    obtain ⟨hd, hrest⟩ := hds
    rw [extendBy] at h
    cases hr : eval run d.expr env with
    | error f =>
      rw [hr] at h
      cases h
    | ok v =>
      rw [hr] at h
      have hv : GoesWell (eval run d.expr env) :=
        Run.eval_goesWell henv ((Definition.checked_iff.mp hd).2.mono hknown)
      rw [hr] at hv
      have hnames : d.name :: env.names ⊆ (env.extend ⟨run, 0⟩ d.name v).names := henv.names_extend
      rw [List.cons_subset] at hnames
      have hknown' : known ++ [d.name] ⊆ (env.extend ⟨run, 0⟩ d.name v).names :=
        List.append_subset.mpr ⟨List.Subset.trans hknown hnames.2, by simpa using hnames.1⟩
      obtain ⟨henv', hsub⟩ := ih (henv.extend hv) hknown' hrest h
      exact ⟨henv', by simpa using hsub⟩

theorem Checked.env_scoped {env : Env} (hp : Checked p) (h : p.env run = .ok env) :
    env.Scoped ∧ p.names ⊆ env.names := by
  have hempty : Env.Scoped .empty := trivial
  exact extendBy_scoped hempty (List.nil_subset _) hp h

theorem standard_checked : standard.Checked := by
  unfold Checked
  decide

end Prelude

/-- A program that the check accepts, with the names of a prelude that it accepts, comes to a value
or to one of the wrong kind, unless it is stopped. -/
theorem checked_programs_go_well :
    Prelude.empty.Checked ∧ Prelude.standard.Checked ∧
    ∀ (p : Prelude) (run : Nat) (env : Env) (e : Expr), p.Checked → p.env run = .ok env →
      e.Coherent → e.scopeErrors p.names = [] → ∀ setup o, Ends setup e env o →
      (∃ v, o.result = .ok v ∧ v ≠ .absent) ∨
      (∃ expected actual span, o.result = .error (.mismatch expected actual span) ∧
        actual ≠ .absent) ∨
      (∃ limit bound span, o.result = .error (.exceeded limit bound span)) ∨
      o.result = .error .cancelled := by
  refine ⟨trivial, Prelude.standard_checked, ?_⟩
  rintro p run env e hp henv hcoherent herrors setup o ⟨hne, fuel, rfl⟩
  obtain ⟨hscoped, hnames⟩ := hp.env_scoped henv
  have he := ((scopeErrors_eq_nil hcoherent).mp herrors).mono hnames
  have hgood : GoesWell (execute setup fuel e env).result := by
    rw [Run.execute_result, hscoped.orEmpty]
    exact Run.eval_goesWell hscoped he
  cases hr : (execute setup fuel e env).result with
  | ok v =>
    rw [hr] at hgood
    refine .inl ⟨v, rfl, ?_⟩
    rintro rfl
    exact hgood
  | error f =>
    rw [hr] at hgood hne
    cases f with
    | mismatch expected actual span => exact .inr (.inl ⟨expected, actual, span, rfl, hgood⟩)
    | exceeded limit bound span => exact .inr (.inr (.inl ⟨limit, bound, span, rfl⟩))
    | cancelled => exact .inr (.inr (.inr rfl))
    | outOfFuel => exact absurd rfl hne
    | unbound => exact hgood.elim
    | noExpression => exact hgood.elim
    | noEnvironment => exact hgood.elim

/-- `((plus x) (not true))`, which the check accepts and which fails for its kinds. -/
theorem checked_programs_go_well_plus :
    let node := fun i => (⟨⟨1, i⟩, .zero⟩ : Origin)
    let e : Expr := .call (node 0) (.call (node 1) (.var (node 2) "plus") (.var (node 3) "x"))
      (.call (node 4) (.var (node 5) "not") (.var (node 6) "true"))
    ∃ env, Prelude.standard.env 0 = .ok env ∧ e.Coherent ∧
      e.scopeErrors Prelude.standard.names = [] ∧ ∃ o, Ends {} e env o ∧ ∃ expected actual span,
        o.result = .error (.mismatch expected actual span) ∧ actual ≠ .absent := by
  intro node e
  have he : e.Coherent := by decide
  have herrors : e.scopeErrors Prelude.standard.names = [] :=
    (scopeErrors_eq_nil he).mpr (by decide)
  obtain ⟨env, henv⟩ : ∃ env, Prelude.standard.env 0 = .ok env := ⟨_, rfl⟩
  have hends : Ends {} e env (execute {} 10 e env) := by
    cases henv
    exact ⟨nofun, 10, rfl⟩
  have hwell :=
    checked_programs_go_well.2.2 _ _ _ _ Prelude.standard_checked henv he herrors {} _ hends
  refine ⟨env, henv, he, herrors, _, hends, ?_⟩
  cases henv
  rcases hwell with ⟨v, hv, _⟩ | hmismatch | ⟨_, _, _, h⟩ | h
  · cases hv
  · exact hmismatch
  · cases h
  · cases h

end Letrec
