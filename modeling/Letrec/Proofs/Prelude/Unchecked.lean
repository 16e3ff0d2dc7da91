import Letrec.Program
import Letrec.Proofs.Evaluation.Blame
import Letrec.Proofs.Prelude.Registration
import Letrec.Proofs.Scope.Exact
import Letrec.Proofs.Scope.Soundness

/-!
# Names that a prelude lacks

The check looks at a program and takes the names of the prelude for granted. Its definitions are
evaluated and not checked, and the body of a procedure is not even evaluated before it is called. So
a program that passes the check may look up a name in vain after all
(`unbound_hides_in_definition`). But then the variable does not stand in the program: it stands in a
definition, at a place where neither a form around it nor a definition before it binds the name, and
a check of that definition would have reported it (`unbound_only_in_definitions`).

The invariant is that every variable of every closure is bound where it stands or is one of those,
`bad` below.
-/

namespace Letrec

-- ---------------------------------------------------------------------------
-- Expressions
-- ---------------------------------------------------------------------------

namespace Expr

variable {names names' seen : List String}

theorem parts_mono {e : Expr} (hsub : names ⊆ names') (h : part ∈ e.parts names') :
    ∃ smaller, (smaller, part.2) ∈ e.parts names ∧ smaller ⊆ part.1 := by
  have hcons : ∀ x, x :: names ⊆ x :: names' := fun x => List.cons_subset_cons x hsub
  cases e with
  | letRec o f x procBody body =>
    have hproc := List.cons_subset_cons x (hcons f)
    simp only [parts, List.mem_cons, List.not_mem_nil, or_false] at h
    rcases h with rfl | rfl
    · exact ⟨_, by simp [parts], hproc⟩
    · exact ⟨_, by simp [parts], hcons f⟩
  | _ => simp only [parts, List.mem_cons, List.not_mem_nil, or_false] at h <;> grind [parts]

/-- Where more names are visible around an expression, more are at every position of it. -/
theorem Stands.mono (h : Stands a seen names' e) (hsub : names ⊆ names') :
    ∃ fewer, Stands a fewer names e ∧ fewer ⊆ seen := by
  induction h generalizing names with
  | here => exact ⟨names, .here, hsub⟩
  | inside hpart _ ih =>
    obtain ⟨smaller, hmem, hsmaller⟩ := parts_mono hsub hpart
    obtain ⟨fewer, hstands, hfewer⟩ := ih hsmaller
    exact ⟨fewer, .inside hmem hstands, hfewer⟩

theorem Scoped.part {e a : Expr} (h : e.Scoped names) (hpart : (seen, a) ∈ e.parts names) :
    a.Scoped seen := by
  cases e <;> simp only [parts, List.mem_cons, List.not_mem_nil,
    or_false] at hpart <;> grind [Scoped]

theorem Scoped.stands {e : Expr} (h : e.Scoped names) (ha : Stands a seen names e) :
    a.Scoped seen := by
  induction ha with
  | here => exact h
  | inside hpart _ ih => exact ih (h.part hpart)

/-- Every variable is bound where it stands, or is one of `bad`. -/
def BoundBut (bad : Origin → String → Prop) (names : List String) (e : Expr) : Prop :=
  ∀ o x seen, Stands (.var o x) seen names e → x ∈ seen ∨ bad o x

variable {bad : Origin → String → Prop}

theorem BoundBut.mono {e : Expr} (h : e.BoundBut bad names) (hsub : names ⊆ names') :
    e.BoundBut bad names' := by
  intro o x seen hstands
  obtain ⟨fewer, hfewer, hseen⟩ := hstands.mono hsub
  exact (h o x fewer hfewer).imp_left fun hx => hseen hx

theorem BoundBut.part {e a : Expr} (h : e.BoundBut bad names) (hpart : (seen, a) ∈ e.parts names) :
    a.BoundBut bad seen :=
  fun o x _ hstands => h o x _ (.inside hpart hstands)

theorem Scoped.boundBut {e : Expr} (h : e.Scoped names) : e.BoundBut bad names :=
  fun _ _ _ hstands => .inl (h.stands hstands).2

end Expr

-- ---------------------------------------------------------------------------
-- Values and environments
-- ---------------------------------------------------------------------------

mutual
def Value.BoundBut (bad : Origin → String → Prop) : Value → Prop
  | .closure x body env => env.BoundBut bad ∧ body.BoundBut bad (x :: env.names)
  | .int _ | .bool _ | .absent => True

def Env.BoundBut (bad : Origin → String → Prop) : Env → Prop
  | .empty | .absent => True
  | .bind _ _ value tail => value.BoundBut bad ∧ tail.BoundBut bad
  | .recur _ f x body tail => body.BoundBut bad (x :: f :: tail.names) ∧ tail.BoundBut bad
end

variable {bad : Origin → String → Prop}

namespace Env

theorem names_orEmpty (env : Env) : env.orEmpty.names = env.names := by
  cases env <;> rfl

theorem cons_names_extend (env : Env) (stamp : Stamp) (x : String) (v : Value) :
    x :: env.names ⊆ (env.extend stamp x v).names := by
  rw [extend, ← env.names_orEmpty]
  exact names_bind_subset

theorem cons_names_extendRec (env : Env) (stamp : Stamp) (f x : String) (body : Expr) :
    f :: env.names ⊆ (env.extendRec stamp f x body).names := by
  rw [extendRec, ← env.names_orEmpty]
  exact names_recur_subset

theorem not_mem_names_of_lookup : ∀ {env : Env}, env.lookup x = .error f → x ∉ env.names
  | .empty, _ => by simp
  | .absent, _ => by simp
  | .bind _ name value tail, h => by
    rw [lookup] at h
    split at h
    · cases h
    · simpa [Ne.symm, *] using not_mem_names_of_lookup h
  | .recur _ name param body tail, h => by
    rw [lookup] at h
    split at h
    · cases h
    · simpa [Ne.symm, *] using not_mem_names_of_lookup h

namespace BoundBut

theorem orEmpty {env : Env} (h : env.BoundBut bad) : env.orEmpty.BoundBut bad := by
  cases env <;> exact h

theorem extend {env : Env} (h : env.BoundBut bad) (hv : v.BoundBut bad) :
    (env.extend stamp x v).BoundBut bad :=
  ⟨hv, h.orEmpty⟩

theorem extendRec {env : Env} (h : env.BoundBut bad)
    (hbody : body.BoundBut bad (x :: f :: env.names)) :
    (env.extendRec stamp f x body).BoundBut bad := by
  refine ⟨?_, h.orEmpty⟩
  rwa [env.names_orEmpty]

theorem lookup : ∀ {env : Env}, env.BoundBut bad → env.lookup x = .ok v → v.BoundBut bad
  | .empty, _, hx => by cases hx
  | .absent, _, hx => by cases hx
  | .bind _ name value tail, ⟨hvalue, htail⟩, hx => by
    rw [Env.lookup] at hx
    split at hx
    · cases hx
      exact hvalue
    · exact lookup htail hx
  | .recur stamp name param body tail, ⟨hbody, htail⟩, hx => by
    rw [Env.lookup] at hx
    split at hx
    · cases hx
      exact ⟨⟨hbody, htail⟩, hbody.mono (List.cons_subset_cons _ names_recur_subset)⟩
    · exact lookup htail hx

end BoundBut

end Env

-- ---------------------------------------------------------------------------
-- Evaluation
-- ---------------------------------------------------------------------------

def FailsOnly (bad : Origin → String → Prop) : Except Failure Value → Prop
  | .ok v => v.BoundBut bad
  | .error (.unbound x span) => ∃ o, bad o x ∧ span = o.span.known?
  | .error _ => True

namespace Run

theorem plan_failsOnly (henv : env.BoundBut bad) (he : e.BoundBut bad env.names) :
    (plan stamp env e).Keeps (fun e env => env.BoundBut bad ∧ e.BoundBut bad env.names)
      (FailsOnly bad) := by
  have hpart : ∀ a, (env.names, a) ∈ e.parts env.names → env.BoundBut bad ∧
    a.BoundBut bad env.names :=
    fun a ha => ⟨henv, he.part ha⟩
  cases e with
  | const => trivial
  | var o x =>
    simp only [plan]
    cases hx : env.lookup x with
    | ok v => exact henv.lookup hx
    | error f =>
      -- The variable stands where just the names of the environment are visible.
      have hbad := (he o x env.names .here).resolve_left (Env.not_mem_names_of_lookup hx)
      rcases Env.lookup_error hx with rfl | rfl
      · exact ⟨o, hbad, rfl⟩
      · trivial
  | diff o left right =>
    refine ⟨hpart left (by simp [Expr.parts]),
      fun a _ => .narrow Value.narrows_asInt (fun _ => trivial) ?_⟩
    intro m _
    refine ⟨hpart right (by simp [Expr.parts]),
      fun b _ => .narrow Value.narrows_asInt (fun _ => trivial) ?_⟩
    exact fun n _ => trivial
  | zeroTest o operand =>
    refine ⟨hpart operand (by simp [Expr.parts]), fun a _ => ?_⟩
    exact .narrow Value.narrows_asInt (fun _ => trivial) fun n _ => trivial
  | ifThenElse o test yes no =>
    refine ⟨hpart test (by simp [Expr.parts]),
      fun a _ => .narrow Value.narrows_asBool (fun _ => trivial) ?_⟩
    exact fun b _ => .last (hpart _ (by cases b <;> simp [Expr.parts]))
  | letIn o x value body =>
    refine ⟨hpart value (by simp [Expr.parts]), fun v hv => .last ⟨henv.extend hv, ?_⟩⟩
    have hbody : body.BoundBut bad (x :: env.names) := he.part (by simp [Expr.parts])
    exact hbody.mono (env.cons_names_extend ..)
  | letRec o f x procBody body =>
    refine .bound (.last ⟨henv.extendRec (he.part (by simp [Expr.parts])), ?_⟩)
    have hbody : body.BoundBut bad (f :: env.names) := he.part (by simp [Expr.parts])
    exact hbody.mono (env.cons_names_extendRec ..)
  | proc o x body => exact ⟨henv, he.part (by simp [Expr.parts])⟩
  | call o operator operand =>
    refine ⟨hpart operator (by simp [Expr.parts]), fun a ha => ?_⟩
    refine .narrow Value.narrows_asClosure (fun _ => trivial) fun c hc => ?_
    rw [Value.asClosure_ok hc] at ha
    obtain ⟨hclosed, hbody⟩ := ha
    refine ⟨hpart operand (by simp [Expr.parts]), fun v hv => ?_⟩
    exact ⟨hclosed.extend hv, hbody.mono (c.2.2.cons_names_extend ..)⟩
  | absent => trivial

theorem eval_failsOnly (henv : env.BoundBut bad) (he : e.BoundBut bad env.names) :
    FailsOnly bad ((eval setup fuel depth e env).runFrom u).1 :=
  eval_good (fun _ _ _ h => plan_failsOnly h.1 h.2)
    (fun _ _ halt _ _ => by cases halt <;> trivial) trivial ⟨henv, he⟩

end Run

theorem execute_failsOnly (setup : Setup) (fuel : Nat) (henv : env.BoundBut bad)
    (he : e.BoundBut bad env.names) : FailsOnly bad (execute setup fuel e env).result := by
  rw [Run.execute_result]
  refine Run.eval_failsOnly henv.orEmpty ?_
  rwa [env.names_orEmpty]

-- ---------------------------------------------------------------------------
-- Preludes
-- ---------------------------------------------------------------------------

namespace Prelude

/-- The variable stands in the definition at position `i`, where `seen` are visible, and its name is
not among them; the names of the definitions before it are known there. -/
structure Lacks (p : Prelude) (o : Origin) (x : String) (i : Nat) (d : Definition)
    (seen : List String) : Prop where
  definition : p.definitions[i]? = some d
  stands : Expr.Stands (.var o x) seen (p.names.take i) d.expr
  unbound : x ∉ seen

theorem extendBy_boundBut {env env' : Env} {ds : List Definition} (henv : env.BoundBut bad)
    (hknown : known ⊆ env.names)
    (hds : ∀ i (d : Definition), ds[i]? = some d →
      d.expr.BoundBut bad (known ++ (ds.map Definition.name).take i))
    (h : extendBy run env ds = .ok env') :
    env'.BoundBut bad ∧ known ++ ds.map Definition.name ⊆ env'.names := by
  induction ds generalizing run env known with
  | nil =>
    cases h
    exact ⟨henv, by simpa using hknown⟩
  | cons d rest ih =>
    obtain ⟨v, hv, hrest⟩ := extendBy_cons_ok h
    have hd : d.expr.BoundBut bad known := by simpa using hds 0 d rfl
    have hresult : FailsOnly bad (eval run d.expr env) := Run.eval_failsOnly henv (hd.mono hknown)
    rw [hv] at hresult
    have hnames := List.cons_subset.mp (env.cons_names_extend ⟨run, 0⟩ d.name v)
    have hknown' : known ++ [d.name] ⊆ (env.extend ⟨run, 0⟩ d.name v).names :=
      List.append_subset.mpr ⟨List.Subset.trans hknown hnames.2, by simpa using hnames.1⟩
    have hlater : ∀ i (d' : Definition), rest[i]? = some d' →
        d'.expr.BoundBut bad (known ++ [d.name] ++ (rest.map Definition.name).take i) := by
      intro i d' hi
      simpa using hds (i + 1) d' hi
    obtain ⟨henv', hsub⟩ := ih (henv.extend hresult) hknown' hlater hrest
    exact ⟨henv', by simpa using hsub⟩

theorem env_boundBut {p : Prelude} {scope : Env} (h : p.env run = .ok scope) :
    scope.BoundBut (fun o x => ∃ i d seen, p.Lacks o x i d seen) ∧ p.names ⊆ scope.names := by
  have hempty : Env.BoundBut (fun o x => ∃ i d seen, p.Lacks o x i d seen) .empty := trivial
  refine extendBy_boundBut hempty (List.nil_subset _) (fun i d hd o x seen hstands => ?_) h
  by_cases hx : x ∈ seen
  · exact .inl hx
  · exact .inr ⟨i, d, seen, hd, hstands, hx⟩

theorem Lacks.reported (h : Lacks p o x i d seen) (hd : d.expr.Coherent) :
    ∃ diagnostic ∈ d.expr.scopeErrors (p.names.take i), Scope.ReportOn seen o x diagnostic :=
  reportOn_mem_scopeErrors hd h.stands h.unbound

end Prelude

theorem Settings.evaluate_refused (s : Settings) (h : d ∈ e.scopeErrors s.prelude.names) :
    s.evaluate e = .error (.diagnostics (e.scopeErrors s.prelude.names)) := by
  unfold Settings.evaluate
  split
  · next hclean =>
    rw [hclean] at h
    cases h
  · rfl

theorem Settings.evaluate_clean (s : Settings) (henv : s.prelude.env 1 = .ok env)
    (hcheck : e.scopeErrors s.prelude.names = []) :
    s.evaluate e = .ok (executeWithin s.setup e env) := by
  simp only [Settings.evaluate, hcheck, henv]

/-- A variable of the program that is not bound where it stands is reported, and the program is not
run. A program that passes the check is run. If a name is looked up in vain then, it is that of a
variable in a definition of the prelude, which is not bound where it stands and which a check of the
definition, against the names of those before it, would have reported. -/
theorem unbound_only_in_definitions (s : Settings) (e : Expr)
    (hdefinitions : ∀ d ∈ s.prelude.definitions, d.expr.Coherent) (he : e.Coherent)
    (henv : s.prelude.env 1 = .ok env) :
    (∀ o x seen, Expr.Stands (.var o x) seen s.prelude.names e → x ∉ seen →
      (∃ diagnostic ∈ e.scopeErrors s.prelude.names, Scope.ReportOn seen o x diagnostic) ∧
      s.evaluate e = .error (.diagnostics (e.scopeErrors s.prelude.names))) ∧
    (e.scopeErrors s.prelude.names = [] →
      s.evaluate e = .ok (executeWithin s.setup e env) ∧
      ∀ fuel x span, (execute s.setup fuel e env).result = .error (.unbound x span) →
        ∃ o i d seen, s.prelude.Lacks o x i d seen ∧ span = o.span.known? ∧
          ∃ diagnostic ∈ d.expr.scopeErrors (s.prelude.names.take i),
            Scope.ReportOn seen o x diagnostic) := by
  refine ⟨fun o x seen hstands hx => ?_, fun hcheck => ⟨s.evaluate_clean henv hcheck, ?_⟩⟩
  · obtain ⟨d, hd, hreport⟩ := reportOn_mem_scopeErrors he hstands hx
    exact ⟨⟨d, hd, hreport⟩, s.evaluate_refused hd⟩
  · intro fuel x span hfails
    obtain ⟨hbound, hnames⟩ := Prelude.env_boundBut henv
    have hprogram := ((scopeErrors_eq_nil he).mp hcheck).mono hnames
    have hresult := execute_failsOnly s.setup fuel hbound hprogram.boundBut
    rw [hfails] at hresult
    obtain ⟨o, ⟨i, d, seen, hlacks⟩, rfl⟩ := hresult
    have hd := hdefinitions d (List.mem_of_getElem? hlacks.definition)
    exact ⟨o, i, d, seen, hlacks, rfl, hlacks.reported hd⟩

/-- `f = proc (n) x`, which is evaluated without a look at its body. -/
def Definition.vain (x : String) : Definition :=
  ⟨"f", "", .proc ⟨⟨1, 1⟩, .zero⟩ "n" (.var ⟨⟨1, 0⟩, ⟨"prelude", 1, 9⟩⟩ x)⟩

/-- `(f 1)` passes the check where `f` is known, and then looks `nope` up in vain. -/
theorem unbound_hides_in_definition :
    let s : Settings := { prelude := Prelude.ofHistory [.definition (.vain "nope")] }
    let e : Expr := .call ⟨⟨2, 2⟩, .zero⟩ (.var ⟨⟨2, 0⟩, .zero⟩ "f") (.const ⟨⟨2, 1⟩, .zero⟩ 1)
    (∃ env, s.prelude.env 1 = .ok env) ∧ e.Coherent ∧ e.scopeErrors s.prelude.names = [] ∧
      ∃ o, s.evaluate e = .ok o ∧ o.result = .error (.unbound "nope" (some ⟨"prelude", 1, 9⟩)) := by
  intro s e
  have he : e.Coherent := by decide
  have hcheck : e.scopeErrors s.prelude.names = [] := (scopeErrors_eq_nil he).mpr (by decide)
  refine ⟨⟨_, rfl⟩, he, hcheck, ?_⟩
  exact ⟨_, s.evaluate_clean rfl hcheck, rfl⟩

/-- A variable without a name is refused in a program, and looked up in vain in the body of `f`. -/
theorem unbound_only_in_definitions_body :
    let body : Expr := .var ⟨⟨1, 0⟩, ⟨"prelude", 1, 9⟩⟩ ""
    let s : Settings := { prelude := Prelude.ofHistory [.definition (.vain "")] }
    let e : Expr := .call ⟨⟨2, 2⟩, .zero⟩ (.var ⟨⟨2, 0⟩, .zero⟩ "f") (.const ⟨⟨2, 1⟩, .zero⟩ 1)
    s.evaluate body = .error (.diagnostics (body.scopeErrors ["f"])) ∧
    ∃ env, s.prelude.env 1 = .ok env ∧ s.evaluate e = .ok (executeWithin s.setup e env) ∧
      ∃ o i d seen, s.prelude.Lacks o "" i d seen ∧ some ⟨"prelude", 1, 9⟩ = o.span.known? ∧
        ∃ diagnostic ∈ d.expr.scopeErrors (s.prelude.names.take i), diagnostic.code = .ast := by
  intro body s e
  have he : e.Coherent := by decide
  have hcheck : e.scopeErrors s.prelude.names = [] := (scopeErrors_eq_nil he).mpr (by decide)
  obtain ⟨env, henv⟩ : ∃ env, s.prelude.env 1 = .ok env := ⟨_, rfl⟩
  obtain ⟨hrefused, _⟩ := unbound_only_in_definitions s body (by decide) (by decide) henv
  obtain ⟨_, hclean⟩ := unbound_only_in_definitions s e (by decide) he henv
  obtain ⟨hruns, hvain⟩ := hclean hcheck
  have hfails : (execute s.setup 2 e env).result =
    .error (.unbound "" (some ⟨"prelude", 1, 9⟩)) := by
    cases henv
    rfl
  obtain ⟨o, i, d, seen, hlacks, hspan, diagnostic, hmem, hreport⟩ := hvain 2 _ _ hfails
  refine ⟨(hrefused _ _ _ .here (by decide)).2, env, henv, hruns, o, i, d, seen, hlacks, hspan,
    diagnostic, hmem, ?_⟩
  cases hreport with
  | nameless _ hd => rw [hd]
  | unbound hx _ => exact absurd rfl hx

end Letrec
