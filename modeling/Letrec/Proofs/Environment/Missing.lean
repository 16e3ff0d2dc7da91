import Letrec.Proofs.Evaluation.Lexical
import Letrec.Proofs.Evaluation.Linked
import Letrec.Proofs.Scope.Exact

/-!
# No environment in place of the empty one

Frames are put in front of a missing environment as in front of the empty one, and whole runs start
in the empty one if they are given none. Evaluation alone takes a missing environment as it is. It
makes no difference to closures, whose environment gets a frame before it is used, nor below any
other binding; but a variable that stands outside of all bindings is looked up in no environment at
all, where it should be found unbound (`missing_environment_breaks_lookup`).

The environments of two runs are compared after filling them in: the empty environment is put where
a closure has captured none. As long as no variable is looked up in the missing environment the runs
go through the same plans, with values that are the same once filled in.
-/

namespace Letrec

mutual
def Value.filled : Value → Value
  | .int n => .int n
  | .bool b => .bool b
  | .closure param body env => .closure param body env.filled.orEmpty
  | .absent => .absent

def Env.filled : Env → Env
  | .empty => .empty
  | .bind stamp name value tail => .bind stamp name value.filled tail.filled
  | .recur stamp name param body tail => .recur stamp name param body tail.filled
  | .absent => .absent
end

/-- Values that differ at most in what their closures have captured in place of the empty
environment. -/
def Value.SameFilled (v w : Value) : Prop := v.filled = w.filled

def LooksLike (r r' : Except Failure Value) : Prop :=
  (∃ f, r = .error f ∧ r' = .error f) ∨
    ∃ v w, r = .ok v ∧ r' = .ok w ∧ v.kind = w.kind ∧ v.text = w.text ∧ v.toJson = w.toJson

namespace Value

theorem kind_filled (v : Value) : v.filled.kind = v.kind := by
  cases v <;> simp [filled, kind]

theorem text_filled (v : Value) : v.filled.text = v.text := by
  cases v <;> simp [filled, text]

theorem toJson_filled (v : Value) : v.filled.toJson = v.toJson := by
  cases v <;> simp [filled, toJson]

theorem asInt_filled (v : Value) : v.filled.asInt = v.asInt := by
  cases v <;> simp [filled, asInt, kind]

theorem asBool_filled (v : Value) : v.filled.asBool = v.asBool := by
  cases v <;> simp [filled, asBool, kind]

namespace SameFilled

variable {v w : Value}

theorem kind_eq (h : v.SameFilled w) : v.kind = w.kind := by
  rw [← v.kind_filled, h, w.kind_filled]

theorem asInt_eq (h : v.SameFilled w) : v.asInt = w.asInt := by
  rw [← v.asInt_filled, h, w.asInt_filled]

theorem asBool_eq (h : v.SameFilled w) : v.asBool = w.asBool := by
  rw [← v.asBool_filled, h, w.asBool_filled]

theorem closure (h : (Value.closure param body env).SameFilled w) :
    ∃ env', w = .closure param body env' ∧ env.filled.orEmpty = env'.filled.orEmpty := by
  unfold SameFilled at h
  cases w with
  | closure param' body' env' =>
    rw [filled, filled] at h
    obtain ⟨rfl, rfl, henv⟩ := Value.closure.inj h
    exact ⟨env', rfl, henv⟩
  | _ => simp [filled] at h

end SameFilled

end Value

namespace Env

theorem filled_orEmpty (env : Env) : env.orEmpty.filled = env.filled.orEmpty := by
  cases env <;> simp [orEmpty, filled]

theorem filled_extend (env : Env) :
    (env.extend stamp x v).filled = .bind stamp x v.filled env.filled.orEmpty := by
  rw [extend, filled, filled_orEmpty]

theorem filled_extendRec (env : Env) :
    (env.extendRec stamp f x body).filled = .recur stamp f x body env.filled.orEmpty := by
  rw [extendRec, filled, filled_orEmpty]

theorem lookup_filled : ∀ env : Env, env.filled.lookup x = (env.lookup x).map Value.filled
  | .empty => by simp [filled, lookup, Except.map]
  | .absent => by simp [filled, lookup, Except.map]
  | .bind _ name v tail => by
    rw [filled, lookup, lookup, tail.lookup_filled]
    split <;> rfl
  | .recur stamp name param body tail => by
    rw [filled, lookup, lookup, tail.lookup_filled]
    split
    · simp [Except.map, Value.filled, filled, orEmpty]
    · rfl

end Env

theorem ResultLike.of_filled {r r' : Except Failure Value}
    (h : r.map Value.filled = r'.map Value.filled) :
    ResultLike id Value.SameFilled (r.mapError (Failure.located place))
      (r'.mapError (Failure.located place)) := by
  cases r with
  | error f =>
    cases r' with
    | error g =>
      cases h
      exact .error rfl
    | ok w => cases h
  | ok v =>
    cases r' with
    | error g => cases h
    | ok w => exact .ok (Except.ok.inj h)

-- ---------------------------------------------------------------------------
-- Runs
-- ---------------------------------------------------------------------------

namespace Run

/-- An expression that two runs come to, in environments that are the same once filled in, or in a
missing environment and the empty one. In the latter case `bad` tells the variables that stand
outside of all bindings. -/
inductive Twin (bad : Origin → String → Prop) : Expr → Env → Expr → Env → Prop
  | filled (h : env.filled = env'.filled) : Twin bad e env e env'
  | missing (h : ∀ o x, Expr.Stands (.var o x) [] [] e → bad o x) : Twin bad e .absent e .empty

variable {bad : Origin → String → Prop} {setup : Setup}

theorem plan_twin (stamp : Stamp) (hbase : env.filled.orEmpty = env'.filled.orEmpty)
    (hpart : ∀ a, ([], a) ∈ e.parts [] → Twin bad a env a env')
    (hvar : ∀ o x, e = .var o x → env.filled = env'.filled) :
    Plan.Like id (Twin bad) Value.SameFilled (plan stamp env e) (plan stamp env' e) := by
  cases e with
  | const => exact .done (.ok rfl)
  | var o x =>
    have hlookup : (env.lookup x).map Value.filled = (env'.lookup x).map Value.filled := by
      rw [← env.lookup_filled, ← env'.lookup_filled, hvar o x rfl]
    exact .done (.of_filled hlookup)
  | diff o left right =>
    refine .operand (hpart left (by simp [Expr.parts])) fun a a' ha => ?_
    refine .narrow Value.narrows_asInt ha.kind_eq rfl fun m m' hm hm' => ?_
    refine .operand (hpart right (by simp [Expr.parts])) fun b b' hb => ?_
    refine .narrow Value.narrows_asInt hb.kind_eq rfl fun n n' hn hn' => ?_
    rw [← ha.asInt_eq, hm] at hm'
    rw [← hb.asInt_eq, hn] at hn'
    cases hm'
    cases hn'
    exact .done (.ok rfl)
  | zeroTest o operand =>
    refine .operand (hpart operand (by simp [Expr.parts])) fun a a' ha => ?_
    refine .narrow Value.narrows_asInt ha.kind_eq rfl fun m m' hm hm' => ?_
    rw [← ha.asInt_eq, hm] at hm'
    cases hm'
    exact .done (.ok rfl)
  | ifThenElse o test yes no =>
    refine .operand (hpart test (by simp [Expr.parts])) fun a a' ha => ?_
    refine .narrow Value.narrows_asBool ha.kind_eq rfl fun b b' hb hb' => ?_
    rw [← ha.asBool_eq, hb] at hb'
    cases hb'
    exact .last (hpart _ (by cases b <;> simp [Expr.parts]))
  | letIn o x value body =>
    refine .operand (hpart value (by simp [Expr.parts])) fun v w hvw => .last (.filled ?_)
    rw [env.filled_extend, env'.filled_extend, hbase, show v.filled = w.filled from hvw]
  | letRec o f x procBody body =>
    refine .bound rfl (.last (.filled ?_))
    rw [env.filled_extendRec, env'.filled_extendRec, hbase]
  | proc o x body =>
    refine .done (.ok ?_)
    rw [Value.SameFilled, Value.filled, Value.filled, hbase]
  | call o operator operand =>
    refine .operand (hpart operator (by simp [Expr.parts])) fun a a' ha => ?_
    refine .narrow Value.narrows_asClosure ha.kind_eq rfl ?_
    rintro ⟨x, body, closed⟩ ⟨x', body', closed'⟩ hc hc'
    rw [Value.asClosure_ok hc, Value.asClosure_ok hc'] at ha
    obtain ⟨env'', heq, hclosed⟩ := ha.closure
    cases heq
    refine .operand (hpart operand (by simp [Expr.parts])) fun v w hvw => .body rfl (.filled ?_)
    rw [closed.filled_extend, closed'.filled_extend, hclosed, show v.filled = w.filled from hvw]
  | absent => exact .done (.error rfl)

def Strays (bad : Origin → String → Prop) (x y : Except Failure Value × Usage) : Prop :=
  (ResultLike id Value.SameFilled x.1 y.1 ∧ x.2 = y.2) ∨
    ∃ o name, bad o name ∧ x.1 = .error .noEnvironment ∧ y.1 = .error (.unbound name o.span.known?)

theorem carryOut_strays {p p' : Plan} (h : Plan.Like id (Twin bad) Value.SameFilled p p')
    (hev : ∀ e env e' env' u, Twin bad e env e' env' →
      Strays bad ((ev e env).runFrom u) ((ev' e' env').runFrom u)) :
    Strays bad ((p.carryOut setup depth ev).runFrom u)
      ((p'.carryOut setup depth ev').runFrom u) := by
  induction h generalizing u with
  | done h =>
    rw [Plan.carryOut, Plan.carryOut, runFrom_conclude, runFrom_conclude]
    exact .inl ⟨h, rfl⟩
  | bound hspan _ ih =>
    cases hspan
    rw [Plan.carryOut, Plan.carryOut, runFrom_bind_ok runFrom_emit, runFrom_bind_ok runFrom_emit]
    exact ih
  | @operand e env e' env' rest rest' h _ ih =>
    rw [Plan.carryOut, Plan.carryOut]
    rcases hm : (ev e env).runFrom u with ⟨r, v⟩
    rcases hm' : (ev' e' env').runFrom u with ⟨r', v'⟩
    have hoperand := hev e env e' env' u h
    rw [hm, hm'] at hoperand
    rcases hoperand with ⟨hr, rfl⟩ | ⟨o, name, hbad, rfl, rfl⟩
    · cases hr with
      | ok hval =>
        rw [runFrom_bind_ok hm, runFrom_bind_ok hm']
        exact ih _ _ hval
      | error hf =>
        rw [runFrom_bind_error hm, runFrom_bind_error hm']
        exact .inl ⟨.error hf, rfl⟩
    · rw [runFrom_bind_error hm, runFrom_bind_error hm']
      exact .inr ⟨o, name, hbad, rfl, rfl⟩
  | @body span span' e env e' env' param hspan h =>
    cases hspan
    rcases hm : (ev e env).runFrom (u.note setup (.callStart param depth) span) with ⟨r, v⟩
    rcases hm' : (ev' e' env').runFrom (u.note setup (.callStart param depth) span) with ⟨r', v'⟩
    have hbody := hev e env e' env' (u.note setup (.callStart param depth) span) h
    rw [hm, hm'] at hbody
    rw [Plan.carryOut, Plan.carryOut, runFrom_call hm, runFrom_call hm']
    rcases hbody with ⟨hr, rfl⟩ | ⟨o, name, hbad, rfl, rfl⟩
    · have hclose : (v.close setup (.callEnd param depth) span r).seen id =
          (v.close setup (.callEnd param depth) span r').seen id := hr.close rfl rfl
      rw [Usage.seen_id, Usage.seen_id] at hclose
      exact .inl ⟨hr, hclose⟩
    · exact .inr ⟨o, name, hbad, rfl, rfl⟩

theorem eval_strays (h : Twin bad e env e' env') :
    Strays bad ((eval setup fuel depth e env).runFrom u)
      ((eval setup fuel depth e' env').runFrom u) := by
  induction fuel generalizing depth e env e' env' u with
  | zero => exact .inl ⟨.error rfl, rfl⟩
  | succ fuel ih =>
    rw [runFrom_eval_succ, runFrom_eval_succ]
    cases h with
    | filled h =>
      cases halt? setup (depth + 1) (u.count (depth + 1)) with
      | some halt => exact .inl ⟨.error rfl, rfl⟩
      | none =>
        refine carryOut_strays (plan_twin _ ?_ (fun _ _ => .filled h) fun _ _ _ => h)
          fun _ _ _ _ _ h => ih h
        rw [h]
    | missing h =>
      cases halt? setup (depth + 1) (u.count (depth + 1)) with
      | some halt => exact .inl ⟨.error rfl, rfl⟩
      | none =>
        by_cases hvar : ∃ o x, e = .var o x
        · obtain ⟨o, x, rfl⟩ := hvar
          exact .inr ⟨o, x, h o x .here, rfl, rfl⟩
        · refine carryOut_strays (plan_twin _ rfl (fun a ha => .missing fun o x hx => ?_) ?_)
            fun _ _ _ _ _ h => ih h
          · exact h o x (.inside ha hx)
          · exact fun o x he => absurd ⟨o, x, he⟩ hvar

end Run

-- ---------------------------------------------------------------------------
-- Results
-- ---------------------------------------------------------------------------

theorem ResultLike.looksLike (h : ResultLike id Value.SameFilled r r') : LooksLike r r' := by
  cases h with
  | error h =>
    rw [Failure.seen_id, Failure.seen_id] at h
    exact .inl ⟨_, rfl, congrArg _ h.symm⟩
  | @ok v w h =>
    refine .inr ⟨v, w, rfl, rfl, Value.SameFilled.kind_eq h, ?_, ?_⟩
    · rw [← v.text_filled, h, w.text_filled]
    · rw [← v.toJson_filled, h, w.toJson_filled]

theorem evalFor_looksLike (h : env.filled = env'.filled) (fuel run : Nat) (e : Expr) :
    LooksLike (evalFor fuel run e env) (evalFor fuel run e env') := by
  have hstrays : Run.Strays (fun _ _ => False) ((Run.eval { run } fuel 0 e env).runFrom {})
      ((Run.eval { run } fuel 0 e env').runFrom {}) := Run.eval_strays (.filled h)
  rcases hstrays with ⟨hr, _⟩ | ⟨_, _, hbad, _⟩
  · exact hr.looksLike
  · exact hbad.elim

theorem LooksLike.error (h : LooksLike r r') (hr : r = .error f) : r' = .error f := by
  subst hr
  rcases h with ⟨g, hg, hr'⟩ | ⟨v, w, hv, _⟩
  · cases hg
    exact hr'
  · cases hv

theorem evalFor_empty_ne (fuel run : Nat) (e : Expr) :
    evalFor fuel run e .empty ≠ .error .noEnvironment := by
  have hlinked : LinkedResult (evalFor fuel run e .empty) := Run.eval_linked ⟨nofun, trivial⟩
  intro heq
  rw [heq] at hlinked
  exact hlinked rfl

theorem evalFor_absent (fuel run : Nat) (e : Expr) :
    (evalFor fuel run e .absent ≠ .error .noEnvironment ∧
      ResultLike id Value.SameFilled (evalFor fuel run e .absent) (evalFor fuel run e .empty)) ∨
    (evalFor fuel run e .absent = .error .noEnvironment ∧
      ∃ o x, Expr.Stands (.var o x) [] [] e ∧
        evalFor fuel run e .empty = .error (.unbound x o.span.known?)) := by
  have hstrays : Run.Strays (fun o x => Expr.Stands (.var o x) [] [] e)
      ((Run.eval { run } fuel 0 e .absent).runFrom {})
        ((Run.eval { run } fuel 0 e .empty).runFrom {}) :=
    Run.eval_strays (.missing fun _ _ h => h)
  rcases hstrays with ⟨hr, _⟩ | ⟨o, x, hstands, hmissing, hunbound⟩
  · exact .inl ⟨fun hmissing => evalFor_empty_ne fuel run e (hr.looksLike.error hmissing), hr⟩
  · exact .inr ⟨hmissing, o, x, hstands, hunbound⟩

theorem apply_looksLike (h : env.filled.orEmpty = env'.filled.orEmpty) (run : Nat) (param : String)
    (body : Expr) (arg : Value) :
    LooksLike (apply run param body env arg) (apply run param body env' arg) := by
  refine evalFor_looksLike ?_ _ _ _
  rw [env.filled_extend, env'.filled_extend, h]

/-- In a missing environment an expression comes to the same as in the empty one, unless a variable
is looked up in no environment; and then it stands outside of all bindings, and is unbound in the
empty environment. Closures made in a missing environment are applied like those made in the empty
one, and a missing environment is taken for the empty one where frames are put in front of it and
where a run starts. -/
theorem missing_environment_acts_as_empty (fuel run : Nat) (e : Expr) :
    (LooksLike (evalFor fuel run e .absent) (evalFor fuel run e .empty) ↔
      evalFor fuel run e .absent ≠ .error .noEnvironment) ∧
    (evalFor fuel run e .absent = .error .noEnvironment →
      ∃ o x, Expr.Stands (.var o x) [] [] e ∧
        evalFor fuel run e .empty = .error (.unbound x o.span.known?)) ∧
    (∀ param body env, evalFor fuel run e .absent = .ok (.closure param body env) →
      ∃ env', evalFor fuel run e .empty = .ok (.closure param body env') ∧
        ∀ run' arg, LooksLike (apply run' param body env arg) (apply run' param body env' arg)) ∧
    (∀ param body arg, apply run param body .absent arg = apply run param body .empty arg) ∧
    (∀ setup, execute setup fuel e .absent = execute setup fuel e .empty) ∧
    (∀ stamp x v, Env.absent.extend stamp x v = Env.empty.extend stamp x v) ∧
    ∀ stamp f x body, Env.absent.extendRec stamp f x body = Env.empty.extendRec stamp f x body := by
  refine ⟨⟨?_, ?_⟩, ?_, ?_, fun _ _ _ => rfl, fun _ => rfl, fun _ _ _ => rfl, fun _ _ _ _ => rfl⟩
  · exact fun hlike hmissing => evalFor_empty_ne fuel run e (hlike.error hmissing)
  · intro hne
    rcases evalFor_absent fuel run e with ⟨_, hlike⟩ | ⟨hmissing, _⟩
    · exact hlike.looksLike
    · exact absurd hmissing hne
  · intro hmissing
    rcases evalFor_absent fuel run e with ⟨hne, _⟩ | ⟨_, hunbound⟩
    · exact absurd hmissing hne
    · exact hunbound
  · intro param body env hclosure
    rcases evalFor_absent fuel run e with ⟨_, hlike⟩ | ⟨hmissing, _⟩
    · rw [hclosure] at hlike
      generalize evalFor fuel run e .empty = r at hlike
      cases hlike with
      | ok hvw =>
        obtain ⟨env', rfl, henv⟩ := hvw.closure
        exact ⟨env', rfl, fun run' arg => apply_looksLike henv run' param body arg⟩
    · rw [hclosure] at hmissing
      cases hmissing

/-- `((proc (f) f) proc (y) -(y, x))`: no variable is looked up before there are frames, and the
closure that comes of it looks `x` up in vain, whether it was made in the empty environment or
in none. -/
theorem missing_environment_acts_as_empty_capture :
    let body : Expr := .diff default (.var default "y") (.var default "x")
    let e : Expr := .call default (.proc default "f" (.var default "f")) (.proc default "y" body)
    evalFor 3 1 e .absent = .ok (.closure "y" body .absent) ∧
      LooksLike (evalFor 3 1 e .absent) (evalFor 3 1 e .empty) ∧
      ∃ env', evalFor 3 1 e .empty = .ok (.closure "y" body env') ∧
        LooksLike (apply 2 "y" body .absent (.int 5)) (apply 2 "y" body env' (.int 5)) := by
  intro body e
  obtain ⟨hlike, _, hclosure, _⟩ := missing_environment_acts_as_empty 3 1 e
  obtain ⟨env', hempty, happly⟩ := hclosure "y" body .absent rfl
  exact ⟨rfl, hlike.mpr nofun, env', hempty, happly 2 (.int 5)⟩

/-- A variable that stands outside of all bindings is unbound in the empty environment, and is not
looked up in any environment if there is none. -/
theorem missing_environment_breaks_lookup :
    eval 1 (.var default "x") .absent = .error .noEnvironment ∧
      eval 1 (.var default "x") .empty = .error (.unbound "x" none) ∧
      ¬ LooksLike (eval 1 (.var default "x") .absent) (eval 1 (.var default "x") .empty) := by
  have habsent : eval 1 (.var default "x") .absent = .error .noEnvironment := rfl
  refine ⟨habsent, rfl, fun hlike => ?_⟩
  exact evalFor_empty_ne _ _ _ (hlike.error habsent)

end Letrec
