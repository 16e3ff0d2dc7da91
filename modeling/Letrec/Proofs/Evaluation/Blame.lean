import Letrec.Proofs.Evaluation.Journal
import Letrec.Proofs.Scope.Check

/-!
# Where failures point

A failure carries the place of the node that is to blame: the variable that is not bound, the
operand whose value is of the wrong kind, the node at which a limit was passed. `Failure.Caused`
says so by the moments of the run, and `eval_blames` finds these moments for every failure. The node
belongs to the expression or to a procedure that the environment holds, since a run enters no others
(`Passes.within`). On its way out a failure is not changed, because an evaluation that fails settles
the result of the run.
-/

namespace Letrec

mutual
def Value.nodes : Value → List Expr
  | .closure _ body env => body.nodes ++ env.nodes
  | .int _ | .bool _ | .absent => []

def Env.nodes : Env → List Expr
  | .empty | .absent => []
  | .bind _ _ value tail => value.nodes ++ tail.nodes
  | .recur _ _ _ body tail => body.nodes ++ tail.nodes
end

inductive Expr.Expects : Expr → Expr → Kind → Prop
  | left : Expects (.diff o left right) left .int
  | right : Expects (.diff o left right) right .int
  | zeroTest : Expects (.zeroTest o operand) operand .int
  | test : Expects (.ifThenElse o test yes no) test .bool
  | operator : Expects (.call o operator operand) operator .closure

theorem Expr.Expects.mem_children (h : Expects e a k) : a ∈ e.children := by
  cases h <;> simp [children]

theorem Expr.self_mem_nodes (e : Expr) : e ∈ e.nodes := by
  cases e <;> simp [nodes]

/-- How a node brings about a failure after `n` steps, in a run that passes through the
moments `At`. -/
def Failure.Caused (At : Run.Moment → Prop) (n : Nat) (node : Expr) : Failure → Prop
  | .unbound x _ =>
    (∃ o, node = .var o x) ∧ ∃ depth env u, At (.entered depth node env u) ∧ u.steps = n ∧
      env.lookup x = .error (.unbound x none)
  | .mismatch expected actual _ =>
    actual ≠ expected ∧
    (∃ depth parent env u, At (.entered depth parent env u) ∧ parent.Expects node expected) ∧
    ∃ v u, At (.left node (.ok v) u) ∧ u.steps = n ∧ v.kind = actual
  | .exceeded .. => ∃ depth env u, At (.entered depth node env u) ∧ u.steps = n
  | _ => False

namespace Env

theorem nodes_orEmpty (env : Env) : env.orEmpty.nodes = env.nodes := by
  cases env <;> simp [orEmpty, nodes]

theorem nodes_extend (env : Env) : (env.extend stamp x v).nodes = v.nodes ++ env.nodes := by
  rw [extend, nodes, nodes_orEmpty]

theorem nodes_extendRec (env : Env) :
    (env.extendRec stamp f x body).nodes = body.nodes ++ env.nodes := by
  rw [extendRec, nodes, nodes_orEmpty]

theorem nodes_lookup : ∀ {env : Env}, env.lookup x = .ok v → v.nodes ⊆ env.nodes
  | .empty, h => by cases h
  | .absent, h => by cases h
  | .bind _ name value tail, h => by
    rw [lookup] at h
    split at h
    · cases h
      simp [nodes]
    · exact List.subset_append_of_subset_right _ (nodes_lookup h)
  | .recur _ name param body tail, h => by
    rw [lookup] at h
    split at h
    · cases h
      simp [Value.nodes, nodes]
    · exact List.subset_append_of_subset_right _ (nodes_lookup h)

theorem lookup_error :
    ∀ {env : Env}, env.lookup x = .error f → f = .unbound x none ∨ f = .noEnvironment
  | .empty, h => by cases h; exact .inl rfl
  | .absent, h => by cases h; exact .inr rfl
  | .bind _ name value tail, h => by
    rw [lookup] at h
    split at h
    · cases h
    · exact lookup_error h
  | .recur _ name param body tail, h => by
    rw [lookup] at h
    split at h
    · cases h
    · exact lookup_error h

end Env

namespace Run

-- ---------------------------------------------------------------------------
-- The nodes of a run
-- ---------------------------------------------------------------------------

def Within (nodes : List Expr) (e : Expr) (env : Env) : Prop := e.nodes ⊆ nodes ∧ env.nodes ⊆ nodes

def WithinResult (nodes : List Expr) : Except Failure Value → Prop
  | .ok v => v.nodes ⊆ nodes
  | .error _ => True

section
variable {nodes : List Expr} {setup : Setup}

theorem plan_within (h : Within nodes e env) :
    (plan stamp env e).Keeps (Within nodes) (WithinResult nodes) := by
  obtain ⟨he, henv⟩ := h
  have hchild : ∀ a ∈ e.children, Within nodes a env :=
    fun a ha => ⟨List.Subset.trans (Expr.nodes_subset ha) he, henv⟩
  have hint : ∀ n, WithinResult nodes (.ok (.int n)) := fun _ => List.nil_subset _
  cases e with
  | const => exact hint _
  | var o x =>
    simp only [plan]
    cases hx : env.lookup x with
    | ok v => exact List.Subset.trans (Env.nodes_lookup hx) henv
    | error f => trivial
  | diff o left right =>
    refine ⟨hchild left (by simp [Expr.children]),
      fun a _ => .narrow Value.narrows_asInt (fun _ => trivial) ?_⟩
    intro m _
    refine ⟨hchild right (by simp [Expr.children]),
      fun b _ => .narrow Value.narrows_asInt (fun _ => trivial) ?_⟩
    exact fun n _ => hint _
  | zeroTest o operand =>
    refine ⟨hchild operand (by simp [Expr.children]), fun a _ => ?_⟩
    exact .narrow Value.narrows_asInt (fun _ => trivial) fun n _ => List.nil_subset _
  | ifThenElse o test yes no =>
    refine ⟨hchild test (by simp [Expr.children]),
      fun a _ => .narrow Value.narrows_asBool (fun _ => trivial) ?_⟩
    exact fun b _ => .last (hchild _ (by cases b <;> simp [Expr.children]))
  | letIn o x value body =>
    refine ⟨hchild value (by simp [Expr.children]), fun v hv => .last ?_⟩
    rw [Within, Env.nodes_extend]
    exact ⟨(hchild body (by simp [Expr.children])).1, List.append_subset.2 ⟨hv, henv⟩⟩
  | letRec o f x procBody body =>
    refine .bound (.last ?_)
    rw [Within, Env.nodes_extendRec]
    exact ⟨(hchild body (by simp [Expr.children])).1,
      List.append_subset.2 ⟨(hchild procBody (by simp [Expr.children])).1, henv⟩⟩
  | proc o x body => exact List.append_subset.2 ⟨(hchild body (by simp [Expr.children])).1, henv⟩
  | call o operator operand =>
    refine ⟨hchild operator (by simp [Expr.children]), fun a ha => ?_⟩
    refine .narrow Value.narrows_asClosure (fun _ => trivial) fun c hc => ?_
    rw [Value.asClosure_ok hc] at ha
    obtain ⟨hbody, hclosed⟩ := List.append_subset.1 ha
    refine ⟨hchild operand (by simp [Expr.children]), fun v hv => ?_⟩
    rw [Plan.Keeps, Within, Env.nodes_extend]
    exact ⟨hbody, List.append_subset.2 ⟨hv, hclosed⟩⟩
  | absent => trivial

theorem eval_within (h : Within nodes e env) :
    WithinResult nodes ((eval setup fuel depth e env).runFrom u).1 :=
  eval_good (fun _ _ _ => plan_within) (fun _ _ _ _ _ => trivial) trivial h

end

section
variable {setup : Setup} {Ready : Expr → Env → Prop} {Good : Except Failure Value → Prop}

theorem planJournal_entered {p : Plan}
    (hev : ∀ e env u, Ready e env → Good ((ev e env).runFrom u).1)
    (hlog : ∀ e env u, Ready e env → .entered d e' env' w ∈ log e env u → Ready e' env')
    (hp : p.Keeps Ready Good) (hm : .entered d e' env' w ∈ p.journal setup depth ev log u) :
    Ready e' env' := by
  have hnoted : ∀ {what span u}, Moment.entered d e' env' w ∉ noted setup what span u :=
    fun hm => absurd (mem_noted hm).2 nofun
  induction p generalizing u with
  | done r => cases hm
  | bound name param span rest ih =>
    exact (List.mem_append.1 hm).elim (fun hm => absurd hm hnoted) (ih hp)
  | operand e env rest ih =>
    obtain ⟨hready, hrest⟩ := hp
    have hgood := hev e env u hready
    rcases hr : (ev e env).runFrom u with ⟨f | a, v⟩
    · rw [journal_operand_error hr] at hm
      exact hlog e env u hready hm
    · rw [hr] at hgood
      rw [journal_operand_ok hr] at hm
      exact (List.mem_append.1 hm).elim (hlog e env u hready) (ih a (hrest a hgood))
  | body param span e env =>
    rw [journal_body rfl, List.mem_append, List.mem_append] at hm
    rcases hm with hm | hm | hm
    · exact absurd hm hnoted
    · exact hlog e env _ hp hm
    · exact absurd (mem_of_mem_ended hm) hnoted

theorem journal_ready (hplan : ∀ stamp e env, Ready e env → (plan stamp env e).Keeps Ready Good)
    (heval : ∀ fuel depth e env u, Ready e env → Good ((eval setup fuel depth e env).runFrom u).1)
    (hready : Ready e env) (hm : .entered d e' env' w ∈ journal setup fuel depth e env u) :
    Ready e' env' := by
  induction fuel generalizing depth e env u with
  | zero => cases hm
  | succ fuel ih =>
    have hended : ∀ {r : Except Failure Value} {v},
      Moment.entered d e' env' w ∉ ended r [.left e r v] :=
      fun hm => absurd (List.mem_singleton.1 (mem_of_mem_ended hm)) nofun
    cases hhalt : halt? setup (depth + 1) (u.count (depth + 1)) with
    | none =>
      rw [journal_entered hhalt rfl, List.mem_cons, List.mem_append] at hm
      rcases hm with heq | hm | hm
      · cases heq
        exact hready
      · exact planJournal_entered (heval fuel (depth + 1)) (fun _ _ _ => ih)
          (hplan _ e env hready) hm
      · exact absurd hm hended
    | some halt =>
      rw [journal_halted hhalt rfl, List.mem_cons, List.mem_append] at hm
      rcases hm with heq | hm | hm
      · cases heq
        exact hready
      · obtain ⟨_, heq⟩ := mem_haltJournal hm
        cases heq
      · exact absurd hm hended

end

-- ---------------------------------------------------------------------------
-- The causes of failures
-- ---------------------------------------------------------------------------

variable {At : Moment → Prop}

def Blamed (At : Moment → Prop) (n : Nat) (f : Failure) : Prop :=
  f.code?.isSome → ∃ node : Expr, f.span? = node.span.known? ∧ f.Caused At n node

theorem blamed_of_code?_eq_none (h : f.code? = none) : Blamed At n f := by
  intro hcode
  rw [h] at hcode
  cases hcode

/-- If the plan itself fails, some node is to blame, given the moments at which its operands have
been evaluated; `n` steps have been counted so far. -/
def Plan.Blames (At : Moment → Prop) : Plan → (n : Nat) → Prop
  | .done (.ok _), _ => True
  | .done (.error f), n => Blamed At n f
  | .bound _ _ _ rest, n => rest.Blames At n
  | .operand e _ rest, _ => ∀ v u, At (.left e (.ok v) u) → (rest v).Blames At u.steps
  | .body .., _ => True

theorem Plan.Blames.narrow {rest : α → Plan} (has : Value.Narrows as k)
    (hexpects : parent.Expects e k)
    (hentered : At (.entered depth parent env u)) (hleft : At (.left e (.ok v) w))
    (h : ∀ a, (rest a).Blames At w.steps) : (Plan.narrow e.span (as v) rest).Blames At w.steps := by
  cases hr : as v with
  | ok a => exact h a
  | error f =>
    obtain ⟨rfl, hne⟩ := has.error hr
    exact fun _ => ⟨e, rfl, hne, ⟨depth, parent, env, u, hentered, hexpects⟩, v, w, hleft, rfl, rfl⟩

theorem Plan.Blames.bound (h : Plan.Blames At rest n) :
    (Plan.bound name param span rest).Blames At n := h

theorem Plan.Blames.last : (Plan.last e env).Blames At n := fun _ _ _ => trivial

theorem plan_blames (h : At (.entered depth e env u)) : (plan stamp env e).Blames At u.steps := by
  cases e with
  | const => trivial
  | var o x =>
    simp only [plan]
    cases hx : env.lookup x with
    | ok v => trivial
    | error f =>
      rcases Env.lookup_error hx with rfl | rfl
      · exact fun _ => ⟨.var o x, rfl, ⟨o, rfl⟩, depth, env, u, h, rfl, hx⟩
      · exact blamed_of_code?_eq_none rfl
  | diff =>
    intro a v ha
    refine .narrow Value.narrows_asInt .left h ha fun m => ?_
    intro b w hb
    exact .narrow Value.narrows_asInt .right h hb fun n => trivial
  | zeroTest =>
    intro a v ha
    exact .narrow Value.narrows_asInt .zeroTest h ha fun n => trivial
  | ifThenElse =>
    intro a v ha
    exact .narrow Value.narrows_asBool .test h ha fun b => .last
  | letIn => exact fun v w _ => .last
  | letRec => exact .bound .last
  | proc => trivial
  | call =>
    intro a v ha
    exact .narrow Value.narrows_asClosure .operator h ha fun c => fun v w _ => trivial
  | absent => exact blamed_of_code?_eq_none rfl

theorem carryOut_blames {p : Plan}
    (hleft : ∀ e env u a v, (ev e env).runFrom u = (.ok a, v) → .left e (.ok a) v ∈ log e env u)
    (hev : ∀ e env u f v, (∀ m ∈ log e env u, At m) → (ev e env).runFrom u = (.error f, v) →
      Blamed At v.steps f)
    (hp : p.Blames At u.steps) (hat : ∀ m ∈ p.journal setup depth ev log u, At m)
    (hr : (p.carryOut setup depth ev).runFrom u = (.error f, v)) : Blamed At v.steps f := by
  induction p generalizing u with
  | done r =>
    rw [Plan.carryOut, runFrom_conclude] at hr
    cases hr
    exact hp
  | bound name param span rest ih =>
    rw [Plan.carryOut, runFrom_bind_ok runFrom_emit] at hr
    refine ih ?_ (fun m hm => hat m (List.mem_append_right _ hm)) hr
    rwa [Usage.note_steps]
  | operand e env rest ih =>
    rcases hm : (ev e env).runFrom u with ⟨f' | a, w⟩
    · rw [Plan.carryOut, runFrom_bind_error hm] at hr
      cases hr
      rw [journal_operand_error hm] at hat
      exact hev _ _ _ _ _ hat hm
    · rw [Plan.carryOut, runFrom_bind_ok hm] at hr
      rw [journal_operand_ok hm] at hat
      have hvalue : At (.left e (.ok a) w) := hat _ (List.mem_append_left _ (hleft _ _ _ _ _ hm))
      exact ih a (hp a w hvalue) (fun m hm => hat m (List.mem_append_right _ hm)) hr
  | body param span e env =>
    rcases hm : (ev e env).runFrom (u.note setup (.callStart param depth) span) with ⟨r, w⟩
    rw [Plan.carryOut, runFrom_call hm] at hr
    cases hr
    rw [journal_body hm] at hat
    rw [Usage.close_steps]
    exact hev _ _ _ _ _ (fun m hm => hat m (List.mem_append_right _ (List.mem_append_left _ hm))) hm

theorem left_mem_journal (hr : (eval setup fuel depth e env).runFrom u = (r, v))
    (hne : r ≠ .error .outOfFuel) : .left e r v ∈ journal setup fuel depth e env u := by
  cases fuel with
  | zero =>
    cases hr
    exact absurd rfl hne
  | succ fuel =>
    rw [journal, hr, ended_of_ne hne]
    simp

theorem eval_blames (hat : ∀ m ∈ journal setup fuel depth e env u, At m)
    (hr : (eval setup fuel depth e env).runFrom u = (.error f, v)) : Blamed At v.steps f := by
  induction fuel generalizing depth e env u f v with
  | zero =>
    cases hr
    exact blamed_of_code?_eq_none rfl
  | succ fuel ih =>
    have hresult := hr
    rw [runFrom_eval_succ] at hr
    cases hhalt : halt? setup (depth + 1) (u.count (depth + 1)) with
    | none =>
      rw [hhalt] at hr
      rw [journal_entered hhalt hresult] at hat
      have hentered := hat _ (List.mem_cons_self ..)
      have hleft : ∀ a scope w b x, (eval setup fuel (depth + 1) a scope).runFrom w = (.ok b, x) →
          .left a (.ok b) x ∈ journal setup fuel (depth + 1) a scope w :=
        fun _ _ _ _ _ h => left_mem_journal h nofun
      refine carryOut_blames hleft (fun _ _ _ _ _ => ih) (plan_blames hentered)
        (fun m hm => hat m ?_) hr
      exact List.mem_cons_of_mem _ (List.mem_append_left _ hm)
    | some halt =>
      rw [hhalt] at hr
      cases hr
      rw [journal_halted hhalt hresult] at hat
      rw [Halt.note_steps]
      cases halt with
      | exceeded limit bound => exact fun _ => ⟨e, rfl, _, _, _, hat _ (List.mem_cons_self ..), rfl⟩
      | cancelled => exact blamed_of_code?_eq_none rfl

end Run

theorem Passes.within (h : Passes setup e env (.entered depth a scope u)) :
    a.nodes ⊆ e.nodes ++ env.nodes := by
  obtain ⟨fuel, hm⟩ := h
  have hstart : Run.Within (e.nodes ++ env.nodes) e env.orEmpty := by
    rw [Run.Within, env.nodes_orEmpty]
    exact ⟨List.subset_append_left _ _, List.subset_append_right _ _⟩
  rw [Run.runJournal, List.mem_append, List.mem_append] at hm
  rcases hm with hm | hm | hm
  · cases (Run.mem_noted hm).2
  · exact (Run.journal_ready (fun _ _ _ => Run.plan_within)
      (fun _ _ _ _ _ => Run.eval_within) hstart hm).1
  · cases (Run.mem_noted (Run.mem_of_mem_ended hm)).2

theorem Ends.blamed (h : Ends setup e env o) (hf : o.result = .error f) :
    Run.Blamed (Passes setup e env) o.usage.steps f := by
  obtain ⟨_, fuel, rfl⟩ := h
  rcases hr : (Run.eval setup fuel 0 e env.orEmpty).runFrom
    (Usage.note {} setup .runStart e.span.known?) with ⟨r, u⟩
  rw [Run.execute_eq hr] at hf ⊢
  cases hf
  rw [Usage.close_steps]
  refine Run.eval_blames (fun m hm => ⟨fuel, ?_⟩) hr
  exact List.mem_append_right _ (List.mem_append_left _ hm)

theorem Failure.Caused.mem {nodes : List Expr} (h : Failure.Caused At n node f)
    (hat : ∀ depth a scope u, At (.entered depth a scope u) → a.nodes ⊆ nodes) : node ∈ nodes := by
  cases f with
  | unbound x span =>
    obtain ⟨_, _, _, _, hentered, _⟩ := h
    exact hat _ _ _ _ hentered node.self_mem_nodes
  | mismatch expected actual span =>
    obtain ⟨_, ⟨_, parent, _, _, hentered, hexpects⟩, _⟩ := h
    exact hat _ _ _ _ hentered (Expr.nodes_subset hexpects.mem_children node.self_mem_nodes)
  | exceeded limit bound span =>
    obtain ⟨_, _, _, hentered, _⟩ := h
    exact hat _ _ _ _ hentered node.self_mem_nodes
  | _ => exact h.elim

/-- A failure that has a code carries the place of the node that caused it, or none if that is not
known. The node and every node that the run enters stand in the expression or in a procedure that
the environment holds. Whichever evaluation fails on the way out, it fails with the same failure. -/
theorem failures_point_at_their_cause (setup : Setup) (e : Expr) (env : Env) (o : Outcome)
    (f : Failure) (h : Ends setup e env o) (hf : o.result = .error f) (hcode : f.code?.isSome) :
    (∃ node ∈ e.nodes ++ env.nodes, f.span? = node.span.known? ∧
      f.Caused (Passes setup e env) o.usage.steps node) ∧
    (∀ depth a scope u, Passes setup e env (.entered depth a scope u) → a ∈ e.nodes ++ env.nodes) ∧
    ∀ a f' u, Passes setup e env (.left a (.error f') u) → f' = f := by
  obtain ⟨node, hspan, hcaused⟩ := h.blamed hf hcode
  refine ⟨⟨node, hcaused.mem fun _ _ _ _ => Passes.within, hspan, hcaused⟩, ?_, ?_⟩
  · intro depth a scope u hentered
    exact hentered.within a.self_mem_nodes
  · intro a f' u hleft
    obtain ⟨hresult, _⟩ := h.settles hleft
    exact Except.error.inj (hresult.symm.trans hf)

/-- In `(f 0)`, where `f(x) = -(zero?(x), 1)` comes from the environment, the failure points at the
operand `zero?(x)` in the body of `f`. -/
theorem failures_point_at_their_cause_body :
    let place : Span := ⟨"prelude", 3, 5⟩
    let test : Expr := .zeroTest ⟨default, place⟩ (.var default "x")
    let env : Env := .recur default "f" "x" (.diff default test (.const default 1)) .empty
    let e : Expr := .call default (.var default "f") (.const default 0)
    let o := execute {} 4 e env
    let f : Failure := .mismatch .int .bool (some place)
    Ends {} e env o ∧ o.result = .error f ∧ f.code?.isSome ∧
      (∃ node ∈ e.nodes ++ env.nodes, some place = node.span.known? ∧
        f.Caused (Passes {} e env) 6 node) ∧
      (∀ depth a scope u, Passes {} e env (.entered depth a scope u) → a ∈ e.nodes ++ env.nodes) ∧
      ∀ a f' u, Passes {} e env (.left a (.error f') u) → f' = f := by
  intro place test env e o f
  have hends : Ends {} e env o := ⟨nofun, 4, rfl⟩
  exact ⟨hends, rfl, rfl, failures_point_at_their_cause {} e env o f hends rfl rfl⟩

end Letrec
