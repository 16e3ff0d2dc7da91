import Letrec.Proofs.Evaluation.Refinement

/-!
# The cost of an evaluation

An evaluation that succeeds spends steps, levels of nesting and events. `Yields` tells the value of
an expression and what it costs, whatever was used before. There is one rule for each way in which a
plan goes on, so that the cost of a program is put together along its expressions.
-/

namespace Letrec

/-- What an evaluation adds to what was used before it: steps, levels of nesting, and what happens
if somebody listens. -/
@[ext]
structure Cost where
  steps : Nat
  height : Nat
  happenings : List Happening

namespace Cost

def none : Cost := ⟨0, 0, []⟩

def andThen (c d : Cost) : Cost :=
  ⟨c.steps + d.steps, max c.height d.height, c.happenings ++ d.happenings⟩

def enter (c : Cost) : Cost := { c with steps := c.steps + 1, height := c.height + 1 }

def between (first : Happening) (c : Cost) (last : List Happening) : Cost :=
  { c with happenings := first :: c.happenings ++ last }

end Cost

namespace Run

variable {setup : Setup} {depth : Nat} {u v w : Usage} {a b : Value} {c d : Cost}

-- ---------------------------------------------------------------------------
-- Rules
-- ---------------------------------------------------------------------------

def heard (setup : Setup) (happenings : List Happening) : List Happening :=
  if setup.tracing then happenings else []

structure Spent (setup : Setup) (depth : Nat) (u v : Usage) (c : Cost) : Prop where
  steps : v.steps = u.steps + c.steps
  maxDepth : v.maxDepth = max u.maxDepth (depth + c.height)
  happenings : v.events.toList.map Event.what =
    u.events.toList.map Event.what ++ heard setup c.happenings

/-- Once its parent has been entered, an expression comes to `a` at cost `c`. -/
def Yields (setup : Setup) (depth : Nat) (e : Expr) (env : Env) (a : Value) (c : Cost) : Prop :=
  ∀ fuel u, c.height ≤ fuel → depth ≤ u.maxDepth →
    ∃ v, (eval setup fuel depth e env).runFrom u = (.ok a, v) ∧ Spent setup depth u v c

def Plan.Yields (setup : Setup) (depth : Nat) (p : Plan) (a : Value) (c : Cost) : Prop :=
  ∀ fuel u, c.height ≤ fuel → depth ≤ u.maxDepth →
    ∃ v, (p.carryOut setup depth (eval setup fuel depth)).runFrom u = (.ok a, v) ∧
      Spent setup depth u v c

theorem heard_append : heard setup (l ++ l') = heard setup l ++ heard setup l' := by
  unfold heard
  split <;> rfl

theorem note_happenings (u : Usage) : (u.note setup what span).events.toList.map Event.what =
    u.events.toList.map Event.what ++ heard setup [what] := by
  rw [Usage.note_events, List.map_append]
  unfold heard
  split <;> rfl

namespace Spent

theorem none (h : depth ≤ u.maxDepth) : Spent setup depth u u .none :=
  ⟨rfl, by simp [Cost.none, h], by simp [Cost.none, heard]⟩

theorem andThen (h : Spent setup depth u v c) (h' : Spent setup depth v w d) :
    Spent setup depth u w (c.andThen d) where
  steps := by rw [h'.steps, h.steps, Nat.add_assoc]; rfl
  maxDepth := by
    rw [h'.maxDepth, h.maxDepth]
    simp only [Cost.andThen]
    omega
  happenings := by
    rw [h'.happenings, h.happenings, List.append_assoc, ← heard_append]
    rfl

theorem le_maxDepth (h : Spent setup depth u v c) (hu : depth ≤ u.maxDepth) :
    depth ≤ v.maxDepth := by
  rw [h.maxDepth]
  exact Nat.le_trans hu (Nat.le_max_left _ _)

theorem enter (h : Spent setup (depth + 1) (u.count (depth + 1)) v c) :
    Spent setup depth u v c.enter where
  steps := by
    rw [h.steps, Usage.count_steps]
    simp only [Cost.enter]
    omega
  maxDepth := by
    rw [h.maxDepth, Usage.count_maxDepth]
    simp only [Cost.enter]
    omega
  happenings := h.happenings

theorem note (u : Usage) (h : Spent setup depth (u.note setup what span) v c) :
    Spent setup depth u v (c.between what []) where
  steps := by rw [h.steps, u.note_steps]; rfl
  maxDepth := by rw [h.maxDepth, u.note_maxDepth]; rfl
  happenings := by
    rw [h.happenings, note_happenings, List.append_assoc, ← heard_append]
    simp [Cost.between]

theorem close (u : Usage) (h : Spent setup depth (u.note setup what span) v c) :
    Spent setup depth u (v.note setup last span) (c.between what [last]) where
  steps := by rw [v.note_steps, h.steps, u.note_steps]; rfl
  maxDepth := by rw [v.note_maxDepth, h.maxDepth, u.note_maxDepth]; rfl
  happenings := by
    rw [note_happenings, h.happenings, note_happenings, List.append_assoc, List.append_assoc,
      ← heard_append, ← heard_append]
    simp [Cost.between]

end Spent

namespace Plan.Yields

theorem done : Plan.Yields setup depth (.done (.ok a)) a .none :=
  fun _ u _ hu => ⟨u, runFrom_conclude, .none hu⟩

theorem operand {rest : Value → Plan} (he : Run.Yields setup depth e env a c)
    (hrest : Plan.Yields setup depth (rest a) b d) :
    Plan.Yields setup depth (.operand e env rest) b (c.andThen d) := by
  intro fuel u hfuel hu
  obtain ⟨v, hv, hspent⟩ := he fuel u (Nat.le_trans (Nat.le_max_left _ _) hfuel) hu
  obtain ⟨w, hw, hspent'⟩ :=
    hrest fuel v (Nat.le_trans (Nat.le_max_right _ _) hfuel) (hspent.le_maxDepth hu)
  refine ⟨w, ?_, hspent.andThen hspent'⟩
  rw [Plan.carryOut, runFrom_bind_ok hv, hw]

theorem bound {rest : Plan} (h : Plan.Yields setup depth rest a c) :
    Plan.Yields setup depth (.bound name param span rest) a
      (c.between (.letrecBind name param) []) := by
  intro fuel u hfuel hu
  obtain ⟨v, hv, hspent⟩ :=
    h fuel (u.note setup (.letrecBind name param) span) hfuel (by simpa using hu)
  refine ⟨v, ?_, .note u hspent⟩
  rw [Plan.carryOut, runFrom_bind_ok runFrom_emit, hv]

theorem body (h : Run.Yields setup depth e env a c) :
    Plan.Yields setup depth (.body param span e env) a
      (c.between (.callStart param depth) [.callEnd param depth]) := by
  intro fuel u hfuel hu
  obtain ⟨v, hv, hspent⟩ :=
    h fuel (u.note setup (.callStart param depth) span) hfuel (by simpa using hu)
  exact ⟨_, runFrom_call hv, .close u hspent⟩

end Plan.Yields

theorem Yields.of_plan (hfree : Free setup)
    (h : ∀ stamp, Plan.Yields setup (depth + 1) (plan stamp env e) a c) :
    Yields setup depth e env a c.enter := by
  intro fuel u hfuel hu
  obtain ⟨fuel, rfl⟩ : ∃ k, fuel = k + 1 := ⟨fuel - 1, by simp only [Cost.enter] at hfuel; omega⟩
  obtain ⟨v, hv, hspent⟩ :=
    h ⟨setup.run, u.steps + 1⟩ fuel (u.count (depth + 1)) (Nat.le_of_succ_le_succ hfuel)
    (Nat.le_max_right _ _)
  refine ⟨v, ?_, hspent.enter⟩
  rw [runFrom_eval_succ, hfree]
  exact hv

namespace Yields

variable {m n : Int64}

theorem const (hfree : Free setup) : Yields setup depth (.const o n) env (.int n) Cost.none.enter :=
  .of_plan hfree fun _ => .done

theorem var (hfree : Free setup) (h : env.lookup x = .ok a) :
    Yields setup depth (.var o x) env a Cost.none.enter := by
  refine .of_plan hfree fun stamp => ?_
  simp only [plan, h]
  exact .done

theorem diff (hfree : Free setup) (hl : Yields setup (depth + 1) left env (.int m) c)
    (hr : Yields setup (depth + 1) right env (.int n) d) :
    Yields setup depth (.diff o left right) env (.int (m - n))
      (c.andThen (d.andThen .none)).enter :=
  .of_plan hfree fun _ => .operand hl (.operand hr .done)

theorem zeroTest (hfree : Free setup) (h : Yields setup (depth + 1) operand env (.int n) c) :
    Yields setup depth (.zeroTest o operand) env (.bool (n == 0)) (c.andThen .none).enter :=
  .of_plan hfree fun _ => .operand h .done

theorem ifThenElse {test : Bool} (hfree : Free setup)
    (h : Yields setup (depth + 1) e env (.bool test) c)
    (hbranch : Yields setup (depth + 1) (if test then yes else no) env a d) :
    Yields setup depth (.ifThenElse o e yes no) env a (c.andThen (d.andThen .none)).enter :=
  .of_plan hfree fun _ => .operand h (.operand hbranch .done)

theorem letRec (hfree : Free setup)
    (h : ∀ stamp, Yields setup (depth + 1) body (env.extendRec stamp f x procBody) a c) :
    Yields setup depth (.letRec o f x procBody body) env a
      ((c.andThen .none).between (.letrecBind f x) []).enter :=
  .of_plan hfree fun stamp => .bound (.operand (h stamp) .done)

theorem call (hfree : Free setup)
    (hp : Yields setup (depth + 1) operator env (.closure x body closed) c)
    (he : Yields setup (depth + 1) operand env b d)
    (hbody : ∀ stamp, Yields setup (depth + 1) body (closed.extend stamp x b) a k) :
    Yields setup depth (.call o operator operand) env a
      (c.andThen (d.andThen
        (k.between (.callStart x (depth + 1)) [.callEnd x (depth + 1)]))).enter :=
  .of_plan hfree fun stamp => .operand hp (.operand he (.body (hbody stamp)))

theorem execute (h : Yields setup 0 e env.orEmpty a c) (hfuel : c.height ≤ fuel) :
    ∃ v, execute setup fuel e env = ⟨.ok a, v⟩ ∧
      Spent setup 0 {} v (c.between .runStart [.runEnd]) := by
  obtain ⟨v, hv, hspent⟩ :=
    h fuel (Usage.note {} setup .runStart e.span.known?) hfuel (Nat.zero_le _)
  exact ⟨_, execute_eq hv, .close {} hspent⟩

end Yields

end Run

end Letrec
