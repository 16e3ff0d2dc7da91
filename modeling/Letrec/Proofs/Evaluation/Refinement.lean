import Letrec.Proofs.Evaluation.Rules
import Letrec.Proofs.Evaluation.Termination

/-!
# Runs follow the rules

A run that nothing stops comes to an answer exactly when the rules derive it. Its steps are the
judgements of the derivation and its depth is the height. From a run to a derivation the induction
is on fuel, with the plan of the expression telling which rule applies; from a derivation to a run
it is on the derivation, whose height is fuel enough.
-/

namespace Letrec

theorem int64_sub (m n : Int64) : m - n = .ofInt (m.toInt - n.toInt) := by
  rw [Int64.ofInt_sub, Int64.ofInt_toInt, Int64.ofInt_toInt]

theorem int64_beq_zero (n : Int64) : (n == 0) = decide (n.toInt = 0) := by
  rw [Bool.eq_iff_iff, beq_iff_eq, decide_eq_true_iff, ← Int64.toInt_inj, Int64.toInt_zero]

namespace Run

def Free (setup : Setup) : Prop := ∀ depth u, halt? setup depth u = none

theorem free_of_unlimited (hlimits : setup.limits = {})
    (hcancel : ∀ step events, setup.cancelled step events = false) : Free setup := by
  intro depth u
  rw [halt?_eq_none, hlimits]
  exact ⟨nofun, nofun, interruption?_eq_none (by rw [hlimits]) hcancel⟩

-- ---------------------------------------------------------------------------
-- Counting judgements
-- ---------------------------------------------------------------------------

/-- Between two usages so many steps were counted, the deepest of them at `depth`. -/
def Counts (u v : Usage) (steps depth : Nat) : Prop :=
  v.steps = u.steps + steps ∧ v.maxDepth = max u.maxDepth depth

namespace Counts

theorem leaf : Counts u (u.count (depth + 1)) 1 (depth + 1) := ⟨rfl, rfl⟩

theorem trans (h : Counts u v s (depth + k)) (h' : Counts v w s' (depth + k')) :
    Counts u w (s + s') (depth + max k k') := by
  obtain ⟨hs, hd⟩ := h
  obtain ⟨hs', hd'⟩ := h'
  simp only [Counts]
  omega

theorem enter (h : Counts (u.count (depth + 1)) v s (depth + 1 + k)) :
    Counts u v (s + 1) (depth + (k + 1)) := by
  obtain ⟨hs, hd⟩ := h
  simp only [Usage.count_steps, Usage.count_maxDepth] at hs hd
  simp only [Counts]
  omega

theorem close (h : Counts (u.note setup first span) v steps depth) (r : Except Failure α) :
    Counts u (v.close setup last span r) steps depth := by
  simpa [Counts] using h

theorem of_note (h : Counts (u.note setup what span) v steps depth) : Counts u v steps depth := by
  simpa [Counts] using h

end Counts

-- ---------------------------------------------------------------------------
-- From runs to derivations
-- ---------------------------------------------------------------------------

def Sound (depth : Nat) (ev : Expr → Env → Run Value) : Prop :=
  ∀ e env u r v a, (ev e env).runFrom u = (r, v) → answer? r = some a →
    ∃ d : Derivation e env.unstamped a, Counts u v d.judgements (depth + d.height)

namespace Sound

variable {setup : Setup} {depth : Nat} {ev : Expr → Env → Run Value}

theorem operand {rest : Value → Plan} (hev : Sound depth ev)
    (h : ((Plan.operand e env rest).carryOut setup level ev).runFrom u = (r, v))
    (ha : answer? r = some a) :
    (∃ f, ∃ d : Derivation e env.unstamped (.error f),
      a = .error f ∧ Counts u v d.judgements (depth + d.height)) ∨
    ∃ x w, ∃ d : Derivation e env.unstamped (.ok x.unstamped),
      Counts u w d.judgements (depth + d.height) ∧
        ((rest x).carryOut setup level ev).runFrom w = (r, v) := by
  rcases hr : (ev e env).runFrom u with ⟨f | x, w⟩
  · rw [Plan.carryOut, runFrom_bind_error hr] at h
    cases h
    obtain ⟨fault, _, rfl⟩ := Option.map_eq_some_iff.mp ha
    obtain ⟨d, hd⟩ := hev _ _ _ _ _ _ hr ha
    exact .inl ⟨fault, d, rfl, hd⟩
  · rw [Plan.carryOut, runFrom_bind_ok hr] at h
    obtain ⟨d, hd⟩ := hev _ _ _ _ _ _ hr rfl
    exact .inr ⟨x, w, d, hd, h⟩

theorem narrowed {rest : α → Plan} (hev : Sound depth ev) (has : Value.Narrows as k)
    (h : ((Plan.operand e env fun x =>
      .narrow place (as x) rest).carryOut setup level ev).runFrom u = (r, v))
    (ha : answer? r = some a) :
    (∃ b f, ∃ d : Derivation e env.unstamped b,
      Refuses k b f ∧ a = .error f ∧ Counts u v d.judgements (depth + d.height)) ∨
    ∃ x y w, ∃ d : Derivation e env.unstamped (.ok x.unstamped), as x = .ok y ∧
      Counts u w d.judgements (depth + d.height) ∧
        ((rest y).carryOut setup level ev).runFrom w = (r, v) := by
  rcases hev.operand h ha with ⟨f, d, rfl, hd⟩ | ⟨x, w, d, hd, h⟩
  · exact .inl ⟨_, f, d, .fault, rfl, hd⟩
  · rcases has x with ⟨_, y, hy⟩ | ⟨hne, hx⟩
    · rw [hy] at h
      exact .inr ⟨x, y, w, d, hy, hd, h⟩
    · rw [hx, Plan.narrow, Plan.carryOut, runFrom_conclude] at h
      cases h
      cases ha
      refine .inl ⟨_, _, d, ?_, rfl, hd⟩
      rw [← x.kind_unstamped] at hne ⊢
      exact .mismatch hne

end Sound

theorem eval_sound (hfree : Free setup) : Sound depth (eval setup fuel depth) := by
  induction fuel generalizing depth with
  | zero =>
    intro e env u r v a h ha
    cases h
    cases ha
  | succ fuel ih =>
    intro e env u r v a h ha
    rw [runFrom_eval_succ, hfree] at h
    -- Every way for the plan to go on or to fail is one rule.
    cases e with
    | const o n =>
      rw [plan, Plan.carryOut, runFrom_conclude] at h
      cases h
      cases ha
      exact ⟨.const, .leaf⟩
    | var o x =>
      rw [plan, Plan.carryOut, runFrom_conclude] at h
      cases h
      rw [answer?_located, answer?_lookup] at ha
      exact ⟨.var ha, .leaf⟩
    | diff o left right =>
      rcases ih.narrowed Value.narrows_asInt h ha with ⟨_, f, d, hf, rfl, hd⟩ |
        ⟨x, m, w, d, hm, hd, h⟩
      · exact ⟨.diffLeft d hf, .enter hd⟩
      obtain rfl := Value.asInt_ok hm
      rcases ih.narrowed Value.narrows_asInt h ha with ⟨_, f, d', hf, rfl, hd'⟩ |
        ⟨y, n, w', d', hn, hd', h⟩
      · exact ⟨.diffRight d d' hf, .enter (hd.trans hd')⟩
      obtain rfl := Value.asInt_ok hn
      rw [Plan.carryOut, runFrom_conclude, int64_sub] at h
      cases h
      cases ha
      exact ⟨.diff d d', .enter (hd.trans hd')⟩
    | zeroTest o operand =>
      rcases ih.narrowed Value.narrows_asInt h ha with ⟨_, f, d, hf, rfl, hd⟩ |
        ⟨x, n, w, d, hn, hd, h⟩
      · exact ⟨.zeroTestOperand d hf, .enter hd⟩
      obtain rfl := Value.asInt_ok hn
      rw [Plan.carryOut, runFrom_conclude, int64_beq_zero] at h
      cases h
      cases ha
      exact ⟨.zeroTest d, .enter hd⟩
    | ifThenElse o test yes no =>
      rcases ih.narrowed Value.narrows_asBool h ha with ⟨_, f, d, hf, rfl, hd⟩ |
        ⟨x, b, w, d, hb, hd, h⟩
      · exact ⟨.ifTest d hf, .enter hd⟩
      obtain rfl := Value.asBool_ok hb
      rw [Plan.carryOut_last] at h
      obtain ⟨d', hd'⟩ := ih _ _ _ _ _ _ h ha
      cases b with
      | true => exact ⟨.ifTrue d d', .enter (hd.trans hd')⟩
      | false => exact ⟨.ifFalse d d', .enter (hd.trans hd')⟩
    | letIn o x value body =>
      rcases ih.operand h ha with ⟨f, d, rfl, hd⟩ | ⟨y, w, d, hd, h⟩
      · exact ⟨.letInValue d, .enter hd⟩
      rw [Plan.carryOut_last] at h
      have hbody := ih _ _ _ _ _ _ h ha
      rw [Env.unstamped_extend] at hbody
      obtain ⟨d', hd'⟩ := hbody
      exact ⟨.letIn d d', .enter (hd.trans hd')⟩
    | letRec o f x procBody body =>
      rw [plan, Plan.carryOut, runFrom_bind_ok runFrom_emit, Plan.carryOut_last] at h
      have hbody := ih _ _ _ _ _ _ h ha
      rw [Env.unstamped_extendRec] at hbody
      obtain ⟨d, hd⟩ := hbody
      exact ⟨.letRec d, .enter hd.of_note⟩
    | proc o x body =>
      rw [plan, Plan.carryOut, runFrom_conclude] at h
      cases h
      cases ha
      exact ⟨.proc, .leaf⟩
    | call o operator operand =>
      rcases ih.narrowed Value.narrows_asClosure h ha with ⟨_, f, d, hf, rfl, hd⟩ |
        ⟨x, c, w, d, hc, hd, h⟩
      · exact ⟨.callOperator d hf, .enter hd⟩
      obtain rfl := Value.asClosure_ok hc
      rcases ih.operand h ha with ⟨f, d', rfl, hd'⟩ | ⟨y, w', d', hd', h⟩
      · exact ⟨.callOperand d d', .enter (hd.trans hd')⟩
      obtain ⟨x, body, closed⟩ := c
      rcases hr : (eval setup fuel (depth + 1) body (closed.extend _ x y)).runFrom _ with ⟨r', v'⟩
      rw [Plan.carryOut, runFrom_call hr] at h
      cases h
      have hbody := ih _ _ _ _ _ _ hr ha
      rw [Env.unstamped_extend] at hbody
      obtain ⟨d'', hd''⟩ := hbody
      exact ⟨.call d d' d'', .enter (hd.trans (hd'.trans (hd''.close _)))⟩
    | absent =>
      rw [plan, Plan.carryOut, runFrom_conclude] at h
      cases h
      cases ha
      exact ⟨.absent, .leaf⟩

-- ---------------------------------------------------------------------------
-- From derivations to runs
-- ---------------------------------------------------------------------------

/-- From `u` an action comes to an answer, counting so many steps, the deepest of them at
`depth`. -/
def Answers (m : Run Value) (u : Usage) (a : Answer) (steps depth : Nat) : Prop :=
  ∃ r v, m.runFrom u = (r, v) ∧ answer? r = some a ∧ Counts u v steps depth

namespace Answers

variable {setup : Setup} {ev : Expr → Env → Run Value}

theorem operand {rest : Value → Plan} (h : Answers (ev e env) u (.ok v) s (depth + k))
    (hrest : ∀ x w, x.unstamped = v →
      Answers ((rest x).carryOut setup level ev) w a s' (depth + k')) :
    Answers ((Plan.operand e env rest).carryOut setup level ev) u a (s + s')
      (depth + max k k') := by
  obtain ⟨r, w, hr, ha, hc⟩ := h
  obtain ⟨x, rfl, hx⟩ := answer?_eq_ok.mp ha
  obtain ⟨r', w', hr', ha', hc'⟩ := hrest x w hx
  refine ⟨r', w', ?_, ha', hc.trans hc'⟩
  rw [Plan.carryOut, runFrom_bind_ok hr, hr']

theorem operandLast {rest : Value → Plan} (h : Answers (ev e env) u (.ok v) s depth)
    (hrest : ∀ x, x.unstamped = v → ∃ r, rest x = .done r ∧ answer? r = some a) :
    Answers ((Plan.operand e env rest).carryOut setup level ev) u a s depth := by
  obtain ⟨r, w, hr, ha, hc⟩ := h
  obtain ⟨x, rfl, hx⟩ := answer?_eq_ok.mp ha
  obtain ⟨r', hr', ha'⟩ := hrest x hx
  refine ⟨r', w, ?_, ha', hc⟩
  rw [Plan.carryOut, runFrom_bind_ok hr, hr', Plan.carryOut, runFrom_conclude]

theorem operandFault {rest : Value → Plan} (h : Answers (ev e env) u (.error f) s depth) :
    Answers ((Plan.operand e env rest).carryOut setup level ev) u (.error f) s depth := by
  obtain ⟨r, w, hr, ha, hc⟩ := h
  obtain ⟨g, rfl, hg⟩ := answer?_eq_error.mp ha
  refine ⟨.error g, w, ?_, ha, hc⟩
  rw [Plan.carryOut, runFrom_bind_error hr]

theorem refused {rest : α → Plan} (has : Value.Narrows as k) (hf : Refuses k b f)
    (h : Answers (ev e env) u b s depth) :
    Answers ((Plan.operand e env fun x => .narrow place (as x) rest).carryOut setup level ev) u
      (.error f) s depth := by
  cases hf with
  | fault => exact h.operandFault
  | mismatch hne =>
    refine h.operandLast fun x hx => ?_
    subst hx
    rw [Value.kind_unstamped] at hne ⊢
    rcases has x with ⟨hx, _⟩ | ⟨_, hx⟩
    · exact absurd hx hne
    · exact ⟨.error (.mismatch k x.kind place.known?), by rw [hx]; rfl, rfl⟩

theorem last (h : Answers (ev e env) u a s depth) :
    Answers ((Plan.last e env).carryOut setup level ev) u a s depth := by
  rwa [Plan.carryOut_last]

theorem bound {rest : Plan} (h : ∀ w, Answers (rest.carryOut setup level ev) w a s depth) :
    Answers ((Plan.bound name param span rest).carryOut setup level ev) u a s depth := by
  obtain ⟨r, v, hr, ha, hc⟩ := h (u.note setup (.letrecBind name param) span)
  refine ⟨r, v, ?_, ha, hc.of_note⟩
  rw [Plan.carryOut, runFrom_bind_ok runFrom_emit, hr]

theorem body (h : ∀ w, Answers (ev e env) w a s depth) :
    Answers ((Plan.body param span e env).carryOut setup level ev) u a s depth := by
  obtain ⟨r, v, hr, ha, hc⟩ := h (u.note setup (.callStart param level) span)
  exact ⟨r, _, runFrom_call hr, ha, hc.close r⟩

end Answers

/-- Runs with fuel enough come to the answer that a derivation gives, and count the derivation. -/
def Complete (setup : Setup) (d : Derivation e env a) : Prop :=
  ∀ fuel depth env' u, d.height ≤ fuel → env'.unstamped = env →
    Answers (eval setup fuel depth e env') u a d.judgements (depth + d.height)

namespace Complete

variable {setup : Setup} {d : Derivation e env a}

theorem leaf (hfree : Free setup) (hs : d.judgements = 1) (hk : d.height = 1)
    (h : ∀ stamp env', env'.unstamped = env → ∃ r, plan stamp env' e = .done r ∧
      answer? r = some a) :
    Complete setup d := by
  intro fuel depth env' u hfuel henv
  obtain ⟨fuel, rfl⟩ : ∃ n, fuel = n + 1 := ⟨fuel - 1, by omega⟩
  obtain ⟨r, hr, ha⟩ := h ⟨setup.run, u.steps + 1⟩ env' henv
  refine ⟨r, u.count (depth + 1), ?_, ha, ?_⟩
  · rw [runFrom_eval_succ, hfree, hr, Plan.carryOut]
    exact runFrom_conclude
  · rw [hs, hk]
    exact .leaf

theorem node (hfree : Free setup) (hs : d.judgements = s + 1) (hk : d.height = k + 1)
    (h : ∀ fuel depth env' u stamp, k ≤ fuel → env'.unstamped = env →
      Answers ((plan stamp env' e).carryOut setup depth (eval setup fuel depth)) u a s
        (depth + k)) :
    Complete setup d := by
  intro fuel depth env' u hfuel henv
  obtain ⟨fuel, rfl⟩ : ∃ n, fuel = n + 1 := ⟨fuel - 1, by omega⟩
  obtain ⟨r, v, hr, ha, hc⟩ :=
    h fuel (depth + 1) env' (u.count (depth + 1)) ⟨setup.run, u.steps + 1⟩ (by omega) henv
  refine ⟨r, v, ?_, ha, ?_⟩
  · rw [runFrom_eval_succ, hfree]
    exact hr
  · rw [hs, hk]
    exact .enter hc

end Complete

theorem eval_complete (hfree : Free setup) (d : Derivation e env a) : Complete setup d := by
  -- A run meets the environments of the derivation up to stamps, so its values are known up to
  -- stamps only.
  induction d with
  | const => exact .leaf hfree rfl rfl fun _ _ _ => ⟨_, rfl, rfl⟩
  | var name =>
    refine .leaf hfree rfl rfl fun _ env' henv => ⟨_, rfl, ?_⟩
    rw [answer?_located, answer?_lookup, henv]
    exact name
  | diff left right ihl ihr =>
    refine .node hfree rfl rfl fun fuel depth env' u stamp hfuel henv => ?_
    obtain ⟨hl, hr⟩ := Nat.max_le.mp hfuel
    refine .operand (ihl _ _ _ _ hl henv) fun x w hx => ?_
    obtain rfl := Value.unstamped_eq_int.mp hx
    refine .operandLast (ihr _ _ _ _ hr henv) fun y hy => ?_
    obtain rfl := Value.unstamped_eq_int.mp hy
    exact ⟨_, rfl, by rw [int64_sub]; rfl⟩
  | diffLeft left hf ihl =>
    refine .node hfree rfl rfl fun fuel depth env' u stamp hfuel henv => ?_
    exact .refused Value.narrows_asInt hf (ihl _ _ _ _ hfuel henv)
  | diffRight left right hf ihl ihr =>
    refine .node hfree rfl rfl fun fuel depth env' u stamp hfuel henv => ?_
    obtain ⟨hl, hr⟩ := Nat.max_le.mp hfuel
    refine .operand (ihl _ _ _ _ hl henv) fun x w hx => ?_
    obtain rfl := Value.unstamped_eq_int.mp hx
    exact .refused Value.narrows_asInt hf (ihr _ _ _ _ hr henv)
  | zeroTest operand ih =>
    refine .node hfree rfl rfl fun fuel depth env' u stamp hfuel henv => ?_
    refine .operandLast (ih _ _ _ _ hfuel henv) fun x hx => ?_
    obtain rfl := Value.unstamped_eq_int.mp hx
    exact ⟨_, rfl, by rw [int64_beq_zero]; rfl⟩
  | zeroTestOperand operand hf ih =>
    refine .node hfree rfl rfl fun fuel depth env' u stamp hfuel henv => ?_
    exact .refused Value.narrows_asInt hf (ih _ _ _ _ hfuel henv)
  | ifTrue test branch iht ihb =>
    refine .node hfree rfl rfl fun fuel depth env' u stamp hfuel henv => ?_
    obtain ⟨ht, hb⟩ := Nat.max_le.mp hfuel
    refine .operand (iht _ _ _ _ ht henv) fun x w hx => ?_
    obtain rfl := Value.unstamped_eq_bool.mp hx
    exact .last (ihb _ _ _ _ hb henv)
  | ifFalse test branch iht ihb =>
    refine .node hfree rfl rfl fun fuel depth env' u stamp hfuel henv => ?_
    obtain ⟨ht, hb⟩ := Nat.max_le.mp hfuel
    refine .operand (iht _ _ _ _ ht henv) fun x w hx => ?_
    obtain rfl := Value.unstamped_eq_bool.mp hx
    exact .last (ihb _ _ _ _ hb henv)
  | ifTest test hf iht =>
    refine .node hfree rfl rfl fun fuel depth env' u stamp hfuel henv => ?_
    exact .refused Value.narrows_asBool hf (iht _ _ _ _ hfuel henv)
  | letIn value body ihv ihb =>
    refine .node hfree rfl rfl fun fuel depth env' u stamp hfuel henv => ?_
    obtain ⟨hv, hb⟩ := Nat.max_le.mp hfuel
    refine .operand (ihv _ _ _ _ hv henv) fun x w hx => .last (ihb _ _ _ _ hb ?_)
    rw [Env.unstamped_extend, henv, hx]
  | letInValue value ihv =>
    refine .node hfree rfl rfl fun fuel depth env' u stamp hfuel henv => ?_
    exact .operandFault (ihv _ _ _ _ hfuel henv)
  | letRec body ihb =>
    refine .node hfree rfl rfl fun fuel depth env' u stamp hfuel henv => ?_
    refine .bound fun w => .last (ihb _ _ _ _ hfuel ?_)
    rw [Env.unstamped_extendRec, henv]
  | proc => exact .leaf hfree rfl rfl fun _ env' henv => ⟨_, rfl, by rw [← henv]; rfl⟩
  | call operator operand body ihp ihe ihb =>
    refine .node hfree rfl rfl fun fuel depth env' u stamp hfuel henv => ?_
    obtain ⟨hp, hfuel⟩ := Nat.max_le.mp hfuel
    obtain ⟨he, hb⟩ := Nat.max_le.mp hfuel
    refine .operand (ihp _ _ _ _ hp henv) fun x w hx => ?_
    obtain ⟨closed, rfl, hclosed⟩ := Value.unstamped_eq_closure.mp hx
    refine .operand (ihe _ _ _ _ he henv) fun y w' hy => .body fun w'' => ihb _ _ _ _ hb ?_
    rw [Env.unstamped_extend, hclosed, hy]
  | callOperator operator hf ihp =>
    refine .node hfree rfl rfl fun fuel depth env' u stamp hfuel henv => ?_
    exact .refused Value.narrows_asClosure hf (ihp _ _ _ _ hfuel henv)
  | callOperand operator operand ihp ihe =>
    refine .node hfree rfl rfl fun fuel depth env' u stamp hfuel henv => ?_
    obtain ⟨hp, he⟩ := Nat.max_le.mp hfuel
    refine .operand (ihp _ _ _ _ hp henv) fun x w hx => ?_
    obtain ⟨closed, rfl, _⟩ := Value.unstamped_eq_closure.mp hx
    exact .operandFault (ihe _ _ _ _ he henv)
  | absent => exact .leaf hfree rfl rfl fun _ _ _ => ⟨_, rfl, rfl⟩

-- ---------------------------------------------------------------------------
-- Whole runs
-- ---------------------------------------------------------------------------

theorem eval_answer_iff (hfree : Free setup) (hsteps : u.steps = 0) (hdepth : u.maxDepth = 0)
    (hr : (eval setup fuel 0 e env).runFrom u = (r, v)) :
    answer? r = some a ∧ v.steps = s ∧ v.maxDepth = m ↔
      ∃ d : Derivation e env.unstamped a, d.height ≤ fuel ∧ d.judgements = s ∧ d.height = m := by
  constructor
  · rintro ⟨ha, rfl, rfl⟩
    obtain ⟨d, hs, hd⟩ := eval_sound hfree _ _ _ _ _ _ hr ha
    have hshallow : v.maxDepth ≤ max u.maxDepth (0 + fuel) := by
      cases r with
      | ok x => exact eval_shallow.ok hr
      | error f => exact eval_shallow.error hr
    exact ⟨d, by omega⟩
  · rintro ⟨d, hfuel, rfl, rfl⟩
    obtain ⟨r', v', hr', ha, hs, hd⟩ := eval_complete hfree d fuel 0 env u hfuel rfl
    rw [hr] at hr'
    cases hr'
    exact ⟨ha, by omega⟩

end Run

theorem evalFor_answer_iff : answer? (evalFor fuel run e env) = some a ↔
    ∃ d : Derivation e env.unstamped a, d.height ≤ fuel := by
  have hfree : Run.Free { run } := Run.free_of_unlimited rfl fun _ _ => rfl
  rcases hr : (Run.eval { run } fuel 0 e env).runFrom {} with ⟨r, v⟩
  have hr' : evalFor fuel run e env = r := congrArg Prod.fst hr
  rw [hr']
  constructor
  · intro ha
    obtain ⟨d, hd, _⟩ := (Run.eval_answer_iff hfree rfl rfl hr).mp ⟨ha, rfl, rfl⟩
    exact ⟨d, hd⟩
  · rintro ⟨d, hd⟩
    exact ((Run.eval_answer_iff hfree rfl rfl hr).mpr ⟨d, hd, rfl, rfl⟩).1

end Letrec
