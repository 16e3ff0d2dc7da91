import Letrec.Evaluation.Failure

/-!
# The rules of the language

The meaning of expressions as a system of inference rules, apart from how they are evaluated. A
judgement says that an expression in an environment has an answer: a value, or the fault of the
program that keeps it from having one. Rules know nothing of steps, limits and events, nor of the
stamps by which frames made at different moments are told apart: every frame that a rule makes bears
the same stamp.

A `Derivation` is a tree of rules. The number of its judgements and its height are what a run of the
expression counts.
-/

namespace Letrec

inductive Fault where
  | unbound (name : String)
  | mismatch (expected actual : Kind)
  | noExpression
deriving DecidableEq, Repr

abbrev Answer := Except Fault Value

/-- The answer for a name in an environment. There is none where a frame lacks its tail. -/
inductive Finds : Env → String → Answer → Prop
  | empty : Finds .empty x (.error (.unbound x))
  | bindHere : Finds (.bind stamp x v tail) x (.ok v)
  | bindThere (hne : name ≠ x) (htail : Finds tail x a) : Finds (.bind stamp name v tail) x a
  | recurHere : Finds (.recur stamp x param body tail) x
      (.ok (.closure param body (.recur stamp x param body tail)))
  | recurThere (hne : name ≠ x) (htail : Finds tail x a) :
      Finds (.recur stamp name param body tail) x a

/-- What is wrong with an answer where a value of kind `k` is asked for. -/
inductive Refuses (k : Kind) : Answer → Fault → Prop
  | fault : Refuses k (.error f) f
  | mismatch (hne : v.kind ≠ k) : Refuses k (.ok v) (.mismatch k v.kind)

inductive Derivation : Expr → Env → Answer → Type
  | const : Derivation (.const o n) env (.ok (.int n))
  | var (name : Finds env x a) : Derivation (.var o x) env a
  | diff (left : Derivation l env (.ok (.int m))) (right : Derivation r env (.ok (.int n))) :
      Derivation (.diff o l r) env (.ok (.int (.ofInt (m.toInt - n.toInt))))
  | diffLeft (left : Derivation l env a) (hf : Refuses .int a f) :
      Derivation (.diff o l r) env (.error f)
  | diffRight (left : Derivation l env (.ok (.int m))) (right : Derivation r env a)
      (hf : Refuses .int a f) : Derivation (.diff o l r) env (.error f)
  | zeroTest (operand : Derivation e env (.ok (.int n))) :
      Derivation (.zeroTest o e) env (.ok (.bool (n.toInt = 0)))
  | zeroTestOperand (operand : Derivation e env a) (hf : Refuses .int a f) :
      Derivation (.zeroTest o e) env (.error f)
  | ifTrue (test : Derivation c env (.ok (.bool true))) (branch : Derivation yes env a) :
      Derivation (.ifThenElse o c yes no) env a
  | ifFalse (test : Derivation c env (.ok (.bool false))) (branch : Derivation no env a) :
      Derivation (.ifThenElse o c yes no) env a
  | ifTest (test : Derivation c env a) (hf : Refuses .bool a f) :
      Derivation (.ifThenElse o c yes no) env (.error f)
  | letIn (value : Derivation e env (.ok v)) (body : Derivation b (env.extend default x v) a) :
      Derivation (.letIn o x e b) env a
  | letInValue (value : Derivation e env (.error f)) : Derivation (.letIn o x e b) env (.error f)
  | letRec (body : Derivation b (env.extendRec default f x p) a) :
      Derivation (.letRec o f x p b) env a
  | proc : Derivation (.proc o x b) env (.ok (.closure x b env))
  | call (operator : Derivation p env (.ok (.closure x b closed)))
      (operand : Derivation e env (.ok v))
      (body : Derivation b (closed.extend default x v) a) : Derivation (.call o p e) env a
  | callOperator (operator : Derivation p env a) (hf : Refuses .closure a f) :
      Derivation (.call o p e) env (.error f)
  | callOperand (operator : Derivation p env (.ok (.closure x b closed)))
      (operand : Derivation e env (.error f)) : Derivation (.call o p e) env (.error f)
  | absent : Derivation .absent env (.error .noExpression)

namespace Derivation

/-- One for each judgement, with what the premises of a rule come to combined. -/
def fold (combine : Nat → Nat → Nat) : Derivation e env a → Nat
  | .const => 1
  | .var _ => 1
  | .diff left right => combine (left.fold combine) (right.fold combine) + 1
  | .diffLeft left _ => left.fold combine + 1
  | .diffRight left right _ => combine (left.fold combine) (right.fold combine) + 1
  | .zeroTest operand => operand.fold combine + 1
  | .zeroTestOperand operand _ => operand.fold combine + 1
  | .ifTrue test branch => combine (test.fold combine) (branch.fold combine) + 1
  | .ifFalse test branch => combine (test.fold combine) (branch.fold combine) + 1
  | .ifTest test _ => test.fold combine + 1
  | .letIn value body => combine (value.fold combine) (body.fold combine) + 1
  | .letInValue value => value.fold combine + 1
  | .letRec body => body.fold combine + 1
  | .proc => 1
  | .call operator operand body =>
    combine (operator.fold combine) (combine (operand.fold combine) (body.fold combine)) + 1
  | .callOperator operator _ => operator.fold combine + 1
  | .callOperand operator operand => combine (operator.fold combine) (operand.fold combine) + 1
  | .absent => 1

def judgements (d : Derivation e env a) : Nat := d.fold (· + ·)

def height (d : Derivation e env a) : Nat := d.fold max

end Derivation

-- ---------------------------------------------------------------------------
-- Answers of the evaluator
-- ---------------------------------------------------------------------------

mutual
def Value.unstamped : Value → Value
  | .int n => .int n
  | .bool b => .bool b
  | .closure param body env => .closure param body env.unstamped
  | .absent => .absent

def Env.unstamped : Env → Env
  | .empty => .empty
  | .bind _ name value tail => .bind default name value.unstamped tail.unstamped
  | .recur _ name param body tail => .recur default name param body tail.unstamped
  | .absent => .absent
end

def Failure.fault? : Failure → Option Fault
  | .unbound name _ => some (.unbound name)
  | .mismatch expected actual _ => some (.mismatch expected actual)
  | .noExpression => some .noExpression
  | .exceeded .. | .cancelled | .noEnvironment | .outOfFuel => none

/-- What a result says about the program; nothing if it is cut short. -/
def answer? : Except Failure Value → Option Answer
  | .ok v => some (.ok v.unstamped)
  | .error f => f.fault?.map .error

theorem answer?_eq_ok {r : Except Failure Value} :
    answer? r = some (.ok v) ↔ ∃ x, r = .ok x ∧ x.unstamped = v := by
  cases r <;> simp [answer?]

theorem answer?_eq_error {r : Except Failure Value} :
    answer? r = some (.error f) ↔ ∃ g, r = .error g ∧ g.fault? = some f := by
  cases r <;> simp [answer?]

namespace Value

@[simp] theorem kind_unstamped (v : Value) : v.unstamped.kind = v.kind := by
  cases v <;> rfl

theorem unstamped_eq_int {v : Value} : v.unstamped = .int n ↔ v = .int n := by
  cases v <;> simp [unstamped]

theorem unstamped_eq_bool {v : Value} : v.unstamped = .bool b ↔ v = .bool b := by
  cases v <;> simp [unstamped]

theorem unstamped_eq_closure {v : Value} :
    v.unstamped = .closure x body env ↔ ∃ env', v = .closure x body env' ∧
      env'.unstamped = env := by
  cases v <;> simp [unstamped, and_assoc]

end Value

namespace Env

@[simp] theorem unstamped_orEmpty (env : Env) : env.orEmpty.unstamped = env.unstamped.orEmpty := by
  cases env <;> rfl

@[simp] theorem unstamped_extend (env : Env) :
    (env.extend stamp x v).unstamped = env.unstamped.extend default x v.unstamped := by
  simp [extend, unstamped]

@[simp] theorem unstamped_extendRec (env : Env) :
    (env.extendRec stamp f x body).unstamped = env.unstamped.extendRec default f x body := by
  simp [extendRec, unstamped]

end Env

@[simp] theorem fault?_located (f : Failure) : (f.located place).fault? = f.fault? := by
  unfold Failure.located
  split <;> rfl

@[simp] theorem answer?_located (r : Except Failure Value) :
    answer? (r.mapError (Failure.located place)) = answer? r := by
  cases r with
  | ok v => rfl
  | error f => exact congrArg (Option.map Except.error) (fault?_located f)

theorem answer?_lookup : ∀ {env : Env}, answer? (env.lookup x) = some a ↔ Finds env.unstamped x a
  | .empty => by
    constructor
    · rintro ⟨⟩; exact .empty
    · rintro ⟨⟩; rfl
  | .absent => by constructor <;> rintro ⟨⟩
  | .bind stamp name v tail => by
    rw [Env.lookup, Env.unstamped]
    split
    · subst x
      constructor
      · rintro ⟨⟩; exact .bindHere
      · intro h
        cases h with
        | bindHere => rfl
        | bindThere hne => exact absurd rfl hne
    · rename_i hne
      rw [answer?_lookup]
      constructor
      · exact .bindThere hne
      · intro h
        cases h with
        | bindHere => exact absurd rfl hne
        | bindThere _ htail => exact htail
  | .recur stamp name param body tail => by
    rw [Env.lookup, Env.unstamped]
    split
    · subst x
      constructor
      · rintro ⟨⟩; exact .recurHere
      · intro h
        cases h with
        | recurHere => rfl
        | recurThere hne => exact absurd rfl hne
    · rename_i hne
      rw [answer?_lookup]
      constructor
      · exact .recurThere hne
      · intro h
        cases h with
        | recurHere => exact absurd rfl hne
        | recurThere _ htail => exact htail

end Letrec
