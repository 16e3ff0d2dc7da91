import Letrec.Expr.Basic
import Letrec.Json.Basic

/-!
# Values and environments

A value is an integer, a truth value or a closure. An environment is a chain of frames, each of
which binds one name. A recursive frame binds a procedure whose environment is the frame itself.
-/

namespace Letrec

/-- The moment a frame was made: the run, and the step of that run, zero if outside of any step. A
step makes at most one frame, so that the stamp tells frames apart. -/
structure Stamp where
  run : Nat
  step : Nat
deriving DecidableEq, Repr, Inhabited

mutual
inductive Value where
  | int (n : Int64)
  | bool (b : Bool)
  | closure (param : String) (body : Expr) (env : Env)
  | absent

inductive Env where
  | empty
  | bind (stamp : Stamp) (name : String) (value : Value) (tail : Env)
  | recur (stamp : Stamp) (name param : String) (body : Expr) (tail : Env)
  | absent
end

instance : Inhabited Value := ⟨.absent⟩

instance : Inhabited Env := ⟨.empty⟩

inductive Kind where
  | int
  | bool
  | closure
  | absent
deriving DecidableEq, Repr

def Kind.name : Kind → String
  | .int => "int"
  | .bool => "bool"
  | .closure => "closure"
  | .absent => "nil"

namespace Env

/-- The empty environment in place of a missing one. -/
def orEmpty : Env → Env
  | .absent => .empty
  | env => env

def extend (stamp : Stamp) (name : String) (value : Value) (tail : Env) : Env :=
  .bind stamp name value tail.orEmpty

def extendRec (stamp : Stamp) (name param : String) (body : Expr) (tail : Env) : Env :=
  .recur stamp name param body tail.orEmpty

/-- The names bound that are not among those `seen`, innermost first, each once. -/
def namesFrom (seen : List String) : Env → List String
  | .empty | .absent => []
  | .bind _ name _ tail | .recur _ name _ _ tail =>
    if name ∈ seen then tail.namesFrom seen else name :: tail.namesFrom (name :: seen)

def names (env : Env) : List String := env.namesFrom []

/-- One turn of the loop leaves out what was seen and, further on, the name it has come to. -/
theorem filter_cons_seen (x : String) (names seen : List String) :
    (if x ∈ seen then names.filter (· ∉ seen) else x :: names.filter (· ∉ x :: seen)) =
      (x :: names.filter (· ≠ x)).filter (· ∉ seen) := by
  rw [List.filter_cons, List.filter_filter]
  by_cases hx : x ∈ seen
  · simp only [hx, if_true, not_true, decide_false, Bool.false_eq_true, if_false]
    exact List.filter_congr fun y _ => by grind
  · simp only [hx, if_false, not_false_eq_true, decide_true, if_true]
    exact congrArg _ (List.filter_congr fun y _ => by grind)

theorem namesFrom_eq : ∀ (env : Env) (seen : List String),
    env.namesFrom seen = env.names.filter (· ∉ seen)
  | .empty, _ => rfl
  | .absent, _ => rfl
  | .bind _ x _ tail, seen | .recur _ x _ _ tail, seen => by
    have hx : tail.namesFrom [x] = tail.names.filter (· ≠ x) := by
      simpa using tail.namesFrom_eq [x]
    rw [namesFrom, tail.namesFrom_eq seen, tail.namesFrom_eq (x :: seen), filter_cons_seen, ← hx]
    rfl

theorem namesFrom_singleton (env : Env) (x : String) :
    env.namesFrom [x] = env.names.filter (· ≠ x) := by
  simpa using env.namesFrom_eq [x]

@[simp] theorem names_empty : Env.empty.names = [] := rfl

@[simp] theorem names_absent : Env.absent.names = [] := rfl

theorem names_bind (tail : Env) :
    (Env.bind stamp x v tail).names = x :: tail.names.filter (· ≠ x) :=
  congrArg (x :: ·) (tail.namesFrom_singleton x)

theorem names_recur (tail : Env) :
    (Env.recur stamp f x body tail).names = f :: tail.names.filter (· ≠ f) :=
  congrArg (f :: ·) (tail.namesFrom_singleton f)

/-- Whether two environments are the same chain of frames. -/
def sameFrame : Env → Env → Bool
  | .empty, .empty => true
  | .absent, .absent => true
  | .bind s _ _ _, .bind t _ _ _ => s == t
  | .recur s _ _ _ _, .recur t _ _ _ _ => s == t
  | _, _ => false

end Env

namespace Value

def kind : Value → Kind
  | .int _ => .int
  | .bool _ => .bool
  | .closure .. => .closure
  | .absent => .absent

/-- Integers and truth values compare by content; closures are the same if their parameter, the node
of their body and their environment are. -/
def same : Value → Value → Bool
  | .int m, .int n => m == n
  | .bool a, .bool b => a == b
  | .closure x body env, .closure y body' env' =>
    x == y && body.sameNode body' && env.sameFrame env'
  | _, _ => false

def text : Value → String
  | .int n => toString n.toInt
  | .bool b => if b then "#t" else "#f"
  | .closure param _ _ => "#<procedure (" ++ param ++ ")>"
  | .absent => ""

def toJson : Value → Json Int
  | .int n => .number n.toInt
  | .bool b => .bool b
  | .closure param _ _ => .object [("proc", .object [("param", .string param)])]
  | .absent => .null

end Value

end Letrec
