import Letrec.Evaluation.Run

/-!
# Preludes

Definitions whose values a program can use. They are evaluated in the order of their first
registration, each in the environment of those before it.
-/

namespace Letrec

structure Definition where
  name : String
  doc : String
  expr : Expr
deriving Repr

/-- Definitions with different names, in the order of first registration. -/
structure Prelude where
  definitions : List Definition
  nodup : (definitions.map Definition.name).Nodup
deriving Repr

/-- Why a prelude has no environment: the evaluation of a definition failed. -/
structure PreludeFailure where
  name : String
  failure : Failure
deriving Repr

def PreludeFailure.message (f : PreludeFailure) : String :=
  "prelude: " ++ f.name ++ ": " ++ f.failure.message

namespace Prelude

def empty : Prelude := ⟨[], .nil⟩

def names (p : Prelude) : List String := p.definitions.map Definition.name

def get? (p : Prelude) (name : String) : Option Definition :=
  p.definitions.find? (·.name == name)

/-- Puts a definition in the place of the one with its name, or last. -/
def put (d : Definition) : List Definition → List Definition
  | [] => [d]
  | first :: rest => if first.name == d.name then d :: rest else first :: put d rest

theorem names_put (d : Definition) (ds : List Definition) :
    (put d ds).map Definition.name =
      if d.name ∈ ds.map Definition.name then ds.map Definition.name
      else ds.map Definition.name ++ [d.name] := by
  induction ds with
  | nil => rfl
  | cons first rest ih =>
    rw [put]
    by_cases h : first.name = d.name
    · simp [h]
    · have h' : ¬ d.name = first.name := fun heq => h heq.symm
      simp only [h, beq_iff_eq, if_false, List.map_cons, ih, List.mem_cons, h', false_or]
      split <;> rfl

theorem nodup_put (d : Definition) {ds : List Definition}
    (hds : (ds.map Definition.name).Nodup) : ((put d ds).map Definition.name).Nodup := by
  rw [names_put]
  split
  · exact hds
  · next hnew =>
    refine List.nodup_append.mpr ⟨hds, by simp, fun x hx y hy heq => hnew ?_⟩
    rwa [← List.mem_singleton.mp hy, ← heq]

def register (p : Prelude) (d : Definition) : Prelude :=
  ⟨put d p.definitions, nodup_put d p.nodup⟩

/-- Adds the values of definitions to an environment; the runs are numbered from `run` on. -/
def extendBy (run : Nat) (env : Env) : List Definition → Except PreludeFailure Env
  | [] => .ok env
  | d :: rest =>
    match eval run d.expr env with
    | .error failure => .error ⟨d.name, failure⟩
    | .ok v => extendBy (run + 1) (env.extend ⟨run, 0⟩ d.name v) rest

def env (p : Prelude) (run : Nat) : Except PreludeFailure Env := extendBy run .empty p.definitions

def builtin (index : Nat) : Origin := ⟨⟨0, index⟩, .zero⟩

/-- The integers of textbook examples, the truth values, which have no literal, and arithmetic. -/
def defaults : List Definition :=
  [ ⟨"i", "the integer 1", .const (builtin 0) 1⟩,
    ⟨"v", "the integer 5", .const (builtin 1) 5⟩,
    ⟨"x", "the integer 10", .const (builtin 2) 10⟩,
    ⟨"true", "boolean true", .zeroTest (builtin 4) (.const (builtin 3) 0)⟩,
    ⟨"false", "boolean false", .zeroTest (builtin 6) (.const (builtin 5) 1)⟩,
    ⟨"minus", "(minus n) negates n",
      .proc (builtin 10) "n" (.diff (builtin 9) (.const (builtin 7) 0) (.var (builtin 8) "n"))⟩,
    ⟨"plus", "((plus a) b) adds a and b",
      .proc (builtin 17) "a" (.proc (builtin 16) "b"
        (.diff (builtin 15) (.var (builtin 11) "a")
          (.diff (builtin 14) (.const (builtin 12) 0) (.var (builtin 13) "b"))))⟩,
    ⟨"not", "(not b) negates a boolean",
      .proc (builtin 22) "b" (.ifThenElse (builtin 21) (.var (builtin 18) "b")
        (.var (builtin 19) "false") (.var (builtin 20) "true"))⟩ ]

def registerDefaults (p : Prelude) : Prelude := defaults.foldl register p

def standard : Prelude := registerDefaults .empty

end Prelude

end Letrec
