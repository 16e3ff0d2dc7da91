import Letrec.Expr.Basic

/-!
# Positions in expressions

A position is given by the numbers of the sub-expressions on the way down. An expression is what its
nodes say by themselves and where they come from, position by position: `ext_at?`.
-/

namespace Letrec.Expr

theorem sizeOf_lt_of_mem_children {e a : Expr} (h : a ∈ e.children) : sizeOf a < sizeOf e := by
  cases e <;> grind [children]

/-- The expression at a position, which is given by the numbers of the sub-expressions on the
way down. -/
def at? (e : Expr) : List Nat → Option Expr
  | [] => some e
  | k :: p => e.children[k]?.bind fun a => a.at? p

-- ---------------------------------------------------------------------------
-- What stands at a position
-- ---------------------------------------------------------------------------

inductive Label where
  | const (value : Int64)
  | var (name : String)
  | diff
  | zeroTest
  | ifThenElse
  | letIn (name : String)
  | letRec (name param : String)
  | proc (param : String)
  | call
  | absent
deriving DecidableEq

def label : Expr → Label
  | .const _ value => .const value
  | .var _ name => .var name
  | .diff .. => .diff
  | .zeroTest .. => .zeroTest
  | .ifThenElse .. => .ifThenElse
  | .letIn _ name _ _ => .letIn name
  | .letRec _ name param _ _ => .letRec name param
  | .proc _ param _ => .proc param
  | .call .. => .call
  | .absent => .absent

def labelAt? (e : Expr) (p : List Nat) : Option Label := (e.at? p).map label

def originAt? (e : Expr) (p : List Nat) : Option Origin := (e.at? p).bind origin?

theorem labelAt?_cons (e : Expr) :
    e.labelAt? (k :: p) = e.children[k]?.bind fun a => a.labelAt? p :=
  Option.map_bind

theorem originAt?_cons (e : Expr) :
    e.originAt? (k :: p) = e.children[k]?.bind fun a => a.originAt? p :=
  Option.bind_assoc ..

theorem labelAt?_singleton (e : Expr) : e.labelAt? [k] = e.children[k]?.map label := by
  rw [labelAt?_cons, Option.map_eq_bind]
  rfl

theorem eq_of_children {a b : Expr} (hlabel : a.label = b.label) (horigin : a.origin? = b.origin?)
    (hchildren : a.children = b.children) : a = b := by
  cases a <;> cases b <;> simp_all [label, origin?, children]

/-- Expressions that have the same labels and the same origins at all positions are the same. -/
theorem ext_at? {a b : Expr} (hlabel : ∀ p, a.labelAt? p = b.labelAt? p)
    (horigin : ∀ p, a.originAt? p = b.originAt? p) : a = b := by
  refine eq_of_children (Option.some.inj (hlabel [])) (horigin []) (List.ext_getElem? fun k => ?_)
  have hk := hlabel [k]
  rw [labelAt?_singleton, labelAt?_singleton] at hk
  cases hc : a.children[k]? with
  | none =>
    rw [hc, Option.map_none] at hk
    exact (Option.map_eq_none_iff.mp hk.symm).symm
  | some c =>
    rw [hc, Option.map_some] at hk
    obtain ⟨d, hd, _⟩ := Option.map_eq_some_iff.mp hk.symm
    have hcd : c = d := by
      refine ext_at? (fun p => ?_) (fun p => ?_)
      · simpa [labelAt?_cons, hc, hd] using hlabel (k :: p)
      · simpa [originAt?_cons, hc, hd] using horigin (k :: p)
    rw [hd, hcd]
termination_by sizeOf a
decreasing_by exact sizeOf_lt_of_mem_children (List.mem_of_getElem? hc)

-- ---------------------------------------------------------------------------
-- Another expression at a position
-- ---------------------------------------------------------------------------

def setChild (e : Expr) (k : Nat) (s : Expr) : Expr :=
  match e, k with
  | .diff o _ right, 0 => .diff o s right
  | .diff o left _, 1 => .diff o left s
  | .zeroTest o _, 0 => .zeroTest o s
  | .ifThenElse o _ yes no, 0 => .ifThenElse o s yes no
  | .ifThenElse o test _ no, 1 => .ifThenElse o test s no
  | .ifThenElse o test yes _, 2 => .ifThenElse o test yes s
  | .letIn o name _ body, 0 => .letIn o name s body
  | .letIn o name value _, 1 => .letIn o name value s
  | .letRec o name param _ body, 0 => .letRec o name param s body
  | .letRec o name param procBody _, 1 => .letRec o name param procBody s
  | .proc o param _, 0 => .proc o param s
  | .call o _ operand, 0 => .call o s operand
  | .call o operator _, 1 => .call o operator s
  | e, _ => e

def put (e : Expr) : (p : List Nat) → (s : Expr) → Expr
  | [], s => s
  | k :: p, s => e.children[k]?.elim e fun a => e.setChild k (a.put p s)

theorem setChild_self {e : Expr} (h : e.children[k]? = some a) : e.setChild k a = e := by
  cases e <;> rcases k with _ | _ | _ | k <;> simp_all [children, setChild]

theorem put_cons {e : Expr} (h : e.children[k]? = some a) :
    e.put (k :: p) s = e.setChild k (a.put p s) := by
  rw [put, h, Option.elim_some]

theorem put_self {e : Expr} (h : e.at? p = some s) : e.put p s = e := by
  induction p generalizing e with
  | nil =>
    cases h
    rfl
  | cons k p ih =>
    obtain ⟨a, ha, hs⟩ := Option.bind_eq_some_iff.mp h
    rw [put_cons ha, ih hs, setChild_self ha]

end Letrec.Expr
