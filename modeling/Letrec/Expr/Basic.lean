/-!
# Expressions

The trees of the language: integer constants, variables, difference, zero test, conditional, `let`,
`letrec` with one procedure, procedures and calls. A node knows its place in the program text and
its identity, so that a tree may hold the same node in several positions.
-/

namespace Letrec

/-- A place in a file. Lines and columns count from one; the zero span marks a node that was built
and not read. -/
structure Span where
  file : String := ""
  line : Int := 0
  col : Int := 0
deriving DecidableEq, Repr, Inhabited

namespace Span

def zero : Span := {}

def known? (s : Span) : Option Span := if s = zero then none else some s

@[simp] theorem known?_zero : zero.known? = none := rfl

end Span

structure NodeId where
  tree : Nat
  index : Nat
deriving DecidableEq, Repr, Hashable, Inhabited

structure Origin where
  id : NodeId
  span : Span
deriving DecidableEq, Repr, Inhabited

inductive Expr where
  | const (origin : Origin) (value : Int64)
  | var (origin : Origin) (name : String)
  | diff (origin : Origin) (left right : Expr)
  | zeroTest (origin : Origin) (operand : Expr)
  | ifThenElse (origin : Origin) (test yes no : Expr)
  | letIn (origin : Origin) (name : String) (value body : Expr)
  | letRec (origin : Origin) (name param : String) (procBody body : Expr)
  | proc (origin : Origin) (param : String) (body : Expr)
  | call (origin : Origin) (operator operand : Expr)
  | absent
deriving DecidableEq, Repr, Inhabited

namespace Expr

def origin? : Expr → Option Origin
  | .const o _ | .var o _ | .diff o _ _ | .zeroTest o _ | .ifThenElse o _ _ _ | .letIn o _ _ _
  | .letRec o _ _ _ _ | .proc o _ _ | .call o _ _ => some o
  | .absent => none

def id? (e : Expr) : Option NodeId := e.origin?.map Origin.id

def span (e : Expr) : Span := (e.origin?.map Origin.span).getD .zero

/-- Whether two positions hold the same node. -/
def sameNode (a b : Expr) : Bool := a.id? == b.id?

def kind : Expr → String
  | .const .. => "ConstExpr"
  | .var .. => "VarExpr"
  | .diff .. => "DiffExpr"
  | .zeroTest .. => "ZeroTestExpr"
  | .ifThenElse .. => "IfExpr"
  | .letIn .. => "LetExpr"
  | .letRec .. => "LetRecExpr"
  | .proc .. => "ProcExpr"
  | .call .. => "CallExpr"
  | .absent => ""

def children : Expr → List Expr
  | .const .. | .var .. | .absent => []
  | .diff _ left right => [left, right]
  | .zeroTest _ operand => [operand]
  | .ifThenElse _ test yes no => [test, yes, no]
  | .letIn _ _ value body => [value, body]
  | .letRec _ _ _ procBody body => [procBody, body]
  | .proc _ _ body => [body]
  | .call _ operator operand => [operator, operand]

def bare : Expr → Expr
  | .const _ value => .const default value
  | .var _ name => .var default name
  | .diff _ left right => .diff default left.bare right.bare
  | .zeroTest _ operand => .zeroTest default operand.bare
  | .ifThenElse _ test yes no => .ifThenElse default test.bare yes.bare no.bare
  | .letIn _ name value body => .letIn default name value.bare body.bare
  | .letRec _ name param procBody body => .letRec default name param procBody.bare body.bare
  | .proc _ param body => .proc default param body.bare
  | .call _ operator operand => .call default operator.bare operand.bare
  | .absent => .absent

/-- Same shape, names and constants; places and identities play no part. -/
def alike : Expr → Expr → Bool
  | .const _ m, .const _ n => m == n
  | .var _ x, .var _ y => x == y
  | .diff _ a b, .diff _ a' b' => alike a a' && alike b b'
  | .zeroTest _ a, .zeroTest _ a' => alike a a'
  | .ifThenElse _ a b c, .ifThenElse _ a' b' c' => alike a a' && alike b b' && alike c c'
  | .letIn _ x a b, .letIn _ x' a' b' => x == x' && alike a a' && alike b b'
  | .letRec _ f x a b, .letRec _ f' x' a' b' => f == f' && x == x' && alike a a' && alike b b'
  | .proc _ x a, .proc _ x' a' => x == x' && alike a a'
  | .call _ a b, .call _ a' b' => alike a a' && alike b b'
  | .absent, .absent => true
  | _, _ => false

end Expr

end Letrec
