import Letrec.Diagnostic
import Letrec.Expr.Basic
import Std.Data.HashSet

/-!
# Scope checking

Every variable has to be bound by the expression around it or known beforehand, and nothing may be
missing. A node that several positions share is looked at once in each scope.
-/

namespace Letrec

/-- The names visible at some place, innermost first. Each entry into a binding makes a scope with a
number of its own. -/
structure Scope where
  id : Nat
  names : List String
deriving DecidableEq, Repr

namespace Scope

/-- The visible names in order, each once. -/
def listing (s : Scope) : List String :=
  (s.names.mergeSort fun a b => !(b < a)).eraseReps

def hint (s : Scope) : String :=
  if s.names.isEmpty then "" else "in scope: " ++ String.intercalate ", " s.listing

structure Check where
  seen : Std.HashSet (NodeId × Nat) := {}
  next : Nat := 1
  diagnostics : Array Diagnostic := #[]

abbrev CheckM := StateM Check

def report (code : Code) (message : String) (place : Span) (hint : String) : CheckM Unit :=
  modify fun s =>
    { s with diagnostics := s.diagnostics.push { code, message, span := place.known?, hint } }

def checkName (name role : String) (place : Span) : CheckM Unit :=
  if name = "" then report .ast (role ++ " must not be empty") place "" else pure ()

def enter (s : Scope) (name : String) : CheckM Scope :=
  modifyGet fun c => (⟨c.next, name :: s.names⟩, { c with next := c.next + 1 })

/-- Whether the node is new in this scope; it no longer is from here on. -/
def isNew (e : Expr) (s : Scope) : CheckM Bool :=
  modifyGet fun c =>
    match e.id? with
    | none => (true, c)
    | some id => (!c.seen.contains (id, s.id), { c with seen := c.seen.insert (id, s.id) })

def check (parent : Option Expr) (s : Scope) (e : Expr) : CheckM Unit := do
  if !(← isNew e s) then return
  match e with
  | .const .. => pure ()
  | .var o x =>
    checkName x "variable name" o.span
    if x ≠ "" && x ∉ s.names then
      report .unbound ("unbound variable '" ++ x ++ "'") o.span s.hint
  | .diff _ left right =>
    check (some e) s left
    check (some e) s right
  | .zeroTest _ operand => check (some e) s operand
  | .ifThenElse _ test yes no =>
    check (some e) s test
    check (some e) s yes
    check (some e) s no
  | .letIn o x value body =>
    checkName x "let name" o.span
    check (some e) s value
    check (some e) (← s.enter x) body
  | .letRec o f x procBody body =>
    checkName f "letrec name" o.span
    checkName x "letrec param" o.span
    let inner ← s.enter f
    check (some e) (← inner.enter x) procBody
    check (some e) inner body
  | .proc o x body =>
    checkName x "proc param" o.span
    check (some e) (← s.enter x) body
  | .call _ operator operand =>
    check (some e) s operator
    check (some e) s operand
  | .absent =>
    match parent with
    | none => report .ast "missing expression" .zero ""
    | some p => report .ast ("missing sub-expression in " ++ p.kind) p.span ""

end Scope

def Expr.scopeErrors (e : Expr) (known : List String) : List Diagnostic :=
  ((Scope.check none ⟨0, known⟩ e).run {}).2.diagnostics.toList

end Letrec
