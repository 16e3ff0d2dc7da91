import Letrec.Proofs.Scope.Check

/-!
# Complete expressions and free variables

That an expression is well scoped comes apart into what concerns the expression alone (`Complete`)
and what it asks of its surroundings (`free`). The check reports nothing but unbound variables in
what is complete.
-/

namespace Letrec

namespace Expr

def Complete : Expr → Prop
  | .const .. => True
  | .var _ x => x ≠ ""
  | .diff _ left right => left.Complete ∧ right.Complete
  | .zeroTest _ operand => operand.Complete
  | .ifThenElse _ test yes no => test.Complete ∧ yes.Complete ∧ no.Complete
  | .letIn _ x value body => x ≠ "" ∧ value.Complete ∧ body.Complete
  | .letRec _ f x procBody body => f ≠ "" ∧ x ≠ "" ∧ procBody.Complete ∧ body.Complete
  | .proc _ x body => x ≠ "" ∧ body.Complete
  | .call _ operator operand => operator.Complete ∧ operand.Complete
  | .absent => False

def free : Expr → List String
  | .const .. | .absent => []
  | .var _ x => [x]
  | .diff _ left right => left.free ++ right.free
  | .zeroTest _ operand => operand.free
  | .ifThenElse _ test yes no => test.free ++ (yes.free ++ no.free)
  | .letIn _ x value body => value.free ++ body.free.filter (· ≠ x)
  | .letRec _ f x procBody body =>
    (procBody.free.filter (· ≠ x)).filter (· ≠ f) ++ body.free.filter (· ≠ f)
  | .proc _ x body => body.free.filter (· ≠ x)
  | .call _ operator operand => operator.free ++ operand.free

theorem filter_ne_subset {names free : List String} :
    free.filter (· ≠ x) ⊆ names ↔ free ⊆ x :: names := by
  simp only [List.subset_def, List.mem_filter, List.mem_cons, decide_eq_true_eq]
  grind

theorem scoped_iff {e : Expr} {names : List String} :
    e.Scoped names ↔ e.Complete ∧ e.free ⊆ names := by
  induction e generalizing names with
  | const => simp [Scoped, Complete, free]
  | var o x => simp [Scoped, Complete, free]
  | absent => simp [Scoped, Complete]
  | _ => grind [Scoped, Complete, free, List.append_subset, filter_ne_subset]

instance (e : Expr) : Decidable e.Complete :=
  decidable_of_iff (e.Scoped e.free) (by simp [scoped_iff])

end Expr

theorem Scope.problems_code {e : Expr} {names : List String} (he : e.Complete) :
    ∀ d ∈ problems parent names e, d.code = .unbound := by
  have hname {x role : String} {place : Span} (hx : x ≠ "") :
      ∀ d ∈ nameProblems x role place, d.code = .unbound := by simp [nameProblems_eq_nil.mpr hx]
  have happend {l l' : List Diagnostic} (h : ∀ d ∈ l, d.code = .unbound)
      (h' : ∀ d ∈ l', d.code = .unbound) :
      ∀ d ∈ l ++ l', d.code = .unbound := List.forall_mem_append.mpr ⟨h, h'⟩
  induction e generalizing parent names with
  | const => exact nofun
  | var o x =>
    refine happend (hname he) fun d hd => ?_
    split at hd
    · rw [List.mem_singleton.mp hd]
    · cases hd
  | diff o left right ihl ihr => exact happend (ihl he.1) (ihr he.2)
  | zeroTest o operand ih => exact ih he
  | ifThenElse o test yes no iht ihy ihn =>
    exact happend (iht he.1) (happend (ihy he.2.1) (ihn he.2.2))
  | letIn o x value body ihv ihb => exact happend (hname he.1) (happend (ihv he.2.1) (ihb he.2.2))
  | letRec o f x procBody body ihp ihb =>
    obtain ⟨hf, hx, hproc, hbody⟩ := he
    exact happend (hname hf) (happend (hname hx) (happend (ihp hproc) (ihb hbody)))
  | proc o x body ih => exact happend (hname he.1) (ih he.2)
  | call o operator operand ihp ihe => exact happend (ihp he.1) (ihe he.2)
  | absent => exact he.elim

theorem scopeErrors_code {e : Expr} (hcoherent : e.Coherent) (he : e.Complete)
    (known : List String) : ∀ d ∈ e.scopeErrors known, d.code = .unbound := fun d hd =>
  Scope.problems_code he d ((scopeErrors_thinned hcoherent known).sublist.subset hd)

namespace Scope

variable {k : Nat} {names names' : List String}

theorem enter_congr {m : Scope → CheckM Unit} (h : ∀ k, m ⟨k, x :: names⟩ = m ⟨k, x :: names'⟩) :
    (enter ⟨k, names⟩ x >>= m) = (enter ⟨k, names'⟩ x >>= m) :=
  funext fun c => congrFun (h c.next) { c with next := c.next + 1 }

/-- Names that do not occur free play no part in the check, if those that do are known. -/
theorem check_congr {e : Expr} (h : e.free ⊆ names) (h' : e.free ⊆ names') :
    check parent ⟨k, names⟩ e = check parent ⟨k, names'⟩ e := by
  induction e generalizing parent k names names' with
  | const | absent => rfl
  | var o x =>
    have hx : x ∈ names := h (.head _)
    have hx' : x ∈ names' := h' (.head _)
    simp [check, isNew, hx, hx']
  | diff o left right ihl ihr | call o left right ihl ihr =>
    simp only [Expr.free, List.append_subset] at h h'
    rw [check, check, ihl h.1 h'.1, ihr h.2 h'.2]
    rfl
  | zeroTest o operand ih =>
    rw [check, check, ih h h']
    rfl
  | ifThenElse o test yes no iht ihy ihn =>
    simp only [Expr.free, List.append_subset] at h h'
    rw [check, check, iht h.1 h'.1, ihy h.2.1 h'.2.1, ihn h.2.2 h'.2.2]
    rfl
  | letIn o x value body ihv ihb =>
    simp only [Expr.free, List.append_subset, Expr.filter_ne_subset] at h h'
    rw [check, check, ihv h.1 h'.1, enter_congr fun k => ihb h.2 h'.2]
    rfl
  | letRec o f x procBody body ihp ihb =>
    simp only [Expr.free, List.append_subset, Expr.filter_ne_subset] at h h'
    rw [check, check, enter_congr fun j => ?_]
    · rfl
    · rw [ihb h.2 h'.2]
      exact enter_congr fun _ => by rw [ihp h.1 h'.1]
  | proc o x body ih =>
    simp only [Expr.free, Expr.filter_ne_subset] at h h'
    rw [check, check, enter_congr fun k => ih h h']
    rfl

end Scope

theorem scopeErrors_congr {e : Expr} (h : e.free ⊆ known) (h' : e.free ⊆ known') :
    e.scopeErrors known = e.scopeErrors known' := by
  rw [Expr.scopeErrors, Expr.scopeErrors, Scope.check_congr h h']

end Letrec
