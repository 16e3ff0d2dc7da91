import Letrec.Proofs.Scope.Free

/-!
# The scope check is exact

`Stands` follows an expression down to a position and gathers the names that are visible there. The
check reports a variable as unbound exactly at the positions where its name is not among them, and
lists those names in order as a hint.
-/

namespace Letrec

-- ---------------------------------------------------------------------------
-- The listing of names
-- ---------------------------------------------------------------------------

namespace Scope

theorem eraseReps_loop {a : String} {as acc : List String} (hin : (a :: as).Pairwise (· ≤ ·))
    (hacc : (acc.reverse ++ [a]).Pairwise (· < ·)) :
    (List.eraseRepsBy.loop (· == ·) a as acc).Pairwise (· < ·) ∧
      ∀ y, y ∈ List.eraseRepsBy.loop (· == ·) a as acc ↔ y ∈ acc ∨ y ∈ a :: as := by
  induction as generalizing a acc with
  | nil =>
    simp only [List.eraseRepsBy.loop, List.reverse_cons]
    exact ⟨hacc, fun y => by simp [or_comm]⟩
  | cons b as ih =>
    obtain ⟨hle, htail⟩ := List.pairwise_cons.mp hin
    simp only [List.eraseRepsBy.loop]
    split
    · rename_i heq
      obtain rfl := eq_of_beq heq
      obtain ⟨hsorted, hmem⟩ := ih htail hacc
      exact ⟨hsorted, fun y => by simp [hmem]⟩
    · rename_i hne
      have hlt : a < b := String.not_le.mp fun hba =>
        absurd (beq_iff_eq.mpr (String.le_antisymm (hle b (.head _)) hba)) (by simp [hne])
      have hacc' : ((a :: acc).reverse ++ [b]).Pairwise (· < ·) := by
        rw [List.reverse_cons, List.pairwise_append]
        refine ⟨hacc, by simp, ?_⟩
        intro x hx y hy
        obtain rfl := List.mem_singleton.mp hy
        rcases List.mem_append.mp hx with hx | hx
        · exact String.lt_trans ((List.pairwise_append.mp hacc).2.2 x hx a (.head _)) hlt
        · rwa [List.mem_singleton.mp hx]
      obtain ⟨hsorted, hmem⟩ := ih htail hacc'
      refine ⟨hsorted, fun y => ?_⟩
      simp only [hmem, List.mem_cons]
      grind

theorem listing_spec (s : Scope) :
    s.listing.Pairwise (· < ·) ∧ ∀ y, y ∈ s.listing ↔ y ∈ s.names := by
  have hle (a b : String) : (!decide (b < a)) = true ↔ a ≤ b := by
    simp only [Bool.not_eq_true', decide_eq_false_iff_not, String.not_lt]
  have hsorted : (s.names.mergeSort fun a b => !(b < a)).Pairwise (· ≤ ·) := by
    refine (List.pairwise_mergeSort ?_ ?_ s.names).imp ?_
    · intro a b c hab hbc
      rw [hle] at *
      exact String.le_trans hab hbc
    · intro a b
      rw [Bool.or_eq_true, hle, hle]
      exact String.le_total a b
    · intro a b hab
      exact (hle a b).mp hab
  have hmem (y : String) : y ∈ (s.names.mergeSort fun a b => !(b < a)) ↔ y ∈ s.names :=
    List.mem_mergeSort
  unfold listing List.eraseReps List.eraseRepsBy
  split
  · rename_i hnil
    refine ⟨.nil, fun y => ?_⟩
    rw [← hmem, hnil]
  · rename_i a as hcons
    rw [hcons] at hsorted
    have hstart : ([].reverse ++ [a]).Pairwise (· < ·) := by simp
    obtain ⟨hstrict, hloop⟩ := eraseReps_loop hsorted hstart
    refine ⟨hstrict, fun y => ?_⟩
    rw [hloop, ← hmem, hcons]
    simp

theorem eq_of_strict {l l' : List String} (h : l.Pairwise (· < ·)) (h' : l'.Pairwise (· < ·))
    (hmem : ∀ y, y ∈ l ↔ y ∈ l') : l = l' := by
  have hperm : l.Perm l' :=
    (List.perm_ext_iff_of_nodup (h.imp String.ne_of_lt) (h'.imp String.ne_of_lt)).mpr hmem
  exact hperm.eq_of_pairwise (fun a b _ _ hab hba => absurd hba (String.lt_asymm hab)) h h'

theorem listing_eq {s : Scope} {l : List String} (h : l.Pairwise (· < ·))
    (hmem : ∀ y, y ∈ l ↔ y ∈ s.names) : s.listing = l :=
  eq_of_strict s.listing_spec.1 h fun y => by rw [s.listing_spec.2, hmem]

structure Unbound (names : List String) (o : Origin) (x : String) (d : Diagnostic) : Prop where
  code : d.code = .unbound
  message : d.message = "unbound variable '" ++ x ++ "'"
  span : d.span = o.span.known?
  hint : ∃ listed : List String, listed.Pairwise (· < ·) ∧ (∀ y, y ∈ listed ↔ y ∈ names) ∧
    d.hint = if names = [] then "" else "in scope: " ++ String.intercalate ", " listed

theorem unbound_iff {names : List String} {d : Diagnostic} : Unbound names o x d ↔
    d = ⟨.unbound, "unbound variable '" ++ x ++ "'", o.span.known?, hint ⟨0, names⟩⟩ := by
  obtain ⟨hsorted, hmem⟩ := listing_spec ⟨0, names⟩
  constructor
  · rintro ⟨hcode, hmessage, hspan, listed, hsorted', hmem', hhint⟩
    have heq : listing ⟨0, names⟩ = listed := listing_eq hsorted' hmem'
    obtain ⟨code, message, span, advice⟩ := d
    simp_all [hint]
  · rintro rfl
    exact ⟨rfl, rfl, rfl, _, hsorted, hmem, by simp [hint]⟩

end Scope

-- ---------------------------------------------------------------------------
-- Positions
-- ---------------------------------------------------------------------------

namespace Expr

def parts (names : List String) : Expr → List (List String × Expr)
  | .const .. | .var .. | .absent => []
  | .diff _ left right => [(names, left), (names, right)]
  | .zeroTest _ operand => [(names, operand)]
  | .ifThenElse _ test yes no => [(names, test), (names, yes), (names, no)]
  | .letIn _ x value body => [(names, value), (x :: names, body)]
  | .letRec _ f x procBody body => [(x :: f :: names, procBody), (f :: names, body)]
  | .proc _ x body => [(x :: names, body)]
  | .call _ operator operand => [(names, operator), (names, operand)]

/-- The expression `a` stands at some position of `e`. Around `e` the names `known` are visible, and
at that position `names` are. -/
inductive Stands (a : Expr) (names : List String) : (known : List String) → (e : Expr) → Prop
  | here : Stands a names names a
  | inside (hpart : part ∈ e.parts known) (h : Stands a names part.1 part.2) :
      Stands a names known e

theorem sizeOf_lt_of_mem_parts {e : Expr} (h : part ∈ e.parts names) :
    sizeOf part.2 < sizeOf e := by
  cases e <;> simp [parts] at h <;> grind

theorem induction_parts {motive : Expr → Prop}
    (step : ∀ e : Expr, (∀ names, ∀ part ∈ e.parts names, motive part.2) → motive e) (e : Expr) :
    motive e :=
  step e fun _ part _ => induction_parts step part.2
termination_by sizeOf e
decreasing_by exact sizeOf_lt_of_mem_parts ‹_›

end Expr

-- ---------------------------------------------------------------------------
-- Unbound variables
-- ---------------------------------------------------------------------------

namespace Scope

variable {names known : List String}

theorem not_mem_nameProblems (hd : d.code = .unbound) : d ∉ nameProblems name role place := by
  intro h
  unfold nameProblems at h
  split at h
  · rw [List.mem_singleton.mp h] at hd
    cases hd
  · cases h

/-- Only variables are reported as unbound, so that other nodes have such problems in their
parts only. -/
theorem mem_problems_parts {e : Expr} (he : ∀ o x, e ≠ .var o x) (hd : d.code = .unbound) :
    d ∈ problems parent names e ↔ ∃ part ∈ e.parts names, d ∈ problems (some e) part.1 part.2 := by
  cases e with
  | var o x => exact absurd rfl (he o x)
  | absent =>
    have hne {message : String} {span : Option Span} : d ≠ ⟨.ast, message, span, ""⟩ := by
      rintro rfl
      cases hd
    cases parent <;> simp [problems, Expr.parts, hne]
  | _ => simp [problems, Expr.parts, not_mem_nameProblems hd]

theorem mem_problems_var (hd : d.code = .unbound) :
    d ∈ problems parent names (.var o x) ↔ x ≠ "" ∧ x ∉ names ∧ Unbound names o x d := by
  by_cases hx : x = "" <;> by_cases hmem : x ∈ names <;>
    simp [problems, not_mem_nameProblems hd, hx, hmem, unbound_iff]

theorem mem_problems_unbound (hd : d.code = .unbound) (e : Expr) : d ∈ problems parent known e ↔
    ∃ names o x, Expr.Stands (.var o x) names known e ∧ x ≠ "" ∧ x ∉ names ∧
      Unbound names o x d := by
  induction e using Expr.induction_parts generalizing parent known with
  | step e ih =>
    by_cases he : ∃ o x, e = .var o x
    · obtain ⟨o, x, rfl⟩ := he
      rw [mem_problems_var hd]
      constructor
      · intro hx
        exact ⟨known, o, x, .here, hx⟩
      · rintro ⟨names, o', x', hstands, hx⟩
        cases hstands with
        | here => exact hx
        | inside hpart => cases hpart
    · have hvar : ∀ o x, e ≠ .var o x := fun o x heq => he ⟨o, x, heq⟩
      rw [mem_problems_parts hvar hd]
      constructor
      · rintro ⟨part, hpart, hmem⟩
        obtain ⟨names, o, x, hstands, hx⟩ := (ih known part hpart).mp hmem
        exact ⟨names, o, x, .inside hpart hstands, hx⟩
      · rintro ⟨names, o, x, hstands, hx⟩
        cases hstands with
        | here => exact absurd rfl (hvar o x)
        | inside hpart hstands =>
          exact ⟨_, hpart, (ih known _ hpart).mpr ⟨names, o, x, hstands, hx⟩⟩

theorem problems_part {e : Expr} (h : part ∈ e.parts names) :
    problems (some e) part.1 part.2 ⊆ problems parent names e := by
  cases e <;> simp only [Expr.parts, List.mem_cons, List.not_mem_nil, or_false] at h <;>
    grind [problems]

theorem problems_stands {e : Expr} (h : Expr.Stands a names known e) (parent : Option Expr) :
    ∃ above, problems above names a ⊆ problems parent known e := by
  induction h generalizing parent with
  | here => exact ⟨parent, List.Subset.refl _⟩
  | inside hpart _ ih =>
    obtain ⟨above, hsub⟩ := ih (some _)
    exact ⟨above, List.Subset.trans hsub (problems_part hpart)⟩

/-- The report on a variable that is not bound where `names` are visible, or has no name at all. -/
inductive ReportOn (names : List String) (o : Origin) (x : String) (d : Diagnostic) : Prop
  | nameless (hx : x = "")
    (hd : d = ⟨.ast, "variable name must not be empty", o.span.known?, ""⟩)
  | unbound (hx : x ≠ "") (hd : Unbound names o x d)

theorem mem_problems_unseen (h : x ∉ names) (parent : Option Expr) (o : Origin) :
    ∃ d ∈ problems parent names (.var o x), ReportOn names o x d := by
  by_cases hx : x = ""
  · exact ⟨_, by simp [problems, nameProblems, hx], .nameless hx rfl⟩
  · have hunbound : Unbound names o x _ := unbound_iff.mpr rfl
    exact ⟨_, (mem_problems_var hunbound.code).mpr ⟨hx, h, hunbound⟩, .unbound hx hunbound⟩

end Scope

theorem mem_scopeErrors {e : Expr} (he : e.Coherent) :
    d ∈ e.scopeErrors known ↔ d ∈ Scope.problems none known e := by
  have hthin := scopeErrors_thinned he known
  exact ⟨fun h => hthin.sublist.subset h, fun h => by simpa using hthin.subset h⟩

theorem reportOn_mem_scopeErrors {e : Expr} (he : e.Coherent)
    (h : Expr.Stands (.var o x) names known e) (hx : x ∉ names) :
    ∃ d ∈ e.scopeErrors known, Scope.ReportOn names o x d := by
  obtain ⟨above, hsub⟩ := Scope.problems_stands h none
  obtain ⟨d, hd, hreport⟩ := Scope.mem_problems_unseen hx above o
  exact ⟨d, (mem_scopeErrors he).mpr (hsub hd), hreport⟩

/-- The check is clean exactly for expressions that are complete and whose free variables are known.
The variables that it reports as unbound are those that are not bound where they stand, and each
report lists the names that are visible there, in order and without repetition. -/
theorem check_is_exact (e : Expr) (he : e.Coherent) (known : List String) :
    (e.scopeErrors known = [] ↔ e.Complete ∧ e.free ⊆ known) ∧
    ∀ d, d ∈ e.scopeErrors known ∧ d.code = .unbound ↔
      ∃ names o x, Expr.Stands (.var o x) names known e ∧ x ≠ "" ∧ x ∉ names ∧
        Scope.Unbound names o x d := by
  refine ⟨by rw [scopeErrors_eq_nil he, Expr.scoped_iff], fun d => ?_⟩
  rw [mem_scopeErrors he]
  constructor
  · rintro ⟨hmem, hcode⟩
    exact (Scope.mem_problems_unbound hcode e).mp hmem
  · rintro ⟨names, o, x, hstands, hx, hnames, hd⟩
    exact ⟨(Scope.mem_problems_unbound hd.code e).mpr ⟨names, o, x, hstands, hx, hnames, hd⟩,
      hd.code⟩

/-- In `letrec f(n) = proc (n) g in f` the name `n` is visible twice where `g` stands, and
listed once. -/
theorem check_is_exact_hint :
    let node (index : Nat) : Origin := ⟨⟨1, index⟩, ⟨"p", 1, index⟩⟩
    let e : Expr :=
      .letRec (node 1) "f" "n" (.proc (node 2) "n" (.var (node 3) "g")) (.var (node 4) "f")
    e.Coherent ∧ e.scopeErrors ["b", "a"] ≠ [] ∧
      (⟨.unbound, "unbound variable 'g'", some ⟨"p", 1, 3⟩, "in scope: a, b, f, n"⟩ : Diagnostic) ∈
        e.scopeErrors ["b", "a"] := by
  intro node e
  have he : e.Coherent := by decide
  obtain ⟨hclean, hunbound⟩ := check_is_exact e he ["b", "a"]
  have hstands : Expr.Stands (.var (node 3) "g") ["n", "n", "f", "b", "a"] ["b", "a"] e :=
    .inside (.head _) (.inside (.head _) .here)
  refine ⟨he, fun h => absurd (hclean.mp h) (by decide), ((hunbound _).mpr ?_).1⟩
  refine ⟨_, _, _, hstands, by decide, by decide, rfl, rfl, rfl,
    ["a", "b", "f", "n"], by decide, ?_, rfl⟩
  grind

end Letrec
