import Letrec.Scope

/-!
# What the scope check finds

`problems` lists what is wrong with an expression by going down its tree, without regard to nodes
that stand in several positions. The check passes over a node that it has seen in the same scope,
and so leaves out only what it has reported before (`check_reports`). The invariant is `Ready`: a
node that has been seen in a scope has had its problems in that scope reported. It would fail for a
node of which the check is not done yet, but such a node does not stand below itself.

This takes identities to be what they stand for: positions with the same identity hold the same
tree.
-/

namespace Letrec

namespace Expr

def nodes : Expr → List Expr
  | e@(.const ..) | e@(.var ..) | e@.absent => [e]
  | e@(.diff _ left right) => e :: (left.nodes ++ right.nodes)
  | e@(.zeroTest _ operand) => e :: operand.nodes
  | e@(.ifThenElse _ test yes no) => e :: (test.nodes ++ (yes.nodes ++ no.nodes))
  | e@(.letIn _ _ value body) => e :: (value.nodes ++ body.nodes)
  | e@(.letRec _ _ _ procBody body) => e :: (procBody.nodes ++ body.nodes)
  | e@(.proc _ _ body) => e :: body.nodes
  | e@(.call _ operator operand) => e :: (operator.nodes ++ operand.nodes)

/-- Positions that hold the same node hold the same tree. -/
def Coherent (e : Expr) : Prop := ∀ a ∈ e.nodes, ∀ b ∈ e.nodes, a.id? = b.id? → a = b

theorem nodes_subset {e a : Expr} (h : a ∈ e.children) : a.nodes ⊆ e.nodes := by
  cases e <;> grind [children, nodes]

theorem Coherent.child {e a : Expr} (he : e.Coherent) (h : a ∈ e.children) : a.Coherent :=
  fun m hm n hn => he m (nodes_subset h hm) n (nodes_subset h hn)

instance (e : Expr) : Decidable e.Coherent := inferInstanceAs (Decidable (∀ a ∈ _, ∀ b ∈ _, _))

/-- Nothing is missing, no name is empty, and every variable is bound around it or among `names`. -/
def Scoped (names : List String) : Expr → Prop
  | .const .. => True
  | .var _ x => x ≠ "" ∧ x ∈ names
  | .diff _ left right => left.Scoped names ∧ right.Scoped names
  | .zeroTest _ operand => operand.Scoped names
  | .ifThenElse _ test yes no => test.Scoped names ∧ yes.Scoped names ∧ no.Scoped names
  | .letIn _ x value body => x ≠ "" ∧ value.Scoped names ∧ body.Scoped (x :: names)
  | .letRec _ f x procBody body =>
    f ≠ "" ∧ x ≠ "" ∧ procBody.Scoped (x :: f :: names) ∧ body.Scoped (f :: names)
  | .proc _ x body => x ≠ "" ∧ body.Scoped (x :: names)
  | .call _ operator operand => operator.Scoped names ∧ operand.Scoped names
  | .absent => False

end Expr

namespace Scope

def nameProblems (name role : String) (place : Span) : List Diagnostic :=
  if name = "" then
    [{ code := .ast, message := role ++ " must not be empty", span := place.known? }]
  else []

def problems (parent : Option Expr) (names : List String) : Expr → List Diagnostic
  | .const .. => []
  | .var o x =>
    nameProblems x "variable name" o.span ++
    if x ≠ "" && x ∉ names then
      [{ code := .unbound, message := "unbound variable '" ++ x ++ "'", span := o.span.known?,
         hint := hint ⟨0, names⟩ }]
    else []
  | e@(.diff _ left right) => problems (some e) names left ++ problems (some e) names right
  | e@(.zeroTest _ operand) => problems (some e) names operand
  | e@(.ifThenElse _ test yes no) =>
    problems (some e) names test ++ (problems (some e) names yes ++ problems (some e) names no)
  | e@(.letIn o x value body) =>
    nameProblems x "let name" o.span ++
      (problems (some e) names value ++ problems (some e) (x :: names) body)
  | e@(.letRec o f x procBody body) =>
    nameProblems f "letrec name" o.span ++ (nameProblems x "letrec param" o.span ++
      (problems (some e) (x :: f :: names) procBody ++ problems (some e) (f :: names) body))
  | e@(.proc o x body) => nameProblems x "proc param" o.span ++ problems (some e) (x :: names) body
  | e@(.call _ operator operand) =>
    problems (some e) names operator ++ problems (some e) names operand
  | .absent =>
    match parent with
    | none => [{ code := .ast, message := "missing expression", span := Span.known? .zero }]
    | some p =>
      [{ code := .ast, message := "missing sub-expression in " ++ p.kind, span := p.span.known? }]

theorem nameProblems_eq_nil : nameProblems name role place = [] ↔ name ≠ "" := by
  unfold nameProblems
  split <;> simp_all

theorem problems_eq_nil {names : List String} : problems parent names e = [] ↔ e.Scoped names := by
  induction e generalizing parent names with
  | const => simp [problems, Expr.Scoped]
  | var o x => by_cases h : x = "" <;> simp [problems, Expr.Scoped, nameProblems_eq_nil, h]
  | absent => cases parent <;> simp [problems, Expr.Scoped]
  | _ => simp_all [problems, Expr.Scoped, nameProblems_eq_nil]

instance (names : List String) (e : Expr) : Decidable (e.Scoped names) :=
  decidable_of_iff (problems none names e = []) problems_eq_nil

-- ---------------------------------------------------------------------------
-- Leaving out what has been reported
-- ---------------------------------------------------------------------------

/-- `new` is `full` without some of the items that stand in `pre` or earlier in `new`. -/
inductive Thinned : (pre new full : List α) → Prop
  | nil : Thinned pre [] []
  | keep (h : Thinned (pre ++ [d]) new full) : Thinned pre (d :: new) (d :: full)
  | drop (hd : d ∈ pre) (h : Thinned pre new full) : Thinned pre new (d :: full)

namespace Thinned

theorem none (h : full ⊆ pre) : Thinned pre [] full := by
  induction full with
  | nil => exact .nil
  | cons d full ih =>
    rw [List.cons_subset] at h
    exact .drop h.1 (ih h.2)

theorem all : Thinned pre full full := by
  induction full generalizing pre with
  | nil => exact .nil
  | cons d full ih => exact .keep ih

theorem append (h : Thinned pre new full) (h' : Thinned (pre ++ new) new' full') :
    Thinned pre (new ++ new') (full ++ full') := by
  induction h with
  | nil => simpa using h'
  | keep _ ih => exact .keep (ih (by simpa using h'))
  | drop hd _ ih => exact .drop hd (ih h')

theorem subset (h : Thinned pre new full) : full ⊆ pre ++ new := by
  induction h with
  | nil => simp
  | keep _ ih => exact List.cons_subset.mpr ⟨by simp, by simpa using ih⟩
  | drop hd _ ih => exact List.cons_subset.mpr ⟨List.mem_append_left _ hd, ih⟩

theorem sublist (h : Thinned pre new full) : new.Sublist full := by
  induction h with
  | nil => exact .slnil
  | keep _ ih => exact ih.cons_cons _
  | drop _ _ ih => exact ih.cons _

end Thinned

-- ---------------------------------------------------------------------------
-- Steps of the check
-- ---------------------------------------------------------------------------

/-- The nodes of the tree at which the same names are visible as at its root. -/
def level : Expr → List Expr
  | .absent => []
  | e@(.const ..) | e@(.var ..) | e@(.letRec ..) | e@(.proc ..) => [e]
  | e@(.diff _ left right) => e :: (level left ++ level right)
  | e@(.zeroTest _ operand) => e :: level operand
  | e@(.ifThenElse _ test yes no) => e :: (level test ++ (level yes ++ level no))
  | e@(.letIn _ _ value _) => e :: level value
  | e@(.call _ operator operand) => e :: (level operator ++ level operand)

theorem level_subset_nodes : level e ⊆ e.nodes := by
  induction e with
  | _ => grind [level, Expr.nodes]

theorem level_same {e a b : Expr} (he : e.Coherent) (ha : a ∈ e.children) (hb : b ∈ e.children) :
    ∀ n ∈ level a, ∀ n' ∈ level b, n.id? = n'.id? → n = n' := fun n hn n' hn' =>
  he n (Expr.nodes_subset ha (level_subset_nodes hn)) n'
    (Expr.nodes_subset hb (level_subset_nodes hn'))

theorem sizeOf_le_of_mem_level (h : n ∈ level e) : sizeOf n ≤ sizeOf e := by
  induction e with
  | _ => grind [level]

theorem sizeOf_lt_of_mem_level (hns : level e = e :: ns) (hn : n ∈ ns) : sizeOf n < sizeOf e := by
  cases e with
  | _ => grind [level, → sizeOf_le_of_mem_level]

theorem problems_parent {names : List String} (h : e.id? = some i) :
    problems parent names e = problems none names e := by
  cases e with
  | absent => cases h
  | _ => rfl

theorem problems_level {names : List String} (h : n ∈ level e) :
    problems none names n ⊆ problems parent names e := by
  induction e generalizing parent with
  | _ => grind [level, problems, problems_parent]

def Check.visit (c : Check) (key : NodeId × Nat) : Check := { c with seen := c.seen.insert key }

def after (m : CheckM α) (c : Check) : Check := (m.run c).2

theorem after_of_seen {s : Scope} {c : Check} (hi : e.id? = some i) (h : (i, s.id) ∈ c.seen) :
    after (do if !(← isNew e s) then pure () else m) c = c.visit (i, s.id) := by
  simp [after, isNew, hi, h, Check.visit]
  rfl

theorem after_of_new {s : Scope} {c : Check} (hi : e.id? = some i) (h : (i, s.id) ∉ c.seen) :
    after (do if !(← isNew e s) then pure () else m) c = after m (c.visit (i, s.id)) := by
  simp [after, isNew, hi, h, Check.visit]

/-- From `c` to `c'` the problems `full` were found. Nodes were seen in new scopes, and in the scope
`k` those of `ns`. -/
structure Progress (k : Nat) (ns : List Expr) (full : List Diagnostic) (c c' : Check) : Prop where
  diagnostics : ∃ new, c'.diagnostics.toList = c.diagnostics.toList ++ new ∧
    Thinned c.diagnostics.toList new full
  next : c.next ≤ c'.next
  seen : ∀ key ∈ c'.seen, key ∈ c.seen ∨ c.next ≤ key.2 ∧ key.2 < c'.next ∨
    key.2 = k ∧ ∃ n ∈ ns, n.id? = some key.1

namespace Progress

theorem refl : Progress k [] [] c c where
  diagnostics := ⟨[], by simp, .nil⟩
  next := Nat.le_refl _
  seen _ h := .inl h

theorem push : Progress k [] [d] c { c with diagnostics := c.diagnostics.push d } where
  diagnostics := ⟨[d], by simp, .all⟩
  next := Nat.le_refl _
  seen _ h := .inl h

theorem visit (hi : e.id? = some i) (hfull : full ⊆ c.diagnostics.toList) :
    Progress k [e] full c (c.visit (i, k)) where
  diagnostics := ⟨[], by simp [Check.visit], .none hfull⟩
  next := Nat.le_refl _
  seen key hkey := by
    rcases Std.HashSet.mem_insert.mp hkey with heq | hkey
    · obtain rfl := eq_of_beq heq
      exact .inr (.inr ⟨rfl, e, .head _, hi⟩)
    · exact .inl hkey

theorem mono (h : Progress k ns full c c') (hsub : ns ⊆ ns') : Progress k ns' full c c' :=
  { h with
    seen := fun key hkey => by
      rcases h.seen key hkey with hkey | hkey | ⟨hid, n, hn, hkey⟩
      · exact .inl hkey
      · exact .inr (.inl hkey)
      · exact .inr (.inr ⟨hid, n, hsub hn, hkey⟩) }

theorem trans (h : Progress k ns full c c') (h' : Progress k ns' full' c' c'') :
    Progress k (ns ++ ns') (full ++ full') c c'' where
  diagnostics := by
    obtain ⟨new, heq, hthin⟩ := h.diagnostics
    obtain ⟨new', heq', hthin'⟩ := h'.diagnostics
    rw [heq] at heq' hthin'
    exact ⟨new ++ new', by rw [heq', List.append_assoc], hthin.append hthin'⟩
  next := Nat.le_trans h.next h'.next
  seen key hkey := by
    have hnext := h.next
    have hnext' := h'.next
    rcases h'.seen key hkey with hkey | hkey | ⟨hid, n, hn, hkey⟩
    · rcases h.seen key hkey with hkey | hkey | ⟨hid, n, hn, hkey⟩
      · exact .inl hkey
      · exact .inr (.inl (by omega))
      · exact .inr (.inr ⟨hid, n, List.mem_append_left _ hn, hkey⟩)
    · exact .inr (.inl (by omega))
    · exact .inr (.inr ⟨hid, n, List.mem_append_right _ hn, hkey⟩)

theorem entered (h : Progress c.next ns full { c with next := c.next + 1 } c') :
    Progress k [] full c c' where
  diagnostics := h.diagnostics
  next := Nat.le_of_succ_le h.next
  seen key hkey := by
    have hnext : c.next + 1 ≤ c'.next := h.next
    rcases h.seen key hkey with hkey | ⟨hle, hlt⟩ | ⟨hid, _⟩
    · exact .inl hkey
    · exact .inr (.inl ⟨Nat.le_of_succ_le hle, hlt⟩)
    · exact .inr (.inl (by omega))

end Progress

structure Ready (s : Scope) (ns : List Expr) (c : Check) : Prop where
  scope : s.id < c.next
  seen : ∀ key ∈ c.seen, key.2 < c.next
  reported : ∀ n ∈ ns, ∀ i, n.id? = some i → (i, s.id) ∈ c.seen →
    problems none s.names n ⊆ c.diagnostics.toList

namespace Ready

theorem mono (h : Ready s ns c) (hsub : ns' ⊆ ns) : Ready s ns' c :=
  { h with reported := fun n hn => h.reported n (hsub hn) }

theorem progress (h : Ready s ns' c) (hp : Progress s.id ns full c c')
    (hsame : ∀ n ∈ ns, ∀ n' ∈ ns', n.id? = n'.id? → n = n')
    (hfull : ∀ n ∈ ns, problems none s.names n ⊆ full) : Ready s ns' c' where
  scope := Nat.lt_of_lt_of_le h.scope hp.next
  seen key hkey := by
    have hnext := hp.next
    have hscope := h.scope
    rcases hp.seen key hkey with hkey | ⟨_, hlt⟩ | ⟨hid, _⟩
    · have := h.seen key hkey
      omega
    · exact hlt
    · omega
  reported n' hn' i hi hkey := by
    obtain ⟨new, heq, hthin⟩ := hp.diagnostics
    rw [heq]
    rcases hp.seen _ hkey with hkey | ⟨hle, _⟩ | ⟨_, n, hn, hni⟩
    · exact List.subset_append_of_subset_left _ (h.reported n' hn' i hi hkey)
    · exact absurd h.scope (Nat.not_lt.mpr hle)
    · -- The same node has just been looked at in this scope, and its problems are among those
      -- found.
      obtain rfl := hsame n hn n' hn' (hni.trans hi.symm)
      exact List.Subset.trans (hfull n hn) hthin.subset

theorem visit (h : Ready s ns c) (hi : e.id? = some i) (hsame : ∀ n ∈ ns, n.id? = e.id? → n = e)
    (hsmall : ∀ n ∈ ns, sizeOf n < sizeOf e) : Ready s ns (c.visit (i, s.id)) where
  scope := h.scope
  seen key hkey := by
    rcases Std.HashSet.mem_insert.mp hkey with heq | hkey
    · rw [← eq_of_beq heq]
      exact h.scope
    · exact h.seen key hkey
  reported n hn j hj hkey := by
    rcases Std.HashSet.mem_insert.mp hkey with heq | hkey
    · -- A node does not stand below itself.
      obtain ⟨rfl, _⟩ := Prod.mk.inj (eq_of_beq heq)
      obtain rfl := hsame n hn (hj.trans hi.symm)
      exact absurd (hsmall n hn) (Nat.lt_irrefl _)
    · exact h.reported n hn j hj hkey

end Ready

/-- From where the check may look at the nodes `ns`, the action finds the problems `full`. -/
def Reports (s : Scope) (ns : List Expr) (full : List Diagnostic) (m : CheckM Unit) : Prop :=
  ∀ c, Ready s ns c → Progress s.id ns full c (after m c)

namespace Reports

theorem skip : Reports s [] [] (pure ()) := fun _ _ => .refl

theorem report : Reports s [] [⟨code, message, place.known?, advice⟩]
    (report code message place advice) :=
  fun _ _ => .push

theorem checkName : Reports s [] (nameProblems name role place) (checkName name role place) := by
  unfold Scope.checkName nameProblems
  split
  · exact report
  · exact skip

theorem seq (h : Reports s ns full m) (h' : Reports s ns' full' m')
    (hsame : ∀ n ∈ ns, ∀ n' ∈ ns', n.id? = n'.id? → n = n')
    (hfull : ∀ n ∈ ns, problems none s.names n ⊆ full) :
    Reports s (ns ++ ns') (full ++ full') (do m; m') := by
  intro c hready
  have hp := h c (hready.mono (List.subset_append_left _ _))
  exact hp.trans (h' _ ((hready.mono (List.subset_append_right _ _)).progress hp hsame hfull))

theorem enter {m : Scope → CheckM Unit}
    (h : ∀ k, Reports ⟨k, x :: s.names⟩ ns full (m ⟨k, x :: s.names⟩)) :
    Reports s [] full (do m (← s.enter x)) := by
  intro c hready
  refine .entered (h c.next { c with next := c.next + 1 } ⟨Nat.lt_succ_self _, ?_, ?_⟩)
  · exact fun key hkey => Nat.lt_succ_of_lt (hready.seen key hkey)
  · exact fun _ _ _ _ hkey => absurd (hready.seen _ hkey) (Nat.lt_irrefl _)

theorem node (he : e.Coherent) (hi : e.id? = some i) (hns : level e = e :: ns)
    (h : Reports s ns (problems parent s.names e) m) :
    Reports s (level e) (problems parent s.names e) (do if !(← isNew e s) then pure () else m) := by
  intro c hready
  by_cases hseen : (i, s.id) ∈ c.seen
  · -- It is passed over, and what is left out has been reported.
    have hfull := hready.reported e (hns ▸ .head _) i hi hseen
    rw [after_of_seen hi hseen, problems_parent hi, hns]
    exact (Progress.visit hi hfull).mono (by simp)
  · rw [after_of_new hi hseen, hns]
    have hsub : ns ⊆ level e := hns ▸ List.subset_cons_self _ _
    refine (Progress.visit hi (List.nil_subset _)).trans (h _ ((hready.mono hsub).visit hi ?_ ?_))
    · exact fun n hn => he n (level_subset_nodes (hsub hn)) e (level_subset_nodes (hns ▸ .head _))
    · exact fun n => sizeOf_lt_of_mem_level hns

theorem check (h : Reports s (level e) (problems parent s.names e) m) (h' : Reports s ns full m')
    (hsame : ∀ n ∈ level e, ∀ n' ∈ ns, n.id? = n'.id? → n = n') :
    Reports s (level e ++ ns) (problems parent s.names e ++ full) (do m; m') :=
  h.seq h' hsame fun _ => problems_level

end Reports

theorem check_reports (he : e.Coherent) :
    Reports s (level e) (problems parent s.names e) (check parent s e) := by
  induction e generalizing parent s with
  | const => exact .node he rfl rfl .skip
  | var o x =>
    refine .node he rfl rfl (.seq .checkName ?_ nofun nofun)
    split
    · exact .report
    · exact .skip
  | diff o left right ihl ihr =>
    have hl : left ∈ (Expr.diff o left right).children := .head _
    have hr : right ∈ (Expr.diff o left right).children := .tail _ (.head _)
    exact .node he rfl rfl (.check (ihl (he.child hl)) (ihr (he.child hr)) (level_same he hl hr))
  | zeroTest o operand ih => exact .node he rfl rfl (ih (he.child (.head _)))
  | ifThenElse o test yes no iht ihy ihn =>
    have ht : test ∈ (Expr.ifThenElse o test yes no).children := .head _
    have hy : yes ∈ (Expr.ifThenElse o test yes no).children := .tail _ (.head _)
    have hn : no ∈ (Expr.ifThenElse o test yes no).children := .tail _ (.tail _ (.head _))
    refine .node he rfl rfl (.check (iht (he.child ht)) ?_ ?_)
    · exact .check (ihy (he.child hy)) (ihn (he.child hn)) (level_same he hy hn)
    · intro a ha b hb
      rcases List.mem_append.mp hb with hb | hb
      · exact level_same he ht hy a ha b hb
      · exact level_same he ht hn a ha b hb
  | letIn o x value body ihv ihb =>
    have hlevel : level (.letIn o x value body) =
      .letIn o x value body :: ([] ++ (level value ++ [])) := by
      simp [level]
    refine .node he rfl hlevel
      (.seq .checkName (.check (ihv (he.child (.head _))) ?_ ?_) nofun nofun)
    · exact .enter fun k => ihb (he.child (.tail _ (.head _)))
    · exact fun _ _ => nofun
  | letRec o f x procBody body ihp ihb =>
    have hproc (k : Nat) : Reports ⟨k, f :: s.names⟩ [] (problems _ (x :: f :: s.names) procBody)
        (do check (some (.letRec o f x procBody body)) (← enter ⟨k, f :: s.names⟩ x) procBody) :=
      .enter fun k' => ihp (he.child (.head _))
    have hbody (k : Nat) : Reports ⟨k, f :: s.names⟩ (level body) (problems _ (f :: s.names) body)
        (check (some (.letRec o f x procBody body)) ⟨k, f :: s.names⟩ body) :=
      ihb (he.child (.tail _ (.head _)))
    refine .node he rfl rfl (.seq .checkName (.seq .checkName ?_ nofun nofun) nofun nofun)
    exact .enter fun k => (hproc k).seq (hbody k) nofun nofun
  | proc o x body ihb =>
    exact .node he rfl rfl (.seq .checkName (.enter fun k => ihb (he.child (.head _))) nofun nofun)
  | call o operator operand ihp ihe =>
    have hp : operator ∈ (Expr.call o operator operand).children := .head _
    have hd : operand ∈ (Expr.call o operator operand).children := .tail _ (.head _)
    exact .node he rfl rfl (.check (ihp (he.child hp)) (ihe (he.child hd)) (level_same he hp hd))
  | absent =>
    cases parent with
    | none => exact .report
    | some p => exact .report

end Scope

/-- The diagnostics of the check are the problems of the tree, some of those that come up again
left out. -/
theorem scopeErrors_thinned {e : Expr} (he : e.Coherent) (known : List String) :
    Scope.Thinned [] (e.scopeErrors known) (Scope.problems none known e) := by
  have hready : Scope.Ready ⟨0, known⟩ (Scope.level e) {} := ⟨Nat.one_pos, by simp, by simp⟩
  obtain ⟨new, heq, hthin⟩ := (Scope.check_reports he _ hready).diagnostics
  have hnew : e.scopeErrors known = new := heq
  rw [hnew]
  exact hthin

theorem scopeErrors_eq_nil {e : Expr} (he : e.Coherent) :
    e.scopeErrors known = [] ↔ e.Scoped known := by
  rw [← Scope.problems_eq_nil]
  have hthin := scopeErrors_thinned he known
  constructor
  · intro hnil
    have hsub := hthin.subset
    rw [hnil] at hsub
    exact List.subset_nil.mp hsub
  · intro hnil
    have hsub := hthin.sublist
    rw [hnil] at hsub
    exact List.sublist_nil.mp hsub

end Letrec
