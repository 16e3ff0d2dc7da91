import Letrec.Proofs.Scope.Exact

/-!
# Shared nodes and their copies

A tree may hold the same node in several positions. The check looks at such a node once in each
scope, and a copy of the tree in which every position has a node of its own is looked at everywhere.
Both find the same problems: in a copy nothing is left out (`scopeErrors_apart`), and what is left
out where nodes are shared has been reported before.
-/

namespace Letrec

def Origin.nameless (o : Origin) : Origin := ⟨default, o.span⟩

def Origin.numbered (o : Origin) (n : Nat) : Origin := ⟨⟨0, n⟩, o.span⟩

namespace Expr

def nameless : Expr → Expr
  | .const o value => .const o.nameless value
  | .var o name => .var o.nameless name
  | .diff o left right => .diff o.nameless left.nameless right.nameless
  | .zeroTest o operand => .zeroTest o.nameless operand.nameless
  | .ifThenElse o test yes no => .ifThenElse o.nameless test.nameless yes.nameless no.nameless
  | .letIn o name value body => .letIn o.nameless name value.nameless body.nameless
  | .letRec o name param procBody body =>
    .letRec o.nameless name param procBody.nameless body.nameless
  | .proc o param body => .proc o.nameless param body.nameless
  | .call o operator operand => .call o.nameless operator.nameless operand.nameless
  | .absent => .absent

def ids : Expr → List NodeId
  | .const o _ | .var o _ => [o.id]
  | .diff o left right => o.id :: (left.ids ++ right.ids)
  | .zeroTest o operand => o.id :: operand.ids
  | .ifThenElse o test yes no => o.id :: (test.ids ++ (yes.ids ++ no.ids))
  | .letIn o _ value body => o.id :: (value.ids ++ body.ids)
  | .letRec o _ _ procBody body => o.id :: (procBody.ids ++ body.ids)
  | .proc o _ body => o.id :: body.ids
  | .call o operator operand => o.id :: (operator.ids ++ operand.ids)
  | .absent => []

/-- The tree `u` is `e` with a node of its own in every position, each in the same place as
before. -/
structure CopiedTo (e u : Expr) : Prop where
  same : u.nameless = e.nameless
  apart : u.ids.Nodup

def numbered (n : Nat) : Expr → Expr
  | .const o value => .const (o.numbered n) value
  | .var o name => .var (o.numbered n) name
  | .diff o left right =>
    .diff (o.numbered n) (left.numbered (n + 1)) (right.numbered (n + 1 + left.ids.length))
  | .zeroTest o operand => .zeroTest (o.numbered n) (operand.numbered (n + 1))
  | .ifThenElse o test yes no =>
    .ifThenElse (o.numbered n) (test.numbered (n + 1)) (yes.numbered (n + 1 + test.ids.length))
      (no.numbered (n + 1 + test.ids.length + yes.ids.length))
  | .letIn o name value body =>
    .letIn (o.numbered n) name (value.numbered (n + 1)) (body.numbered (n + 1 + value.ids.length))
  | .letRec o name param procBody body =>
    .letRec (o.numbered n) name param (procBody.numbered (n + 1))
      (body.numbered (n + 1 + procBody.ids.length))
  | .proc o param body => .proc (o.numbered n) param (body.numbered (n + 1))
  | .call o operator operand =>
    .call (o.numbered n) (operator.numbered (n + 1))
      (operand.numbered (n + 1 + operator.ids.length))
  | .absent => .absent

def idsFrom (n count : Nat) : List NodeId := (List.range' n count).map (NodeId.mk 0)

theorem idsFrom_cons : ⟨0, n⟩ :: idsFrom (n + 1) count = idsFrom n (count + 1) := by
  simp [idsFrom, List.range'_succ]

theorem idsFrom_append :
    idsFrom n count ++ idsFrom (n + count) count' = idsFrom n (count + count') := by
  rw [idsFrom, idsFrom, idsFrom, ← List.map_append, List.range'_append_1]

theorem nameless_numbered (e : Expr) (n : Nat) : (e.numbered n).nameless = e.nameless := by
  induction e generalizing n with
  | _ => simp_all [numbered, nameless, Origin.nameless, Origin.numbered]

theorem ids_numbered (e : Expr) (n : Nat) : (e.numbered n).ids = idsFrom n e.ids.length := by
  induction e generalizing n with
  | const | var | absent => rfl
  | _ =>
    simp_all only [numbered, ids, Origin.numbered, List.length_cons, List.length_append,
      idsFrom_append, idsFrom_cons]

theorem exists_copiedTo (e : Expr) : ∃ u, e.CopiedTo u := by
  refine ⟨e.numbered 0, e.nameless_numbered 0, ?_⟩
  rw [ids_numbered]
  exact List.Pairwise.map _ (fun a b hne h => hne (NodeId.mk.inj h).2) List.nodup_range'

@[simp] theorem kind_nameless (e : Expr) : e.nameless.kind = e.kind := by
  cases e <;> rfl

@[simp] theorem span_nameless (e : Expr) : e.nameless.span = e.span := by
  cases e <;> rfl

end Expr

namespace Scope

theorem problems_nameless (parent : Option Expr) (names : List String) (e : Expr) :
    problems (parent.map Expr.nameless) names e.nameless = problems parent names e := by
  induction e generalizing parent names with
  | const | var => rfl
  | absent =>
    cases parent with
    | none => rfl
    | some p => simp [Expr.nameless, problems]
  | diff o left right ihl ihr =>
    rw [problems, ← ihl, ← ihr]
    rfl
  | call o operator operand ihp ihe =>
    rw [problems, ← ihp, ← ihe]
    rfl
  | zeroTest o operand ih =>
    rw [problems, ← ih]
    rfl
  | ifThenElse o test yes no iht ihy ihn =>
    rw [problems, ← iht, ← ihy, ← ihn]
    rfl
  | letIn o x value body ihv ihb =>
    rw [problems, ← ihv, ← ihb]
    rfl
  | letRec o f x procBody body ihp ihb =>
    rw [problems, ← ihp, ← ihb]
    rfl
  | proc o x body ih =>
    rw [problems, ← ih]
    rfl

-- ---------------------------------------------------------------------------
-- Trees without shared nodes
-- ---------------------------------------------------------------------------

/-- The action finds the problems `full` and looks at the nodes `ids`, if none of these has
been seen. -/
def Finds (ids : List NodeId) (full : List Diagnostic) (m : CheckM Unit) : Prop :=
  ∀ c : Check, (∀ key ∈ c.seen, key.1 ∉ ids) →
    (after m c).diagnostics.toList = c.diagnostics.toList ++ full ∧
      ∀ key ∈ (after m c).seen, key ∈ c.seen ∨ key.1 ∈ ids

namespace Finds

theorem skip : Finds [] [] (pure ()) :=
  fun _ _ => ⟨(List.append_nil _).symm, fun _ hkey => .inl hkey⟩

theorem report : Finds [] [⟨code, message, place.known?, advice⟩]
    (Scope.report code message place advice) :=
  fun _ _ => ⟨by simp [after, Scope.report, pure], fun _ hkey => .inl hkey⟩

theorem seq {ids ids' : List NodeId} (h : Finds ids full m) (h' : Finds ids' full' m')
    (hdisjoint : ∀ i ∈ ids, i ∉ ids') : Finds (ids ++ ids') (full ++ full') (do m; m') := by
  intro c hnew
  obtain ⟨hfull, hseen⟩ := h c fun key hkey hi => hnew key hkey (List.mem_append_left _ hi)
  have hnew' : ∀ key ∈ (after m c).seen, key.1 ∉ ids' := by
    intro key hkey hi
    rcases hseen key hkey with hkey | hkey
    · exact hnew key hkey (List.mem_append_right _ hi)
    · exact hdisjoint _ hkey hi
  obtain ⟨hfull', hseen'⟩ := h' _ hnew'
  have hafter : after (do m; m') c = after m' (after m c) := rfl
  rw [hafter, hfull', hfull, List.append_assoc]
  refine ⟨rfl, fun key hkey => ?_⟩
  rcases hseen' key hkey with hkey | hkey
  · exact (hseen key hkey).imp_right (List.mem_append_left _)
  · exact .inr (List.mem_append_right _ hkey)

theorem named (h : Finds ids full m) :
    Finds ids (nameProblems x role place ++ full) (do checkName x role place; m) := by
  have hname : Finds [] (nameProblems x role place) (checkName x role place) := by
    unfold checkName nameProblems
    split
    · exact report
    · exact skip
  exact hname.seq h nofun

theorem enter {m : Scope → CheckM Unit} (h : ∀ k, Finds ids full (m ⟨k, x :: s.names⟩)) :
    Finds ids full (do m (← Scope.enter s x)) :=
      fun c hnew => h c.next { c with next := c.next + 1 } hnew

theorem node (hi : e.id? = some i) (hnot : i ∉ ids) (h : Finds ids full m) :
    Finds (i :: ids) full (do if !(← isNew e s) then pure () else m) := by
  intro c hnew
  have hseen : (i, s.id) ∉ c.seen := fun hkey => hnew _ hkey (.head _)
  have hvisit : ∀ key ∈ (c.visit (i, s.id)).seen, key = (i, s.id) ∨ key ∈ c.seen := by
    intro key hkey
    exact (Std.HashSet.mem_insert.mp hkey).imp_left fun heq => (eq_of_beq heq).symm
  have hnew' : ∀ key ∈ (c.visit (i, s.id)).seen, key.1 ∉ ids := by
    intro key hkey hmem
    rcases hvisit key hkey with rfl | hkey
    · exact hnot hmem
    · exact hnew key hkey (.tail _ hmem)
  obtain ⟨hfull, hmore⟩ := h _ hnew'
  rw [after_of_new hi hseen]
  refine ⟨hfull, fun key hkey => ?_⟩
  rcases hmore key hkey with hkey | hkey
  · rcases hvisit key hkey with rfl | hkey
    · exact .inr (.head _)
    · exact .inl hkey
  · exact .inr (.tail _ hkey)

end Finds

theorem check_finds (h : e.ids.Nodup) :
    Finds e.ids (problems parent s.names e) (check parent s e) := by
  induction e generalizing parent s with
  | const => exact .node rfl (by simp) .skip
  | var o x =>
    refine .node rfl (by simp) (.named ?_)
    split
    · exact .report
    · exact .skip
  | diff o left right ihl ihr =>
    obtain ⟨hnot, hparts⟩ := List.nodup_cons.mp h
    obtain ⟨hl, hr, hdisjoint⟩ := List.nodup_append.mp hparts
    exact .node rfl hnot (.seq (ihl hl) (ihr hr) fun i hi hi' => hdisjoint i hi i hi' rfl)
  | zeroTest o operand ih =>
    obtain ⟨hnot, hpart⟩ := List.nodup_cons.mp h
    exact .node rfl hnot (ih hpart)
  | ifThenElse o test yes no iht ihy ihn =>
    obtain ⟨hnot, hparts⟩ := List.nodup_cons.mp h
    obtain ⟨ht, hbranches, hdisjoint⟩ := List.nodup_append.mp hparts
    obtain ⟨hy, hn, hdisjoint'⟩ := List.nodup_append.mp hbranches
    refine .node rfl hnot (.seq (iht ht) (.seq (ihy hy) (ihn hn) ?_) ?_)
    · exact fun i hi hi' => hdisjoint' i hi i hi' rfl
    · exact fun i hi hi' => hdisjoint i hi i hi' rfl
  | letIn o x value body ihv ihb =>
    obtain ⟨hnot, hparts⟩ := List.nodup_cons.mp h
    obtain ⟨hv, hb, hdisjoint⟩ := List.nodup_append.mp hparts
    refine .node rfl hnot (.named (.seq (ihv hv) (.enter fun k => ihb hb) ?_))
    exact fun i hi hi' => hdisjoint i hi i hi' rfl
  | letRec o f x procBody body ihp ihb =>
    obtain ⟨hnot, hparts⟩ := List.nodup_cons.mp h
    obtain ⟨hp, hb, hdisjoint⟩ := List.nodup_append.mp hparts
    have hproc (k : Nat) : Finds procBody.ids (problems _ (x :: f :: s.names) procBody)
        (do check (some (.letRec o f x procBody body)) (← enter ⟨k, f :: s.names⟩ x) procBody) :=
      .enter fun k' => ihp hp
    refine .node rfl hnot (.named (.named (.enter fun k => ?_)))
    exact (hproc k).seq (ihb hb) fun i hi hi' => hdisjoint i hi i hi' rfl
  | proc o x body ih =>
    obtain ⟨hnot, hpart⟩ := List.nodup_cons.mp h
    exact .node rfl hnot (.named (.enter fun k => ih hpart))
  | call o operator operand ihp ihe =>
    obtain ⟨hnot, hparts⟩ := List.nodup_cons.mp h
    obtain ⟨hp, he, hdisjoint⟩ := List.nodup_append.mp hparts
    exact .node rfl hnot (.seq (ihp hp) (ihe he) fun i hi hi' => hdisjoint i hi i hi' rfl)
  | absent =>
    cases parent with
    | none => exact .report
    | some p => exact .report

theorem Thinned.eraseDups {pre new full : List Diagnostic} (h : Thinned pre new full) :
    (pre ++ new).eraseDups = (pre ++ full).eraseDups := by
  induction h with
  | nil => rfl
  | keep _ ih => simpa using ih
  | @drop pre d new full hd _ ih =>
    have hgone : (d :: full).removeAll pre = full.removeAll pre := by simp [List.removeAll, hd]
    rw [ih, List.eraseDups_append, List.eraseDups_append, hgone]

end Scope

theorem scopeErrors_apart {u : Expr} (hu : u.ids.Nodup) (known : List String) :
    u.scopeErrors known = Scope.problems none known u := by
  have hfinds : Scope.Finds u.ids (Scope.problems none known u) (Scope.check none ⟨0, known⟩ u) :=
    Scope.check_finds hu
  exact (hfinds {} (by simp)).1

/-- The check of a tree reports what the check of a copy without shared nodes reports, and leaves
out nothing but repetitions. Such a copy there is of every tree. -/
theorem sharing_hides_nothing (e : Expr) (he : e.Coherent) (known : List String) :
    (∃ u, e.CopiedTo u) ∧ ∀ u, e.CopiedTo u →
      (e.scopeErrors known).Sublist (u.scopeErrors known) ∧
      (e.scopeErrors known).eraseDups = (u.scopeErrors known).eraseDups ∧
      (e.scopeErrors known = [] ↔ u.scopeErrors known = []) := by
  refine ⟨e.exists_copiedTo, fun u hu => ?_⟩
  have hthin := scopeErrors_thinned he known
  have hcopy : u.scopeErrors known = Scope.problems none known e := by
    calc u.scopeErrors known
        = Scope.problems none known u := scopeErrors_apart hu.apart known
      _ = Scope.problems none known u.nameless := (Scope.problems_nameless none known u).symm
      _ = Scope.problems none known e.nameless := by rw [hu.same]
      _ = Scope.problems none known e := Scope.problems_nameless none known e
  rw [hcopy]
  refine ⟨hthin.sublist, hthin.eraseDups, ?_⟩
  rw [scopeErrors_eq_nil he, Scope.problems_eq_nil]

/-- `let x = y in -(y, y)`, with the numbers of the nodes for `y`. -/
def letDiff (a b c : Nat) : Expr :=
  let node (index : Nat) : Origin := ⟨⟨1, index⟩, ⟨"p", 1, 1⟩⟩
  .letIn (node 0) "x" (.var (node a) "y") (.diff (node 1) (.var (node b) "y") (.var (node c) "y"))

/-- One node for `y` is looked at outside of the binding and inside of it, there once only. -/
theorem sharing_hides_nothing_variable :
    let unbound (names : String) : Diagnostic :=
      ⟨.unbound, "unbound variable 'y'", some ⟨"p", 1, 1⟩, "in scope: " ++ names⟩
    (letDiff 2 2 2).Coherent ∧ (letDiff 2 2 2).CopiedTo (letDiff 2 3 4) ∧
      (letDiff 2 2 2).scopeErrors ["a"] = [unbound "a", unbound "a, x"] ∧
      (letDiff 2 3 4).scopeErrors ["a"] = [unbound "a", unbound "a, x", unbound "a, x"] ∧
      ((letDiff 2 2 2).scopeErrors ["a"]).eraseDups =
        ((letDiff 2 3 4).scopeErrors ["a"]).eraseDups := by
  have he : (letDiff 2 2 2).Coherent := by decide
  have hu : (letDiff 2 2 2).CopiedTo (letDiff 2 3 4) := ⟨rfl, by decide⟩
  obtain ⟨_, hdups, _⟩ := (sharing_hides_nothing _ he ["a"]).2 _ hu
  have houter (k : Nat) : Scope.hint ⟨k, ["a"]⟩ = "in scope: a" := by
    rw [Scope.hint, Scope.listing_eq (List.pairwise_singleton _ _) fun _ => Iff.rfl]
    rfl
  have hinner (k : Nat) : Scope.hint ⟨k, ["x", "a"]⟩ = "in scope: a, x" := by
    rw [Scope.hint, Scope.listing_eq (by decide) fun _ => (List.Perm.swap "x" "a" []).mem_iff]
    rfl
  have hplace : Span.known? ⟨"p", 1, 1⟩ = some ⟨"p", 1, 1⟩ := rfl
  refine ⟨he, hu, ?_, ?_, hdups⟩
  · change (Id.run ((Scope.check none ⟨0, ["a"]⟩ (letDiff 2 2 2)).run {})).2.diagnostics.toList = _
    simp [letDiff, Scope.check, Scope.isNew, Scope.enter, Scope.report, Scope.checkName, Expr.id?,
      Expr.origin?, hplace, houter, hinner]
  · rw [scopeErrors_apart (by decide)]
    simp [letDiff, Scope.problems, Scope.nameProblems, hplace, houter, hinner]

end Letrec
