import Letrec.Proofs.Expr.Encode
import Mathlib.Data.List.Perm.Subperm

/-!
# Reading accepts the grammar

Reading a graph gives the expression that its root derives, or findings where the root derives
nothing. Nodes are read once and remembered, and a node that is met on the path to itself is
refused; the proof keeps for each action whether it is to succeed and with what, as long as nothing
was found wanting before.
-/

namespace Letrec.Expr

open Yaml (Graph)

variable {g : Graph} {tree : Nat} {file : String}

noncomputable def reading (g : Graph) (tree : Nat) (file : String) (i : Nat) : Expr :=
  Classical.epsilon (Derives g tree file i)

theorem Derives.reading_eq (h : Derives g tree file i e) : reading g tree file i = e :=
  unique (Classical.epsilon_spec ⟨e, h⟩) h

theorem derives_reading (h : ∃ e, Derives g tree file i e) :
    Derives g tree file i (reading g tree file i) :=
  Classical.epsilon_spec h

theorem Layer.derives (h : Layer g i form)
    (hsub : ∀ c ∈ form.children, ∃ e, Derives g tree file (g.follow c) e) :
    Derives g tree file i
      (form.build (Decode.originOf g tree file i) fun c => reading g tree file (g.follow c)) :=
  .node h fun c hc => derives_reading (hsub c hc)

theorem exists_derives (hform : formOf g i = .ok (form, findings)) :
    (∃ e, Derives g tree file i e) ↔
      findings = [] ∧ ∀ c ∈ form.children, ∃ e, Derives g tree file (g.follow c) e := by
  constructor
  · rintro ⟨e, hlayer, hsub⟩
    rw [formOf_of_layer hlayer] at hform
    cases hform
    exact ⟨rfl, fun c hc => ⟨_, hsub c hc⟩⟩
  · rintro ⟨rfl, hsub⟩
    exact ⟨_, (formOf_eq_ok.mp hform).derives hsub⟩

theorem reading_eq_build
    (hform : formOf g i = .ok (form, findings)) (h : ∃ e, Derives g tree file i e) :
    reading g tree file i =
      form.build (Decode.originOf g tree file i) fun c => reading g tree file (g.follow c) := by
  obtain ⟨rfl, hsub⟩ := (exists_derives hform).mp h
  exact ((formOf_eq_ok.mp hform).derives hsub).reading_eq

namespace Decode

/-- Nothing was found wanting so far, and what is remembered of a node is what it derives. -/
structure Clean (g : Graph) (tree : Nat) (file : String) (s : Decoding) : Prop where
  findings : s.findings = #[]
  done : ∀ i e, s.done[i]? = some e → Derives g tree file i e

/-- The action gives `a` if `ok`, and finds something wanting otherwise. Findings are never lost. -/
structure Decides (g : Graph) (tree : Nat) (file : String) (ok : Prop) (a : α) (m : Decode α) :
    Prop where
  keeps : ∀ s, s.findings ≠ #[] → (m.run s).2.findings ≠ #[]
  reads : ∀ s, Clean g tree file s → ok → (m.run s).1 = a ∧ Clean g tree file (m.run s).2
  refuses : ∀ s, Clean g tree file s → ¬ ok → (m.run s).2.findings ≠ #[]

namespace Decides

theorem congr (h : Decides g tree file ok a m) (hok : ok ↔ ok') (ha : ok → a = a') :
    Decides g tree file ok' a' m where
  keeps := h.keeps
  reads s hs hok' := by
    obtain ⟨heq, hs'⟩ := h.reads s hs (hok.mpr hok')
    exact ⟨heq.trans (ha (hok.mpr hok')), hs'⟩
  refuses s hs hok' := h.refuses s hs fun h => hok' (hok.mp h)

protected theorem pure : Decides g tree file True a (pure a) where
  keeps _ h := h
  reads _ hs _ := ⟨rfl, hs⟩
  refuses _ _ h := absurd trivial h

protected theorem bind {m : Decode α} {f : α → Decode β} {b : α → β}
    (hm : Decides g tree file ok a m) (hf : ∀ x, Decides g tree file ok' (b x) (f x)) :
    Decides g tree file (ok ∧ ok') (b a) (m >>= f) where
  keeps s h := (hf _).keeps _ (hm.keeps s h)
  reads s hs h := by
    obtain ⟨heq, hs'⟩ := hm.reads s hs h.1
    rw [← heq]
    exact (hf _).reads _ hs' h.2
  refuses s hs h := by
    by_cases hok : ok
    · exact (hf _).refuses _ (hm.reads s hs hok).2 fun hok' => h ⟨hok, hok'⟩
    · exact (hf _).keeps _ (hm.refuses s hs hok)

theorem both {m : Decode α} {m' : Decode β} (hm : Decides g tree file ok a m)
    (hm' : Decides g tree file ok' b m') (f : α → β → γ) :
    Decides g tree file (ok ∧ ok') (f a b) do return f (← m) (← m') :=
  (hm.bind fun _ => hm'.bind fun _ => .pure).congr (by simp) fun _ => rfl

theorem report (fs : List Finding) : Decides g tree file (fs = []) () (report fs) where
  keeps s h := by simp [Decode.report, pure, h]
  reads s hs h := ⟨rfl, by simpa [Decode.report, pure, h] using hs⟩
  refuses s hs h := by simp [Decode.report, pure, h]

theorem refuse (hfs : fs ≠ []) (hok : ¬ ok) :
    Decides g tree file ok a do Decode.report fs; return b :=
  ((report fs).bind fun _ => .pure).congr (by simp [hfs, hok]) (by simp [hfs])

theorem remember (h : Decides g tree file (∃ e, Derives g tree file i e)
    (reading g tree file i) m) :
    Decides g tree file (∃ e, Derives g tree file i e) (reading g tree file i) do
      let e ← m
      modify fun s => { s with done := s.done.insert i e }
      return e where
  keeps s hs := h.keeps s hs
  reads s hs hok := by
    obtain ⟨heq, hs'⟩ := h.reads s hs hok
    refine ⟨heq, hs'.findings, fun j e hj => ?_⟩
    change ((m.run s).2.done.insert i (m.run s).1)[j]? = some e at hj
    rw [Std.HashMap.getElem?_insert, heq] at hj
    split at hj
    case isTrue hij =>
      cases hj
      rw [← beq_iff_eq.mp hij]
      exact derives_reading hok
    case isFalse => exact hs'.done j e hj
  refuses s hs hok := h.refuses s hs hok

theorem reuse (h : Decides g tree file (∃ e, Derives g tree file i e) (reading g tree file i) m) :
    Decides g tree file (∃ e, Derives g tree file i e) (reading g tree file i)
      (get >>= fun s => match s.done[i]? with | some e => pure e | none => m) where
  keeps s hs := by
    change (StateT.run (match s.done[i]? with | some e => pure e | none => m) s).2.findings ≠ #[]
    cases s.done[i]? with
    | some e => exact hs
    | none => exact h.keeps s hs
  reads s hs hok := by
    change (StateT.run (match s.done[i]? with | some e => pure e | none => m) s).1 = _ ∧
      Clean g tree file (StateT.run (match s.done[i]? with | some e => pure e | none => m) s).2
    cases hdone : s.done[i]? with
    | some e => exact ⟨(hs.done i e hdone).reading_eq.symm, hs⟩
    | none => exact h.reads s hs hok
  refuses s hs hok := by
    change (StateT.run (match s.done[i]? with | some e => pure e | none => m) s).2.findings ≠ #[]
    cases hdone : s.done[i]? with
    | some e => exact absurd ⟨e, hs.done i e hdone⟩ hok
    | none => exact h.refuses s hs hok

end Decides

theorem assemble_decides {form : Form} {ok : Nat → Prop} {sub : Nat → Expr}
    {child : Nat → Decode Expr}
    (hchild : ∀ c ∈ form.children, Decides g tree file (ok c) (sub c) (child c)) :
    Decides g tree file (∀ c ∈ form.children, ok c) (form.build o sub) (assemble o child form) := by
  cases form with
  | const | var => exact Decides.pure.congr (by simp [Form.children]) fun _ => rfl
  | zeroTest a =>
    exact ((hchild a (.head _)).bind fun _ => .pure).congr (by simp [Form.children]) fun _ => rfl
  | proc x a =>
    exact ((hchild a (.head _)).bind fun _ => .pure).congr (by simp [Form.children]) fun _ => rfl
  | diff a b =>
    have hboth := (hchild a (.head _)).both (hchild b (.tail _ (.head _))) (Expr.diff o)
    exact hboth.congr (by simp [Form.children]) fun _ => rfl
  | call a b =>
    have hboth := (hchild a (.head _)).both (hchild b (.tail _ (.head _))) (Expr.call o)
    exact hboth.congr (by simp [Form.children]) fun _ => rfl
  | letIn x a b =>
    have hboth := (hchild a (.head _)).both (hchild b (.tail _ (.head _))) (Expr.letIn o x)
    exact hboth.congr (by simp [Form.children]) fun _ => rfl
  | letRec f x a b =>
    have hboth := (hchild a (.head _)).both (hchild b (.tail _ (.head _))) (Expr.letRec o f x)
    exact hboth.congr (by simp [Form.children]) fun _ => rfl
  | ifThenElse a b c =>
    have hbranches (test : Expr) := (hchild b (.tail _ (.head _))).both
      (hchild c (.tail _ (.tail _ (.head _)))) (Expr.ifThenElse o test)
    exact ((hchild a (.head _)).bind hbranches).congr (by simp [Form.children]) fun _ => rfl

-- ---------------------------------------------------------------------------
-- Paths
-- ---------------------------------------------------------------------------

/-- The nodes that are being read while the node `i` is met. -/
structure Trail (g : Graph) (path : List Nat) (i : Nat) : Prop where
  above : ∀ j ∈ path, Relation.TransGen (Below g) j i
  nodup : path.Nodup
  bounded : ∀ j ∈ path, j < g.nodes.size

theorem lt_size_of_formOf (h : formOf g i = .ok r) : i < g.nodes.size := by
  by_contra hge
  have hnode : g.node i = default := by simp [Graph.node, Array.getD, hge]
  simp [formOf, hnode, show (default : Yaml.Node).shape = .scalar "" from rfl] at h

namespace Trail

theorem step (h : Trail g path i) (hi : i ∉ path) (hform : formOf g i = .ok (form, findings))
    (hc : c ∈ form.children) : Trail g (i :: path) (g.follow c) where
  above := by
    have hbelow : Below g i (g.follow c) := ⟨form, findings, hform, c, hc, rfl⟩
    rintro j (_ | ⟨_, hj⟩)
    · exact .single hbelow
    · exact (h.above j hj).tail hbelow
  nodup := h.nodup.cons hi
  bounded := by
    rintro j (_ | ⟨_, hj⟩)
    · exact lt_size_of_formOf hform
    · exact h.bounded j hj

theorem length_le (h : Trail g path i) : path.length ≤ g.nodes.size := by
  have hsub : path ⊆ List.range g.nodes.size := fun j hj => List.mem_range.mpr (h.bounded j hj)
  simpa using (List.subperm_of_subset h.nodup hsub).length_le

end Trail

theorem node_decides (h : Trail g path (g.follow i)) (hfuel : g.nodes.size < fuel + path.length) :
    Decides g tree file (∃ e, Derives g tree file (g.follow i) e) (reading g tree file (g.follow i))
      (node g tree file fuel path i) := by
  induction fuel generalizing path i with
  | zero => exact absurd h.length_le (by omega)
  | succ fuel ih =>
    rw [node]
    refine .reuse ?_
    split
    case isTrue hi =>
      have hnone : ¬ ∃ e, Derives g tree file (g.follow i) e :=
        fun ⟨e, he⟩ => he.not_of_cycle (h.above _ hi)
      exact .refuse (List.cons_ne_nil _ _) hnone
    case isFalse hi =>
      split
      case h_1 findings hform =>
        have hnone : ¬ ∃ e, Derives g tree file (g.follow i) e := by
          rintro ⟨e, hlayer, _⟩
          rw [formOf_of_layer hlayer] at hform
          cases hform
        exact .remember (m := do report findings; return .absent)
          (.refuse (formOf_error hform) hnone)
      case h_2 form findings hform =>
        have hchild (c : Nat) (hc : c ∈ form.children) :=
          ih (h.step hi hform hc) (by simp only [List.length_cons]; omega)
        refine .remember (m := do
          report findings
          assemble (originOf g tree file (g.follow i))
            (node g tree file fuel (g.follow i :: path)) form) ?_
        refine ((Decides.report _).bind fun _ => assemble_decides hchild).congr
          (exists_derives hform).symm ?_
        intro hok
        exact (reading_eq_build hform ((exists_derives hform).mpr hok)).symm

end Decode

-- ---------------------------------------------------------------------------
-- Whole graphs
-- ---------------------------------------------------------------------------

theorem root_decides (g : Graph) (tree : Nat) (file : String) :
    Decode.Decides g tree file (∃ e, Derives g tree file (g.follow g.root) e)
      (reading g tree file (g.follow g.root))
        (Decode.node g tree file (g.nodes.size + 1) [] g.root) :=
  Decode.node_decides ⟨nofun, .nil, nofun⟩ (by simp)

theorem clean_empty : Decode.Clean g tree file {} := ⟨rfl, by simp⟩

theorem decode_eq : decode g tree file =
    let r := (Decode.node g tree file (g.nodes.size + 1) [] g.root).run {}
    if r.2.findings.isEmpty then .ok r.1
    else .error (r.2.findings.toList.map (Finding.toDiagnostic g file)) := rfl

theorem decode_of_derives (h : Derives g tree file (g.follow g.root) e) :
    decode g tree file = .ok e := by
  obtain ⟨heq, hclean⟩ := (root_decides g tree file).reads {} clean_empty ⟨e, h⟩
  simp [decode_eq, hclean.findings, heq, h.reading_eq]

theorem decode_of_not_derives (h : ¬ ∃ e, Derives g tree file (g.follow g.root) e) :
    ∃ ds, decode g tree file = .error ds ∧ ds ≠ [] := by
  have hfindings := (root_decides g tree file).refuses {} clean_empty h
  simp [decode_eq, hfindings]

theorem decode_eq_ok : decode g tree file = .ok e ↔ Derives g tree file (g.follow g.root) e := by
  refine ⟨fun hok => ?_, decode_of_derives⟩
  by_cases h : ∃ e, Derives g tree file (g.follow g.root) e
  · obtain ⟨e', he'⟩ := h
    rw [decode_of_derives he'] at hok
    cases hok
    exact he'
  · obtain ⟨ds, herror, _⟩ := decode_of_not_derives h
    rw [herror] at hok
    cases hok

theorem ofText_eq_ok : ofText source tree file = .ok e ↔
    ∃ g, Yaml.read source = .ok (some g) ∧ decode g tree file = .ok e := by
  unfold ofText
  rcases Yaml.read source with problem | (_ | g) <;> simp

/-- A graph is read as the one expression that the grammar derives from its root, and is refused
with a finding if there is none. What is read has places from the nodes it was derived from, lacks
nothing, and has a document again. -/
theorem reading_follows_grammar (g : Graph) (tree : Nat) (file : String) :
    (∀ e, decode g tree file = .ok e ↔ Derives g tree file (g.follow g.root) e) ∧
    (∀ i e e', Derives g tree file i e → Derives g tree file i e' → e = e') ∧
    ((¬ ∃ e, Derives g tree file (g.follow g.root) e) →
      ∃ ds, decode g tree file = .error ds ∧ ds ≠ []) ∧
    ∀ e, decode g tree file = .ok e →
      (∀ n ∈ e.nodes, ∃ i, Derives g tree file i n ∧
        n.span = ⟨file, (g.node i).line, (g.node i).column⟩) ∧
      e.Complete ∧ (∀ known, ∀ d ∈ e.scopeErrors known, d.code ≠ .ast) ∧
        ∃ text, e.toText = .ok text := by
  refine ⟨fun e => decode_eq_ok, fun i e e' h h' => h.unique h', decode_of_not_derives,
    fun e he => ?_⟩
  have hderives := decode_eq_ok.mp he
  refine ⟨fun n hn => ?_, hderives.complete, fun known d hd => ?_, ?_⟩
  · obtain ⟨i, _, hn⟩ := hderives.mem_nodes hn
    exact ⟨i, hn, hn.span_eq⟩
  · rw [scopeErrors_code hderives.coherent hderives.complete known d hd]
    exact nofun
  · obtain ⟨t, ht⟩ := exists_encode.mpr hderives.complete.absent_not_mem
    exact ⟨t.render 2, by simp [toText, ht]⟩

/-- A difference of a constant with itself, by an alias. -/
def sharedGraph : Graph :=
  { root := 0
    nodes := #[⟨.map, .mapping [(1, 2)], 1, 1⟩, ⟨.str, .scalar "diff", 1, 2⟩,
      ⟨.seq, .sequence [3, 6], 1, 8⟩,
      ⟨.map, .mapping [(4, 5)], 1, 9⟩, ⟨.str, .scalar "const", 1, 13⟩, ⟨.str, .scalar "+7", 1, 20⟩,
      ⟨.seq, .alias "a" 3, 1, 27⟩] }

/-- A zero test of itself. -/
def cyclicGraph : Graph :=
  { root := 0
    nodes := #[⟨.map, .mapping [(1, 2)], 1, 1⟩, ⟨.str, .scalar "zero", 1, 2⟩,
      ⟨.seq, .alias "a" 0, 1, 8⟩] }

theorem reading_follows_grammar_alias :
    decode sharedGraph 1 "f" = .ok (.diff ⟨⟨1, 0⟩, ⟨"f", 1, 1⟩⟩
      (.const ⟨⟨1, 3⟩, ⟨"f", 1, 9⟩⟩ 7) (.const ⟨⟨1, 3⟩, ⟨"f", 1, 9⟩⟩ 7)) ∧
    ∃ ds, decode cyclicGraph 1 "f" = .error ds ∧ ds ≠ [] := by
  constructor
  · have hconst : Layer sharedGraph 3 (.const 7) := formOf_eq_ok.mp (by decide)
    have hdiff : Layer sharedGraph 0 (.diff 3 6) := formOf_eq_ok.mp (by decide)
    refine ((reading_follows_grammar sharedGraph 1 "f").1 _).mpr ?_
    refine @Derives.node sharedGraph 1 "f" 0 (.diff 3 6)
      (fun _ => .const ⟨⟨1, 3⟩, ⟨"f", 1, 9⟩⟩ 7) hdiff ?_
    rintro c (_ | ⟨_, _ | ⟨_, ⟨⟩⟩⟩) <;>
      exact @Derives.node sharedGraph 1 "f" 3 (.const 7) (fun _ => .absent) hconst nofun
  · refine (reading_follows_grammar cyclicGraph 1 "f").2.2.1 fun ⟨e, he⟩ => ?_
    have hbelow : Below cyclicGraph 0 0 := ⟨.zeroTest 2, [], by decide, 2, by decide, by decide⟩
    exact he.not_of_cycle (.single hbelow)

end Letrec.Expr
