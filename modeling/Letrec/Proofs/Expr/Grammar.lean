import Letrec.Expr.Decode
import Letrec.Proofs.Expr.Positions
import Letrec.Proofs.Number.Numeral
import Letrec.Proofs.Scope.Free
import Mathlib.Data.List.Nodup
import Mathlib.Logic.Relation

/-!
# The grammar of expression documents

Which nodes of a document stand for which expressions, apart from how they are read. `Layer` says
for each kind of expression what its node looks like, and `Derives` puts the layers together; a node
that stands inside itself derives nothing, since a derivation is finite. Aliases are followed where
an expression, a list, the fields of a node, a constant or a name is expected, keys are taken as
they are written.

`formOf_eq_ok` says that a node is read as a form exactly if it is a layer of that form.
-/

namespace Letrec

open Yaml (Graph)

namespace Yaml.Graph

def Entry (g : Graph) (i : Nat) (key : String) (value : Nat) : Prop :=
  ∃ k, (g.node i).shape = .mapping [(k, value)] ∧ (g.node k).text = key

/-- A scalar, however it is tagged. -/
def Text (g : Graph) (i : Nat) (text : String) : Prop := (g.node (g.follow i)).shape = .scalar text

def Items (g : Graph) (i : Nat) (items : List Nat) : Prop :=
  (g.node (g.follow i)).shape = .sequence items

/-- A mapping that holds each of these fields once and nothing else, in any order. -/
def Fields (g : Graph) (i : Nat) (fields : List (String × Nat)) : Prop :=
  ∃ entries, (g.node (g.follow i)).shape = .mapping entries ∧
    (entries.map fun e => ((g.node e.1).text, e.2)).Perm fields

def Name (g : Graph) (i : Nat) (x : String) : Prop :=
  g.Text i x ∧ (g.node (g.follow i)).tag = .str ∧ x ≠ ""

end Yaml.Graph

namespace Expr

inductive Layer (g : Graph) : Nat → Form → Prop
  | const (h : g.Entry i "const" v) (hv : g.Text v text) (hn : Number.Numeral text.toList n.toInt) :
      Layer g i (.const n)
  | var (h : g.Entry i "var" v) (hx : g.Name v x) : Layer g i (.var x)
  | diff (h : g.Entry i "diff" v) (hv : g.Items v [l, r]) : Layer g i (.diff l r)
  | zeroTest (h : g.Entry i "zero" v) : Layer g i (.zeroTest v)
  | ifThenElse (h : g.Entry i "if" v) (hv : g.Items v [c, t, e]) : Layer g i (.ifThenElse c t e)
  | letIn (h : g.Entry i "let" v) (hv : g.Fields v [("name", n), ("value", e), ("body", b)])
      (hx : g.Name n x) : Layer g i (.letIn x e b)
  | letRec (h : g.Entry i "letrec" v)
      (hv : g.Fields v [("name", n), ("param", p), ("proc", q), ("body", b)])
      (hf : g.Name n f) (hx : g.Name p x) : Layer g i (.letRec f x q b)
  | proc (h : g.Entry i "proc" v) (hv : g.Fields v [("param", p), ("body", b)]) (hx : g.Name p x) :
      Layer g i (.proc x b)
  | call (h : g.Entry i "call" v) (hv : g.Items v [p, a]) : Layer g i (.call p a)

def Form.build (origin : Origin) (sub : Nat → Expr) : Form → Expr
  | .const value => .const origin value
  | .var name => .var origin name
  | .diff left right => .diff origin (sub left) (sub right)
  | .zeroTest operand => .zeroTest origin (sub operand)
  | .ifThenElse test yes no => .ifThenElse origin (sub test) (sub yes) (sub no)
  | .letIn name value body => .letIn origin name (sub value) (sub body)
  | .letRec name param procBody body => .letRec origin name param (sub procBody) (sub body)
  | .proc param body => .proc origin param (sub body)
  | .call operator operand => .call origin (sub operator) (sub operand)

/-- A node derives the expression of its form, with what the nodes of its sub-expressions derive. -/
inductive Derives (g : Graph) (tree : Nat) (file : String) : Nat → Expr → Prop
  | node (h : Layer g i form) (hsub : ∀ c ∈ form.children,
      Derives g tree file (g.follow c) (sub c)) :
      Derives g tree file i (form.build (Decode.originOf g tree file i) sub)

-- ---------------------------------------------------------------------------
-- Parts of a node
-- ---------------------------------------------------------------------------

theorem bind_eq_ok {x : Except ε α} {f : α → Except ε β} :
    x >>= f = .ok b ↔ ∃ a, x = .ok a ∧ f a = .ok b := by
  cases x <;> simp [bind, Except.bind]

theorem bind_eq_error {x : Except ε α} {f : α → Except ε β} :
    x >>= f = .error r ↔ x = .error r ∨ ∃ a, x = .ok a ∧ f a = .error r := by
  cases x <;> simp [bind, Except.bind]

section
variable {g : Graph} {i : Nat} {kind role : String} {names : List String}

theorem nameOf_eq : nameOf g i role = (x, []) ↔ g.Name i x := by
  simp only [nameOf, Graph.Name, Graph.Text]
  cases (g.node (g.follow i)).shape with
  | scalar text =>
    simp only [Yaml.Shape.scalar.injEq, Bool.and_eq_true, decide_eq_true_eq]
    split <;> grind
  | _ => simp

theorem nameOf_name (h : (nameOf g i role).2 = []) : g.Name i (nameOf g i role).1 :=
  nameOf_eq.mp (Prod.ext rfl h)

theorem constOf_eq_ok : constOf g i = .ok form ↔
    ∃ text n, form = .const n ∧ g.Text i text ∧ Number.Numeral text.toList n.toInt := by
  simp only [constOf, Graph.Text, ← Number.int64?_eq_some]
  cases (g.node (g.follow i)).shape with
  | scalar text => cases h : Number.int64? text <;> simp [h, eq_comm]
  | _ => simp

theorem constOf_error (h : constOf g i = .error fs) : fs ≠ [] := by
  simp only [constOf] at h
  repeat' split at h
  all_goals cases h
  all_goals exact nofun

theorem listOf_eq_ok :
    listOf g i kind count = .ok items ↔ g.Items i items ∧ items.length = count := by
  simp only [listOf, Graph.Items]
  cases (g.node (g.follow i)).shape with
  | sequence found =>
    simp only [Yaml.Shape.sequence.injEq]
    split <;> grind
  | _ => simp

theorem listOf_error (h : listOf g i kind count = .error fs) : fs ≠ [] := by
  simp only [listOf] at h
  repeat' split at h
  all_goals cases h
  all_goals exact nofun

-- The fields of a mapping are looked up one by one, and its keys are gone through for what is
-- unknown or repeated. Together that comes to a permutation of the fields.

theorem keyFindings_eq_nil {seen : List String} : keyFindings g kind names seen entries = [] ↔
    (∀ e ∈ entries, (g.node e.1).text ∈ names ∧ (g.node e.1).text ∉ seen) ∧
      (entries.map fun e => (g.node e.1).text).Nodup := by
  induction entries generalizing seen with
  | nil => simp [keyFindings]
  | cons e rest ih =>
    obtain ⟨key, value⟩ := e
    simp only [keyFindings, List.map_cons, List.nodup_cons, List.mem_map, List.forall_mem_cons]
    split
    · simp_all
    · split
      · simp_all
      · rw [ih]
        grind

theorem field?_eq_some (hnodup : (entries.map fun e => (g.node e.1).text).Nodup) :
    field? g entries name = some v ↔ (name, v) ∈ entries.map fun e => ((g.node e.1).text, e.2) := by
  induction entries with
  | nil => simp [field?]
  | cons e rest ih =>
    rw [List.map_cons, List.nodup_cons] at hnodup
    have hrest := ih hnodup.2
    simp only [field?, List.find?_cons, List.map_cons, List.mem_cons, Prod.mk.injEq] at hrest ⊢
    by_cases hkey : (g.node e.1).text = name
    · have hnot : (name, v) ∉ rest.map fun e => ((g.node e.1).text, e.2) := fun hmem => by
        obtain ⟨e', he', heq⟩ := List.mem_map.mp hmem
        exact hnodup.1 (List.mem_map.mpr ⟨e', he', by grind⟩)
      simp [hkey, hnot, eq_comm]
    · simp only [beq_eq_false_iff_ne.mpr hkey, hrest]
      simp [Ne.symm hkey]

theorem field?_isNone :
    (field? g entries name).isNone ↔ name ∉ entries.map fun e => (g.node e.1).text := by
  simp [field?]

theorem filterMap_field? {values : List Nat} (hlength : values.length = names.length)
    (h : ∀ f ∈ names.zip values, field? g entries f.1 = some f.2) :
    names.filterMap (field? g entries) = values := by
  calc names.filterMap (field? g entries)
      = ((names.zip values).map Prod.fst).filterMap (field? g entries) := by
        rw [List.map_fst_zip (Nat.le_of_eq hlength.symm)]
    _ = (names.zip values).map Prod.snd := by
        rw [List.filterMap_map]
        exact List.filterMap_eq_map_iff_forall_eq_some.mpr h
    _ = values := List.map_snd_zip (Nat.le_of_eq hlength)

theorem fields_ok_iff (kind : String) (hnames : names.Nodup) :
    keyFindings g kind names [] entries = [] ∧ (∀ name ∈ names, ¬ (field? g entries name).isNone) ↔
      (entries.map fun e => (g.node e.1).text).Perm names := by
  simp only [keyFindings_eq_nil, field?_isNone, not_not, List.not_mem_nil,
    not_false_eq_true, and_true]
  constructor
  · rintro ⟨⟨hknown, hnodup⟩, hall⟩
    refine (List.perm_ext_iff_of_nodup hnodup hnames).mpr fun name => ⟨fun hname => ?_, hall name⟩
    obtain ⟨e, he, rfl⟩ := List.mem_map.mp hname
    exact hknown e he
  · intro hperm
    refine ⟨⟨fun e he => hperm.subset (List.mem_map.mpr ⟨e, he, rfl⟩), hperm.nodup_iff.mpr hnames⟩,
      ?_⟩
    exact fun name hname => hperm.symm.subset hname

theorem filterMap_field?_iff (hnames : names.Nodup)
    (hkeys : (entries.map fun e => (g.node e.1).text).Perm names) :
    names.filterMap (field? g entries) = values ↔ values.length = names.length ∧
      (entries.map fun e => ((g.node e.1).text, e.2)).Perm (names.zip values) := by
  have hnodup := hkeys.nodup_iff.mpr hnames
  constructor
  · rintro rfl
    -- Every name is found, so that the values found are those of a function on the names.
    have hfound : ∀ name ∈ names,
      field? g entries name = some ((field? g entries name).getD 0) := by
      intro name hname
      cases h : field? g entries name with
      | some v => rfl
      | none =>
        exact absurd (hkeys.symm.subset hname) (field?_isNone.mp (Option.isNone_iff_eq_none.mpr h))
    rw [List.filterMap_eq_map_iff_forall_eq_some.mpr hfound, ← List.map_prod_left_eq_zip]
    refine ⟨List.length_map _, (List.perm_ext_iff_of_nodup ?_ ?_).mpr fun f => ?_⟩
    · exact .of_map Prod.fst (by rwa [List.map_map])
    · exact .of_map Prod.fst (by simpa [List.map_map, Function.comp_def] using hnames)
    · rw [← field?_eq_some hnodup, List.mem_map]
      constructor
      · intro hf
        have hmem := (field?_eq_some hnodup).mp hf
        refine ⟨f.1, hkeys.subset ?_, by rw [hf]; rfl⟩
        obtain ⟨e, he, heq⟩ := List.mem_map.mp hmem
        exact List.mem_map.mpr ⟨e, he, by grind⟩
      · rintro ⟨name, hname, rfl⟩
        exact hfound name hname
  · rintro ⟨hlength, hperm⟩
    exact filterMap_field? hlength fun f hf => (field?_eq_some hnodup).mpr (hperm.symm.subset hf)

theorem fieldsOf_eq_ok (hnames : names.Nodup) : fieldsOf g i kind names = .ok values ↔
    values.length = names.length ∧ g.Fields i (names.zip values) := by
  simp only [fieldsOf, Graph.Fields]
  cases (g.node (g.follow i)).shape with
  | mapping entries =>
    have hempty : (keyFindings g kind names [] entries ++ (names.filter fun name =>
        (field? g entries name).isNone).map
          fun name => (Flaw.missingField name kind, g.follow i)).isEmpty =
        true ↔ (entries.map fun e => (g.node e.1).text).Perm names := by
      rw [← fields_ok_iff kind hnames]
      simp
    simp only [Yaml.Shape.mapping.injEq, exists_eq_left']
    split
    · rename_i h
      rw [Except.ok.injEq, filterMap_field?_iff hnames (hempty.mp h)]
    · rename_i h
      rw [hempty] at h
      refine ⟨nofun, fun ⟨hlength, hperm⟩ => absurd ?_ h⟩
      have hkeys := hperm.map Prod.fst
      rwa [List.map_map, List.map_fst_zip (Nat.le_of_eq hlength.symm)] at hkeys
  | _ => simp

theorem fieldsOf_error (h : fieldsOf g i kind names = .error fs) : fs ≠ [] := by
  simp only [fieldsOf] at h
  split at h
  · split at h
    · cases h
    · rename_i hfindings
      cases h
      simpa using hfindings
  · cases h
    exact nofun

-- ---------------------------------------------------------------------------
-- Nodes
-- ---------------------------------------------------------------------------

theorem layer_of_formOf (h : formOf g i = .ok (form, [])) : Layer g i form := by
  unfold formOf at h
  split at h
  · rename_i key value hshape
    have hentry {kind : String} (hkey : (g.node key).text = kind) : g.Entry i kind value :=
      ⟨key, hshape, hkey⟩
    split at h
    all_goals simp only [bind_eq_ok, pure, Except.pure, Except.ok.injEq, Prod.mk.injEq,
      reduceCtorEq] at h
    case h_1 hkey =>
      obtain ⟨_, hconst, rfl, _⟩ := h
      obtain ⟨text, n, rfl, htext, hn⟩ := constOf_eq_ok.mp hconst
      exact .const (hentry hkey) htext hn
    case h_2 hkey =>
      obtain ⟨rfl, hname⟩ := h
      exact .var (hentry hkey) (nameOf_name hname)
    case h_3 hkey =>
      obtain ⟨items, hitems, h⟩ := h
      split at h <;> cases h
      exact .diff (hentry hkey) (listOf_eq_ok.mp hitems).1
    case h_4 hkey =>
      obtain ⟨rfl, _⟩ := h
      exact .zeroTest (hentry hkey)
    case h_5 hkey =>
      obtain ⟨items, hitems, h⟩ := h
      split at h <;> cases h
      exact .ifThenElse (hentry hkey) (listOf_eq_ok.mp hitems).1
    case h_6 hkey =>
      obtain ⟨values, hvalues, h⟩ := h
      split at h <;> simp only [reduceCtorEq, Except.ok.injEq, Prod.mk.injEq] at h
      obtain ⟨rfl, hname⟩ := h
      exact .letIn (hentry hkey) ((fieldsOf_eq_ok (by decide)).mp hvalues).2 (nameOf_name hname)
    case h_7 hkey =>
      obtain ⟨values, hvalues, h⟩ := h
      split at h <;> simp only [reduceCtorEq, Except.ok.injEq, Prod.mk.injEq,
        List.append_eq_nil_iff] at h
      obtain ⟨rfl, hname, hparam⟩ := h
      exact .letRec (hentry hkey) ((fieldsOf_eq_ok (by decide)).mp hvalues).2 (nameOf_name hname)
        (nameOf_name hparam)
    case h_8 hkey =>
      obtain ⟨values, hvalues, h⟩ := h
      split at h <;> simp only [reduceCtorEq, Except.ok.injEq, Prod.mk.injEq] at h
      obtain ⟨rfl, hname⟩ := h
      exact .proc (hentry hkey) ((fieldsOf_eq_ok (by decide)).mp hvalues).2 (nameOf_name hname)
    case h_9 hkey =>
      obtain ⟨items, hitems, h⟩ := h
      split at h <;> cases h
      exact .call (hentry hkey) (listOf_eq_ok.mp hitems).1
  · cases h

theorem formOf_of_layer (h : Layer g i form) : formOf g i = .ok (form, []) := by
  cases h with
  | const h hv hn =>
    obtain ⟨key, hshape, hkey⟩ := h
    simp only [formOf, hshape, hkey, constOf_eq_ok.mpr ⟨_, _, rfl, hv, hn⟩]
    rfl
  | var h hx =>
    obtain ⟨key, hshape, hkey⟩ := h
    simp only [formOf, hshape, hkey, nameOf_eq.mpr hx]
    rfl
  | @diff v l r h hv =>
    obtain ⟨key, hshape, hkey⟩ := h
    have hitems : listOf g v "diff" 2 = .ok [l, r] := listOf_eq_ok.mpr ⟨hv, rfl⟩
    simp only [formOf, hshape, hkey, hitems]
    rfl
  | zeroTest h =>
    obtain ⟨key, hshape, hkey⟩ := h
    simp only [formOf, hshape, hkey]
    rfl
  | @ifThenElse v c t e h hv =>
    obtain ⟨key, hshape, hkey⟩ := h
    have hitems : listOf g v "if" 3 = .ok [c, t, e] := listOf_eq_ok.mpr ⟨hv, rfl⟩
    simp only [formOf, hshape, hkey, hitems]
    rfl
  | @letIn v n e b x h hv hx =>
    obtain ⟨key, hshape, hkey⟩ := h
    have hvalues : fieldsOf g v "let" ["name", "value", "body"] = .ok [n, e, b] :=
      (fieldsOf_eq_ok (by decide)).mpr ⟨rfl, hv⟩
    simp only [formOf, hshape, hkey, hvalues, bind, Except.bind, nameOf_eq.mpr hx]
    rfl
  | @letRec v n p q b f x h hv hf hx =>
    obtain ⟨key, hshape, hkey⟩ := h
    have hvalues : fieldsOf g v "letrec" ["name", "param", "proc", "body"] = .ok [n, p, q, b] :=
      (fieldsOf_eq_ok (by decide)).mpr ⟨rfl, hv⟩
    simp only [formOf, hshape, hkey, hvalues, bind, Except.bind, nameOf_eq.mpr hf, nameOf_eq.mpr hx]
    rfl
  | @proc v p b x h hv hx =>
    obtain ⟨key, hshape, hkey⟩ := h
    have hvalues : fieldsOf g v "proc" ["param", "body"] = .ok [p, b] :=
      (fieldsOf_eq_ok (by decide)).mpr ⟨rfl, hv⟩
    simp only [formOf, hshape, hkey, hvalues, bind, Except.bind, nameOf_eq.mpr hx]
    rfl
  | @call v p a h hv =>
    obtain ⟨key, hshape, hkey⟩ := h
    have hitems : listOf g v "call" 2 = .ok [p, a] := listOf_eq_ok.mpr ⟨hv, rfl⟩
    simp only [formOf, hshape, hkey, hitems]
    rfl

theorem formOf_eq_ok : formOf g i = .ok (form, []) ↔ Layer g i form :=
  ⟨layer_of_formOf, formOf_of_layer⟩

theorem formOf_error (h : formOf g i = .error fs) : fs ≠ [] := by
  unfold formOf at h
  split at h
  · split at h
    all_goals simp only [bind_eq_error, pure, Except.pure, Except.error.injEq,
      reduceCtorEq, and_false, exists_false, or_false] at h
    case h_1 => exact constOf_error h
    case h_10 =>
      rw [← h]
      exact nofun
    -- Lists and fields that are read have as many items as are asked for.
    case h_3 | h_5 | h_9 =>
      rcases h with h | ⟨items, hitems, h⟩
      · exact listOf_error h
      · obtain ⟨_, hlength⟩ := listOf_eq_ok.mp hitems
        split at h <;> simp_all [List.length_eq_two, List.length_eq_three]
    case h_6 | h_7 | h_8 =>
      rcases h with h | ⟨values, hvalues, h⟩
      · exact fieldsOf_error h
      · obtain ⟨hlength, _⟩ := (fieldsOf_eq_ok (by decide)).mp hvalues
        split at h <;> simp_all [List.length_eq_two, List.length_eq_three, List.length_eq_four]
  · cases h
    exact nofun

theorem Layer.unique (h : Layer g i form) (h' : Layer g i form') : form = form' := by
  have heq := (formOf_of_layer h).symm.trans (formOf_of_layer h')
  exact congrArg Prod.fst (Except.ok.inj heq)

end

-- ---------------------------------------------------------------------------
-- Derivations
-- ---------------------------------------------------------------------------

namespace Form

@[simp] theorem origin?_build (form : Form) : (form.build o sub).origin? = some o := by
  cases form <;> rfl

theorem children_build (form : Form) : (form.build o sub).children = form.children.map sub := by
  cases form <;> rfl

theorem build_congr {form : Form} (h : ∀ c ∈ form.children, sub c = sub' c) :
    form.build o sub = form.build o sub' := by
  cases form <;> simp_all [build, children]

theorem mem_nodes_build {form : Form} (h : n ∈ (form.build o sub).nodes) :
    n = form.build o sub ∨ ∃ c ∈ form.children, n ∈ (sub c).nodes := by
  cases form <;> simpa [build, children, nodes] using h

end Form

/-- The node `j` is read as a part of the node `i`, whether or not all is well with `i`. -/
def Below (g : Graph) (i j : Nat) : Prop :=
  ∃ form findings, formOf g i = .ok (form, findings) ∧ ∃ c ∈ form.children, g.follow c = j

namespace Derives

variable {g : Graph} {tree : Nat} {file : String} {i : Nat}

theorem unique (h : Derives g tree file i e) (h' : Derives g tree file i e') : e = e' := by
  induction h generalizing e' with
  | node hlayer hsub ih =>
    obtain ⟨hlayer', hsub'⟩ := h'
    obtain rfl := hlayer.unique hlayer'
    exact Form.build_congr fun c hc => ih c hc (hsub' c hc)

theorem complete (h : Derives g tree file i e) : e.Complete := by
  induction h with
  | node hlayer hsub ih =>
    cases hlayer <;> simp_all [Form.build, Form.children, Complete, Yaml.Graph.Name]

theorem span_eq (h : Derives g tree file i e) :
    e.span = ⟨file, (g.node i).line, (g.node i).column⟩ := by
  cases h
  simp [span, Decode.originOf]

theorem mem_nodes (h : Derives g tree file i e) (hn : n ∈ e.nodes) :
    ∃ j, n.id? = some ⟨tree, j⟩ ∧ Derives g tree file j n := by
  induction h with
  | @node i form sub hlayer hsub ih =>
    rcases Form.mem_nodes_build hn with rfl | ⟨c, hc, hn⟩
    · exact ⟨i, by simp [id?, Decode.originOf], .node hlayer hsub⟩
    · exact ih c hc hn

theorem coherent (h : Derives g tree file i e) : e.Coherent := by
  intro a ha b hb hid
  obtain ⟨j, hj, hda⟩ := h.mem_nodes ha
  obtain ⟨k, hk, hdb⟩ := h.mem_nodes hb
  rw [hj, hk] at hid
  cases hid
  exact hda.unique hdb

theorem child (h : Derives g tree file i e) (hij : Below g i j) :
    ∃ e', Derives g tree file j e' ∧ sizeOf e' < sizeOf e := by
  obtain ⟨form, findings, hform, c, hc, rfl⟩ := hij
  obtain ⟨hlayer, hsub⟩ := h
  rw [formOf_of_layer hlayer] at hform
  cases hform
  refine ⟨_, hsub c hc, sizeOf_lt_of_mem_children ?_⟩
  rw [Form.children_build]
  exact List.mem_map_of_mem hc

theorem descendant (h : Derives g tree file i e) (hij : Relation.TransGen (Below g) i j) :
    ∃ e', Derives g tree file j e' ∧ sizeOf e' < sizeOf e := by
  induction hij with
  | single hij => exact h.child hij
  | tail _ hjk ih =>
    obtain ⟨e', he', hlt⟩ := ih
    obtain ⟨e'', he'', hlt'⟩ := he'.child hjk
    exact ⟨e'', he'', Nat.lt_trans hlt' hlt⟩

theorem not_of_cycle (hi : Relation.TransGen (Below g) i i) : ¬ Derives g tree file i e := by
  intro h
  obtain ⟨e', h', hlt⟩ := h.descendant hi
  rw [h.unique h'] at hlt
  exact Nat.lt_irrefl _ hlt

end Derives

end Expr

end Letrec
