import Letrec.Proofs.Expr.Cycles
import Mathlib.Data.List.Flatten
import Mathlib.Data.List.Pairwise

/-!
# Documents without aliases

A node without aliases below it is a tree, a `Branch`, each of whose nodes has a number of its own
in the graph. `Branch.flaws` says what is wrong with a branch that should be an expression, from the
branch alone. What is wrong with the shape of a node hides what is below it, and nothing else is
hidden.
-/

namespace Letrec.Yaml

open Letrec.Expr (Finding Flaw)

inductive Branch where
  | scalar (number : Nat) (tag : Tag) (text : String)
  | sequence (number : Nat) (items : List Branch)
  | mapping (number : Nat) (entries : List (Branch × Branch))

namespace Branch

def number : Branch → Nat
  | .scalar i .. | .sequence i _ | .mapping i _ => i

def text : Branch → String
  | .scalar _ _ text => text
  | .sequence .. | .mapping .. => ""

def branches : Branch → List Branch
  | .scalar .. => []
  | .sequence _ items => items
  | .mapping _ entries => entries.flatMap fun e => [e.1, e.2]

theorem sizeOf_lt_of_mem_branches {t b : Branch} (h : b ∈ t.branches) : sizeOf b < sizeOf t := by
  cases t with
  | scalar => cases h
  | sequence i items =>
    have := List.sizeOf_lt_of_mem (show b ∈ items from h)
    simp only [sequence.sizeOf_spec]
    omega
  | mapping i entries =>
    simp only [branches, List.mem_flatMap, List.mem_cons, List.not_mem_nil, or_false] at h
    obtain ⟨⟨key, value⟩, he, rfl | rfl⟩ := h
    all_goals
      have := List.sizeOf_lt_of_mem he
      simp only [mapping.sizeOf_spec, Prod.mk.sizeOf_spec] at this ⊢
      omega

def nodes (t : Branch) : List Branch := t :: t.branches.attach.flatMap fun b => b.1.nodes
termination_by sizeOf t
decreasing_by exact sizeOf_lt_of_mem_branches b.2

theorem nodes_eq (t : Branch) : t.nodes = t :: t.branches.flatMap nodes := by
  rw [nodes]
  simp

theorem mem_nodes_self (t : Branch) : t ∈ t.nodes := by
  rw [nodes_eq]
  exact .head _

theorem mem_nodes {t b : Branch} : b ∈ t.nodes ↔ b = t ∨ ∃ c ∈ t.branches, b ∈ c.nodes := by
  rw [nodes_eq, List.mem_cons, List.mem_flatMap]

theorem mem_nodes_of_branch {t b c : Branch} (hb : b ∈ t.branches) (hc : c ∈ b.nodes) :
    c ∈ t.nodes :=
  mem_nodes.mpr (.inr ⟨b, hb, hc⟩)

theorem nodes_trans {t b c : Branch} (hb : b ∈ t.nodes) (hc : c ∈ b.nodes) : c ∈ t.nodes := by
  obtain rfl | ⟨a, ha, hba⟩ := mem_nodes.mp hb
  · exact hc
  · exact mem_nodes_of_branch ha (nodes_trans hba hc)
termination_by sizeOf t
decreasing_by exact sizeOf_lt_of_mem_branches ha

theorem sizeOf_le_of_mem_nodes {t b : Branch} (h : b ∈ t.nodes) : sizeOf b ≤ sizeOf t := by
  obtain rfl | ⟨a, ha, hba⟩ := mem_nodes.mp h
  · exact Nat.le_refl _
  · exact Nat.le_trans (sizeOf_le_of_mem_nodes hba) (Nat.le_of_lt (sizeOf_lt_of_mem_branches ha))
termination_by sizeOf t
decreasing_by exact sizeOf_lt_of_mem_branches ha

def numbers (t : Branch) : List Nat := t.nodes.map number

theorem numbers_eq (t : Branch) : t.numbers = t.number :: t.branches.flatMap numbers := by
  rw [numbers, nodes_eq, List.map_cons, List.map_flatMap]
  rfl

theorem number_mem_numbers {t b : Branch} (h : b ∈ t.nodes) : b.number ∈ t.numbers :=
  List.mem_map_of_mem h

theorem numbers_subset {t b : Branch} (h : b ∈ t.nodes) : b.numbers ⊆ t.numbers :=
  List.map_subset _ fun _ hc => nodes_trans h hc

theorem numbers_branches_nodup {t : Branch} (h : t.numbers.Nodup) :
    (t.branches.flatMap numbers).Nodup := by
  rw [numbers_eq] at h
  exact h.of_cons

def shape : Branch → Shape
  | .scalar _ _ text => .scalar text
  | .sequence _ items => .sequence (items.map number)
  | .mapping _ entries => .mapping (entries.map fun e => (e.1.number, e.2.number))

/-- The node of a graph is of the shape of the branch. The tags of collections do not matter. -/
def Matches (n : Node) (t : Branch) : Prop :=
  n.shape = t.shape ∧
    match t with
    | .scalar _ tag _ => n.tag = tag
    | .sequence .. | .mapping .. => True

/-- The branch is a part of the graph, in which it has each node once. -/
structure In (t : Branch) (g : Graph) : Prop where
  shown : ∀ b ∈ t.nodes, b.Matches (g.node b.number)
  apart : t.numbers.Nodup

namespace In

variable {t b : Branch} {g : Graph}

theorem shape (h : t.In g) : (g.node t.number).shape = t.shape := (h.shown t t.mem_nodes_self).1

theorem branch (h : t.In g) (hb : b ∈ t.branches) : b.In g where
  shown c hc := h.shown c (mem_nodes_of_branch hb hc)
  apart := (List.nodup_flatMap.mp (numbers_branches_nodup h.apart)).1 b hb

theorem follow (h : t.In g) : g.follow t.number = t.number := by
  rw [Graph.follow, h.shape]
  cases t <;> rfl

theorem text (h : t.In g) : (g.node t.number).text = t.text := by
  rw [Node.text, h.shape]
  cases t <;> rfl

end In

-- ---------------------------------------------------------------------------
-- What is wrong with a branch
-- ---------------------------------------------------------------------------

inductive Pattern where
  | integer
  | name
  | list (count : Nat)
  | part
  | fields (names parts : List String) (distinct : (names ++ parts).Nodup)

def pattern? : (kind : String) → Option Pattern
  | "const" => some .integer
  | "var" => some .name
  | "diff" => some (.list 2)
  | "zero" => some .part
  | "if" => some (.list 3)
  | "let" => some (.fields ["name"] ["value", "body"] (by decide))
  | "letrec" => some (.fields ["name", "param"] ["proc", "body"] (by decide))
  | "proc" => some (.fields ["param"] ["body"] (by decide))
  | "call" => some (.list 2)
  | _ => none

def nameFlaws (role : String) : Branch → List Finding
  | .scalar i tag text => if tag = .str ∧ text ≠ "" then [] else [(.noName role, i)]
  | t => [(.noName role, t.number)]

def keyFlaw? (kind : String) (names : List String) (key : Branch) (before : List Branch) :
    Option Finding :=
  if key.text ∉ names then some (.unknownField key.text kind, key.number)
  else if key.text ∈ before.map text then some (.duplicateField key.text kind, key.number)
  else none

/-- What is wrong with the keys of a mapping, in the order of the document, and then with what is
missing, in the order of the names. -/
def fieldFlaws (kind : String) (names : List String) (number : Nat) (keys : List Branch) :
    List Finding :=
  (keys.zip keys.inits).filterMap (fun k => keyFlaw? kind names k.1 k.2) ++
    (names.filter (· ∉ keys.map text)).map fun name => (.missingField name kind, number)

def value? (entries : List (Branch × Branch)) (name : String) : Option Branch :=
  (entries.find? (·.1.text = name)).map Prod.snd

def fields (kind : String) (names : List String) : Branch → Except (List Finding) (List Branch)
  | .mapping i entries =>
    match fieldFlaws kind names i (entries.map Prod.fst) with
    | [] => .ok (names.filterMap (value? entries))
    | fs => .error fs
  | t => .error [(.noFields kind names, t.number)]

def items (kind : String) (count : Nat) : Branch → Except (List Finding) (List Branch)
  | .sequence i items =>
    if items.length = count then .ok items else .error [(.noList kind count, i)]
  | t => .error [(.noList kind count, t.number)]

def integerFlaws : Branch → List Finding
  | .scalar i _ text => if (Number.int64? text).isSome then [] else [(.constNoInteger text, i)]
  | t => [(.constNoScalar, t.number)]

/-- What is wrong with the shape of the content of an expression, or what is wrong with its names,
and its parts. -/
def content (kind : String) (t : Branch) :
    Pattern → Except (List Finding) (List Finding × List Branch)
  | .integer =>
    match t.integerFlaws with
    | [] => .ok ([], [])
    | fs => .error fs
  | .name => .ok (t.nameFlaws kind, [])
  | .list count => (t.items kind count).map fun parts => ([], parts)
  | .part => .ok ([], [t])
  | .fields names parts _ =>
    (t.fields kind (names ++ parts)).map fun values =>
      ((names.zip values).flatMap fun v => v.2.nameFlaws (kind ++ " " ++ v.1),
        values.drop names.length)

def layer : Branch → Except (List Finding) (List Finding × List Branch)
  | .mapping _ [(key, value)] =>
    match pattern? key.text with
    | some pattern => value.content key.text pattern
    | none => .error [(.unknownKind key.text, key.number)]
  | t => .error [(.notAnExpression, t.number)]

-- The parts of an expression stand below it, each in a place of its own.

theorem mem_branches_of_value? {entries : List (Branch × Branch)}
    (h : value? entries name = some v) : ∃ e ∈ entries, e.1.text = name ∧ e.2 = v := by
  obtain ⟨e, he, rfl⟩ := Option.map_eq_some_iff.mp h
  exact ⟨e, List.mem_of_find?_eq_some he, by simpa using List.find?_some he, rfl⟩

theorem fields_eq_ok {t : Branch} (h : t.fields kind names = .ok values) :
    ∃ i entries, t = .mapping i entries ∧ fieldFlaws kind names i (entries.map Prod.fst) = [] ∧
      values = names.filterMap (value? entries) := by
  cases t with
  | mapping i entries =>
    simp only [fields] at h
    split at h
    · rename_i hflaws
      cases h
      exact ⟨i, entries, rfl, hflaws, rfl⟩
    · cases h
  | _ => cases h

theorem items_eq_ok {t : Branch} (h : t.items kind count = .ok parts) :
    ∃ i, t = .sequence i parts ∧ parts.length = count := by
  cases t with
  | sequence i branches =>
    simp only [items] at h
    split at h
    · rename_i hlength
      cases h
      exact ⟨i, rfl, hlength⟩
    · cases h
  | _ => cases h

theorem mem_branches_of_fields {t v : Branch} (h : t.fields kind names = .ok values)
    (hv : v ∈ values) : v ∈ t.branches := by
  obtain ⟨i, entries, rfl, -, rfl⟩ := fields_eq_ok h
  obtain ⟨name, -, hname⟩ := List.mem_filterMap.mp hv
  obtain ⟨e, he, -, rfl⟩ := mem_branches_of_value? hname
  exact List.mem_flatMap.mpr ⟨e, he, by simp⟩

theorem length_fields {t : Branch} (h : t.fields kind names = .ok values) :
    values.length = names.length := by
  obtain ⟨i, entries, rfl, hflaws, rfl⟩ := fields_eq_ok h
  refine List.filterMap_length_eq_length.mpr fun name hname => ?_
  have hmissing := (List.append_eq_nil_iff.mp hflaws).2
  simp only [List.map_eq_nil_iff, List.filter_eq_nil_iff, decide_eq_true_eq, not_not] at hmissing
  obtain ⟨key, hkey, htext⟩ := List.mem_map.mp (hmissing name hname)
  obtain ⟨e, he, rfl⟩ := List.mem_map.mp hkey
  simp only [value?, Option.isSome_map, List.find?_isSome, decide_eq_true_eq]
  exact ⟨e, he, htext⟩

theorem fields_apart {t : Branch} (ht : (t.branches.flatMap numbers).Nodup) (hnames : names.Nodup)
    (h : t.fields kind names = .ok values) : (values.flatMap numbers).Nodup := by
  obtain ⟨i, entries, rfl, -, rfl⟩ := fields_eq_ok h
  rw [branches, List.flatMap_assoc] at ht
  obtain ⟨hentry, hentries⟩ := List.nodup_flatMap.mp ht
  have : Std.Symm (Function.onFun List.Disjoint
    fun e : Branch × Branch => [e.1, e.2].flatMap numbers) :=
    ⟨fun _ _ h => List.disjoint_symm h⟩
  refine List.nodup_flatMap.mpr ⟨fun v hv => ?_, List.pairwise_filterMap.mpr (hnames.imp ?_)⟩
  · obtain ⟨name, -, hname⟩ := List.mem_filterMap.mp hv
    obtain ⟨e, he, -, rfl⟩ := mem_branches_of_value? hname
    have := hentry e he
    simp only [List.flatMap_cons, List.flatMap_nil, List.append_nil] at this
    exact this.of_append_right
  · intro name name' hne v hv v' hv'
    obtain ⟨e, he, rfl, rfl⟩ := mem_branches_of_value? hv
    obtain ⟨e', he', rfl, rfl⟩ := mem_branches_of_value? hv'
    have hdisjoint := hentries.forall he he' fun heq => hne (heq ▸ rfl)
    simp only [Function.onFun, List.flatMap_cons, List.flatMap_nil, List.append_nil,
      List.disjoint_append_left, List.disjoint_append_right] at hdisjoint
    exact hdisjoint.2.2

theorem content_eq_ok {t : Branch} (h : t.content kind pattern = .ok (fs, parts)) :
    (fs = [] ∧ parts = []) ∨ (fs = t.nameFlaws kind ∧ parts = []) ∨
      (fs = [] ∧ ∃ i, t = .sequence i parts) ∨ (fs = [] ∧ parts = [t]) ∨
      ∃ names partNames values, (names ++ partNames).Nodup ∧
        t.fields kind (names ++ partNames) = .ok values ∧
        fs = ((names.zip values).flatMap fun v => v.2.nameFlaws (kind ++ " " ++ v.1)) ∧
        parts = values.drop names.length := by
  cases pattern with
  | integer =>
    simp only [content] at h
    split at h
    · cases h
      exact .inl ⟨rfl, rfl⟩
    · cases h
  | name =>
    cases h
    exact .inr (.inl ⟨rfl, rfl⟩)
  | list count =>
    cases hitems : t.items kind count with
    | error fs' => simp [content, hitems, Except.map] at h
    | ok items =>
      rw [content, hitems] at h
      cases h
      obtain ⟨i, ht, -⟩ := items_eq_ok hitems
      exact .inr (.inr (.inl ⟨rfl, i, ht⟩))
  | part =>
    cases h
    exact .inr (.inr (.inr (.inl ⟨rfl, rfl⟩)))
  | fields names partNames distinct =>
    cases hfields : t.fields kind (names ++ partNames) with
    | error fs' => simp [content, hfields, Except.map] at h
    | ok values =>
      rw [content, hfields] at h
      cases h
      exact .inr (.inr (.inr (.inr ⟨names, partNames, values, distinct, hfields, rfl, rfl⟩)))

theorem content_parts {t : Branch} (h : t.content kind pattern = .ok (fs, parts)) :
    (∀ p ∈ parts, p ∈ t.nodes) ∧ (t.numbers.Nodup → (parts.flatMap numbers).Nodup) := by
  obtain ⟨-, rfl⟩ | ⟨-, rfl⟩ | ⟨-, i, rfl⟩ | ⟨-, rfl⟩ |
    ⟨names, partNames, values, distinct, hfields, -, rfl⟩ :=
    content_eq_ok h
  · simp
  · simp
  · exact ⟨fun p hp => mem_nodes_of_branch hp p.mem_nodes_self, numbers_branches_nodup⟩
  · simp [mem_nodes_self]
  · refine ⟨fun p hp => ?_, fun ht => ?_⟩
    · exact mem_nodes_of_branch
        (mem_branches_of_fields hfields (List.mem_of_mem_drop hp)) p.mem_nodes_self
    · have hapart := fields_apart (numbers_branches_nodup ht) distinct hfields
      exact hapart.sublist ((List.drop_sublist _ _).flatMap numbers)

theorem layer_eq_ok {t : Branch} (h : t.layer = .ok (fs, parts)) :
    ∃ i key value pattern, t = .mapping i [(key, value)] ∧ pattern? key.text = some pattern ∧
      value.content key.text pattern = .ok (fs, parts) := by
  unfold layer at h
  split at h
  · split at h
    · exact ⟨_, _, _, _, rfl, ‹_›, h⟩
    · cases h
  · cases h

theorem layer_parts {t : Branch} (h : t.layer = .ok (fs, parts)) :
    ∃ value ∈ t.branches, (∀ p ∈ parts, p ∈ value.nodes) ∧
      (value.numbers.Nodup → (parts.flatMap numbers).Nodup) := by
  obtain ⟨i, key, value, pattern, rfl, -, hcontent⟩ := layer_eq_ok h
  exact ⟨value, by simp [branches], content_parts hcontent⟩

theorem sizeOf_lt_of_layer {t p : Branch} (h : t.layer = .ok (fs, parts)) (hp : p ∈ parts) :
    sizeOf p < sizeOf t := by
  obtain ⟨value, hvalue, hparts, -⟩ := layer_parts h
  exact Nat.lt_of_le_of_lt (sizeOf_le_of_mem_nodes (hparts p hp)) (sizeOf_lt_of_mem_branches hvalue)

theorem numbers_layer {t : Branch} (ht : t.numbers.Nodup) (h : t.layer = .ok (fs, parts))
    (hi : i ∈ parts.flatMap numbers) : i ∈ t.numbers ∧ i ≠ t.number := by
  obtain ⟨value, hvalue, hparts, -⟩ := layer_parts h
  obtain ⟨p, hp, hip⟩ := List.mem_flatMap.mp hi
  have hbelow : i ∈ t.branches.flatMap numbers :=
    List.mem_flatMap.mpr ⟨value, hvalue, numbers_subset (hparts p hp) hip⟩
  rw [numbers_eq] at ht ⊢
  exact ⟨.tail _ hbelow, fun heq => ht.notMem (heq ▸ hbelow)⟩

/-- What is wrong with a branch that should be an expression: its shape, or else its names and then
its parts. -/
def flaws (t : Branch) : List Finding :=
  match _h : t.layer with
  | .error fs => fs
  | .ok (fs, parts) => fs ++ parts.attach.flatMap fun p => p.1.flaws
termination_by sizeOf t
decreasing_by exact sizeOf_lt_of_layer _h p.2

theorem flaws_of_error {t : Branch} (h : t.layer = .error fs) : t.flaws = fs := by
  rw [flaws]
  split
  · simp_all
  · simp_all

theorem flaws_of_ok {t : Branch} (h : t.layer = .ok (fs, parts)) :
    t.flaws = fs ++ parts.flatMap flaws := by
  rw [flaws]
  split
  · simp_all
  · simp_all

theorem In.part {t p : Branch} (h : t.In g) (hp : p ∈ t.nodes) : p.In g := by
  obtain rfl | ⟨b, hb, hpb⟩ := mem_nodes.mp hp
  · exact h
  · exact (h.branch hb).part hpb
termination_by sizeOf t
decreasing_by exact sizeOf_lt_of_mem_branches hb

theorem In.layer {t : Branch} (h : t.In g) (hlayer : t.layer = .ok (fs, parts)) :
    (∀ p ∈ parts, p.In g) ∧ (parts.flatMap numbers).Nodup := by
  obtain ⟨value, hvalue, hparts, hapart⟩ := layer_parts hlayer
  have hin := h.branch hvalue
  exact ⟨fun p hp => hin.part (hparts p hp), hapart hin.apart⟩

-- ---------------------------------------------------------------------------
-- Which node is at fault
-- ---------------------------------------------------------------------------

def fieldNames (kind : String) : List String :=
  match pattern? kind with
  | some (.fields names parts _) => names ++ parts
  | _ => []

def Has (t : Branch) : Flaw → Prop
  | .notAnExpression => ∀ i key value, t ≠ .mapping i [(key, value)]
  | .unknownKind key => t.text = key ∧ pattern? key = none
  | .constNoScalar => ∀ i tag text, t ≠ .scalar i tag text
  | .constNoInteger text => (∃ i tag, t = .scalar i tag text) ∧ Number.int64? text = none
  | .noList kind count =>
    pattern? kind = some (.list count) ∧ ∀ i items, t = .sequence i items → items.length ≠ count
  | .noFields kind names => fieldNames kind = names ∧ ∀ i entries, t ≠ .mapping i entries
  | .unknownField name kind => t.text = name ∧ name ∉ fieldNames kind
  | .duplicateField name kind => t.text = name ∧ name ∈ fieldNames kind
  | .missingField name kind =>
    name ∈ fieldNames kind ∧ ∃ i entries, t = .mapping i entries ∧ ∀ e ∈ entries, e.1.text ≠ name
  | .noName _ => ∀ i text, t = .scalar i .str text → text = ""
  | .recursiveAlias => False

def Shows (t : Branch) (f : Finding) : Prop := ∃ b ∈ t.nodes, b.number = f.2 ∧ b.Has f.1

theorem Shows.self {t : Branch} (h : t.Has flaw) : t.Shows (flaw, t.number) :=
  ⟨t, t.mem_nodes_self, rfl, h⟩

theorem Shows.mono {t b : Branch} (hb : b ∈ t.nodes) (h : b.Shows f) : t.Shows f := by
  obtain ⟨c, hc, hf⟩ := h
  exact ⟨c, nodes_trans hb hc, hf⟩

theorem Shows.branch {t b : Branch} (hb : b ∈ t.branches) (h : b.Shows f) : t.Shows f :=
  h.mono (mem_nodes_of_branch hb b.mem_nodes_self)

theorem nameFlaws_shows {t : Branch} (hf : f ∈ t.nameFlaws role) : t.Shows f := by
  cases t with
  | scalar i tag text =>
    simp only [nameFlaws] at hf
    split at hf
    · cases hf
    · obtain rfl := List.mem_singleton.mp hf
      refine .self fun i text heq => ?_
      cases heq
      simp_all
  | _ =>
    obtain rfl := List.mem_singleton.mp hf
    exact .self nofun

theorem integerFlaws_shows {t : Branch} (hf : f ∈ t.integerFlaws) : t.Shows f := by
  cases t with
  | scalar i tag text =>
    simp only [integerFlaws] at hf
    split at hf
    · cases hf
    · obtain rfl := List.mem_singleton.mp hf
      exact .self ⟨⟨i, tag, rfl⟩, by simp_all⟩
  | _ =>
    obtain rfl := List.mem_singleton.mp hf
    exact .self nofun

theorem items_shows {t : Branch}
    (hkind : pattern? kind = some (.list count)) (h : t.items kind count = .error fs)
    (hf : f ∈ fs) : t.Shows f := by
  cases t with
  | sequence i branches =>
    simp only [items] at h
    split at h
    · cases h
    · rename_i hlength
      cases h
      obtain rfl := List.mem_singleton.mp hf
      refine .self ⟨hkind, fun i items heq => ?_⟩
      cases heq
      exact hlength
  | _ =>
    cases h
    obtain rfl := List.mem_singleton.mp hf
    exact .self ⟨hkind, nofun⟩

theorem keyFlaw?_has (h : keyFlaw? kind (fieldNames kind) key before = some f) :
    f.2 = key.number ∧ key.Has f.1 := by
  unfold keyFlaw? at h
  split at h
  · rename_i hunknown
    cases h
    exact ⟨rfl, rfl, hunknown⟩
  · rename_i hknown
    split at h
    · cases h
      exact ⟨rfl, rfl, not_not.mp hknown⟩
    · cases h

theorem fields_shows {t : Branch} (h : t.fields kind (fieldNames kind) = .error fs) (hf : f ∈ fs) :
    t.Shows f := by
  cases t with
  | mapping i entries =>
    simp only [fields] at h
    split at h
    · cases h
    · cases h
      obtain hkey | hmissing := List.mem_append.mp hf
      · obtain ⟨⟨key, before⟩, hmem, hflaw⟩ := List.mem_filterMap.mp hkey
        obtain ⟨e, he, rfl⟩ := List.mem_map.mp (List.of_mem_zip hmem).1
        obtain ⟨hnumber, hhas⟩ := keyFlaw?_has hflaw
        have hbranch : e.1 ∈ (mapping i entries).branches := List.mem_flatMap.mpr ⟨e, he, by simp⟩
        exact ⟨e.1, mem_nodes_of_branch hbranch e.1.mem_nodes_self, hnumber.symm, hhas⟩
      · obtain ⟨name, hname, rfl⟩ := List.mem_map.mp hmissing
        obtain ⟨hname, habsent⟩ := List.mem_filter.mp hname
        refine .self ⟨hname, i, entries, rfl, fun e he heq => ?_⟩
        exact of_decide_eq_true habsent (List.mem_map.mpr ⟨e.1, List.mem_map_of_mem he, heq⟩)
  | _ =>
    cases h
    obtain rfl := List.mem_singleton.mp hf
    exact .self ⟨rfl, nofun⟩

theorem content_error_shows {t : Branch} (hkind : pattern? kind = some pattern)
    (h : t.content kind pattern = .error fs) (hf : f ∈ fs) : t.Shows f := by
  cases pattern with
  | integer =>
    simp only [content] at h
    split at h
    · cases h
    · cases h
      exact integerFlaws_shows hf
  | name => cases h
  | list count =>
    cases hitems : t.items kind count with
    | error fs' =>
      rw [content, hitems] at h
      cases h
      exact items_shows hkind hitems hf
    | ok parts => simp [content, hitems, Except.map] at h
  | part => cases h
  | fields names parts distinct =>
    have hnames : fieldNames kind = names ++ parts := by rw [fieldNames, hkind]
    cases hfields : t.fields kind (names ++ parts) with
    | error fs' =>
      rw [content, hfields] at h
      cases h
      exact fields_shows (hnames ▸ hfields) hf
    | ok values => simp [content, hfields, Except.map] at h

theorem content_ok_shows {t : Branch} (h : t.content kind pattern = .ok (fs, parts)) (hf : f ∈ fs) :
    t.Shows f := by
  obtain ⟨rfl, -⟩ | ⟨rfl, -⟩ | ⟨rfl, -⟩ | ⟨rfl, -⟩ |
    ⟨names, partNames, values, -, hfields, rfl, -⟩ := content_eq_ok h
  · cases hf
  · exact nameFlaws_shows hf
  · cases hf
  · cases hf
  · obtain ⟨v, hv, hflaw⟩ := List.mem_flatMap.mp hf
    exact (nameFlaws_shows hflaw).branch (mem_branches_of_fields hfields (List.of_mem_zip hv).2)

theorem layer_error_shows {t : Branch} (h : t.layer = .error fs) (hf : f ∈ fs) : t.Shows f := by
  unfold layer at h
  split at h
  · rename_i i key value
    split at h
    · rename_i hkind
      exact (content_error_shows hkind h hf).branch (by simp [branches])
    · rename_i hkind
      cases h
      obtain rfl := List.mem_singleton.mp hf
      have hkey : key.Shows (.unknownKind key.text, key.number) := .self ⟨rfl, hkind⟩
      exact hkey.branch (by simp [branches])
  · rename_i hshape
    cases h
    obtain rfl := List.mem_singleton.mp hf
    exact .self hshape

theorem layer_ok_shows {t : Branch} (h : t.layer = .ok (fs, parts)) (hf : f ∈ fs) : t.Shows f := by
  obtain ⟨i, key, value, pattern, rfl, -, hcontent⟩ := layer_eq_ok h
  exact (content_ok_shows hcontent hf).branch (by simp [branches])

theorem flaws_shows {t : Branch} (hf : f ∈ t.flaws) : t.Shows f := by
  cases hlayer : t.layer with
  | error fs =>
    rw [flaws_of_error hlayer] at hf
    exact layer_error_shows hlayer hf
  | ok r =>
    rw [flaws_of_ok hlayer] at hf
    obtain hname | hpart := List.mem_append.mp hf
    · exact layer_ok_shows hlayer hname
    · obtain ⟨p, hp, hflaw⟩ := List.mem_flatMap.mp hpart
      obtain ⟨value, hvalue, hparts, -⟩ := layer_parts hlayer
      exact ((flaws_shows hflaw).mono (hparts p hp)).branch hvalue
termination_by sizeOf t
decreasing_by exact sizeOf_lt_of_layer hlayer hp

end Branch

end Letrec.Yaml
