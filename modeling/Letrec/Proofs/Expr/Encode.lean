import Letrec.Expr.Encode
import Letrec.Proofs.Expr.Grammar

/-!
# The documents of expressions

An expression has a document if nothing is missing in it. `Holds` says that a graph has a tree at a
node, in whatever way it came there: shapes and texts are those of the tree, and what is to be a
text is tagged as one. Tags of other scalars, places and the order in which nodes are numbered are
left open.
-/

namespace Letrec

open Yaml (Graph Tree)

namespace Expr

theorem encode_field_eq_ok {e : Expr} {name kind : String} :
    encode.field name kind e e.encode = .ok t ↔ e.encode = .ok t := by
  cases e <;> simp [encode.field, encode]

/-- What is missing is all that keeps an expression from having a document. -/
theorem exists_encode {e : Expr} : (∃ t, e.encode = .ok t) ↔ .absent ∉ e.nodes := by
  induction e with
  | const | var | absent => simp [encode, nodes]
  | _ => simp_all [encode, nodes, bind_eq_ok, encode_field_eq_ok, pure, Except.pure]

theorem Complete.absent_not_mem {e : Expr} (h : e.Complete) : .absent ∉ e.nodes := by
  induction e <;> simp_all [Complete, nodes]

end Expr

-- ---------------------------------------------------------------------------
-- Trees in graphs
-- ---------------------------------------------------------------------------

namespace Yaml

namespace Graph

mutual
def Holds (g : Graph) (i : Nat) : Tree → Prop
  | .scalar tag text => (g.node i).shape = .scalar text ∧ (tag = .str → (g.node i).tag = .str)
  | .sequence items => ∃ is, (g.node i).shape = .sequence is ∧ g.HoldsItems is items
  | .mapping _ entries => ∃ es, (g.node i).shape = .mapping es ∧ g.HoldsEntries es entries

def HoldsItems (g : Graph) : List Nat → List Tree → Prop
  | [], [] => True
  | i :: is, item :: rest => g.Holds i item ∧ g.HoldsItems is rest
  | _, _ => False

def HoldsEntries (g : Graph) : List (Nat × Nat) → List (Tree × Tree) → Prop
  | [], [] => True
  | (k, v) :: es, (key, value) :: rest => g.Holds k key ∧ g.Holds v value ∧ g.HoldsEntries es rest
  | _, _ => False
end

variable {g : Graph} {i : Nat} {inline : Bool}

theorem holdsItems_nil : g.HoldsItems is [] ↔ is = [] := by
  cases is <;> simp [HoldsItems]

theorem holdsItems_cons :
    g.HoldsItems is (t :: rest) ↔ ∃ i js, is = i :: js ∧ g.Holds i t ∧ g.HoldsItems js rest := by
  cases is <;> simp [HoldsItems]

theorem Holds.follow {t : Tree} (h : g.Holds i t) : g.follow i = i := by
  cases t with
  | scalar => simp [Graph.follow, h.1]
  | sequence =>
    obtain ⟨is, hshape, _⟩ := h
    simp [Graph.follow, hshape]
  | mapping =>
    obtain ⟨es, hshape, _⟩ := h
    simp [Graph.follow, hshape]

theorem Holds.key_text (h : g.Holds i (Tree.str key)) : (g.node i).text = key := by
  simp [Node.text, h.1]

theorem Holds.entry (h : g.Holds i (.mapping inline [(Tree.str key, value)])) :
    ∃ v, g.Entry i key v ∧ g.Holds v value := by
  obtain ⟨es, hshape, hes⟩ := h
  match es, hes with
  | [(k, v)], ⟨hk, hv, _⟩ => exact ⟨v, ⟨k, hshape, hk.key_text⟩, hv⟩

theorem Holds.items (h : g.Holds i (.sequence ts)) : ∃ is, g.Items i is ∧ g.HoldsItems is ts := by
  obtain ⟨is, hshape, his⟩ := id h
  exact ⟨is, by rw [Items, h.follow, hshape], his⟩

theorem HoldsEntries.zip : ∀ {es : List (Nat × Nat)} {fields : List (String × Tree)},
    g.HoldsEntries es (fields.map fun f => (Tree.str f.1, f.2)) →
      (es.map fun e => ((g.node e.1).text, e.2)) = (fields.map Prod.fst).zip (es.map Prod.snd) ∧
      g.HoldsItems (es.map Prod.snd) (fields.map Prod.snd)
  | [], [], _ => ⟨rfl, trivial⟩
  | (k, v) :: es, (key, value) :: fields, ⟨hk, hv, hes⟩ => by
    obtain ⟨hzip, hitems⟩ := HoldsEntries.zip hes
    exact ⟨by simp [hzip, hk.key_text], hv, hitems⟩

theorem Holds.fields {fields : List (String × Tree)}
    (h : g.Holds i (.mapping inline (fields.map fun f => (Tree.str f.1, f.2)))) :
    ∃ values, g.Fields i ((fields.map Prod.fst).zip values) ∧
      g.HoldsItems values (fields.map Prod.snd) := by
  obtain ⟨es, hshape, hes⟩ := id h
  obtain ⟨hzip, hitems⟩ := hes.zip
  refine ⟨es.map Prod.snd, ⟨es, by rw [h.follow, hshape], ?_⟩, hitems⟩
  rw [hzip]

theorem Holds.list (h : g.Holds i (Tree.single kind (.sequence ts))) :
    ∃ v is, g.Entry i kind v ∧ g.Items v is ∧ g.HoldsItems is ts := by
  obtain ⟨v, hentry, hv⟩ := h.entry
  obtain ⟨is, hitems, his⟩ := hv.items
  exact ⟨v, is, hentry, hitems, his⟩

theorem Holds.record {fields : List (String × Tree)}
    (h : g.Holds i (Expr.encode.record kind fields)) :
    ∃ v values, g.Entry i kind v ∧ g.Fields v ((fields.map Prod.fst).zip values) ∧
      g.HoldsItems values (fields.map Prod.snd) := by
  obtain ⟨v, hentry, hv⟩ := h.entry
  obtain ⟨values, hfields, hvalues⟩ := hv.fields
  exact ⟨v, values, hentry, hfields, hvalues⟩

theorem Holds.text (h : g.Holds i (.scalar tag x)) : g.Text i x := by
  rw [Text, h.follow]
  exact h.1

theorem Holds.name (h : g.Holds i (Tree.str x)) (hx : x ≠ "") : g.Name i x :=
  ⟨h.text, by rw [h.follow]; exact h.2 rfl, hx⟩

end Graph

def Extends (before after : Array Node) : Prop :=
  ∀ (i : Nat) n, before[i]? = some n → after[i]? = some n

theorem Extends.trans (h : Extends a b) (h' : Extends b c) : Extends a c :=
  fun i n hi => h' i n (h i n hi)

theorem Extends.push {nodes : Array Node} {n : Node} : Extends nodes (nodes.push n) := by
  intro i m hi
  obtain ⟨hlt, _⟩ := Array.getElem?_eq_some_iff.mp hi
  rwa [Array.getElem?_push_lt hlt, ← Array.getElem?_eq_getElem hlt]

theorem Extends.node_last {g : Graph} {nodes : Array Node} (h : Extends (nodes.push n) g.nodes) :
    g.node nodes.size = n := by
  have hn := h nodes.size n (by simp)
  simp [Graph.node, hn]

namespace Tree

mutual
theorem addTo_extends (nodes : Array Node) : ∀ t : Tree, Extends nodes (t.addTo nodes).1
  | .scalar .. => .push
  | .sequence items => (addItems_extends nodes items).trans .push
  | .mapping _ entries => (addEntries_extends nodes entries).trans .push

theorem addItems_extends (nodes : Array Node) :
    ∀ items : List Tree, Extends nodes (addItems nodes items).1
  | [] => fun _ _ h => h
  | item :: rest => (addTo_extends nodes item).trans (addItems_extends _ rest)

theorem addEntries_extends (nodes : Array Node) :
    ∀ entries : List (Tree × Tree), Extends nodes (addEntries nodes entries).1
  | [] => fun _ _ h => h
  | (key, value) :: rest =>
    (addTo_extends nodes key).trans ((addTo_extends _ value).trans (addEntries_extends _ rest))
end

mutual
theorem addTo_holds {g : Graph} {nodes : Array Node} :
    ∀ {t : Tree}, Extends (t.addTo nodes).1 g.nodes → g.Holds (t.addTo nodes).2 t
  | .scalar tag text, h => by
    have hnode : g.node nodes.size = ⟨tag, .scalar text, 0, 0⟩ := Extends.node_last h
    simp [addTo, Graph.Holds, hnode]
  | .sequence items, h => by
    exact ⟨_, congrArg Node.shape (Extends.node_last h), addItems_holds (Extends.push.trans h)⟩
  | .mapping _ entries, h => by
    exact ⟨_, congrArg Node.shape (Extends.node_last h), addEntries_holds (Extends.push.trans h)⟩

theorem addItems_holds {g : Graph} {nodes : Array Node} :
    ∀ {items : List Tree}, Extends (addItems nodes items).1 g.nodes →
      g.HoldsItems (addItems nodes items).2 items
  | [], _ => trivial
  | _ :: rest, h => ⟨addTo_holds ((addItems_extends _ rest).trans h), addItems_holds h⟩

theorem addEntries_holds {g : Graph} {nodes : Array Node} :
    ∀ {entries : List (Tree × Tree)}, Extends (addEntries nodes entries).1 g.nodes →
      g.HoldsEntries (addEntries nodes entries).2 entries
  | [], _ => trivial
  | (_, value) :: rest, h =>
    have hrest := (addEntries_extends _ rest).trans h
    ⟨addTo_holds ((addTo_extends _ value).trans hrest), addTo_holds hrest, addEntries_holds h⟩
end

theorem toGraph_holds (t : Tree) : t.toGraph.Holds t.toGraph.root t := addTo_holds fun _ _ h => h

end Tree

end Yaml

end Letrec
