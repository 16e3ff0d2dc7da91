import Letrec.Proofs.Expr.Decode
import Letrec.Proofs.Expr.Likeness

/-!
# Reading undoes writing

A graph that has the document of an expression at its root is read as an expression that is alike.
This holds of the graph of the document itself, for every name and every constant. It holds of the
text of the document as well if the text is read as the document it was written for.
-/

namespace Letrec

open Yaml (Graph Tree)
open Yaml.Graph (holdsItems_nil holdsItems_cons)

def Yaml.Tree.ReadsBack (t : Tree) : Prop :=
  ∃ g, Yaml.read (.ofBytes (t.render 2).toUTF8) = .ok (some g) ∧ g.Holds g.root t

-- The name of a merge key is written plain, and what is read is no text.
theorem Yaml.Tree.not_readsBack_merge : ¬ (Expr.leaf "var" (Tree.str "<<")).ReadsBack := by
  rintro ⟨g, hread, es, hshape, hes⟩
  have hg : Yaml.read (.ofBytes ((Expr.leaf "var" (Tree.str "<<")).render 2).toUTF8) = .ok (some
      { root := 0
        nodes := #[⟨.map, .mapping [(1, 2)], 1, 1⟩, ⟨.str, .scalar "var", 1, 2⟩,
          ⟨.merge, .scalar "<<", 1, 7⟩] }) := by
    decide +kernel
  rw [hg] at hread
  cases hread
  cases hshape
  exact absurd (hes.2.1.2 rfl) nofun

namespace Expr

variable {g : Graph} {tree : Nat} {file : String} {i : Nat}

def DerivesLike (g : Graph) (tree : Nat) (file : String) (i : Nat) (e : Expr) : Prop :=
  ∃ e', Derives g tree file i e' ∧ e'.bare = e.bare

theorem derivesLike_iff : DerivesLike g tree file i e ↔
    (∃ e', Derives g tree file i e') ∧ (reading g tree file i).bare = e.bare := by
  constructor
  · rintro ⟨e', he', hbare⟩
    exact ⟨⟨e', he'⟩, by rw [he'.reading_eq, hbare]⟩
  · rintro ⟨hex, hbare⟩
    exact ⟨_, derives_reading hex, hbare⟩

/-- The form is that of the expression, with `P` between its nodes and the sub-expressions. -/
inductive Form.Matches (P : Nat → Expr → Prop) : Form → Expr → Prop
  | const : Matches P (.const n) (.const o n)
  | var : Matches P (.var x) (.var o x)
  | diff (hl : P l a) (hr : P r b) : Matches P (.diff l r) (.diff o a b)
  | zeroTest (h : P l a) : Matches P (.zeroTest l) (.zeroTest o a)
  | ifThenElse (ht : P l a) (hy : P m b) (hn : P r c) :
      Matches P (.ifThenElse l m r) (.ifThenElse o a b c)
  | letIn (hv : P l a) (hb : P r b) : Matches P (.letIn x l r) (.letIn o x a b)
  | letRec (hp : P l a) (hb : P r b) : Matches P (.letRec f x l r) (.letRec o f x a b)
  | proc (hb : P l a) : Matches P (.proc x l) (.proc o x a)
  | call (hp : P l a) (ha : P r b) : Matches P (.call l r) (.call o a b)

theorem Layer.derivesLike (hlayer : Layer g i form)
    (h : form.Matches (fun c a => DerivesLike g tree file (g.follow c) a) e) :
    DerivesLike g tree file i e := by
  simp only [derivesLike_iff] at h
  refine ⟨_, hlayer.derives ?_, ?_⟩
  · cases h <;> simp_all [Form.children]
  · cases h <;> simp_all [Form.build, bare]

theorem derivesLike_of_holds (tree : Nat) (file : String) {e : Expr} (he : e.Complete)
    (ht : e.encode = .ok t) (h : g.Holds i t) : DerivesLike g tree file (g.follow i) e := by
  induction e generalizing t i with
  | const o n =>
    cases ht
    rw [h.follow]
    obtain ⟨v, hentry, hv⟩ := h.entry
    exact (Layer.const hentry hv.text (Number.numeral_toString _)).derivesLike .const
  | var o x =>
    cases ht
    rw [h.follow]
    obtain ⟨v, hentry, hv⟩ := h.entry
    exact (Layer.var hentry (hv.name he)).derivesLike .var
  | diff o left right ihl ihr =>
    simp only [encode, bind_eq_ok, pure, Except.pure, Except.ok.injEq] at ht
    obtain ⟨a, ha, b, hb, rfl⟩ := ht
    rw [h.follow]
    obtain ⟨v, is, hentry, hitems, his⟩ := h.list
    simp only [holdsItems_cons, holdsItems_nil] at his
    obtain ⟨l, _, rfl, hl, r, _, rfl, hr, rfl⟩ := his
    exact (Layer.diff hentry hitems).derivesLike (.diff (ihl he.1 ha hl) (ihr he.2 hb hr))
  | zeroTest o operand ih =>
    simp only [encode, bind_eq_ok, pure, Except.pure, Except.ok.injEq] at ht
    obtain ⟨a, ha, rfl⟩ := ht
    rw [h.follow]
    obtain ⟨v, hentry, hv⟩ := h.entry
    exact (Layer.zeroTest hentry).derivesLike (.zeroTest (ih he ha hv))
  | ifThenElse o test yes no iht ihy ihn =>
    simp only [encode, bind_eq_ok, pure, Except.pure, Except.ok.injEq] at ht
    obtain ⟨a, ha, b, hb, c, hc, rfl⟩ := ht
    obtain ⟨hetest, heyes, heno⟩ := he
    rw [h.follow]
    obtain ⟨v, is, hentry, hitems, his⟩ := h.list
    simp only [holdsItems_cons, holdsItems_nil] at his
    obtain ⟨j, _, rfl, hj, k, _, rfl, hk, l, _, rfl, hl, rfl⟩ := his
    refine (Layer.ifThenElse hentry hitems).derivesLike (.ifThenElse ?_ ?_ ?_)
    · exact iht hetest ha hj
    · exact ihy heyes hb hk
    · exact ihn heno hc hl
  | letIn o x value body ihv ihb =>
    simp only [encode, bind_eq_ok, encode_field_eq_ok, pure, Except.pure, Except.ok.injEq] at ht
    obtain ⟨a, ha, b, hb, rfl⟩ := ht
    obtain ⟨hx, hevalue, hebody⟩ := he
    rw [h.follow]
    obtain ⟨v, values, hentry, hfields, hvalues⟩ := h.record
    simp only [List.map, holdsItems_cons, holdsItems_nil] at hvalues
    obtain ⟨n, _, rfl, hn, j, _, rfl, hj, k, _, rfl, hk, rfl⟩ := hvalues
    refine (Layer.letIn hentry hfields (hn.name hx)).derivesLike (.letIn ?_ ?_)
    · exact ihv hevalue ha hj
    · exact ihb hebody hb hk
  | letRec o f x procBody body ihp ihb =>
    simp only [encode, bind_eq_ok, encode_field_eq_ok, pure, Except.pure, Except.ok.injEq] at ht
    obtain ⟨a, ha, b, hb, rfl⟩ := ht
    obtain ⟨hf, hx, heproc, hebody⟩ := he
    rw [h.follow]
    obtain ⟨v, values, hentry, hfields, hvalues⟩ := h.record
    simp only [List.map, holdsItems_cons, holdsItems_nil] at hvalues
    obtain ⟨n, _, rfl, hn, p, _, rfl, hp, j, _, rfl, hj, k, _, rfl, hk, rfl⟩ := hvalues
    refine (Layer.letRec hentry hfields (hn.name hf) (hp.name hx)).derivesLike (.letRec ?_ ?_)
    · exact ihp heproc ha hj
    · exact ihb hebody hb hk
  | proc o x body ih =>
    simp only [encode, bind_eq_ok, encode_field_eq_ok, pure, Except.pure, Except.ok.injEq] at ht
    obtain ⟨a, ha, rfl⟩ := ht
    rw [h.follow]
    obtain ⟨v, values, hentry, hfields, hvalues⟩ := h.record
    simp only [List.map, holdsItems_cons, holdsItems_nil] at hvalues
    obtain ⟨p, _, rfl, hp, j, _, rfl, hj, rfl⟩ := hvalues
    exact (Layer.proc hentry hfields (hp.name he.1)).derivesLike (.proc (ih he.2 ha hj))
  | call o operator operand ihp ihe =>
    simp only [encode, bind_eq_ok, pure, Except.pure, Except.ok.injEq] at ht
    obtain ⟨a, ha, b, hb, rfl⟩ := ht
    rw [h.follow]
    obtain ⟨v, is, hentry, hitems, his⟩ := h.list
    simp only [holdsItems_cons, holdsItems_nil] at his
    obtain ⟨l, _, rfl, hl, r, _, rfl, hr, rfl⟩ := his
    exact (Layer.call hentry hitems).derivesLike (.call (ihp he.1 ha hl) (ihe he.2 hb hr))
  | absent => exact he.elim

theorem decode_of_holds {e : Expr} (he : e.Complete) (ht : e.encode = .ok t) (h : g.Holds g.root t)
    (tree : Nat) (file : String) : ∃ e', decode g tree file = .ok e' ∧ e'.bare = e.bare := by
  obtain ⟨e', hderives, hbare⟩ := derivesLike_of_holds tree file he ht h
  exact ⟨e', decode_of_derives hderives, hbare⟩

theorem ofText_of_readsBack {e : Expr} (he : e.Complete) (ht : e.encode = .ok t) (h : t.ReadsBack)
    (tree : Nat) (file : String) :
    ∃ e', ofText (.ofBytes (t.render 2).toUTF8) tree file = .ok e' ∧ e'.bare = e.bare := by
  obtain ⟨g, hread, hholds⟩ := h
  obtain ⟨e', he', hbare⟩ := decode_of_holds he ht hholds tree file
  exact ⟨e', ofText_eq_ok.mpr ⟨g, hread, he'⟩, hbare⟩

/-- An expression has a document unless something is missing in it. If its names are not empty
either, its document is read as an expression like it, wherever it stands; and so is the text of the
document, if that is read as the document. -/
theorem reading_undoes_writing (e : Expr) :
    ((∃ err, e.encode = .error err) ↔ .absent ∈ e.nodes) ∧
    (e.Complete → ∃ t, e.encode = .ok t ∧ ∀ tree file,
      (∃ e', decode t.toGraph tree file = .ok e' ∧ e.alike e') ∧
      (∀ g : Graph, g.Holds g.root t → ∃ e', decode g tree file = .ok e' ∧ e.alike e') ∧
      (t.ReadsBack → ∃ e', ofText (.ofBytes (t.render 2).toUTF8) tree file = .ok e' ∧
        e.alike e')) := by
  constructor
  · rw [← not_iff_not, ← exists_encode]
    cases e.encode <;> simp
  · intro he
    obtain ⟨t, ht⟩ := exists_encode.mpr he.absent_not_mem
    have halike {r : Except (List Diagnostic) Expr} (h : ∃ e', r = .ok e' ∧ e'.bare = e.bare) :
        ∃ e', r = .ok e' ∧ e.alike e' := by
      obtain ⟨e', hr, hbare⟩ := h
      exact ⟨e', hr, alike_iff.mpr hbare.symm⟩
    refine ⟨t, ht, fun tree file => ⟨?_, fun g hg => ?_, fun hback => ?_⟩⟩
    · exact halike (decode_of_holds he ht t.toGraph_holds tree file)
    · exact halike (decode_of_holds he ht hg tree file)
    · exact halike (ofText_of_readsBack he ht hback tree file)

def oddDiff : Expr := .diff default (.var default "null") (.const default (-9223372036854775808))

theorem oddDiff_readsBack (ht : oddDiff.encode = .ok t) : t.ReadsBack := by
  cases ht
  refine ⟨{ root := 0, nodes := #[⟨.map, .mapping [(1, 2)], 1, 1⟩, ⟨.str, .scalar "diff", 1, 1⟩,
    ⟨.seq, .sequence [3, 6], 2, 3⟩, ⟨.map, .mapping [(4, 5)], 2, 5⟩, ⟨.str, .scalar "var", 2, 6⟩,
    ⟨.str, .scalar "null", 2, 11⟩, ⟨.map, .mapping [(7, 8)], 3, 5⟩, ⟨.str, .scalar "const", 3, 6⟩,
    ⟨.int, .scalar "-9223372036854775808", 3, 13⟩] }, by decide +kernel, ?_⟩
  exact ⟨_, rfl, ⟨rfl, fun _ => rfl⟩,
    ⟨_, rfl, ⟨_, rfl, ⟨rfl, fun _ => rfl⟩, ⟨rfl, fun _ => rfl⟩, trivial⟩,
    ⟨_, rfl, ⟨rfl, fun _ => rfl⟩, ⟨rfl, nofun⟩, trivial⟩, trivial⟩, trivial⟩

theorem reading_undoes_writing_odd :
    (∃ t, (Expr.proc default "<<" (.var default "<<")).encode = .ok t ∧
      ∃ e', decode t.toGraph 1 "f" = .ok e' ∧
        (Expr.proc default "<<" (.var default "<<")).alike e') ∧
    ∃ t, oddDiff.encode = .ok t ∧
      ∃ e', ofText (.ofBytes (t.render 2).toUTF8) 1 "f" = .ok e' ∧ oddDiff.alike e' := by
  constructor
  · obtain ⟨t, ht, h⟩ :=
      (reading_undoes_writing (.proc default "<<" (.var default "<<"))).2 (by decide)
    exact ⟨t, ht, (h 1 "f").1⟩
  · obtain ⟨t, ht, h⟩ := (reading_undoes_writing oddDiff).2 (by decide)
    exact ⟨t, ht, (h 1 "f").2.2 (oddDiff_readsBack ht)⟩

end Expr

end Letrec
