import Letrec.Expr.Encode
import Letrec.Proofs.Expr.Positions
import Letrec.Proofs.Scope.Free

/-!
# Expressions that are alike

Expressions are alike if they are the same but for the places and identities of their nodes, that
is, if they are the same when bare, or if their nodes have the same labels at the same positions.
Documents and textbook notation, names and free variables are the same for what is alike.
-/

namespace Letrec.Expr

theorem alike_iff {e e' : Expr} : e.alike e' ↔ e.bare = e'.bare := by
  induction e generalizing e' <;> cases e' <;> simp [alike, bare, and_assoc, *]

theorem encode_field_bare (e : Expr) (name kind : String) (r : Except EncodeError Yaml.Tree) :
    encode.field name kind e.bare r = encode.field name kind e r := by
  cases e <;> rfl

theorem encode_bare (e : Expr) : e.bare.encode = e.encode := by
  induction e <;> simp only [bare, encode, encode_field_bare, *]

theorem toText_bare (e : Expr) : e.bare.toText = e.toText := by
  rw [toText, toText, encode_bare]

theorem layout_bare (e : Expr) : e.bare.layout depth = e.layout depth := by
  induction e generalizing depth with
  | const | var | absent => rfl
  | _ =>
    conv => lhs; rw [bare, layout.eq_def]
    conv => rhs; rw [layout.eq_def]
    simp only [*]

theorem format_bare (e : Expr) : e.bare.format = e.format := by
  rw [format, format, layout_bare]

theorem inline_bare (e : Expr) : e.bare.inline = e.inline := by
  rw [inline, inline, layout_bare]

theorem complete_bare {e : Expr} : e.bare.Complete ↔ e.Complete := by
  induction e <;> simp_all [bare, Complete]

theorem free_bare (e : Expr) : e.bare.free = e.free := by
  induction e <;> simp_all [bare, free]

theorem scoped_bare {e : Expr} : e.bare.Scoped names ↔ e.Scoped names := by
  rw [scoped_iff, scoped_iff, complete_bare, free_bare]

-- ---------------------------------------------------------------------------
-- Position by position
-- ---------------------------------------------------------------------------

theorem label_bare (e : Expr) : e.bare.label = e.label := by
  cases e <;> rfl

theorem origin?_bare (e : Expr) :
    e.bare.origin? = if e.label = .absent then none else some default := by
  cases e <;> rfl

theorem children_bare (e : Expr) : e.bare.children = e.children.map bare := by
  cases e <;> rfl

theorem at?_bare (e : Expr) : e.bare.at? p = (e.at? p).map bare := by
  induction p generalizing e with
  | nil => rfl
  | cons k p ih =>
    simp only [at?, children_bare, List.getElem?_map, Option.bind_map, Option.map_bind,
      Function.comp_def, ih]

theorem labelAt?_bare (e : Expr) : e.bare.labelAt? p = e.labelAt? p := by
  simp only [labelAt?, at?_bare, Option.map_map, Function.comp_def, label_bare]

theorem originAt?_bare (e : Expr) : e.bare.originAt? p =
    (e.labelAt? p).bind fun l => if l = .absent then none else some default := by
  simp only [originAt?, labelAt?, at?_bare, Option.bind_map, Function.comp_def, origin?_bare]

theorem bare_eq_iff_labelAt? {a b : Expr} : a.bare = b.bare ↔ ∀ p, a.labelAt? p = b.labelAt? p := by
  constructor
  · intro h p
    rw [← labelAt?_bare a, h, labelAt?_bare b]
  · intro h
    refine ext_at? (fun p => ?_) (fun p => ?_)
    · rw [labelAt?_bare, labelAt?_bare, h]
    · rw [originAt?_bare, originAt?_bare, h]

theorem eq_iff_bare_originAt? {a b : Expr} :
    a = b ↔ a.bare = b.bare ∧ ∀ p, a.originAt? p = b.originAt? p := by
  constructor
  · rintro rfl
    exact ⟨rfl, fun _ => rfl⟩
  · rintro ⟨hbare, horigin⟩
    exact ext_at? (bare_eq_iff_labelAt?.mp hbare) horigin

/-- Expressions are alike exactly if they are the same when bare, which leaves out the origins of
nodes and nothing else. This is an equivalence, and what is alike is written alike. -/
theorem likeness_is_equality_up_to_origins (a b c : Expr) :
    (a.alike b ↔ a.bare = b.bare) ∧
    (a.alike b ↔ ∀ p, a.labelAt? p = b.labelAt? p) ∧
    (a = b ↔ a.alike b ∧ ∀ p, a.originAt? p = b.originAt? p) ∧
    a.alike a ∧ (a.alike b → b.alike a) ∧ (a.alike b → b.alike c → a.alike c) ∧
    (a.alike b → a.format = b.format ∧ a.inline = b.inline ∧ a.encode = b.encode) := by
  refine ⟨alike_iff, alike_iff.trans bare_eq_iff_labelAt?, ?_, alike_iff.mpr rfl, fun h => ?_,
    fun h h' => ?_, fun h => ?_⟩
  · rw [alike_iff]
    exact eq_iff_bare_originAt?
  · exact alike_iff.mpr (alike_iff.mp h).symm
  · exact alike_iff.mpr ((alike_iff.mp h).trans (alike_iff.mp h'))
  · rw [alike_iff] at h
    refine ⟨?_, ?_, ?_⟩
    · rw [← a.format_bare, h, b.format_bare]
    · rw [← a.inline_bare, h, b.inline_bare]
    · rw [← a.encode_bare, h, b.encode_bare]

/-- One node that stands on both sides of a difference is like two nodes of the same name. -/
theorem likeness_is_equality_up_to_origins_shared :
    let x : Expr := .var ⟨⟨1, 2⟩, ⟨"f", 1, 9⟩⟩ "x"
    let a : Expr := .letIn ⟨⟨1, 0⟩, ⟨"f", 1, 1⟩⟩ "x" .absent (.diff ⟨⟨1, 1⟩, ⟨"f", 1, 5⟩⟩ x x)
    let b : Expr := .letIn default "x" .absent
      (.diff default (.var ⟨⟨0, 1⟩, .zero⟩ "x") (.var ⟨⟨0, 2⟩, .zero⟩ "x"))
    a ≠ b ∧ a.alike b ∧ b.alike a ∧ a.format = b.format ∧ a.inline = b.inline ∧
      a.encode = b.encode := by
  intro x a b
  obtain ⟨hbare, _, heq, _, hsymm, _, hwritten⟩ := likeness_is_equality_up_to_origins a b a
  have hlike : a.alike b := hbare.mpr rfl
  refine ⟨fun h => ?_, hlike, hsymm hlike, hwritten hlike⟩
  exact absurd ((heq.mp h).2 []) (by decide)

end Letrec.Expr
