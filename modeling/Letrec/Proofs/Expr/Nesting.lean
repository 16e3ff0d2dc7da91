import Letrec.Proofs.Expr.Readability
import Letrec.Proofs.Text.Shift

/-!
# Nesting only shifts the layout

A layout is a text for each depth. `Shifts` says that the text at a greater depth is the text at a
smaller one, moved to the right by two blanks for each level between them; `Embeds` says that a text
has the layout of an expression in it, some levels deeper, between texts that do not depend on that
expression. Both are kept when texts are put together, which is all that `layout` does.
-/

namespace Letrec.Expr

open Text (shifted hanging blanks)

-- ---------------------------------------------------------------------------
-- Texts that shift
-- ---------------------------------------------------------------------------

/-- At each depth the same text, but for two blanks for each level behind each newline. -/
def Shifts (t : Nat → String) : Prop := ∀ m d, t (m + d) = shifted (2 * d) (t m)

theorem indentation_add (m d : Nat) :
    indentation (m + d) = String.ofList (blanks (2 * d)) ++ indentation m := by
  rw [indentation, indentation, ← String.ofList_append, blanks, List.replicate_append_replicate,
    Nat.mul_add, Nat.add_comm]

namespace Shifts

variable {t a b : Nat → String}

theorem text (x : String) (h : '\n' ∉ x.toList := by decide) : Shifts fun _ => x :=
  fun _ _ => (Text.shifted_of_not_mem h).symm

theorem append (ha : Shifts a) (hb : Shifts b) : Shifts fun depth => a depth ++ b depth := by
  intro m d
  calc a (m + d) ++ b (m + d) = shifted (2 * d) (a m) ++ shifted (2 * d) (b m) := by rw [ha, hb]
    _ = shifted (2 * d) (a m ++ b m) := (Text.shifted_append _ _).symm

theorem newLine (ht : Shifts t) : Shifts fun depth => t depth ++ "\n" ++ indentation depth := by
  intro m d
  have hblanks : shifted (2 * d) (indentation m) = indentation m := by
    refine Text.shifted_of_not_mem ?_
    rw [indentation, String.toList_ofList]
    exact Text.newline_not_mem_blanks
  calc t (m + d) ++ "\n" ++ indentation (m + d)
      = shifted (2 * d) (t m) ++ ("\n" ++ String.ofList (blanks (2 * d))) ++ indentation m := by
        rw [ht, indentation_add]
        simp only [String.append_assoc]
    _ = shifted (2 * d) (t m ++ "\n" ++ indentation m) := by
        rw [Text.shifted_append, Text.shifted_append, Text.shifted_newline, hblanks]

theorem deeper (ht : Shifts t) : Shifts fun depth => t (depth + 1) := by
  intro m d
  calc t (m + d + 1) = t (m + 1 + d) := by rw [Nat.add_right_comm]
    _ = shifted (2 * d) (t (m + 1)) := ht (m + 1) d

end Shifts

def OneLined (e : Expr) : Prop := ∀ x ∈ e.allNames, '\n' ∉ x.toList

open Shifts (text) in
theorem layout_shifts {e : Expr} (he : e.OneLined) : Shifts fun depth => e.layout depth := by
  induction e with
  | const o n => exact text _ (Number.newline_not_mem_toString _)
  | var o x => exact text x (he x (.head _))
  | diff o left right ihl ihr =>
    obtain ⟨hl, hr⟩ := List.forall_mem_append.mp he
    exact ((((text "-(").append (ihl hl)).append (text ", ")).append (ihr hr)).append (text ")")
  | zeroTest o operand ih => exact ((text "zero?(").append (ih he)).append (text ")")
  | ifThenElse o test yes no iht ihy ihn =>
    obtain ⟨ht, hyn⟩ := List.forall_mem_append.mp he
    obtain ⟨hy, hn⟩ := List.forall_mem_append.mp hyn
    have htest := (text "if ").append (iht ht)
    have hyes := (htest.newLine.append (text "then ")).append (ihy hy)
    exact ((hyes.newLine.append (text "else ")).append (ihn hn)).deeper
  | letIn o x value body ihv ihb =>
    obtain ⟨hx, hvb⟩ := List.forall_mem_cons.mp he
    obtain ⟨hv, hb⟩ := List.forall_mem_append.mp hvb
    have hhead := ((text "let ").append (text x hx)).append (text " = ")
    exact ((hhead.append (ihv hv).deeper).newLine.append (text "in ")).append (ihb hb)
  | letRec o f x procBody body ihp ihb =>
    obtain ⟨hf, hrest⟩ := List.forall_mem_cons.mp he
    obtain ⟨hx, hpb⟩ := List.forall_mem_cons.mp hrest
    obtain ⟨hp, hb⟩ := List.forall_mem_append.mp hpb
    have hname := ((text "letrec ").append (text f hf)).append (text "(")
    have hhead := (hname.append (text x hx)).append (text ") = ")
    exact ((hhead.append (ihp hp).deeper).newLine.append (text "in ")).append (ihb hb)
  | proc o x body ih =>
    obtain ⟨hx, hb⟩ := List.forall_mem_cons.mp he
    have hhead := ((text "proc (").append (text x hx)).append (text ") ")
    exact hhead.append (ih hb).deeper
  | call o operator operand ihf iha =>
    obtain ⟨hf, ha⟩ := List.forall_mem_append.mp he
    exact ((((text "(").append (ihf hf)).append (text " ")).append (iha ha)).append (text ")")
  | absent => exact text "<nil>"

theorem layout_eq_shifted {e : Expr} (he : e.OneLined) (depth : Nat) :
    e.layout depth = shifted (2 * depth) (e.layout 0) := by
  have h := layout_shifts he 0 depth
  rwa [Nat.zero_add] at h

-- A name is written as it is at every depth, also if it breaks the line.
example : layout 1 (.var default "a\nb") ≠ shifted 2 (layout 0 (.var default "a\nb")) := by decide

-- ---------------------------------------------------------------------------
-- What stands at a position
-- ---------------------------------------------------------------------------

/-- Whatever expression `hole` is given is laid out in `hole`, `k` levels deeper, between two texts
that do not depend on it. -/
def Embeds (hole : Expr → Nat → String) (k : Nat) : Prop :=
  ∃ before after : Nat →
    String, ∀ s depth, hole s depth = before depth ++ s.layout (depth + k) ++ after depth

namespace Embeds

variable {hole : Expr → Nat → String}

theorem here {d : Nat → Nat} (h : ∀ depth, d depth = depth + k) :
    Embeds (fun s depth => s.layout (d depth)) k :=
  ⟨fun _ => "", fun _ => "", fun s depth => by simp [h]⟩

theorem behind (h : Embeds hole k) (t : Nat → String) :
    Embeds (fun s depth => t depth ++ hole s depth) k := by
  obtain ⟨before, after, h⟩ := h
  refine ⟨fun depth => t depth ++ before depth, after, fun s depth => ?_⟩
  simp only [h, String.append_assoc]

theorem before (h : Embeds hole k) (t : Nat → String) :
    Embeds (fun s depth => hole s depth ++ t depth) k := by
  obtain ⟨before, after, h⟩ := h
  refine ⟨before, fun depth => after depth ++ t depth, fun s depth => ?_⟩
  simp only [h, String.append_assoc]

theorem comp {f : Expr → Expr} (h : Embeds hole j)
    (hf : Embeds (fun s depth => (f s).layout depth) k) :
    Embeds (fun s depth => hole (f s) depth) (j + k) := by
  obtain ⟨before, after, h⟩ := h
  obtain ⟨before', after', hf⟩ := hf
  refine ⟨fun depth => before depth ++ before' (depth + j),
    fun depth => after' (depth + j) ++ after depth, fun s depth => ?_⟩
  simp only [h, hf, String.append_assoc, Nat.add_assoc]

end Embeds

/-- The parts of a conditional, what is bound and the body of a procedure are laid out one
level deeper. -/
def deeper : Expr → (k : Nat) → Nat
  | .ifThenElse .., _ | .proc .., _ | .letIn .., 0 | .letRec .., 0 => 1
  | _, _ => 0

def depthAt (e : Expr) : (p : List Nat) → Nat
  | [] => 0
  | k :: p => e.deeper k + e.children[k]?.elim 0 fun a => a.depthAt p

theorem setChild_embeds {e : Expr} (h : e.children[k]? = some a) :
    Embeds (fun s depth => (e.setChild k s).layout depth) (e.deeper k) := by
  cases e <;> rcases k with _ | _ | _ | k <;> simp [children] at h
  -- In each case the layout is a chain of texts, and that of the sub-expression is one of them.
  all_goals
    repeat apply Embeds.before
    apply Embeds.behind
    exact Embeds.here fun _ => rfl

theorem put_embeds {e : Expr} (h : e.at? p = some a) :
    Embeds (fun s depth => (e.put p s).layout depth) (e.depthAt p) := by
  induction p generalizing e with
  | nil => exact .here fun _ => rfl
  | cons k p ih =>
    obtain ⟨b, hb, ha⟩ := Option.bind_eq_some_iff.mp h
    simp only [put_cons hb, depthAt, hb, Option.elim_some]
    exact (setChild_embeds hb).comp (ih ha)

theorem allNames_subset {e a : Expr} (h : a ∈ e.children) : a.allNames ⊆ e.allNames := by
  cases e <;> grind [children, allNames]

theorem OneLined.at? {e : Expr} (he : e.OneLined) (h : e.at? p = some s) : s.OneLined := by
  induction p generalizing e with
  | nil =>
    cases h
    exact he
  | cons k p ih =>
    obtain ⟨a, ha, hs⟩ := Option.bind_eq_some_iff.mp h
    exact ih (fun x hx => he x (allNames_subset (List.mem_of_getElem? ha) hx)) hs

/-- An expression whose names break no line is laid out at every depth as at depth zero, moved to
the right. At each position there is a fixed place for what stands there: it has the same lines as
anywhere else, moved to the right by the depth of the position, and on one line it is the same text
at every depth. -/
theorem nesting_only_shifts_layout (e : Expr) (he : ∀ x ∈ e.allNames, '\n' ∉ x.toList) :
    (∀ depth, e.layout depth = shifted (2 * depth) (e.layout 0)) ∧
    ∀ p s, e.at? p = some s →
      (∃ before after : Nat → String, ∀ depth,
        e.layout depth =
          before depth ++ shifted (2 * (depth + e.depthAt p)) (s.layout 0) ++ after depth ∧
        ∀ s', (e.put p s').layout depth =
          before depth ++ s'.layout (depth + e.depthAt p) ++ after depth) ∧
      ∀ depth, (s.layout depth).toList.splitOn '\n' =
        hanging (2 * depth) ((s.layout 0).toList.splitOn '\n') ∧
        String.intercalate " " (Text.words (s.layout depth)) = s.inline := by
  refine ⟨layout_eq_shifted he, fun p s hs => ?_⟩
  have hlined : s.OneLined := OneLined.at? he hs
  refine ⟨?_, fun depth => ⟨?_, ?_⟩⟩
  · obtain ⟨before, after, h⟩ := put_embeds hs
    refine ⟨before, after, fun depth => ⟨?_, fun s' => h s' depth⟩⟩
    calc e.layout depth = (e.put p s).layout depth := by rw [put_self hs]
      _ = before depth ++ s.layout (depth + e.depthAt p) ++ after depth := h s depth
      _ = _ := by rw [layout_eq_shifted hlined]
  · rw [layout_eq_shifted hlined, Text.splitOn_shifted]
  · rw [layout_eq_shifted hlined, Text.words_shifted, inline]

/-- A conditional in a procedure that is an operand, one level deeper than the call. -/
theorem nesting_only_shifts_layout_operand :
    let s : Expr :=
      .ifThenElse default (.zeroTest default (.var default "x")) (.const default 1)
        (.var default "y")
    let e : Expr := .call default (.var default "f") (.proc default "x" s)
    let text : String := "if zero?(x)\n      then 1\n      else y"
    (∀ x ∈ e.allNames, '\n' ∉ x.toList) ∧ e.at? [1, 0] = some s ∧
      s.layout 0 = "if zero?(x)\n  then 1\n  else y" ∧ s.layout 2 = text ∧
      (∃ before after : String, e.layout 1 = before ++ text ++ after) ∧
      String.intercalate " " (Text.words text) = s.inline := by
  intro s e text
  have hnames : ∀ x ∈ e.allNames, '\n' ∉ x.toList := by decide
  have hs : e.at? [1, 0] = some s := rfl
  have hzero : s.layout 0 = "if zero?(x)\n  then 1\n  else y" := by decide
  have htext : shifted 4 (s.layout 0) = text := by
    rw [hzero]
    decide
  obtain ⟨_, hparts⟩ := nesting_only_shifts_layout e hnames
  obtain ⟨⟨before, after, hembeds⟩, hlines⟩ := hparts [1, 0] s hs
  obtain ⟨hshift, _⟩ := nesting_only_shifts_layout s (by decide)
  have htwo : s.layout 2 = text := (hshift 2).trans htext
  refine ⟨hnames, hs, hzero, htwo, ⟨before 1, after 1, ?_⟩, ?_⟩
  · rw [← htext]
    exact (hembeds 1).1
  · rw [← htwo]
    exact (hlines 2).2

end Letrec.Expr
