import Letrec.Proofs.Expr.Decode

/-!
# How a graph is read

`Reads` says what happens to the nodes that are to be read, one after the other. A node that was
read before is what it was then, a node on the path to itself is refused, and any other node is read
as its form says, its parts before what comes after it. Nothing bounds the depth to which this goes,
but a derivation is finite: what it describes has come to an end. `Decode.root_reads` says that
reading always comes to an end, and in what the reader computes with its bound on the depth.

All that is said of a reading afterwards is shown along the derivation.
-/

namespace Letrec.Expr

open Yaml (Graph)
open Decode (originOf node assemble report Trail)

namespace Decoding

def note (s : Decoding) (fs : List Finding) : Decoding :=
  { s with findings := s.findings ++ fs.toArray }

def remember (s : Decoding) (i : Nat) (e : Expr) : Decoding := { s with done := s.done.insert i e }

def Open (s : Decoding) (path : List Nat) : Prop := ∀ j ∈ path, s.done[j]? = none

end Decoding

def Form.fill (o : Origin) : Form → List Expr → Expr
  | .const value, _ => .const o value
  | .var name, _ => .var o name
  | .diff .., [left, right] => .diff o left right
  | .zeroTest _, [operand] => .zeroTest o operand
  | .ifThenElse .., [test, yes, no] => .ifThenElse o test yes no
  | .letIn name .., [value, body] => .letIn o name value body
  | .letRec name param .., [procBody, body] => .letRec o name param procBody body
  | .proc param _, [body] => .proc o param body
  | .call .., [operator, operand] => .call o operator operand
  | _, _ => .absent

/-- From `s` the nodes `todo` below those of `path` are read as `es`, which leads to `s'`. The nodes
`made` are those for which an expression is put together on the way, in this order. -/
inductive Reads (g : Graph) (tree : Nat) (file : String) :
    (path todo : List Nat) → (s : Decoding) → (es : List Expr) → (s' : Decoding) →
      (made : List Nat) → Prop
  | nil : Reads g tree file path [] s [] s []
  | known (hdone : s.done[g.follow c]? = some e) (rest : Reads g tree file path cs s es s' made) :
      Reads g tree file path (c :: cs) s (e :: es) s' made
  | inside (hdone : s.done[g.follow c]? = none) (hpath : g.follow c ∈ path)
      (rest : Reads g tree file path cs (s.note [(.recursiveAlias, g.follow c)]) es s' made) :
      Reads g tree file path (c :: cs) s (.absent :: es) s' made
  | refused (hdone : s.done[g.follow c]? = none) (hpath : g.follow c ∉ path)
      (hform : formOf g (g.follow c) = .error fs)
      (rest : Reads g tree file path cs ((s.note fs).remember (g.follow c) .absent) es s' made) :
      Reads g tree file path (c :: cs) s (.absent :: es) s' made
  | formed (hdone : s.done[g.follow c]? = none) (hpath : g.follow c ∉ path)
      (hform : formOf g (g.follow c) = .ok (form, fs))
      (parts : Reads g tree file (g.follow c :: path) form.children (s.note fs) as t made)
      (rest : Reads g tree file path cs
        (t.remember (g.follow c) (form.fill (originOf g tree file (g.follow c)) as)) es s' made') :
      Reads g tree file path (c :: cs) s (form.fill (originOf g tree file (g.follow c)) as :: es) s'
        (made ++ g.follow c :: made')

variable {g : Graph} {tree : Nat} {file : String} {path : List Nat}

-- ---------------------------------------------------------------------------
-- The reader
-- ---------------------------------------------------------------------------

namespace Decode

theorem assemble_eq (o : Origin) (child : Nat → Decode Expr) (form : Form) :
    assemble o child form = do return form.fill o (← form.children.mapM child) := by
  cases form <;> simp [assemble, Form.children, Form.fill]

-- The cases of one step of the reader.

theorem node_run_known (hdone : s.done[g.follow c]? = some e) :
    (node g tree file (fuel + 1) path c).run s = (e, s) := by
  rw [node]
  simp only [StateT.run_bind, StateT.run_get, pure_bind, hdone]
  rfl

theorem node_run_inside (hdone : s.done[g.follow c]? = none) (hpath : g.follow c ∈ path) :
    (node g tree file (fuel + 1) path c).run s =
      (.absent, s.note [(.recursiveAlias, g.follow c)]) := by
  rw [node]
  simp only [StateT.run_bind, StateT.run_get, pure_bind, hdone, if_pos hpath]
  rfl

theorem node_run_refused (hdone : s.done[g.follow c]? = none) (hpath : g.follow c ∉ path)
    (hform : formOf g (g.follow c) = .error fs) :
    (node g tree file (fuel + 1) path c).run s =
      (.absent, (s.note fs).remember (g.follow c) .absent) := by
  rw [node]
  simp only [StateT.run_bind, StateT.run_get, pure_bind, hdone, if_neg hpath, hform]
  rfl

theorem node_run_formed (hdone : s.done[g.follow c]? = none) (hpath : g.follow c ∉ path)
    (hform : formOf g (g.follow c) = .ok (form, fs)) :
    (node g tree file (fuel + 1) path c).run s =
      let r := (form.children.mapM (node g tree file fuel (g.follow c :: path))).run (s.note fs)
      let e := form.fill (originOf g tree file (g.follow c)) r.1
      (e, r.2.remember (g.follow c) e) := by
  rw [node]
  simp only [StateT.run_bind, StateT.run_get, pure_bind, hdone, if_neg hpath, hform, assemble_eq]
  rfl

/-- The action reads the node `c`, whatever is read after it. -/
def Follows (g : Graph) (tree : Nat) (file : String) (path : List Nat) (c : Nat) (m : Decode Expr) :
    Prop :=
  ∀ s cs es s' made, Reads g tree file path cs (m.run s).2 es s' made →
    ∃ made', Reads g tree file path (c :: cs) s ((m.run s).1 :: es) s' made'

theorem mapM_reads {child : Nat → Decode Expr}
    (h : ∀ c ∈ todo, Follows g tree file path c (child c)) (s : Decoding) :
    ∃ made, Reads g tree file path todo s ((todo.mapM child).run s).1
      ((todo.mapM child).run s).2 made := by
  induction todo generalizing s with
  | nil => exact ⟨[], .nil⟩
  | cons c cs ih =>
    obtain ⟨made, hrest⟩ := ih (fun c hc => h c (.tail _ hc)) ((child c).run s).2
    rw [List.mapM_cons]
    exact h c (.head _) s _ _ _ _ hrest

theorem node_follows (h : Trail g path (g.follow c)) (hfuel : g.nodes.size < fuel + path.length) :
    Follows g tree file path c (node g tree file fuel path c) := by
  induction fuel generalizing path c with
  | zero => exact absurd h.length_le (by omega)
  | succ fuel ih =>
    intro s cs es s' made hrest
    cases hdone : s.done[g.follow c]? with
    | some e =>
      rw [node_run_known hdone] at hrest ⊢
      exact ⟨_, .known hdone hrest⟩
    | none =>
      by_cases hpath : g.follow c ∈ path
      · rw [node_run_inside hdone hpath] at hrest ⊢
        exact ⟨_, .inside hdone hpath hrest⟩
      · cases hform : formOf g (g.follow c) with
        | error fs =>
          rw [node_run_refused hdone hpath hform] at hrest ⊢
          exact ⟨_, .refused hdone hpath hform hrest⟩
        | ok r =>
          obtain ⟨form, fs⟩ := r
          rw [node_run_formed hdone hpath hform] at hrest ⊢
          have hchild (a : Nat) (ha : a ∈ form.children) :=
            ih (h.step hpath hform ha) (by simp only [List.length_cons]; omega)
          obtain ⟨made', hparts⟩ := mapM_reads hchild (s.note fs)
          exact ⟨_, .formed hdone hpath hform hparts hrest⟩

def outcome (g : Graph) (tree : Nat) (file : String) : Expr × Decoding :=
  (node g tree file (g.nodes.size + 1) [] g.root).run {}

theorem root_reads (g : Graph) (tree : Nat) (file : String) :
    ∃ made, Reads g tree file [] [g.root] {} [(outcome g tree file).1]
      (outcome g tree file).2 made := by
  have htrail : Trail g [] (g.follow g.root) := ⟨nofun, .nil, nofun⟩
  exact node_follows htrail (by simp) {} [] [] _ [] .nil

end Decode

theorem decode_outcome (g : Graph) (tree : Nat) (file : String) :
    decode g tree file =
      if (Decode.outcome g tree file).2.findings.isEmpty then .ok (Decode.outcome g tree file).1
      else .error ((Decode.outcome g tree file).2.findings.toList.map
        (Finding.toDiagnostic g file)) := rfl

-- ---------------------------------------------------------------------------
-- What a reading keeps
-- ---------------------------------------------------------------------------

@[simp] theorem Decoding.done_note (s : Decoding) (fs : List Finding) : (s.note fs).done = s.done :=
  rfl

@[simp] theorem Decoding.findings_remember (s : Decoding) (i : Nat) (e : Expr) :
    (s.remember i e).findings = s.findings := rfl

theorem Decoding.done_remember (s : Decoding) (i j : Nat) (e : Expr) :
    (s.remember i e).done[j]? = if i = j then some e else s.done[j]? := by
  simp [remember, Std.HashMap.getElem?_insert]

theorem Decoding.findings_note (s : Decoding) (fs : List Finding) :
    s.findings.toList <+: (s.note fs).findings.toList := ⟨fs, by simp [note]⟩

theorem Decoding.remember_keeps {s : Decoding} {i j : Nat} (hi : s.done[i]? = none)
    (hj : s.done[j]? = some e) : (s.remember i e').done[j]? = some e := by
  rw [done_remember, if_neg, hj]
  rintro rfl
  rw [hi] at hj
  cases hj

namespace Decoding.Open

variable {s : Decoding} {i : Nat}

theorem cons (h : s.Open path) (hi : s.done[i]? = none) : (s.note fs).Open (i :: path) :=
  List.forall_mem_cons.mpr ⟨hi, h⟩

theorem head (h : s.Open (i :: path)) : s.done[i]? = none := h i (.head _)

theorem tail (h : s.Open (i :: path)) : s.Open path := fun j hj => h j (.tail _ hj)

theorem remember (h : s.Open path) (hi : i ∉ path) : (s.remember i e).Open path := by
  intro j hj
  have hne : i ≠ j := fun heq => hi (heq ▸ hj)
  rw [done_remember, if_neg hne]
  exact h j hj

end Decoding.Open

namespace Reads

variable {s s' : Decoding} {todo made : List Nat} {es : List Expr} {i : Nat}

theorem unique (h : Reads g tree file path todo s es s' made)
    (h' : Reads g tree file path todo s es' s'' made') : es = es' ∧ s' = s'' ∧ made = made' := by
  induction h generalizing es' s'' made' with
  | nil =>
    cases h'
    exact ⟨rfl, rfl, rfl⟩
  | known hdone _ ih =>
    cases h' with
    | known hdone' rest =>
      rw [hdone] at hdone'
      cases hdone'
      obtain ⟨rfl, rfl, rfl⟩ := ih rest
      exact ⟨rfl, rfl, rfl⟩
    | inside hdone' | refused hdone' | formed hdone' => simp [hdone] at hdone'
  | inside hdone hpath _ ih =>
    cases h' with
    | known hdone' => simp [hdone] at hdone'
    | inside _ _ rest =>
      obtain ⟨rfl, rfl, rfl⟩ := ih rest
      exact ⟨rfl, rfl, rfl⟩
    | refused _ hpath' | formed _ hpath' => exact absurd hpath hpath'
  | refused hdone hpath hform _ ih =>
    cases h' with
    | known hdone' => simp [hdone] at hdone'
    | inside _ hpath' => exact absurd hpath' hpath
    | refused _ _ hform' rest =>
      rw [hform] at hform'
      cases hform'
      obtain ⟨rfl, rfl, rfl⟩ := ih rest
      exact ⟨rfl, rfl, rfl⟩
    | formed _ _ hform' => simp [hform] at hform'
  | formed hdone hpath hform _ _ ihparts ih =>
    cases h' with
    | known hdone' => simp [hdone] at hdone'
    | inside _ hpath' => exact absurd hpath' hpath
    | refused _ _ hform' => simp [hform] at hform'
    | formed _ _ hform' parts rest =>
      rw [hform] at hform'
      cases hform'
      obtain ⟨rfl, rfl, rfl⟩ := ihparts parts
      obtain ⟨rfl, rfl, rfl⟩ := ih rest
      exact ⟨rfl, rfl, rfl⟩

theorem findings (h : Reads g tree file path todo s es s' made) :
    s.findings.toList <+: s'.findings.toList := by
  induction h with
  | nil => exact List.prefix_rfl
  | known _ _ ih => exact ih
  | inside _ _ _ ih => exact (Decoding.findings_note _ _).trans ih
  | refused _ _ _ _ ih => exact (Decoding.findings_note _ _).trans ih
  | formed _ _ _ _ _ ihparts ih => exact ((Decoding.findings_note _ _).trans ihparts).trans ih

/-- A node is not read to its end before all that is inside of it. -/
theorem isOpen (h : Reads g tree file path todo s es s' made) (hs : s.Open path) :
    s'.Open path := by
  induction h with
  | nil => exact hs
  | known _ _ ih => exact ih hs
  | inside _ _ _ ih => exact ih hs
  | refused _ hpath _ _ ih => exact ih (hs.remember hpath)
  | formed hdone hpath _ _ _ ihparts ih =>
    exact ih ((ihparts (hs.cons hdone)).tail.remember hpath)

theorem keeps (h : Reads g tree file path todo s es s' made) (hs : s.Open path)
    (hi : s.done[i]? = some e) : s'.done[i]? = some e := by
  induction h with
  | nil => exact hi
  | known _ _ ih => exact ih hs hi
  | inside _ _ _ ih => exact ih hs hi
  | refused hdone hpath _ _ ih => exact ih (hs.remember hpath) (Decoding.remember_keeps hdone hi)
  | formed hdone hpath _ parts _ ihparts ih =>
    have hopen := parts.isOpen (hs.cons hdone)
    exact ih (hopen.tail.remember hpath)
      (Decoding.remember_keeps hopen.head (ihparts (hs.cons hdone) hi))

end Reads

end Letrec.Expr
