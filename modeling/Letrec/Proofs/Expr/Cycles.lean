import Letrec.Proofs.Expr.Reading

/-!
# Nodes inside of themselves

The expressions inside of a node are those that its kind asks for, if the node has the shape for it:
`Part` says which. Reading goes down from part to part, and refuses a node that it meets inside of
itself. It does so exactly if it comes to a cycle of parts, however the nodes are reached, and it
always ends (`cycles_are_found`).

A node from which a cycle can be reached is `Looping`. The proof goes along a reading: as long as no
cycle has been met, no node that was read to its end is looping, and a node is looping if one of its
parts is.
-/

namespace Letrec.Expr

open Yaml (Graph)
open Relation (ReflTransGen TransGen)

inductive Part (g : Graph) : (i j : Nat) → Prop
  | zeroTest (h : g.Entry i "zero" v) : Part g i (g.follow v)
  | diff (h : g.Entry i "diff" v) (hv : g.Items v [l, r]) (hc : c ∈ [l, r]) : Part g i (g.follow c)
  | ifThenElse (h : g.Entry i "if" v) (hv : g.Items v [t, y, n]) (hc : c ∈ [t, y, n]) :
      Part g i (g.follow c)
  | call (h : g.Entry i "call" v) (hv : g.Items v [p, a]) (hc : c ∈ [p, a]) : Part g i (g.follow c)
  | letIn (h : g.Entry i "let" v) (hv : g.Fields v [("name", n), ("value", e), ("body", b)])
      (hc : c ∈ [e, b]) : Part g i (g.follow c)
  | letRec (h : g.Entry i "letrec" v)
      (hv : g.Fields v [("name", n), ("param", p), ("proc", q), ("body", b)]) (hc : c ∈ [q, b]) :
      Part g i (g.follow c)
  | proc (h : g.Entry i "proc" v) (hv : g.Fields v [("param", p), ("body", b)]) :
      Part g i (g.follow b)

variable {g : Graph} {i j : Nat}

theorem part_of_below (h : Below g i j) : Part g i j := by
  obtain ⟨form, findings, hform, c, hc, rfl⟩ := h
  unfold formOf at hform
  split at hform
  · rename_i key value hshape
    have hentry {kind : String} (hkey : (g.node key).text = kind) : g.Entry i kind value :=
      ⟨key, hshape, hkey⟩
    split at hform
    all_goals
      simp only [bind_eq_ok, pure, Except.pure, Except.ok.injEq, Prod.mk.injEq,
        reduceCtorEq] at hform
    case h_1 =>
      obtain ⟨_, hconst, rfl, _⟩ := hform
      obtain ⟨_, _, rfl, _⟩ := constOf_eq_ok.mp hconst
      cases hc
    case h_2 =>
      obtain ⟨rfl, _⟩ := hform
      cases hc
    case h_3 hkey =>
      obtain ⟨items, hitems, hform⟩ := hform
      split at hform <;> cases hform
      exact .diff (hentry hkey) (listOf_eq_ok.mp hitems).1 hc
    case h_4 hkey =>
      obtain ⟨rfl, _⟩ := hform
      rw [List.mem_singleton.mp hc]
      exact .zeroTest (hentry hkey)
    case h_5 hkey =>
      obtain ⟨items, hitems, hform⟩ := hform
      split at hform <;> cases hform
      exact .ifThenElse (hentry hkey) (listOf_eq_ok.mp hitems).1 hc
    case h_6 hkey =>
      obtain ⟨values, hvalues, hform⟩ := hform
      split at hform <;> cases hform
      exact .letIn (hentry hkey) ((fieldsOf_eq_ok (by decide)).mp hvalues).2 hc
    case h_7 hkey =>
      obtain ⟨values, hvalues, hform⟩ := hform
      split at hform <;> cases hform
      exact .letRec (hentry hkey) ((fieldsOf_eq_ok (by decide)).mp hvalues).2 hc
    case h_8 hkey =>
      obtain ⟨values, hvalues, hform⟩ := hform
      split at hform <;> cases hform
      rw [List.mem_singleton.mp hc]
      exact .proc (hentry hkey) ((fieldsOf_eq_ok (by decide)).mp hvalues).2
    case h_9 hkey =>
      obtain ⟨items, hitems, hform⟩ := hform
      split at hform <;> cases hform
      exact .call (hentry hkey) (listOf_eq_ok.mp hitems).1 hc
  · cases hform

theorem below_of_part (h : Part g i j) : Below g i j := by
  cases h with
  | zeroTest h =>
    obtain ⟨key, hshape, hkey⟩ := h
    exact ⟨_, _, by simp only [formOf, hshape, hkey]; rfl, _, .head _, rfl⟩
  | @diff v l r c h hv hc =>
    obtain ⟨key, hshape, hkey⟩ := h
    have hitems : listOf g v "diff" 2 = .ok [l, r] := listOf_eq_ok.mpr ⟨hv, rfl⟩
    exact ⟨.diff l r, _, by simp only [formOf, hshape, hkey, hitems]; rfl, c, hc, rfl⟩
  | @ifThenElse v t y n c h hv hc =>
    obtain ⟨key, hshape, hkey⟩ := h
    have hitems : listOf g v "if" 3 = .ok [t, y, n] := listOf_eq_ok.mpr ⟨hv, rfl⟩
    exact ⟨.ifThenElse t y n, _, by simp only [formOf, hshape, hkey, hitems]; rfl, c, hc, rfl⟩
  | @call v p a c h hv hc =>
    obtain ⟨key, hshape, hkey⟩ := h
    have hitems : listOf g v "call" 2 = .ok [p, a] := listOf_eq_ok.mpr ⟨hv, rfl⟩
    exact ⟨.call p a, _, by simp only [formOf, hshape, hkey, hitems]; rfl, c, hc, rfl⟩
  | @letIn v n e b c h hv hc =>
    obtain ⟨key, hshape, hkey⟩ := h
    have hvalues : fieldsOf g v "let" ["name", "value", "body"] = .ok [n, e, b] :=
      (fieldsOf_eq_ok (by decide)).mpr ⟨rfl, hv⟩
    exact ⟨.letIn _ e b, _, by simp only [formOf, hshape, hkey, hvalues]; rfl, c, hc, rfl⟩
  | @letRec v n p q b c h hv hc =>
    obtain ⟨key, hshape, hkey⟩ := h
    have hvalues : fieldsOf g v "letrec" ["name", "param", "proc", "body"] = .ok [n, p, q, b] :=
      (fieldsOf_eq_ok (by decide)).mpr ⟨rfl, hv⟩
    exact ⟨.letRec _ _ q b, _, by simp only [formOf, hshape, hkey, hvalues]; rfl, c, hc, rfl⟩
  | @proc v p b h hv =>
    obtain ⟨key, hshape, hkey⟩ := h
    have hvalues : fieldsOf g v "proc" ["param", "body"] = .ok [p, b] :=
      (fieldsOf_eq_ok (by decide)).mpr ⟨rfl, hv⟩
    exact ⟨.proc _ b, _, by simp only [formOf, hshape, hkey, hvalues]; rfl, b, .head _, rfl⟩

theorem below_eq_part : Below g = Part g :=
  funext fun _ => funext fun _ => propext ⟨part_of_below, below_of_part⟩

-- ---------------------------------------------------------------------------
-- Cycles
-- ---------------------------------------------------------------------------

def Looping (g : Graph) (i : Nat) : Prop := ∃ j, ReflTransGen (Below g) i j ∧ TransGen (Below g) j j

theorem looping_iff : Looping g i ↔ ∃ j, Below g i j ∧ Looping g j := by
  constructor
  · rintro ⟨k, hik, hk⟩
    rcases hik.cases_head with rfl | ⟨j, hij, hjk⟩
    · obtain ⟨j, hij, hjk⟩ := TransGen.head'_iff.mp hk
      exact ⟨j, hij, i, hjk, hk⟩
    · exact ⟨j, hij, k, hjk, hk⟩
  · rintro ⟨j, hij, k, hjk, hk⟩
    exact ⟨k, hjk.head hij, hk⟩

theorem looping_formed (hform : formOf g i = .ok (form, fs)) :
    Looping g i ↔ ∃ c ∈ form.children, Looping g (g.follow c) := by
  rw [looping_iff]
  constructor
  · rintro ⟨_, ⟨form', fs', hform', c, hc, rfl⟩, hloop⟩
    rw [hform] at hform'
    cases hform'
    exact ⟨c, hc, hloop⟩
  · rintro ⟨c, hc, hloop⟩
    exact ⟨_, ⟨form, fs, hform, c, hc, rfl⟩, hloop⟩

theorem not_looping_refused (hform : formOf g i = .error fs) : ¬ Looping g i := by
  rw [looping_iff]
  rintro ⟨_, ⟨form, fs', hform', _⟩, _⟩
  rw [hform] at hform'
  cases hform'

-- ---------------------------------------------------------------------------
-- Reports of cycles
-- ---------------------------------------------------------------------------

/-- Every other message is longer. -/
theorem Flaw.length_message {f : Flaw} (h : f ≠ .recursiveAlias) : 15 < f.message.length := by
  have left {n : Nat} {s t : String} (hs : n < s.length) : n < (s ++ t).length := by
    rw [String.length_append]
    exact Nat.lt_add_right _ hs
  have right {n : Nat} {s t : String} (ht : n < t.length) : n < (s ++ t).length := by
    rw [String.length_append]
    exact Nat.lt_add_left _ ht
  have both {s t : String} (hs : 14 < s.length) (ht : 0 < t.length) : 15 < (s ++ t).length := by
    rw [String.length_append]
    exact Nat.add_lt_add_of_le_of_lt hs ht
  cases f with
  | recursiveAlias => exact absurd rfl h
  | notAnExpression | constNoScalar => decide
  | unknownKind key => exact left (left (by decide))
  | constNoInteger text => exact left (by decide)
  | noList kind count => exact left (left (right (by decide)))
  | noFields kind names => exact left (right (by decide))
  | duplicateField name kind => exact left (left (left (by decide)))
  | unknownField name kind | missingField name kind =>
    exact left (both (left (by decide)) (by decide))
  | noName role => exact right (by decide)

theorem Flaw.message_eq_recursiveAlias {f : Flaw} :
    f.message = "recursive alias" ↔ f = .recursiveAlias := by
  constructor
  · intro h
    by_contra hne
    have hlength := length_message hne
    rw [h] at hlength
    exact absurd hlength (by decide)
  · rintro rfl
    rfl

def OfShape (fs : List Finding) : Prop := ∀ f ∈ fs, f.1 ≠ .recursiveAlias

theorem OfShape.nil : OfShape [] := by simp [OfShape]

theorem OfShape.singleton (h : flaw ≠ .recursiveAlias) : OfShape [(flaw, i)] :=
  List.forall_mem_singleton.mpr h

theorem OfShape.append (h : OfShape fs) (h' : OfShape fs') : OfShape (fs ++ fs') :=
  List.forall_mem_append.mpr ⟨h, h'⟩

section
variable {kind role : String} {names seen : List String} {entries : List (Nat × Nat)}

theorem nameOf_ofShape : OfShape (nameOf g i role).2 := by
  simp only [nameOf]
  split
  · split
    · exact .nil
    · exact .singleton (by simp)
  · exact .singleton (by simp)

theorem constOf_ofShape (h : constOf g i = .error fs) : OfShape fs := by
  simp only [constOf] at h
  repeat' split at h
  all_goals cases h
  all_goals exact .singleton (by simp)

theorem listOf_ofShape (h : listOf g i kind count = .error fs) : OfShape fs := by
  simp only [listOf] at h
  repeat' split at h
  all_goals cases h
  all_goals exact .singleton (by simp)

theorem keyFindings_ofShape : OfShape (keyFindings g kind names seen entries) := by
  induction entries generalizing seen with
  | nil => exact .nil
  | cons entry rest ih =>
    rw [keyFindings]
    split
    · exact List.forall_mem_cons.mpr ⟨by simp, ih⟩
    · split
      · exact List.forall_mem_cons.mpr ⟨by simp, ih⟩
      · exact ih

theorem fieldsOf_ofShape (h : fieldsOf g i kind names = .error fs) : OfShape fs := by
  simp only [fieldsOf] at h
  split at h
  · split at h
    · cases h
    · cases h
      refine keyFindings_ofShape.append fun f hf => ?_
      obtain ⟨name, _, rfl⟩ := List.mem_map.mp hf
      simp
  · cases h
    exact .singleton (by simp)

end

-- What is found wanting in a single node is not that it stands inside of itself.

theorem formOf_error_ofShape (h : formOf g i = .error fs) : OfShape fs := by
  unfold formOf at h
  split at h
  · split at h
    all_goals simp only [bind_eq_error, pure, Except.pure, Except.error.injEq,
      reduceCtorEq, and_false, exists_false, or_false] at h
    case h_1 => exact constOf_ofShape h
    case h_10 =>
      rw [← h]
      exact .singleton (by simp)
    case h_3 | h_5 | h_9 =>
      rcases h with h | ⟨items, hitems, h⟩
      · exact listOf_ofShape h
      · split at h <;> cases h
        exact .nil
    case h_6 | h_7 | h_8 =>
      rcases h with h | ⟨values, hvalues, h⟩
      · exact fieldsOf_ofShape h
      · split at h <;> cases h
        exact .nil
  · cases h
    exact .singleton (by simp)

theorem formOf_ok_ofShape (h : formOf g i = .ok (form, fs)) : OfShape fs := by
  unfold formOf at h
  split at h
  · split at h
    all_goals simp only [bind_eq_ok, pure, Except.pure, Except.ok.injEq, Prod.mk.injEq,
      reduceCtorEq] at h
    case h_1 =>
      obtain ⟨_, _, _, rfl⟩ := h
      exact .nil
    case h_2 =>
      obtain ⟨_, rfl⟩ := h
      exact nameOf_ofShape
    case h_4 =>
      obtain ⟨_, rfl⟩ := h
      exact .nil
    case h_3 | h_5 | h_9 =>
      obtain ⟨items, _, h⟩ := h
      split at h <;> cases h
      exact .nil
    case h_6 | h_8 =>
      obtain ⟨values, _, h⟩ := h
      split at h <;> cases h
      exact nameOf_ofShape
    case h_7 =>
      obtain ⟨values, _, h⟩ := h
      split at h <;> cases h
      exact nameOf_ofShape.append nameOf_ofShape
  · cases h

-- ---------------------------------------------------------------------------
-- Readings
-- ---------------------------------------------------------------------------

namespace Decoding

def MetCycle (s : Decoding) : Prop := ∃ f ∈ s.findings.toList, f.1 = .recursiveAlias

theorem metCycle_note {s : Decoding} (h : OfShape fs) : (s.note fs).MetCycle ↔ s.MetCycle := by
  simp only [MetCycle, note, Array.toList_append, List.mem_append]
  constructor
  · rintro ⟨f, hf | hf, heq⟩
    · exact ⟨f, hf, heq⟩
    · exact absurd heq (h f hf)
  · rintro ⟨f, hf, heq⟩
    exact ⟨f, .inl hf, heq⟩

theorem metCycle_inside (s : Decoding) (i : Nat) : (s.note [(.recursiveAlias, i)]).MetCycle :=
  ⟨(.recursiveAlias, i), by simp [note], rfl⟩

@[simp] theorem metCycle_remember {s : Decoding} : (s.remember i e).MetCycle ↔ s.MetCycle := Iff.rfl

/-- Nodes that were read to their ends lead to no cycle. -/
def Settled (g : Graph) (s : Decoding) : Prop := ∀ i e, s.done[i]? = some e → ¬ Looping g i

theorem Settled.remember {s : Decoding} (h : Settled g s) (hi : ¬ Looping g i) :
    Settled g (s.remember i e) := by
  intro j e' hj
  rw [done_remember] at hj
  split at hj
  · rename_i heq
    exact heq ▸ hi
  · exact h j e' hj

end Decoding

namespace Reads

variable {tree : Nat} {file : String} {path todo made : List Nat} {s s' : Decoding} {es : List Expr}

theorem metCycle_mono (h : Reads g tree file path todo s es s' made) (hs : s.MetCycle) :
    s'.MetCycle := by
  obtain ⟨f, hf, heq⟩ := hs
  exact ⟨f, h.findings.subset hf, heq⟩

theorem looping_of_metCycle (h : Reads g tree file path todo s es s' made)
    (hpath : ∀ j ∈ path, ∀ c ∈ todo, TransGen (Below g) j (g.follow c)) (hs' : s'.MetCycle) :
    s.MetCycle ∨ ∃ c ∈ todo, Looping g (g.follow c) := by
  induction h with
  | nil => exact .inl hs'
  | known _ _ ih =>
    rcases ih (fun j hj c hc => hpath j hj c (.tail _ hc)) hs' with hs | ⟨c, hc, hloop⟩
    · exact .inl hs
    · exact .inr ⟨c, .tail _ hc, hloop⟩
  | @inside c _ _ _ _ _ _ _ hmem _ _ =>
    exact .inr ⟨c, .head _, g.follow c, .refl, hpath _ hmem c (.head _)⟩
  | refused _ _ hform _ ih =>
    rcases ih (fun j hj c hc => hpath j hj c (.tail _ hc)) hs' with hs | ⟨c, hc, hloop⟩
    · exact .inl ((Decoding.metCycle_note (formOf_error_ofShape hform)).mp hs)
    · exact .inr ⟨c, .tail _ hc, hloop⟩
  | @formed c path form _ _ _ _ _ _ _ _ _ _ _ hform _ _ ihparts ih =>
    rcases ih (fun j hj c hc => hpath j hj c (.tail _ hc)) hs' with ht | ⟨c, hc, hloop⟩
    · have hbelow (a : Nat) (ha : a ∈ form.children) : Below g (g.follow c) (g.follow a) :=
        ⟨form, _, hform, a, ha, rfl⟩
      have hpath' : ∀ j ∈ g.follow c :: path, ∀ a ∈ form.children,
        TransGen (Below g) j (g.follow a) := by
        rintro j (_ | ⟨_, hj⟩) a ha
        · exact .single (hbelow a ha)
        · exact (hpath j hj c (.head _)).tail (hbelow a ha)
      rcases ihparts hpath' ht with hs | hloop
      · exact .inl ((Decoding.metCycle_note (formOf_ok_ofShape hform)).mp hs)
      · exact .inr ⟨c, .head _, (looping_formed hform).mpr hloop⟩
    · exact .inr ⟨c, .tail _ hc, hloop⟩

theorem settled (h : Reads g tree file path todo s es s' made) (hs' : ¬ s'.MetCycle)
    (hs : s.Settled g) : s'.Settled g ∧ ∀ c ∈ todo, ¬ Looping g (g.follow c) := by
  induction h with
  | nil => exact ⟨hs, nofun⟩
  | known hdone _ ih =>
    obtain ⟨hsettled, hrest⟩ := ih hs' hs
    exact ⟨hsettled, List.forall_mem_cons.mpr ⟨hs _ _ hdone, hrest⟩⟩
  | inside _ _ rest _ => exact absurd (rest.metCycle_mono (Decoding.metCycle_inside _ _)) hs'
  | refused _ _ hform _ ih =>
    obtain ⟨hsettled, hrest⟩ := ih hs' (Decoding.Settled.remember hs (not_looping_refused hform))
    exact ⟨hsettled, List.forall_mem_cons.mpr ⟨not_looping_refused hform, hrest⟩⟩
  | formed _ _ hform _ rest ihparts ih =>
    obtain ⟨ht, hparts⟩ := ihparts (fun ht => hs' (rest.metCycle_mono ht)) hs
    have hnode : ¬ Looping g (g.follow _) := fun hloop => by
      obtain ⟨a, ha, hloop⟩ := (looping_formed hform).mp hloop
      exact hparts a ha hloop
    obtain ⟨hsettled, hrest⟩ := ih hs' (ht.remember hnode)
    exact ⟨hsettled, List.forall_mem_cons.mpr ⟨hnode, hrest⟩⟩

end Reads

theorem metCycle_iff (g : Graph) (tree : Nat) (file : String) :
    (Decode.outcome g tree file).2.MetCycle ↔ Looping g (g.follow g.root) := by
  obtain ⟨made, h⟩ := Decode.root_reads g tree file
  constructor
  · intro hmet
    rcases h.looping_of_metCycle nofun hmet with ⟨f, hf, _⟩ | ⟨c, hc, hloop⟩
    · cases hf
    · rwa [List.mem_singleton.mp hc] at hloop
  · intro hloop
    by_contra hmet
    exact (h.settled hmet (by simp [Decoding.Settled])).2 g.root (.head _) hloop

theorem decode_reports_cycle (g : Graph) (tree : Nat) (file : String) :
    (∃ ds, decode g tree file = .error ds ∧ ∃ d ∈ ds, d.message = "recursive alias") ↔
      (Decode.outcome g tree file).2.MetCycle := by
  rw [decode_outcome]
  constructor
  · rintro ⟨ds, hdecode, d, hd, hmessage⟩
    split at hdecode
    · cases hdecode
    · cases hdecode
      obtain ⟨f, hf, rfl⟩ := List.mem_map.mp hd
      exact ⟨f, hf, Flaw.message_eq_recursiveAlias.mp hmessage⟩
  · rintro ⟨f, hf, heq⟩
    have hne : ¬ (Decode.outcome g tree file).2.findings.isEmpty := fun hnil => by
      rw [Array.isEmpty_iff.mp hnil] at hf
      cases hf
    rw [if_neg hne]
    refine ⟨_, rfl, _, List.mem_map_of_mem hf, ?_⟩
    exact Flaw.message_eq_recursiveAlias.mpr heq

/-- Reading a graph ends, though nothing bounds how deep it may go, and it reports a cycle exactly
if there is one that it can come to from the root. -/
theorem cycles_are_found (g : Graph) (tree : Nat) (file : String) :
    (∃ e s made, Reads g tree file [] [g.root] {} [e] s made ∧
      decode g tree file = if s.findings.isEmpty then .ok e
        else .error (s.findings.toList.map (Finding.toDiagnostic g file))) ∧
    ((∃ ds, decode g tree file = .error ds ∧ ∃ d ∈ ds, d.message = "recursive alias") ↔
      ∃ i, ReflTransGen (Part g) (g.follow g.root) i ∧ TransGen (Part g) i i) := by
  constructor
  · obtain ⟨made, h⟩ := Decode.root_reads g tree file
    exact ⟨_, _, made, h, decode_outcome g tree file⟩
  · rw [decode_reports_cycle, metCycle_iff, ← below_eq_part]
    rfl

end Letrec.Expr
