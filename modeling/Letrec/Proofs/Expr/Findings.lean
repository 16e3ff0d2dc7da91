import Letrec.Proofs.Expr.Branch

/-!
# What is reported of a document without aliases

The reader keeps one list of findings for the whole document, and the nodes it has been through. On
a document without aliases neither matters: what is reported is what is wrong with the branch at the
root, node by node.
-/

namespace Letrec.Expr

open Yaml (Graph Branch)
open Yaml.Branch (number numbers)

section
variable {g : Graph} {t : Branch} {kind : String} {names : List String}

-- ---------------------------------------------------------------------------
-- One node
-- ---------------------------------------------------------------------------

theorem nameOf_number (h : t.In g) (role : String) :
    (nameOf g t.number role).2 = t.nameFlaws role := by
  simp only [nameOf, h.follow, h.shape]
  cases t with
  | scalar i tag text =>
    have htag : (g.node (Branch.scalar i tag text).number).tag = tag :=
      (h.shown _ (Branch.mem_nodes_self _)).2
    simp only [Branch.shape, Branch.nameFlaws, htag]
    split <;> simp_all [number]
  | _ => rfl

theorem listOf_number (h : t.In g) (kind : String) (count : Nat) :
    listOf g t.number kind count = (t.items kind count).map (·.map number) := by
  simp only [listOf, h.follow, h.shape]
  cases t with
  | sequence i items =>
    simp only [Branch.shape, Branch.items, List.length_map]
    split <;> rfl
  | _ => rfl

theorem field?_number
    (entries : List (Branch × Branch)) (h : ∀ e ∈ entries, e.1.In g) (name : String) :
    field? g (entries.map fun e => (e.1.number, e.2.number)) name =
      (Branch.value? entries name).map number := by
  induction entries with
  | nil => rfl
  | cons e rest ih =>
    have hrest := ih fun e he => h e (.tail _ he)
    simp only [field?, Branch.value?, List.map_cons, List.find?_cons,
      (h e (.head _)).text] at hrest ⊢
    by_cases hname : e.1.text = name
    · simp [hname]
    · simp only [beq_eq_false_iff_ne.mpr hname, hname, decide_false, hrest]

theorem keyFindings_number
    (entries : List (Branch × Branch)) (h : ∀ e ∈ entries, e.1.In g) (before : List Branch)
    (hseen : ∀ name ∈ names, name ∈ seen ↔ name ∈ before.map Branch.text) :
    keyFindings g kind names seen (entries.map fun e => (e.1.number, e.2.number)) =
      ((entries.map Prod.fst).zip ((entries.map Prod.fst).inits.map (before ++ ·))).filterMap
        (fun k => Branch.keyFlaw? kind names k.1 k.2) := by
  induction entries generalizing seen before with
  | nil => rfl
  | cons e rest ih =>
    have hrest := fun e he => h e (.tail _ he)
    have hinits : ((rest.map Prod.fst).inits.map (e.1 :: ·)).map (before ++ ·) =
        (rest.map Prod.fst).inits.map (before ++ [e.1] ++ ·) := by
      simp
    simp only [keyFindings, List.map_cons, (h e (.head _)).text, List.inits, List.zip_cons_cons,
      List.filterMap_cons, List.append_nil, hinits]
    have hbefore (name : String) (hname : name ∈ names) :
        name ∈ (before ++ [e.1]).map Branch.text ↔ name ∈ seen ∨ name = e.1.text := by
      simp [hseen name hname]
    by_cases hknown : e.1.text ∈ names
    · by_cases hagain : e.1.text ∈ seen
      · have hflaw : Branch.keyFlaw? kind names e.1 before =
          some (.duplicateField e.1.text kind, e.1.number) := by
          rw [Branch.keyFlaw?, if_neg (not_not_intro hknown), if_pos ((hseen _ hknown).mp hagain)]
        rw [if_neg (not_not_intro hknown), if_pos hagain, hflaw, ih hrest (before ++ [e.1])]
        intro name hname
        rw [hbefore name hname]
        exact ⟨.inl, fun h => h.elim id fun heq => heq ▸ hagain⟩
      · have hflaw : Branch.keyFlaw? kind names e.1 before = none := by
          rw [Branch.keyFlaw?, if_neg (not_not_intro hknown),
            if_neg (hagain ∘ (hseen _ hknown).mpr)]
        rw [if_neg (not_not_intro hknown), if_neg hagain, hflaw, ih hrest (before ++ [e.1])]
        intro name hname
        rw [hbefore name hname, List.mem_cons, or_comm]
    · have hflaw : Branch.keyFlaw? kind names e.1 before =
        some (.unknownField e.1.text kind, e.1.number) := by
        rw [Branch.keyFlaw?, if_pos hknown]
      rw [if_pos hknown, hflaw, ih hrest (before ++ [e.1])]
      intro name hname
      rw [hbefore name hname]
      exact ⟨.inl, fun h => h.elim id fun heq => absurd (heq ▸ hname) hknown⟩

theorem value?_eq_none {entries : List (Branch × Branch)} :
    (Branch.value? entries name).isNone ↔ name ∉ (entries.map Prod.fst).map Branch.text := by
  simp [Branch.value?]

theorem fieldsOf_number (h : t.In g) (kind : String) (names : List String) :
    fieldsOf g t.number kind names = (t.fields kind names).map (·.map number) := by
  simp only [fieldsOf, h.follow, h.shape]
  cases t with
  | mapping i entries =>
    have hkeys : ∀ e ∈ entries, e.1.In g := fun e he =>
      h.branch (List.mem_flatMap.mpr ⟨e, he, by simp⟩)
    have hfindings : keyFindings g kind names [] (entries.map fun e => (e.1.number, e.2.number)) ++
        (names.filter fun name =>
          (field? g (entries.map fun e => (e.1.number, e.2.number)) name).isNone).map
          (fun name => (Flaw.missingField name kind, (Branch.mapping i entries).number)) =
        Branch.fieldFlaws kind names i (entries.map Prod.fst) := by
      rw [keyFindings_number entries hkeys [] (by simp)]
      simp only [Branch.fieldFlaws, field?_number entries hkeys, Option.isNone_map, List.nil_append,
        List.map_id']
      congr 3
      funext name
      rw [Bool.eq_iff_iff, value?_eq_none]
      simp
    simp only [Branch.shape, hfindings, Branch.fields]
    cases hflaws : Branch.fieldFlaws kind names i (entries.map Prod.fst) with
    | nil => simp [Except.map, List.map_filterMap, field?_number entries hkeys]
    | cons f fs => rfl
  | _ => rfl

def Form.outline (r : Form × List Finding) : List Finding × List Nat := (r.2, r.1.children)

def outline (r : List Finding × List Branch) : List Finding × List Nat := (r.1, r.2.map number)

theorem constOf_content (h : t.In g) :
    (do return (← constOf g t.number, []) : Except _ _).map Form.outline =
      (t.content kind .integer).map outline := by
  simp only [constOf, h.follow, h.shape]
  cases t with
  | scalar i tag text =>
    simp only [Branch.shape, Branch.content, Branch.integerFlaws]
    cases Number.int64? text <;> rfl
  | _ => rfl

theorem listOf_content (h : t.In g) {next : List Nat → Except (List Finding) (Form × List Finding)}
    (hnext : ∀ parts : List Branch, parts.length = count →
      (next (parts.map number)).map Form.outline = .ok ([], parts.map number)) :
    (listOf g t.number kind count >>= next).map Form.outline =
      (t.content kind (.list count)).map outline := by
  rw [listOf_number h, Branch.content]
  cases hitems : t.items kind count with
  | error fs => rfl
  | ok parts =>
    obtain ⟨-, -, hlength⟩ := Branch.items_eq_ok hitems
    exact hnext parts hlength

theorem fieldsOf_content (names parts : List String)
    (distinct : (names ++ parts).Nodup) (h : t.In g)
    {next : List Nat → Except (List Finding) (Form × List Finding)}
    (hnext : ∀ values : List Branch, (∀ v ∈ values, v.In g) →
      values.length = (names ++ parts).length → (next (values.map number)).map Form.outline =
        .ok (outline ((names.zip values).flatMap fun v => v.2.nameFlaws (kind ++ " " ++ v.1),
          values.drop names.length))) :
    (fieldsOf g t.number kind (names ++ parts) >>= next).map Form.outline =
      (t.content kind (.fields names parts distinct)).map outline := by
  rw [fieldsOf_number h, Branch.content]
  cases hfields : t.fields kind (names ++ parts) with
  | error fs => rfl
  | ok values =>
    have hvalues : ∀ v ∈ values, v.In g :=
      fun v hv => h.branch (Branch.mem_branches_of_fields hfields hv)
    exact hnext values hvalues (Branch.length_fields hfields)

theorem formOf_entry (hkey : key.In g) (hvalue : value.In g)
    (hshape : (g.node i).shape = .mapping [(key.number, value.number)]) :
    (formOf g i).map Form.outline = (Branch.mapping i [(key, value)]).layer.map outline := by
  rw [formOf, hshape]
  simp only [hkey.text, Branch.layer]
  split
  case h_1 heq =>
    simp only [heq, Branch.pattern?]
    exact constOf_content hvalue
  case h_2 heq =>
    simp only [heq, Branch.pattern?]
    exact congrArg (fun fs => Except.ok (fs, [])) (nameOf_number hvalue "var")
  case h_3 heq =>
    simp only [heq, Branch.pattern?]
    refine listOf_content hvalue fun parts hlength => ?_
    obtain ⟨a, b, rfl⟩ := List.length_eq_two.mp hlength
    rfl
  case h_4 heq =>
    simp only [heq, Branch.pattern?]
    rfl
  case h_5 heq =>
    simp only [heq, Branch.pattern?]
    refine listOf_content hvalue fun parts hlength => ?_
    obtain ⟨a, b, c, rfl⟩ := List.length_eq_three.mp hlength
    rfl
  case h_6 heq =>
    simp only [heq, Branch.pattern?]
    refine fieldsOf_content ["name"] ["value", "body"] _ hvalue fun values hvalues hlength => ?_
    obtain ⟨a, b, c, rfl⟩ := List.length_eq_three.mp hlength
    change Except.ok ((nameOf g a.number "let name").2, [b.number, c.number]) = _
    simp [outline, nameOf_number (hvalues a (by simp))]
  case h_7 heq =>
    simp only [heq, Branch.pattern?]
    refine fieldsOf_content ["name", "param"] ["proc", "body"] _ hvalue
      fun values hvalues hlength => ?_
    obtain ⟨a, rest, rfl⟩ := List.exists_cons_of_length_eq_add_one hlength
    obtain ⟨b, c, d, rfl⟩ := List.length_eq_three.mp (Nat.succ.inj hlength)
    change Except.ok ((nameOf g a.number "letrec name").2 ++ (nameOf g b.number "letrec param").2,
      [c.number, d.number]) = _
    simp [outline, nameOf_number (hvalues a (by simp)), nameOf_number (hvalues b (by simp))]
  case h_8 heq =>
    simp only [heq, Branch.pattern?]
    refine fieldsOf_content ["param"] ["body"] _ hvalue fun values hvalues hlength => ?_
    obtain ⟨a, b, rfl⟩ := List.length_eq_two.mp hlength
    change Except.ok ((nameOf g a.number "proc param").2, [b.number]) = _
    simp [outline, nameOf_number (hvalues a (by simp))]
  case h_9 heq =>
    simp only [heq, Branch.pattern?]
    refine listOf_content hvalue fun parts hlength => ?_
    obtain ⟨a, b, rfl⟩ := List.length_eq_two.mp hlength
    rfl
  case h_10 =>
    have hpattern : Branch.pattern? key.text = none := by
      unfold Branch.pattern?
      split <;> simp_all
    rw [hpattern]
    rfl

theorem formOf_number (h : t.In g) :
    (formOf g t.number).map Form.outline = t.layer.map outline := by
  cases t with
  | mapping i entries =>
    rcases entries with _ | ⟨⟨key, value⟩, _ | ⟨e, rest⟩⟩
    · rw [formOf, h.shape]
      rfl
    · exact formOf_entry (h.branch (by simp [Branch.branches]))
        (h.branch (by simp [Branch.branches])) h.shape
    · rw [formOf, h.shape]
      rfl
  | _ =>
    rw [formOf, h.shape]
    rfl

theorem formOf_refused (h : t.In g) : formOf g t.number = .error fs ↔ t.layer = .error fs := by
  have hmap := formOf_number h
  cases hform : formOf g t.number <;> cases hlayer : t.layer <;> simp_all [Except.map]

theorem formOf_formed (h : t.In g) (hform : formOf g t.number = .ok (form, fs)) :
    ∃ parts : List Branch, t.layer = .ok (fs, parts) ∧ form.children = parts.map number := by
  have hmap := formOf_number h
  cases hlayer : t.layer with
  | error fs' => simp [hform, hlayer, Except.map] at hmap
  | ok r =>
    simp only [hform, hlayer, Except.map, Form.outline, outline, Except.ok.injEq,
      Prod.mk.injEq] at hmap
    obtain ⟨rfl, hchildren⟩ := hmap
    exact ⟨r.2, rfl, hchildren⟩

end

-- ---------------------------------------------------------------------------
-- The whole document
-- ---------------------------------------------------------------------------

variable {g : Graph} {tree : Nat} {file : String} {path todo made : List Nat} {s s' : Decoding}
  {es : List Expr} {t : Branch} {ts parts : List Branch}

/-- No two of the branches have a node in common, and none of their nodes has been read or is
being read. -/
structure Fresh (g : Graph) (path : List Nat) (s : Decoding) (ts : List Branch) : Prop where
  shown : ∀ t ∈ ts, t.In g
  apart : (ts.flatMap numbers).Nodup
  unread : ∀ i ∈ ts.flatMap numbers, s.done[i]? = none
  outside : ∀ i ∈ ts.flatMap numbers, i ∉ path

/-- What reading branches changes: it adds what is wrong with them, and remembers nothing of
other nodes. -/
structure Adds (s s' : Decoding) (ts : List Branch) : Prop where
  findings : s'.findings.toList = s.findings.toList ++ ts.flatMap Branch.flaws
  done : ∀ i ∉ ts.flatMap numbers, s'.done[i]? = s.done[i]?

theorem Adds.nil (s : Decoding) : Adds s s [] := ⟨by simp, fun _ _ => rfl⟩

theorem Adds.cons (h : Adds s s₁ [t]) (h' : Adds s₁ s' ts) : Adds s s' (t :: ts) where
  findings := by
    rw [h'.findings, h.findings]
    simp
  done i hi := by
    rw [List.flatMap_cons, List.mem_append, not_or] at hi
    rw [h'.done i hi.2, h.done i (by simpa using hi.1)]

namespace Fresh

theorem number_mem (t : Branch) (ts : List Branch) : t.number ∈ (t :: ts).flatMap numbers :=
  List.mem_flatMap.mpr ⟨t, .head _, Branch.number_mem_numbers t.mem_nodes_self⟩

theorem head_in (h : Fresh g path s (t :: ts)) : t.In g := h.shown t (.head _)

theorem head_unread (h : Fresh g path s (t :: ts)) : s.done[t.number]? = none :=
  h.unread _ (number_mem t ts)

theorem head_outside (h : Fresh g path s (t :: ts)) : t.number ∉ path :=
  h.outside _ (number_mem t ts)

theorem tail (h : Fresh g path s (t :: ts)) (hadds : Adds s s₁ [t]) : Fresh g path s₁ ts where
  shown t ht := h.shown t (.tail _ ht)
  apart := (List.nodup_append.mp h.apart).2.1
  unread i hi := by
    have hne : i ∉ [t].flatMap numbers := fun ht =>
      (List.nodup_append.mp h.apart).2.2 i (by simpa using ht) i hi rfl
    rw [hadds.done i hne]
    exact h.unread i (List.mem_append_right _ hi)
  outside i hi := h.outside i (List.mem_append_right _ hi)

theorem ofLayer (h : Fresh g path s (t :: ts)) (hlayer : t.layer = .ok (fs, parts)) :
    Fresh g (t.number :: path) (s.note fs) parts := by
  have hnumbers {i : Nat} (hi : i ∈ parts.flatMap numbers) :=
    Branch.numbers_layer h.head_in.apart hlayer hi
  have hmem {i : Nat} (hi : i ∈ parts.flatMap numbers) : i ∈ (t :: ts).flatMap numbers :=
    List.mem_append_left _ (hnumbers hi).1
  obtain ⟨hin, hapart⟩ := h.head_in.layer hlayer
  refine ⟨hin, hapart, fun i hi => h.unread i (hmem hi), fun i hi => ?_⟩
  simp [h.outside i (hmem hi), (hnumbers hi).2]

end Fresh

theorem Fresh.adds_refused
    (h : Fresh g path s (t :: ts)) (hform : formOf g t.number = .error fs) (e : Expr) :
    Adds s ((s.note fs).remember t.number e) [t] where
  findings := by simp [Decoding.note, Branch.flaws_of_error ((formOf_refused h.head_in).mp hform)]
  done i hi := by
    have hne : t.number ≠ i := fun heq => hi (heq ▸ Fresh.number_mem t [])
    rw [Decoding.done_remember, if_neg hne, Decoding.done_note]

theorem Fresh.adds_formed (h : Fresh g path s (t :: ts)) (hlayer : t.layer = .ok (fs, parts))
    (hparts : Adds (s.note fs) s₁ parts) (e : Expr) : Adds s (s₁.remember t.number e) [t] where
  findings := by
    rw [Decoding.findings_remember, hparts.findings]
    simp [Decoding.note, Branch.flaws_of_ok hlayer]
  done i hi := by
    have hne : t.number ≠ i := fun heq => hi (heq ▸ Fresh.number_mem t [])
    have hnot : i ∉ parts.flatMap numbers := fun hmem =>
      hi (by simp [(Branch.numbers_layer h.head_in.apart hlayer hmem).1])
    rw [Decoding.done_remember, if_neg hne, hparts.done i hnot, Decoding.done_note]

theorem Reads.adds (h : Reads g tree file path todo s es s' made) (htodo : ts.map number = todo)
    (hfresh : Fresh g path s ts) : Adds s s' ts := by
  induction h generalizing ts with
  | nil =>
    obtain rfl := List.map_eq_nil_iff.mp htodo
    exact .nil _
  | known hdone rest ih =>
    obtain ⟨t, ts, rfl, rfl, rfl⟩ := List.map_eq_cons_iff.mp htodo
    rw [hfresh.head_in.follow, hfresh.head_unread] at hdone
    cases hdone
  | inside hdone hpath rest ih =>
    obtain ⟨t, ts, rfl, rfl, rfl⟩ := List.map_eq_cons_iff.mp htodo
    rw [hfresh.head_in.follow] at hpath
    exact absurd hpath hfresh.head_outside
  | refused hdone hpath hform rest ih =>
    obtain ⟨t, ts, rfl, rfl, rfl⟩ := List.map_eq_cons_iff.mp htodo
    rw [hfresh.head_in.follow] at hform ih
    have hhead := hfresh.adds_refused hform .absent
    exact hhead.cons (ih rfl (hfresh.tail hhead))
  | formed hdone hpath hform parts rest ihparts ih =>
    obtain ⟨t, ts, rfl, rfl, rfl⟩ := List.map_eq_cons_iff.mp htodo
    rw [hfresh.head_in.follow] at hform ih ihparts
    obtain ⟨branches, hlayer, hchildren⟩ := formOf_formed hfresh.head_in hform
    have hhead := hfresh.adds_formed hlayer (ihparts hchildren.symm (hfresh.ofLayer hlayer))
    exact (hhead _).cons (ih rfl (hfresh.tail (hhead _)))

theorem outcome_findings (h : t.In g) (hroot : t.number = g.root) (tree : Nat) (file : String) :
    (Decode.outcome g tree file).2.findings.toList = t.flaws := by
  obtain ⟨made, hreads⟩ := Decode.root_reads g tree file
  have hfresh : Fresh g [] {} [t] := ⟨by simpa using h, by simpa using h.apart, by simp, by simp⟩
  have hadds := hreads.adds (by simp [hroot]) hfresh
  simpa using hadds.findings

def diagnosticsOf : Except (List Diagnostic) Expr → List Diagnostic
  | .ok _ => []
  | .error ds => ds

theorem decode_branch (h : t.In g) (hroot : t.number = g.root) (tree : Nat) (file : String) :
    decode g tree file =
      if t.flaws = [] then .ok (Decode.outcome g tree file).1
      else .error (t.flaws.map (Finding.toDiagnostic g file)) := by
  have hempty : (Decode.outcome g tree file).2.findings.isEmpty = true ↔ t.flaws = [] := by
    rw [← outcome_findings h hroot tree file]
    simp
  simp only [decode_outcome, hempty, outcome_findings h hroot tree file]

theorem diagnosticsOf_decode (h : t.In g) (hroot : t.number = g.root) (tree : Nat) (file : String) :
    diagnosticsOf (decode g tree file) = t.flaws.map (Finding.toDiagnostic g file) := by
  rw [decode_branch h hroot]
  split
  · simp_all [diagnosticsOf]
  · rfl

theorem diagnosticsOf_part (h : t.In g) (hlayer : t.layer = .ok (fs, parts)) (hp : p ∈ parts) :
    diagnosticsOf (decode { g with root := p.number } tree file) =
      p.flaws.map (Finding.toDiagnostic g file) := by
  obtain ⟨hshown, hapart⟩ := (h.layer hlayer).1 p hp
  have hin : p.In { g with root := p.number } := ⟨hshown, hapart⟩
  exact diagnosticsOf_decode hin rfl tree file

theorem mem_diagnosticsOf (h : t.In g) (hroot : t.number = g.root)
    (hd : d ∈ diagnosticsOf (decode g tree file)) :
    ∃ f : Finding, ∃ b ∈ t.nodes, b.number = f.2 ∧ b.Has f.1 ∧ d = f.toDiagnostic g file := by
  rw [diagnosticsOf_decode h hroot] at hd
  obtain ⟨f, hf, rfl⟩ := List.mem_map.mp hd
  obtain ⟨b, hb, hnumber, hhas⟩ := Branch.flaws_shows hf
  exact ⟨f, b, hb, hnumber, hhas, rfl⟩

/-- The diagnostics of a document without aliases are those of its nodes: a node of another shape
than expected has its own, any other has those of its names and then of its parts, as if each part
were a document of its own. -/
theorem diagnostics_are_compositional (h : t.In g) (hroot : t.number = g.root) (tree : Nat)
    (file : String) :
    let ds := diagnosticsOf (decode g tree file)
    let shown (fs : List Finding) := fs.map (Finding.toDiagnostic g file)
    ds = shown t.flaws ∧
    ((∃ e, decode g tree file = .ok e) ↔ ds = []) ∧
    (∀ fs, t.layer = .error fs → fs ≠ [] ∧ ds = shown fs) ∧
    (∀ fs parts, t.layer = .ok (fs, parts) →
      ds = shown fs ++ parts.flatMap fun p =>
        diagnosticsOf (decode { g with root := p.number } tree file)) ∧
    (∀ d ∈ ds, ∃ b ∈ t.nodes, ∃ flaw, b.Has flaw ∧ d.message = flaw.message ∧
      d.span = some ⟨file, (g.node b.number).line, (g.node b.number).column⟩) ∧
    ∀ d ∈ ds, d.message ≠ "recursive alias" := by
  intro ds shown
  have hds : ds = shown t.flaws := diagnosticsOf_decode h hroot tree file
  refine ⟨hds, ?_, fun fs hlayer => ⟨formOf_error ((formOf_refused h).mpr hlayer), ?_⟩,
    fun fs parts hlayer => ?_, fun d hd => ?_, fun d hd => ?_⟩
  · rw [hds, List.map_eq_nil_iff, decode_branch h hroot]
    split <;> simp_all
  · rw [hds, Branch.flaws_of_error hlayer]
  · rw [hds, Branch.flaws_of_ok hlayer, List.flatMap_congr
      fun p hp => diagnosticsOf_part h hlayer hp]
    simp [shown, List.map_flatMap]
  · obtain ⟨f, b, hb, hnumber, hhas, rfl⟩ := mem_diagnosticsOf h hroot hd
    exact ⟨b, hb, f.1, hhas, rfl, by rw [hnumber]; rfl⟩
  · obtain ⟨f, b, -, -, hhas, rfl⟩ := mem_diagnosticsOf h hroot hd
    intro hmessage
    rw [Flaw.message_eq_recursiveAlias.mp hmessage] at hhas
    exact hhas

-- A procedure without a parameter whose body is of no kind is called on an operand with an unknown
-- field, a field that comes twice and two that are missing.
def faultyGraph : Graph :=
  { root := 0
    nodes := #[⟨.map, .mapping [(1, 2)], 1, 1⟩, ⟨.str, .scalar "call", 1, 1⟩,
      ⟨.seq, .sequence [3, 12], 2, 1⟩,
      ⟨.map, .mapping [(4, 5)], 2, 3⟩, ⟨.str, .scalar "proc", 2, 3⟩,
        ⟨.map, .mapping [(6, 7), (10, 11)], 2, 9⟩,
      ⟨.str, .scalar "body", 2, 10⟩, ⟨.map, .mapping [(8, 9)], 2, 16⟩, ⟨.str, .scalar "add", 2, 17⟩,
      ⟨.int, .scalar "1", 2, 22⟩, ⟨.str, .scalar "param", 2, 26⟩, ⟨.str, .scalar "", 2, 33⟩,
      ⟨.map, .mapping [(13, 14)], 3, 3⟩, ⟨.str, .scalar "let", 3, 3⟩,
      ⟨.map, .mapping [(15, 16), (17, 18), (19, 20)], 3, 8⟩, ⟨.str, .scalar "name", 3, 9⟩,
      ⟨.str, .scalar "x", 3, 15⟩, ⟨.str, .scalar "nam", 3, 18⟩, ⟨.str, .scalar "y", 3, 23⟩,
      ⟨.str, .scalar "name", 3, 26⟩, ⟨.str, .scalar "z", 3, 32⟩] }

def faultyBody : Branch := .mapping 7 [(.scalar 8 .str "add", .scalar 9 .int "1")]

def faultyProc : Branch :=
  .mapping 3 [(.scalar 4 .str "proc", .mapping 5
    [(.scalar 6 .str "body", faultyBody), (.scalar 10 .str "param", .scalar 11 .str "")])]

def faultyLet : Branch :=
  .mapping 12 [(.scalar 13 .str "let", .mapping 14
    [(.scalar 15 .str "name", .scalar 16 .str "x"), (.scalar 17 .str "nam", .scalar 18 .str "y"),
     (.scalar 19 .str "name", .scalar 20 .str "z")])]

def faultyCall : Branch := .mapping 0 [(.scalar 1 .str "call", .sequence 2 [faultyProc, faultyLet])]

theorem faultyCall_in : faultyCall.In faultyGraph where
  shown := by
    simp only [faultyCall, faultyProc, faultyBody, faultyLet, Branch.nodes_eq, Branch.branches,
      List.flatMap_cons,
      List.flatMap_nil, List.append_nil, List.cons_append, List.nil_append, List.forall_mem_cons,
        Branch.Matches,
      List.not_mem_nil, false_implies, implies_true, and_true]
    decide
  apart := by
    simp only [faultyCall, faultyProc, faultyBody, faultyLet, Branch.numbers_eq, Branch.branches,
      List.flatMap_cons, List.flatMap_nil, List.append_nil, List.cons_append, List.nil_append]
    decide

theorem faultyCall_flaws : faultyCall.flaws =
    [(.noName "proc param", 11), (.unknownKind "add", 8), (.unknownField "nam" "let", 17),
     (.duplicateField "name" "let", 19), (.missingField "value" "let", 14),
       (.missingField "body" "let", 14)] := by
  have hcall : faultyCall.layer = .ok ([], [faultyProc, faultyLet]) := rfl
  have hproc : faultyProc.layer = .ok ([(.noName "proc param", 11)], [faultyBody]) := rfl
  have hbody : faultyBody.layer = .error [(.unknownKind "add", 8)] := rfl
  have hlet : faultyLet.layer =
    .error [(.unknownField "nam" "let", 17), (.duplicateField "name" "let", 19),
    (.missingField "value" "let", 14), (.missingField "body" "let", 14)] := rfl
  simp [Branch.flaws_of_ok hcall, Branch.flaws_of_ok hproc, Branch.flaws_of_error hbody,
    Branch.flaws_of_error hlet]

theorem diagnostics_are_compositional_call :
    faultyCall.In faultyGraph ∧ faultyCall.number = faultyGraph.root ∧
    (diagnosticsOf (decode faultyGraph 1 "f")).map (fun d => (d.message, d.span)) =
      [("proc param must be a non-empty string", some ⟨"f", 2, 33⟩),
       ("unknown node kind 'add'", some ⟨"f", 2, 17⟩),
       ("unknown field 'nam' in let", some ⟨"f", 3, 18⟩),
       ("duplicate field 'name' in let", some ⟨"f", 3, 26⟩),
       ("missing field 'value' in let", some ⟨"f", 3, 8⟩),
       ("missing field 'body' in let", some ⟨"f", 3, 8⟩)] := by
  refine ⟨faultyCall_in, rfl, ?_⟩
  rw [(diagnostics_are_compositional faultyCall_in rfl 1 "f").1, faultyCall_flaws]
  decide

end Letrec.Expr
