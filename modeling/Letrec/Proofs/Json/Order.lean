import Letrec.Json.Data
import Letrec.Proofs.Number.Binary64

/-!
# Being part of a value is a partial order

A value is read as a map from paths to labels: which kind of value or which scalar stands at the end
of a path. One value is part of another exactly if its map is contained in the other. From this it
follows that being part is reflexive, transitive, and antisymmetric up to the form of numbers.
-/

namespace Letrec.Json

open Number (Binary64)

-- ---------------------------------------------------------------------------
-- Fields
-- ---------------------------------------------------------------------------

section Fields

variable {α β : Type} {fields others : List (String × α)} {key : String} {value : α}

def Ordered (fields : List (String × α)) : Prop := fields.Pairwise (·.1 < ·.1)

theorem Ordered.nodup_keys (h : Ordered fields) : (fields.map Prod.fst).Nodup :=
  List.pairwise_map.mpr (h.imp String.ne_of_lt)

theorem mem_of_field? (h : field? fields key = some value) : (key, value) ∈ fields := by
  obtain ⟨f, hf, rfl⟩ := Option.map_eq_some_iff.mp h
  have hkey : f.1 = key := by simpa using List.find?_some hf
  exact hkey ▸ List.mem_reverse.mp (List.mem_of_find?_eq_some hf)

theorem Ordered.field?_eq_some (hfields : Ordered fields) :
    field? fields key = some value ↔ (key, value) ∈ fields := by
  refine ⟨mem_of_field?, fun hmem => ?_⟩
  cases hfound : field? fields key with
  | none =>
    simp only [field?, Option.map_eq_none_iff, List.find?_eq_none, List.mem_reverse] at hfound
    exact absurd (beq_self_eq_true key) (hfound _ hmem)
  | some other =>
    have heq := List.inj_on_of_nodup_map hfields.nodup_keys (mem_of_field? hfound) hmem rfl
    rw [(Prod.mk.inj heq).2]

theorem Ordered.eq_of_perm (hfields : Ordered fields) (hothers : Ordered others)
    (h : fields.Perm others) : fields = others :=
  h.eq_of_pairwise (fun _ _ _ _ hlt hgt => absurd hgt (String.lt_asymm hlt)) hfields hothers

theorem Ordered.ext (hfields : Ordered fields) (hothers : Ordered others)
    (h : ∀ key, field? fields key = field? others key) : fields = others := by
  have hmem (f : String × α) : f ∈ fields ↔ f ∈ others := by
    rw [← hfields.field?_eq_some, ← hothers.field?_eq_some, h]
  refine hfields.eq_of_perm hothers ?_
  exact (List.perm_ext_iff_of_nodup hfields.nodup_keys.of_map hothers.nodup_keys.of_map).mpr hmem

theorem field?_map (f : α → β) (fields : List (String × α)) (key : String) :
    field? (fields.map fun field => (field.1, f field.2)) key = (field? fields key).map f := by
  simp only [field?, ← List.map_reverse, List.find?_map, Option.map_map]
  rfl

/-- A field is kept if no later one has its key, so that each key is kept once. -/
theorem nodup_keys_foldl (kept : List (String × α)) (h : (kept.map Prod.fst).Nodup) :
    ((fields.foldl (fun kept f => if kept.any (·.1 == f.1) then kept else f :: kept) kept).map
      Prod.fst).Nodup := by
  induction fields generalizing kept with
  | nil => exact h
  | cons f rest ih =>
    rw [List.foldl_cons]
    split
    · exact ih kept h
    case isFalse hnew =>
      refine ih _ (List.nodup_cons.mpr ⟨fun hmem => hnew ?_, h⟩)
      obtain ⟨g, hg, hkey⟩ := List.mem_map.mp hmem
      exact List.any_eq_true.mpr ⟨g, hg, beq_iff_eq.mpr hkey⟩

theorem mem_foldl (kept : List (String × α)) {f : String × α}
    (h : f ∈ fields.foldl (fun kept f => if kept.any (·.1 == f.1) then kept else f :: kept) kept) :
    f ∈ kept ∨ f ∈ fields := by
  induction fields generalizing kept with
  | nil => exact .inl h
  | cons g rest ih =>
    rw [List.foldl_cons] at h
    rcases ih _ h with hkept | hrest
    · split at hkept
      · exact .inl hkept
      · rcases List.mem_cons.mp hkept with rfl | hkept
        · exact .inr (.head _)
        · exact .inl hkept
    · exact .inr (.tail _ hrest)

theorem ordered_sortFields (h : (fields.map Prod.fst).Nodup) : Ordered (sortFields fields) := by
  have hle (a b : String × α) : (!decide (b.1 < a.1)) = true ↔ a.1 ≤ b.1 := by
    simp only [Bool.not_eq_true', decide_eq_false_iff_not, String.not_lt]
  have hsorted : (sortFields fields).Pairwise fun a b => a.1 ≤ b.1 := by
    refine (List.pairwise_mergeSort ?_ ?_ fields).imp fun {a b} hab => (hle a b).mp hab
    · intro a b c hab hbc
      exact (hle a c).mpr (String.le_trans ((hle a b).mp hab) ((hle b c).mp hbc))
    · intro a b
      rw [Bool.or_eq_true, hle, hle]
      exact String.le_total a.1 b.1
  have hnodup : ((sortFields fields).map Prod.fst).Nodup :=
    ((List.mergeSort_perm fields _).map Prod.fst).nodup_iff.mpr h
  refine hsorted.imp₂ ?_ (List.pairwise_map.mp hnodup)
  intro a b hle hne
  exact String.not_le.mp fun hge => hne (String.le_antisymm hle hge)

theorem Ordered.sortFields_eq (hfields : Ordered fields) (h : fields.Perm others) :
    sortFields others = fields := by
  have hnodup : (others.map Prod.fst).Nodup := (h.map Prod.fst).nodup_iff.mp hfields.nodup_keys
  exact (ordered_sortFields hnodup).eq_of_perm hfields ((List.mergeSort_perm others _).trans h.symm)

theorem ordered_canonicalFields (fields : List (String × α)) : Ordered (canonicalFields fields) :=
  ordered_sortFields (nodup_keys_foldl [] .nil)

theorem mem_of_mem_canonicalFields {f : String × α} (h : f ∈ canonicalFields fields) :
    f ∈ fields := by
  rcases mem_foldl [] (List.mem_mergeSort.mp h) with hnil | hmem
  · cases hnil
  · exact List.mem_reverse.mp hmem

end Fields

namespace Data

-- ---------------------------------------------------------------------------
-- Paths
-- ---------------------------------------------------------------------------

inductive Step where
  | field (key : String)
  | item (index : Nat)
deriving DecidableEq

inductive Label where
  | null
  | bool (b : Bool)
  | number (value : ℚ)
  | string (s : String)
  | array
  | object
deriving DecidableEq

def label : Data → Label
  | .null => .null
  | .bool b => .bool b
  | .number n => .number n.toRat
  | .string s => .string s
  | .array _ => .array
  | .object _ => .object

def child? : Data → Step → Option Data
  | .object fields, .field key => field? fields key
  | .array items, .item index => items[index]?
  | _, _ => none

def labelAt? (v : Data) : List Step → Option Label
  | [] => some v.label
  | step :: path => (v.child? step).bind (labelAt? · path)

mutual
/-- The value with its numbers as they are, whatever their form. -/
def exact : Data → Json ℚ
  | .null => .null
  | .bool b => .bool b
  | .number n => .number n.toRat
  | .string s => .string s
  | .array items => .array (exactItems items)
  | .object fields => .object (exactFields fields)

def exactItems : List Data → List (Json ℚ)
  | [] => []
  | item :: rest => item.exact :: exactItems rest

def exactFields : List (String × Data) → List (String × Json ℚ)
  | [] => []
  | (key, value) :: rest => (key, value.exact) :: exactFields rest
end

theorem exactItems_eq (items : List Data) : exactItems items = items.map exact := by
  induction items with
  | nil => rfl
  | cons item rest ih => rw [exactItems, ih, List.map_cons]

theorem exactFields_eq (fields : List (String × Data)) :
    exactFields fields = fields.map fun f => (f.1, f.2.exact) := by
  induction fields with
  | nil => rfl
  | cons field rest ih => rw [exactFields, ih, List.map_cons]

inductive Proper : Data → Prop
  | null : Proper .null
  | bool : Proper (.bool b)
  | number : n.Normal → Proper (.number n)
  | string : Proper (.string s)
  | array : (∀ item ∈ items, Proper item) → Proper (.array items)
  | object : Ordered fields → (∀ field ∈ fields, Proper field.2) → Proper (.object fields)

theorem child?_cases {a v : Data} (h : a.child? step = some v) :
    (∃ items, a = .array items ∧ v ∈ items) ∨ ∃ fields key, a = .object fields ∧
      (key, v) ∈ fields := by
  unfold child? at h
  split at h
  · exact .inr ⟨_, _, rfl, mem_of_field? h⟩
  · exact .inl ⟨_, rfl, List.mem_of_getElem? h⟩
  · cases h

theorem sizeOf_lt_of_child? {a v : Data} (h : a.child? step = some v) : sizeOf v < sizeOf a := by
  obtain ⟨items, rfl, hmem⟩ | ⟨fields, key, rfl, hmem⟩ := child?_cases h
  · have := List.sizeOf_lt_of_mem hmem
    simp only [array.sizeOf_spec]
    omega
  · have := List.sizeOf_lt_of_mem hmem
    simp only [Prod.mk.sizeOf_spec, object.sizeOf_spec] at this ⊢
    omega

theorem Proper.child {a v : Data} (ha : a.Proper) (h : a.child? step = some v) : v.Proper := by
  obtain ⟨items, rfl, hmem⟩ | ⟨fields, key, rfl, hmem⟩ := child?_cases h
  · cases ha with
    | array hitems => exact hitems v hmem
  · cases ha with
    | object _ hfields => exact hfields _ hmem

theorem Proper.induction_child {motive : (a : Data) → a.Proper → Prop}
    (level : ∀ (a : Data) (ha : a.Proper),
      (∀ step v (hv : a.child? step = some v), motive v (ha.child hv)) → motive a ha)
    {a : Data} (ha : a.Proper) : motive a ha :=
  level a ha fun _ _ hv => Proper.induction_child level (ha.child hv)
termination_by sizeOf a
decreasing_by exact sizeOf_lt_of_child? hv

-- ---------------------------------------------------------------------------
-- Parts
-- ---------------------------------------------------------------------------

theorem itemsArePartOf_iff {items others : List Data} : itemsArePartOf items others = true ↔
    ∀ (i : Nat) item, items[i]? = some item → ∃ other, others[i]? = some other ∧
      isPartOf item other = true := by
  induction items generalizing others with
  | nil => simp [itemsArePartOf]
  | cons item rest ih =>
    cases others with
    | nil =>
      refine iff_of_false (by simp [itemsArePartOf]) fun h => ?_
      obtain ⟨_, hnone, _⟩ := h 0 item rfl
      cases hnone
    | cons other others =>
      rw [itemsArePartOf, Bool.and_eq_true, ih]
      constructor
      · rintro ⟨hfirst, hrest⟩ i x hx
        cases i with
        | zero => cases hx; exact ⟨other, rfl, hfirst⟩
        | succ i => exact hrest i x hx
      · intro h
        obtain ⟨_, hother, hfirst⟩ := h 0 item rfl
        cases hother
        exact ⟨hfirst, fun i x hx => h (i + 1) x hx⟩

theorem fieldsArePartOf_iff {fields whole : List (String × Data)} :
    fieldsArePartOf fields whole = true ↔
    ∀ f ∈ fields, ∃ other, field? whole f.1 = some other ∧ isPartOf f.2 other = true := by
  induction fields with
  | nil => simp [fieldsArePartOf]
  | cons f rest ih =>
    obtain ⟨key, value⟩ := f
    rw [fieldsArePartOf, List.forall_mem_cons, ← ih]
    cases field? whole key with
    | none => simp
    | some other => simp

/-- One level of the comparison: the labels agree, and each step into the part leads into the
whole. -/
theorem isPartOf_iff {a b : Data} (ha : a.Proper) (hb : b.Proper) : isPartOf a b = true ↔
    a.label = b.label ∧ ∀ step v, a.child? step = some v → ∃ w, b.child? step = some w ∧
      isPartOf v w = true := by
  cases ha with
  | null => cases hb <;> simp [isPartOf, label, child?]
  | bool => cases hb <;> simp [isPartOf, label, child?]
  | string => cases hb <;> simp [isPartOf, label, child?]
  | number hm =>
    cases hb with
    | number hn => simp [isPartOf, label, child?, Binary64.same_iff hm hn]
    | _ => simp [isPartOf, label]
  | array hitems =>
    cases hb with
    | array =>
      rw [isPartOf, itemsArePartOf_iff]
      refine ⟨fun h => ⟨rfl, fun step v hv => ?_⟩, fun h i => h.2 (.item i)⟩
      cases step with
      | item index => exact h index v hv
      | field => cases hv
    | _ => simp [isPartOf, label]
  | object hordered =>
    cases hb with
    | object =>
      rw [isPartOf, fieldsArePartOf_iff]
      refine ⟨fun h => ⟨rfl, fun step v hv => ?_⟩, fun h f hf => ?_⟩
      · cases step with
        | field key => exact h _ (mem_of_field? hv)
        | item => cases hv
      · exact h.2 (.field f.1) f.2 (hordered.field?_eq_some.mpr hf)
    | _ => simp [isPartOf, label]

theorem isPartOf_iff_labelAt? {a b : Data} (ha : a.Proper) (hb : b.Proper) : isPartOf a b = true ↔
    ∀ path found, a.labelAt? path = some found → b.labelAt? path = some found := by
  constructor
  · intro h path found
    -- along the path, each level hands on that the one value is part of the other
    induction path generalizing a b with
    | nil =>
      rw [labelAt?, labelAt?, ((isPartOf_iff ha hb).mp h).1]
      exact id
    | cons step path ih =>
      intro hfound
      obtain ⟨v, hv, hrest⟩ := Option.bind_eq_some_iff.mp hfound
      obtain ⟨w, hw, hpart⟩ := ((isPartOf_iff ha hb).mp h).2 step v hv
      rw [labelAt?, hw]
      exact ih (ha.child hv) (hb.child hw) hpart hrest
  · intro h
    induction ha using Proper.induction_child generalizing b with
    | level a ha ih =>
      refine (isPartOf_iff ha hb).mpr ⟨(Option.some.inj (h [] _ rfl)).symm, fun step v hv => ?_⟩
      have hhere : a.labelAt? [step] = some v.label := by rw [labelAt?, hv]; rfl
      obtain ⟨w, hw, _⟩ := Option.bind_eq_some_iff.mp (h [step] _ hhere)
      refine ⟨w, hw, ih step v hv (hb.child hw) fun path found hfound => ?_⟩
      have hwhole := h (step :: path) found (by rw [labelAt?, hv]; exact hfound)
      rwa [labelAt?, hw] at hwhole

-- ---------------------------------------------------------------------------
-- Equality
-- ---------------------------------------------------------------------------

theorem exact_eq_iff {a b : Data} (ha : a.Proper) (hb : b.Proper) : a.exact = b.exact ↔
    a.label = b.label ∧ ∀ step, (a.child? step).map exact = (b.child? step).map exact := by
  cases ha with
  | null => cases hb <;> simp [exact, label, child?]
  | bool => cases hb <;> simp [exact, label, child?]
  | string => cases hb <;> simp [exact, label, child?]
  | number => cases hb <;> simp [exact, label, child?]
  | array =>
    cases hb with
    | array =>
      simp only [exact, exactItems_eq, Json.array.injEq]
      constructor
      · intro h
        refine ⟨rfl, fun step => ?_⟩
        cases step with
        | item index =>
          simp only [child?, ← List.getElem?_map]
          rw [h]
        | field => rfl
      · rintro ⟨_, h⟩
        refine List.ext_getElem? fun i => ?_
        rw [List.getElem?_map, List.getElem?_map]
        exact h (.item i)
    | _ => simp [exact, label]
  | object hfields =>
    cases hb with
    | object hothers =>
      simp only [exact, exactFields_eq, Json.object.injEq]
      constructor
      · intro h
        refine ⟨rfl, fun step => ?_⟩
        cases step with
        | field key =>
          simp only [child?, ← field?_map]
          rw [h]
        | item => rfl
      · rintro ⟨_, h⟩
        refine Ordered.ext (List.pairwise_map.mpr hfields) (List.pairwise_map.mpr hothers)
          fun key => ?_
        rw [field?_map, field?_map]
        exact h (.field key)
    | _ => simp [exact, label]

theorem cases_of_map_eq {α β : Type} {x y : Option α} {f : α → β} (h : x.map f = y.map f) :
    (x = none ∧ y = none) ∨ ∃ v w, x = some v ∧ y = some w ∧ f v = f w := by
  cases x <;> cases y <;> simp_all

theorem labelAt?_of_exact_eq {a b : Data} (ha : a.Proper) (hb : b.Proper) (h : a.exact = b.exact) :
    a.labelAt? = b.labelAt? := by
  funext path
  induction path generalizing a b with
  | nil => rw [labelAt?, labelAt?, ((exact_eq_iff ha hb).mp h).1]
  | cons step path ih =>
    rw [labelAt?, labelAt?]
    obtain ⟨hv, hw⟩ | ⟨v, w, hv, hw, heq⟩ := cases_of_map_eq (((exact_eq_iff ha hb).mp h).2 step)
    · rw [hv, hw]
    · rw [hv, hw]
      exact ih (ha.child hv) (hb.child hw) heq

theorem exact_eq_of_labelAt? {a b : Data} (ha : a.Proper) (hb : b.Proper)
    (h : a.labelAt? = b.labelAt?) : a.exact = b.exact := by
  induction ha using Proper.induction_child generalizing b with
  | level a ha ih =>
    refine (exact_eq_iff ha hb).mpr ⟨Option.some.inj (congrFun h []), fun step => ?_⟩
    have hpath (path : List Step) :
      (a.child? step).bind (labelAt? · path) = (b.child? step).bind (labelAt? · path) :=
      congrFun h (step :: path)
    have hlabel : (a.child? step).map label = (b.child? step).map label := by
      rw [Option.map_eq_bind, Option.map_eq_bind]
      exact hpath []
    obtain ⟨hv, hw⟩ | ⟨v, w, hv, hw, _⟩ := cases_of_map_eq hlabel
    · rw [hv, hw]
    · simp only [hv, hw, Option.bind_some] at hpath
      rw [hv, hw, Option.map_some, Option.map_some, ih step v hv (hb.child hw) (funext hpath)]

-- ---------------------------------------------------------------------------
-- Decoding
-- ---------------------------------------------------------------------------

mutual
theorem proper_toData? {j : Json Literal} {v : Data} (h : toData? j = some v) : v.Proper := by
  cases j with
  | null => cases h; exact .null
  | bool => cases h; exact .bool
  | string => cases h; exact .string
  | number n =>
    obtain ⟨x, hx, rfl⟩ := Option.map_eq_some_iff.mp h
    exact .number (Binary64.normal_ofDecimal? hx)
  | array items =>
    obtain ⟨vs, hvs, rfl⟩ := Option.map_eq_some_iff.mp h
    exact .array (proper_itemsToData? hvs)
  | object fields =>
    obtain ⟨vs, hvs, rfl⟩ := Option.map_eq_some_iff.mp h
    exact .object (ordered_canonicalFields vs) fun f hf =>
      proper_fieldsToData? hvs f (mem_of_mem_canonicalFields hf)

theorem proper_itemsToData? {items : List (Json Literal)} {vs : List Data}
    (h : itemsToData? items = some vs) : ∀ v ∈ vs, v.Proper := by
  cases items with
  | nil => cases h; simp
  | cons item rest =>
    rw [itemsToData?] at h
    split at h
    · cases h
      rename_i hitem hrest
      exact List.forall_mem_cons.mpr ⟨proper_toData? hitem, proper_itemsToData? hrest⟩
    · cases h

theorem proper_fieldsToData? {fields : List (String × Json Literal)} {vs : List (String × Data)}
    (h : fieldsToData? fields = some vs) : ∀ f ∈ vs, f.2.Proper := by
  cases fields with
  | nil => cases h; simp
  | cons field rest =>
    obtain ⟨key, value⟩ := field
    rw [fieldsToData?] at h
    split at h
    · cases h
      rename_i hvalue hrest
      exact List.forall_mem_cons.mpr ⟨proper_toData? hvalue, proper_fieldsToData? hrest⟩
    · cases h
end

/-- Being part of is a partial order on the values that are decoded: it is inclusion of the labels
at all paths, it is reflexive and transitive, and two values are part of each other exactly if they
are the same up to the form of their numbers. -/
theorem isPartOf_partial_order {i j k : Json Literal} {a b c : Data} (ha : toData? i = some a)
    (hb : toData? j = some b) (hc : toData? k = some c) :
    (a.isPartOf b = true ↔ ∀ path found, a.labelAt? path = some found →
      b.labelAt? path = some found) ∧
    a.isPartOf a = true ∧
    (a.isPartOf b = true → b.isPartOf c = true → a.isPartOf c = true) ∧
    (a.isPartOf b = true ∧ b.isPartOf a = true ↔ a.exact = b.exact) := by
  have ha := proper_toData? ha
  have hb := proper_toData? hb
  have hc := proper_toData? hc
  refine ⟨isPartOf_iff_labelAt? ha hb, ?_, ?_, ?_⟩
  · exact (isPartOf_iff_labelAt? ha ha).mpr fun _ _ => id
  · rw [isPartOf_iff_labelAt? ha hb, isPartOf_iff_labelAt? hb hc, isPartOf_iff_labelAt? ha hc]
    exact fun hab hbc path found h => hbc path found (hab path found h)
  · rw [isPartOf_iff_labelAt? ha hb, isPartOf_iff_labelAt? hb ha]
    constructor
    · rintro ⟨hab, hba⟩
      refine exact_eq_of_labelAt? ha hb (funext fun path => Option.ext fun found => ?_)
      exact ⟨hab path found, hba path found⟩
    · intro h
      rw [labelAt?_of_exact_eq ha hb h]
      exact ⟨fun _ _ => id, fun _ _ => id⟩

/-- A negative zero is the same number as zero, and both are part of what holds more. -/
theorem isPartOf_partial_order_zeros :
    let number (negative : Bool) : Json Literal := .number ⟨true, negative, ⟨0, 0⟩⟩
    let zero (negative : Bool) : Data := .number ⟨negative, 0, Binary64.leastExponent⟩
    let a : Data := .object [("n", .array [zero true])]
    let b : Data := .object [("n", .array [zero false])]
    let c : Data := .object [("n", .array [zero false, .bool true]), ("z", .null)]
    toData? (.object [("n", .array [number true])]) = some a ∧
      toData? (.object [("n", .null), ("n", .array [number false])]) = some b ∧
      toData? (.object [("z", .null), ("n", .array [number false, .bool true])]) = some c ∧
      a.isPartOf b = true ∧ b.isPartOf a = true ∧ a.isPartOf c = true ∧ c.isPartOf a = false ∧
      a.exact = b.exact := by
  intro number zero a b c
  -- sorting does not reduce by itself
  have hone (value : Data) : sortFields [("n", value)] = [("n", value)] :=
    List.mergeSort_singleton _
  have htwo (first value : Data) :
    sortFields [("z", first), ("n", value)] = [("n", value), ("z", first)] :=
    Ordered.sortFields_eq (List.pairwise_pair.mpr (show "n" < "z" by decide)) (.swap _ _ _)
  have ha : toData? (.object [("n", .array [number true])]) = some a :=
    congrArg (some ∘ Json.object) (hone _)
  have hb : toData? (.object [("n", .null), ("n", .array [number false])]) = some b :=
    congrArg (some ∘ Json.object) (hone _)
  have hc : toData? (.object [("z", .null), ("n", .array [number false, .bool true])]) = some c :=
    congrArg (some ∘ Json.object) (htwo _ _)
  obtain ⟨_, _, htrans, hanti⟩ := isPartOf_partial_order ha hb hc
  exact ⟨ha, hb, hc, rfl, rfl, htrans rfl rfl, rfl, hanti.mp ⟨rfl, rfl⟩⟩

end Data

end Letrec.Json
