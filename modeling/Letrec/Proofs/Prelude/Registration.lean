import Letrec.Prelude
import Mathlib.Data.List.Induction
import Mathlib.Data.List.Nodup

/-!
# Preludes as ordered maps

Registering a definition puts it in the place of the one with its name, or last. So after any
history of registrations the names stand in the order in which they were first registered, each
once, and a name stands for what was registered under it last. The environment of the prelude has
one frame for each definition, and as no name is bound twice none of them is hidden.
-/

namespace Letrec

namespace Prelude

inductive Registration where
  | definition (d : Definition)
  | defaults

namespace Registration

def addTo (p : Prelude) : Registration → Prelude
  | .definition d => p.register d
  | .defaults => p.registerDefaults

def definitions : Registration → List Definition
  | .definition d => [d]
  | .defaults => Prelude.defaults

end Registration

def ofHistory (history : List Registration) : Prelude := history.foldl Registration.addTo .empty

theorem ofHistory_eq (history : List Registration) :
    ofHistory history = (history.flatMap Registration.definitions).foldl register .empty := by
  rw [List.foldl_flatMap, ofHistory]
  congr
  funext p r
  cases r <;> rfl

-- ---------------------------------------------------------------------------
-- One registration
-- ---------------------------------------------------------------------------

theorem names_register (p : Prelude) (d : Definition) :
    (p.register d).names = if d.name ∈ p.names then p.names else p.names ++ [d.name] :=
  names_put d p.definitions

theorem find?_put (d : Definition) (ds : List Definition) (x : String) :
    (put d ds).find? (·.name == x) = if d.name = x then some d else ds.find? (·.name == x) := by
  induction ds with
  | nil => by_cases hd : d.name = x <;> simp [put, hd]
  | cons first rest ih =>
    rw [put]
    by_cases hd : d.name = x
    · by_cases hf : first.name = d.name
      · simp [hf, hd]
      · simp only [hd] at hf ih
        simpa [hf, hd] using ih
    · by_cases hf : first.name = d.name
      · simp [hf, hd]
      · simp only [if_neg hd] at ih
        simp [hf, hd, List.find?_cons, ih]

theorem get?_register (p : Prelude) (d : Definition) (x : String) :
    (p.register d).get? x = if d.name = x then some d else p.get? x :=
  find?_put d p.definitions x

-- ---------------------------------------------------------------------------
-- A history of registrations
-- ---------------------------------------------------------------------------

theorem names_foldl (ds : List Definition) :
    (ds.foldl register .empty).names = (ds.map Definition.name).eraseDups := by
  induction ds using List.reverseRecOn with
  | nil => rfl
  | append_singleton ds d ih =>
    rw [List.foldl_append, List.foldl_cons, List.foldl_nil, names_register, ih, List.map_append,
      List.eraseDups_append]
    by_cases h : d.name ∈ ds.map Definition.name
    · rw [if_pos (List.mem_eraseDups.mpr h)]
      simp_all [List.removeAll]
    · rw [if_neg fun hmem => h (List.mem_eraseDups.mp hmem)]
      simp_all [List.removeAll, List.eraseDups_cons]

theorem get?_foldl (ds : List Definition) (x : String) :
    (ds.foldl register .empty).get? x = ds.reverse.find? (·.name == x) := by
  induction ds using List.reverseRecOn with
  | nil => rfl
  | append_singleton ds d ih =>
    rw [List.foldl_append, List.foldl_cons, List.foldl_nil, get?_register, ih, List.reverse_append]
    by_cases h : d.name = x <;> simp [h]

theorem find?_name {ds : List Definition} (hnodup : (ds.map Definition.name).Nodup)
    (hd : d ∈ ds) : ds.find? (·.name == d.name) = some d := by
  induction ds with
  | nil => cases hd
  | cons first rest ih =>
    obtain ⟨hfirst, hrest⟩ := List.nodup_cons.mp hnodup
    rcases List.mem_cons.mp hd with rfl | hd
    · simp
    · have hne : first.name ≠ d.name := fun heq => hfirst (heq ▸ List.mem_map_of_mem hd)
      simpa [hne] using ih hrest hd

theorem map_get? (p : Prelude) : p.names.map p.get? = p.definitions.map some := by
  rw [names, List.map_map]
  exact List.map_congr_left fun d hd => find?_name p.nodup hd

def take (p : Prelude) (i : Nat) : Prelude :=
  ⟨p.definitions.take i, p.nodup.sublist ((List.take_sublist i _).map _)⟩

end Prelude

-- ---------------------------------------------------------------------------
-- Environments
-- ---------------------------------------------------------------------------

theorem Env.lookup_extend_self (env : Env) : (env.extend stamp x v).lookup x = .ok v := by
  simp [Env.extend, Env.lookup]

theorem Env.lookup_extend_of_ne {env : Env} (henv : env.orEmpty = env) (h : y ≠ x) :
    (env.extend stamp y v).lookup x = env.lookup x := by
  simp [Env.extend, Env.lookup, henv, h]

theorem Env.names_extend_of_notMem {env : Env} (henv : env.orEmpty = env) (h : x ∉ env.names) :
    (env.extend stamp x v).names = x :: env.names := by
  have hall : ∀ y ∈ env.names, y ≠ x := fun y hy heq => h (heq ▸ hy)
  simpa [Env.extend, Env.names_bind, henv] using hall

theorem Env.orEmpty_extend (env : Env) : (env.extend stamp x v).orEmpty = env.extend stamp x v :=
  rfl

namespace Prelude

variable {env env' : Env} {ds : List Definition} {p : Prelude}

theorem extendBy_append (ds ds' : List Definition) : extendBy run env (ds ++ ds') =
    (extendBy run env ds).bind fun env' => extendBy (run + ds.length) env' ds' := by
  induction ds generalizing run env with
  | nil => rfl
  | cons d rest ih =>
    rw [List.cons_append, extendBy, extendBy]
    cases eval run d.expr env with
    | error f => rfl
    | ok v => simp only [ih, List.length_cons, Nat.add_assoc, Nat.add_comm 1]

theorem extendBy_cons_ok (h : extendBy run env (d :: ds) = .ok env') :
    ∃ v, eval run d.expr env = .ok v ∧
      extendBy (run + 1) (env.extend ⟨run, 0⟩ d.name v) ds = .ok env' := by
  rw [extendBy] at h
  cases hr : eval run d.expr env with
  | error f =>
    rw [hr] at h
    cases h
  | ok v =>
    rw [hr] at h
    exact ⟨v, rfl, h⟩

theorem lookup_extendBy (henv : env.orEmpty = env) (h : extendBy run env ds = .ok env')
    (hx : x ∉ ds.map Definition.name) : env'.lookup x = env.lookup x := by
  induction ds generalizing run env with
  | nil =>
    cases h
    rfl
  | cons d rest ih =>
    rw [List.map_cons, List.mem_cons, not_or] at hx
    obtain ⟨v, _, hrest⟩ := extendBy_cons_ok h
    rw [ih env.orEmpty_extend hrest hx.2, Env.lookup_extend_of_ne henv (Ne.symm hx.1)]

theorem names_extendBy (henv : env.orEmpty = env) (h : extendBy run env ds = .ok env')
    (hnodup : (ds.map Definition.name).Nodup) (hnew : ∀ x ∈ ds.map Definition.name, x ∉ env.names) :
    env'.names = (ds.map Definition.name).reverse ++ env.names := by
  induction ds generalizing run env with
  | nil =>
    cases h
    rfl
  | cons d rest ih =>
    rw [List.map_cons, List.nodup_cons] at hnodup
    rw [List.map_cons, List.forall_mem_cons] at hnew
    obtain ⟨v, _, hrest⟩ := extendBy_cons_ok h
    have hnames : (env.extend ⟨run, 0⟩ d.name v).names = d.name :: env.names :=
      Env.names_extend_of_notMem henv hnew.1
    rw [ih env.orEmpty_extend hrest hnodup.2, hnames, List.map_cons, List.reverse_cons,
      List.append_assoc]
    · rfl
    · intro x hx hmem
      rw [hnames, List.mem_cons] at hmem
      rcases hmem with rfl | hmem
      · exact hnodup.1 hx
      · exact hnew.2 x hx hmem

theorem take_take (p : Prelude) (h : j ≤ i) : (p.take i).take j = p.take j := by
  simp [take, List.take_take, Nat.min_eq_left h]

/-- The definition at a position, evaluated in the environment of those before it, comes to `r`. -/
def ComesTo (p : Prelude) (run i : Nat) (r : Except Failure Value) : Prop :=
  ∃ d before, p.definitions[i]? = some d ∧ (p.take i).env run = .ok before ∧
    eval (run + i) d.expr before = r

/-- Where all definitions succeed, each of them does so in the environment of those before it, and
the rest of them goes on from there. -/
theorem env_split (h : p.env run = .ok env) (hi : p.definitions[i]? = some d) :
    ∃ before v, (p.take i).env run = .ok before ∧ eval (run + i) d.expr before = .ok v ∧
      extendBy (run + i + 1) (before.extend ⟨run + i, 0⟩ d.name v) (p.definitions.drop (i + 1)) =
        .ok env := by
  obtain ⟨hlt, hd⟩ := List.getElem?_eq_some_iff.mp hi
  have hsplit : p.definitions = p.definitions.take i ++ d :: p.definitions.drop (i + 1) := by
    rw [← hd, List.getElem_cons_drop, List.take_append_drop]
  have hlength : (p.definitions.take i).length = i := List.length_take_of_le (Nat.le_of_lt hlt)
  rw [Prelude.env, hsplit, extendBy_append, hlength] at h
  cases hbefore : extendBy run .empty (p.definitions.take i) with
  | error f =>
    rw [hbefore] at h
    cases h
  | ok before =>
    rw [hbefore] at h
    obtain ⟨v, hv, hrest⟩ := extendBy_cons_ok h
    exact ⟨before, v, hbefore, hv, hrest⟩

theorem comesTo_of_env (h : p.env run = .ok env) (hi : i < p.definitions.length) :
    ∃ v, p.ComesTo run i (.ok v) := by
  have hd := List.getElem?_eq_getElem hi
  obtain ⟨before, v, hbefore, hv, _⟩ := env_split h hd
  exact ⟨v, _, before, hd, hbefore, hv⟩

theorem lookup_of_env (h : p.env run = .ok env) (hi : p.names[i]? = some x) :
    ∃ v, p.ComesTo run i (.ok v) ∧ env.lookup x = .ok v := by
  rw [names, List.getElem?_map, Option.map_eq_some_iff] at hi
  obtain ⟨d, hd, rfl⟩ := hi
  obtain ⟨before, v, hbefore, hv, hrest⟩ := env_split h hd
  refine ⟨v, ⟨d, before, hd, hbefore, hv⟩, ?_⟩
  have hlater : d.name ∉ (p.definitions.drop (i + 1)).map Definition.name := by
    obtain ⟨hlt, rfl⟩ := List.getElem?_eq_some_iff.mp hd
    have hdrop : (p.names.drop i).Nodup := p.nodup.sublist (List.drop_sublist _ _)
    rw [names, ← List.map_drop, List.drop_eq_getElem_cons hlt, List.map_cons,
      List.nodup_cons] at hdrop
    exact hdrop.1
  rw [lookup_extendBy before.orEmpty_extend hrest hlater, Env.lookup_extend_self]

theorem names_env (h : p.env run = .ok env) : env.names = p.names.reverse := by
  have hnames := names_extendBy rfl h p.nodup (by simp)
  rwa [Env.names_empty, List.append_nil] at hnames

theorem extendBy_error (h : extendBy run env ds = .error f) : ∃ i d before, ds[i]? = some d ∧
    extendBy run env (ds.take i) = .ok before ∧ eval (run + i) d.expr before = .error f.failure ∧
    f.name = d.name := by
  induction ds generalizing run env with
  | nil => cases h
  | cons d rest ih =>
    rw [extendBy] at h
    cases hr : eval run d.expr env with
    | error failure =>
      rw [hr] at h
      cases h
      exact ⟨0, d, env, rfl, rfl, hr, rfl⟩
    | ok v =>
      rw [hr] at h
      obtain ⟨i, d', before, hi, hbefore, hfails, hname⟩ := ih h
      refine ⟨i + 1, d', before, hi, ?_, ?_, hname⟩
      · rw [List.take_succ_cons, extendBy, hr]
        exact hbefore
      · rwa [Nat.add_comm i, ← Nat.add_assoc]

theorem comesTo_of_env_error (h : p.env run = .error f) : ∃ i, p.names[i]? = some f.name ∧
    p.ComesTo run i (.error f.failure) ∧ ∀ j < i, ∃ v, p.ComesTo run j (.ok v) := by
  obtain ⟨i, d, before, hi, hbefore, hfails, hname⟩ := extendBy_error h
  refine ⟨i, by simp [names, hi, hname], ⟨d, before, hi, hbefore, hfails⟩, fun j hj => ?_⟩
  -- The definitions in front of it make a prelude of their own, which has an environment.
  obtain ⟨hlt, _⟩ := List.getElem?_eq_some_iff.mp hi
  have hlength : j < (p.definitions.take i).length := by
    rw [List.length_take]
    omega
  obtain ⟨v, d', before', hd', hbefore', hv⟩ := comesTo_of_env (p := p.take i) hbefore hlength
  rw [take, List.getElem?_take_of_lt hj] at hd'
  rw [p.take_take (Nat.le_of_lt hj)] at hbefore'
  exact ⟨v, d', before', hd', hbefore', hv⟩

/-- After any history a prelude is a map in the order of first registration, and its environment
shows each definition as it was evaluated among those before it. -/
theorem prelude_is_ordered_map (history : List Registration) :
    let p := ofHistory history
    let registered := history.flatMap Registration.definitions
    p.names.Nodup ∧ p.names = (registered.map Definition.name).eraseDups ∧
    (∀ x, p.get? x = registered.reverse.find? (·.name == x)) ∧
    p.names.map p.get? = p.definitions.map some ∧
    (∀ run env, p.env run = .ok env → env.names = p.names.reverse ∧
      ∀ i x, p.names[i]? = some x → ∃ v, p.ComesTo run i (.ok v) ∧ env.lookup x = .ok v) ∧
    ∀ run f, p.env run = .error f → ∃ i, p.names[i]? = some f.name ∧
      p.ComesTo run i (.error f.failure) ∧ ∀ j < i, ∃ v, p.ComesTo run j (.ok v) := by
  intro p registered
  have hp : p = registered.foldl register .empty := ofHistory_eq history
  refine ⟨p.nodup, hp ▸ names_foldl registered, hp ▸ get?_foldl registered, p.map_get?, ?_, ?_⟩
  · exact fun run env henv => ⟨names_env henv, fun i x => lookup_of_env henv⟩
  · exact fun run f => comesTo_of_env_error

/-- `a` keeps its place before `b` when it is registered again, so that `b` sees what is new. -/
theorem prelude_is_ordered_map_replaced :
    let a (n : Int64) : Definition := ⟨"a", "", .const default n⟩
    let b : Definition := ⟨"b", "", .diff default (.var default "a") (.const default (-1))⟩
    let p := ofHistory [.definition (a 1), .definition b, .definition (a 5)]
    p.names = ["a", "b"] ∧ p.get? "a" = some (a 5) ∧
      ∃ env, p.env 1 = .ok env ∧ env.names = ["b", "a"] ∧ env.lookup "b" = .ok (.int 6) := by
  intro a b p
  obtain ⟨_, hnames, hget, _, henv, _⟩ :=
    prelude_is_ordered_map [.definition (a 1), .definition b, .definition (a 5)]
  obtain ⟨env, hp⟩ : ∃ env, p.env 1 = .ok env := ⟨_, rfl⟩
  obtain ⟨hreverse, hlookup⟩ := henv 1 env hp
  obtain ⟨v, ⟨d, before, hd, hbefore, hv⟩, hx⟩ := hlookup 1 "b" rfl
  refine ⟨hnames.trans (by decide), hget "a", env, hp, hreverse, ?_⟩
  cases hd
  cases hbefore
  cases hv
  exact hx

end Prelude

end Letrec
