import Letrec.Proofs.Command.Status
import Letrec.Proofs.Number.Numeral
import Mathlib.Data.List.Induction

/-!
# Options and the configuration

Arguments are read in groups: a switch alone, an option with its value, or a file. `Group` holds
just the groups that are allowed, so that a list of arguments is accepted exactly if it is spelled
by a list of groups. What the groups come to is the last file, the last trace and the last bound for
each limit. Where no bound is given, that of the configuration holds. Groups of different kinds do
not get in each other's way, whatever their order.
-/

namespace Letrec

def Limit.flag : Limit → String
  | .steps => "--max-steps"
  | .depth => "--max-depth"
  | .time => "--time-ms"

theorem Limit.flag_of_ofFlag? (h : Limit.ofFlag? arg = some l) : l.flag = arg := by
  unfold Limit.ofFlag? at h
  split at h <;> cases h <;> rfl

theorem Limits.bound?_orElse (limits other : Limits) (l : Limit) :
    (limits.orElse other).bound? l = (limits.bound? l).or (other.bound? l) := by
  cases l <;> simp [Limits.orElse, Limits.bound?]

namespace Flags

inductive Group where
  | pretty
  | prelude
  | trace (path : String)
  | limit (limit : Limit) (numeral : String) (bound : Int64)
      (value : Number.Numeral numeral.toList bound.toInt) (nonneg : 0 ≤ bound.toInt)
  | file (name : String) (plain : name = "-" ∨ name.toList.head? ≠ some '-')

namespace Group

def words : Group → List String
  | .pretty => ["--pretty"]
  | .prelude => ["--prelude"]
  | .trace path => ["--trace", path]
  | .limit l numeral _ _ _ => [l.flag, numeral]
  | .file name _ => [name]

inductive Kind where
  | pretty
  | prelude
  | trace
  | limit (limit : Limit)
  | file
deriving DecidableEq

def kind : Group → Kind
  | .pretty => .pretty
  | .prelude => .prelude
  | .trace _ => .trace
  | .limit l _ _ _ _ => .limit l
  | .file _ _ => .file

def file? : Group → Option String
  | .file name _ => some name
  | _ => none

def path? : Group → Option String
  | .trace path => some path
  | _ => none

def bound? (l : Limit) : Group → Option Int
  | .limit l' _ bound _ _ => if l' = l then some bound.toInt else none
  | _ => none

theorem file?_eq_none : (g : Group) → g.kind ≠ .file → g.file? = none
  | .pretty, _ | .prelude, _ | .trace _, _ | .limit .., _ => rfl
  | .file .., h => absurd rfl h

theorem path?_eq_none : (g : Group) → g.kind ≠ .trace → g.path? = none
  | .pretty, _ | .prelude, _ | .file .., _ | .limit .., _ => rfl
  | .trace _, h => absurd rfl h

theorem bound?_eq_none : (g : Group) → g.kind ≠ .limit l → g.bound? l = none
  | .pretty, _ | .prelude, _ | .file .., _ | .trace _, _ => rfl
  | .limit .., h => if_neg fun hl => h (congrArg Kind.limit hl)

def addTo (f : Flags) : Group → Flags
  | .pretty => { f with pretty := true }
  | .prelude => { f with prelude := true }
  | .trace path => { f with trace := path }
  | .limit l _ bound _ _ => { f with limits := f.limits.set l bound.toInt }
  | .file name _ => { f with file := name }

end Group

-- ---------------------------------------------------------------------------
-- Reading groups
-- ---------------------------------------------------------------------------

theorem bound?_eq_some {text : String} {b : Int} : bound? text = some b ↔
    ∃ n : Int64, Number.Numeral text.toList n.toInt ∧ 0 ≤ n.toInt ∧ n.toInt = b := by
  simp only [← Number.int64?_eq_some, bound?]
  cases Number.int64? text with
  | none => simp
  | some n =>
    by_cases hn : n.toInt < 0
    · simp [hn, Int.not_le.mpr hn]
    · simp [hn, Int.not_lt.mp hn]

theorem looksLikeFlag_eq_false {arg : String} :
    looksLikeFlag arg = false ↔ arg = "-" ∨ arg.toList.head? ≠ some '-' := by
  simp only [looksLikeFlag, Bool.and_eq_false_iff, beq_eq_false_iff_ne, bne_eq_false_iff_eq]
  exact or_comm

theorem parseFrom_words (f : Flags) (g : Group) (rest : List String) :
    parseFrom f (g.words ++ rest) = parseFrom (g.addTo f) rest := by
  cases g with
  | pretty =>
    rw [Group.words, List.singleton_append, parseFrom.eq_def]
    simp [Group.addTo]
  | prelude =>
    rw [Group.words, List.singleton_append, parseFrom.eq_def]
    simp [Group.addTo]
  | trace path => simp [Group.words, parseFrom, Group.addTo]
  | limit l numeral bound value nonneg =>
    have hbound : bound? numeral = some bound.toInt :=
      bound?_eq_some.mpr ⟨bound, value, nonneg, rfl⟩
    cases l <;> simp [Group.words, Limit.flag, Limit.ofFlag?, parseFrom, hbound, Group.addTo]
  | file name plain =>
    have hplain := looksLikeFlag_eq_false.mpr plain
    have hne (arg : String) (harg : looksLikeFlag arg = true) : name ≠ arg := by
      rintro rfl
      rw [hplain] at harg
      cases harg
    have hlimit : Limit.ofFlag? name = none := by
      unfold Limit.ofFlag?
      split
      · exact absurd rfl (hne _ (by decide))
      · exact absurd rfl (hne _ (by decide))
      · exact absurd rfl (hne _ (by decide))
      · rfl
    have hpretty := hne "--pretty" (by decide)
    have hprelude := hne "--prelude" (by decide)
    have htrace := hne "--trace" (by decide)
    rw [Group.words, List.singleton_append, parseFrom.eq_def]
    simp [hpretty, hprelude, htrace, hlimit, hplain, Group.addTo]

theorem parseFrom_flatMap (f : Flags) (gs : List Group) :
    parseFrom f (gs.flatMap Group.words) = .ok (gs.foldl Group.addTo f) := by
  induction gs generalizing f with
  | nil => rfl
  | cons g gs ih => rw [List.flatMap_cons, parseFrom_words, ih, List.foldl_cons]

theorem groups_of_parseFrom (h : parseFrom f args = .ok f') :
    ∃ gs : List Group, gs.flatMap Group.words = args := by
  fun_induction parseFrom f args with
  | case1 => exact ⟨[], rfl⟩
  | case2 f rest ih =>
    obtain ⟨gs, rfl⟩ := ih h
    exact ⟨.pretty :: gs, rfl⟩
  | case3 f rest _ ih =>
    obtain ⟨gs, rfl⟩ := ih h
    exact ⟨.prelude :: gs, rfl⟩
  | case4 => cases h
  | case5 f path rest _ _ ih =>
    obtain ⟨gs, rfl⟩ := ih h
    exact ⟨.trace path :: gs, rfl⟩
  | case6 => cases h
  | case7 f arg _ _ _ l hl value rest b hb ih =>
    obtain ⟨gs, rfl⟩ := ih h
    obtain ⟨bound, numeral, nonneg, -⟩ := bound?_eq_some.mp hb
    refine ⟨.limit l value bound numeral nonneg :: gs, ?_⟩
    simp [Group.words, Limit.flag_of_ofFlag? hl]
  | case8 => cases h
  | case9 => cases h
  | case10 f name rest _ _ _ _ hplain ih =>
    obtain ⟨gs, rfl⟩ := ih h
    exact ⟨.file name (looksLikeFlag_eq_false.mp (by simpa using hplain)) :: gs, rfl⟩

-- ---------------------------------------------------------------------------
-- What groups come to
-- ---------------------------------------------------------------------------

/-- The options that groups come to, each from the groups of its own kind. -/
def ofGroups (gs : List Group) : Flags where
  file := (gs.filterMap Group.file?).getLast?.getD ""
  pretty := gs.any (·.kind = .pretty)
  prelude := gs.any (·.kind = .prelude)
  trace := (gs.filterMap Group.path?).getLast?.getD ""
  limits :=
    { maxSteps := (gs.filterMap (Group.bound? .steps)).getLast?
      maxDepth := (gs.filterMap (Group.bound? .depth)).getLast?
      timeMs := (gs.filterMap (Group.bound? .time)).getLast? }

theorem ofGroups_concat (gs : List Group) (g : Group) :
    ofGroups (gs ++ [g]) = g.addTo (ofGroups gs) := by
  cases g with
  | limit l numeral bound value nonneg =>
    cases l <;> simp [ofGroups, Group.addTo, Group.file?, Group.path?, Group.bound?,
      Group.kind, Limits.set]
  | _ => simp [ofGroups, Group.addTo, Group.file?, Group.path?, Group.bound?, Group.kind]

theorem foldl_addTo (gs : List Group) : gs.foldl Group.addTo {} = ofGroups gs := by
  induction gs using List.reverseRecOn with
  | nil => rfl
  | append_singleton gs g ih => rw [List.foldl_append, ih, ofGroups_concat]; rfl

theorem parse_flatMap (gs : List Group) : parse (gs.flatMap Group.words) = .ok (ofGroups gs) := by
  rw [parse, parseFrom_flatMap, foldl_addTo]

theorem bound?_ofGroups (gs : List Group) (l : Limit) :
    (ofGroups gs).limits.bound? l = (gs.filterMap (Group.bound? l)).getLast? := by
  cases l <;> rfl

theorem filterMap_filter_kind {pick : Group → Option α} (k : Group.Kind)
    (hpick : ∀ g, g.kind ≠ k → pick g = none) (gs : List Group) :
    (gs.filter (·.kind = k)).filterMap pick = gs.filterMap pick := by
  induction gs with
  | nil => rfl
  | cons g gs ih =>
    by_cases hk : g.kind = k
    · simp [hk, List.filterMap_cons, ih]
    · simp [hk, hpick g hk, ih]

theorem any_filter_kind (k : Group.Kind) (gs : List Group) :
    (gs.filter (·.kind = k)).any (·.kind = k) = gs.any (·.kind = k) := by
  simp [List.any_filter]

theorem ofGroups_eq_of_kinds {gs gs' : List Group}
    (h : ∀ k, gs'.filter (·.kind = k) = gs.filter (·.kind = k)) : ofGroups gs' = ofGroups gs := by
  have hpick {α : Type} {pick : Group → Option α} (k : Group.Kind)
      (hpick : ∀ g, g.kind ≠ k → pick g = none) : gs'.filterMap pick = gs.filterMap pick := by
    rw [← filterMap_filter_kind k hpick, h k, filterMap_filter_kind k hpick]
  have hany (k : Group.Kind) : gs'.any (·.kind = k) = gs.any (·.kind = k) := by
    rw [← any_filter_kind, h k, any_filter_kind]
  have hbound (l : Limit) : gs'.filterMap (Group.bound? l) = gs.filterMap (Group.bound? l) :=
    hpick (.limit l) fun g hg => g.bound?_eq_none hg
  simp only [ofGroups, hany, hbound, hpick .file Group.file?_eq_none,
    hpick .trace Group.path?_eq_none]

end Flags

-- ---------------------------------------------------------------------------
-- Together with the configuration
-- ---------------------------------------------------------------------------

namespace Config

theorem bound?_nonneg {c : Config} (h : c.negativeLimit? = none) (hb : c.limits.bound? l = some b) :
    0 ≤ b := by
  simp only [negativeLimit?] at h
  split at h
  · cases h
  split at h
  · cases h
  split at h
  · cases h
  cases l <;> simp_all [Limits.bound?]

theorem negativeLimit?_of_ofSource (h : ofSource path source = .ok c) :
    c.negativeLimit? = none := by
  unfold ofSource at h
  split at h
  · cases h
  · cases h
    rfl
  · split at h
    · cases h
    · dsimp only at h
      split at h
      · cases h
      · rename_i hnone
        cases h
        exact hnone

theorem negativeLimit?_of_ofFile (h : ofFile path content = .ok (some c)) :
    c.negativeLimit? = none := by
  unfold ofFile at h
  split at h
  · rename_i bytes
    cases hsource : ofSource path (.ofBytes bytes) with
    | error e => simp [hsource, Except.map] at h
    | ok c' =>
      simp only [hsource, Except.map, Except.ok.injEq, Option.some.injEq] at h
      subst h
      exact negativeLimit?_of_ofSource hsource
  all_goals cases h

theorem negativeLimit?_of_loadFirst {σ : Type} {host : Host (StateM σ)} {w w₁ : σ}
    (h : (loadFirst host paths).run w = (.ok (c, path), w₁)) : c.negativeLimit? = none := by
  induction paths generalizing w with
  | nil =>
    cases h
    rfl
  | cons p rest ih =>
    rw [loadFirst, Command.run_bind] at h
    split at h
    · cases h
    · rename_i hfile
      cases h
      exact negativeLimit?_of_ofFile hfile
    · exact ih h

end Config

namespace Flags

theorem bound?_applyTo (gs : List Group) (c : Config) (l : Limit) :
    ((ofGroups gs).applyTo c).limits.bound? l =
      (gs.filterMap (Group.bound? l)).getLast?.or (c.limits.bound? l) := by
  rw [applyTo, Limits.bound?_orElse, bound?_ofGroups]

theorem Group.bound?_nonneg {g : Group} (h : g.bound? l = some b) : 0 ≤ b := by
  cases g with
  | limit l' numeral bound value nonneg =>
    simp only [bound?, Option.ite_none_right_eq_some, Option.some.injEq] at h
    exact h.2 ▸ nonneg
  | _ => cases h

theorem bound?_applyTo_nonneg (hc : c.negativeLimit? = none)
    (h : ((ofGroups gs).applyTo c).limits.bound? l = some b) : 0 ≤ b := by
  rw [bound?_applyTo, Option.or_eq_some_iff] at h
  obtain hb | ⟨-, hb⟩ := h
  · obtain ⟨g, -, hg⟩ := List.mem_filterMap.mp (List.mem_of_getLast? hb)
    exact g.bound?_nonneg hg
  · exact Config.bound?_nonneg hc hb

/-- Arguments are accepted exactly if they are spelled by groups. Of each kind the last one counts,
the configuration is asked where there is none, and the order of kinds does not matter. -/
theorem options_override_config (args : List String) :
    ((∃ f, parse args = .ok f) ↔ ∃ gs : List Group, gs.flatMap Group.words = args) ∧
    ∀ gs : List Group, gs.flatMap Group.words = args →
      ∃ f, parse args = .ok f ∧
        f.file = (gs.filterMap Group.file?).getLast?.getD "" ∧
        f.trace = (gs.filterMap Group.path?).getLast?.getD "" ∧
        (∀ {σ : Type} (host : Host (StateM σ)) (w w₁ : σ) (c : Config) (path : String)
          (program : Program), (Config.load host).run w = (.ok (c, path), w₁) →
          let t : Command.Task := ⟨program, f.applyTo c, f.trace⟩
          (∀ l, t.settings.limits.bound? l =
            (gs.filterMap (Group.bound? l)).getLast?.or (c.limits.bound? l)) ∧
          (∀ l b, t.settings.limits.bound? l = some b → 0 ≤ b) ∧
          t.settings.prelude =
            (if gs.any (·.kind = .prelude) || c.prelude then .standard else .empty) ∧
          t.config.pretty = (gs.any (·.kind = .pretty) || c.pretty) ∧
          ∀ usage w₂, f.file ≠ "" →
            (Command.readProgram host t.config.pretty f.file).run w₁ = (.ok program, w₂) →
            (Command.prepare host usage args).run w = (.ok t, w₂)) ∧
        ∀ gs' : List Group, (∀ k, gs'.filter (·.kind = k) = gs.filter (·.kind = k)) →
          parse (gs'.flatMap Group.words) = .ok f := by
  refine ⟨⟨fun ⟨f, hf⟩ => groups_of_parseFrom hf, ?_⟩, ?_⟩
  · rintro ⟨gs, rfl⟩
    exact ⟨_, parse_flatMap gs⟩
  · rintro gs rfl
    refine ⟨ofGroups gs, parse_flatMap gs, rfl, rfl, ?_, ?_⟩
    · intro σ host w w₁ c path program hload t
      have hc := Config.negativeLimit?_of_loadFirst hload
      refine ⟨bound?_applyTo gs c, fun l b => bound?_applyTo_nonneg hc, rfl, rfl, ?_⟩
      intro usage w₂ hfile hprogram
      exact Command.run_prepare (parse_flatMap gs) hfile hload hprogram usage
    · intro gs' hkinds
      rw [parse_flatMap, ofGroups_eq_of_kinds hkinds]

theorem options_override_config_repeated :
    let host := Files.host "/" none .empty "" ""
    let files : Files := ⟨[]⟩
    let args := ["--max-steps", "9", "a", "--trace", "--pretty", "-", "--max-steps", "+007"]
    (Config.load host).run files = (.ok ({}, ""), files) ∧
    ∃ f, parse args = .ok f ∧ f.file = "-" ∧ f.trace = "--pretty" ∧
      (f.applyTo {}).limits.bound? .steps = some 7 ∧ (f.applyTo {}).limits.bound? .depth = none ∧
      (Command.prepare host Command.runUsage args).run files =
        (.ok ⟨⟨.empty, "<stdin>"⟩, f.applyTo {}, f.trace⟩, files) ∧
      parse ["a", "-", "--max-steps", "9", "--max-steps", "+007", "--trace", "--pretty"] =
        .ok f := by
  intro host files args
  have hpaths : Config.candidates "/" none = ["/.letrec.yaml"] := by decide
  have hload : (Config.load host).run files = (.ok ({}, ""), files) := by
    change (Config.loadFirst host (Config.candidates "/" none)).run files = _
    rw [hpaths]
    rfl
  have hnine : Number.Numeral "9".toList (9 : Int64).toInt := Number.int64?_eq_some.mp (by decide)
  have hseven : Number.Numeral "+007".toList (7 : Int64).toInt :=
    Number.int64?_eq_some.mp (by decide)
  let nine : Group := .limit .steps "9" 9 hnine (by decide)
  let seven : Group := .limit .steps "+007" 7 hseven (by decide)
  let a : Group := .file "a" (by decide)
  let dash : Group := .file "-" (by decide)
  obtain ⟨f, hf, hfile, htrace, hsettings, horder⟩ :=
    (options_override_config args).2 [nine, a, .trace "--pretty", dash, seven] rfl
  obtain ⟨hlimits, -, -, -, hprepare⟩ := hsettings host files files {} "" ⟨.empty, "<stdin>"⟩ hload
  have hdash : f.file = "-" := hfile
  refine ⟨hload, f, hf, hdash, htrace, hlimits .steps, hlimits .depth, ?_, ?_⟩
  · refine hprepare Command.runUsage files (by simp [hdash]) ?_
    rw [hdash]
    rfl
  · exact horder [a, dash, nine, seven, .trace "--pretty"] fun k => by
      rcases k with _ | _ | _ | l | _
      case limit => cases l <;> rfl
      all_goals rfl

end Flags

end Letrec
