import Letrec.Command
import Letrec.Proofs.Evaluation.Causes
import Letrec.Proofs.Evaluation.Termination
import Letrec.Proofs.Program.Canonical

/-!
# What the exit status says

A program is run if and only if the check accepts it, and is refused with the same words otherwise.
A program that is run ends in a value, in a value of another kind than expected, or at a limit that
is set, and the exit status tells which. Both commands prepare their work in the same way, so that
what is said of a program and its settings carries over to arguments, configuration and files.
-/

namespace Letrec

-- ---------------------------------------------------------------------------
-- Programs that pass the check
-- ---------------------------------------------------------------------------

namespace Program

variable {p : Program} {s : Settings}

theorem read_error_ne_nil (h : p.read = .error ds) : ds ≠ [] := by
  unfold read Expr.ofText at h
  split at h
  · cases h
    exact List.cons_ne_nil _ _
  · cases h
    exact List.cons_ne_nil _ _
  · simp only [Expr.decode_eq] at h
    split at h
    · cases h
    · rename_i hfindings
      cases h
      simpa using hfindings

theorem run_of_check_ne (h : p.check s ≠ []) : p.run s = .error (.diagnostics (p.check s)) := by
  unfold check run at *
  cases hread : p.read with
  | error ds => rfl
  | ok e =>
    rw [hread] at h
    cases hds : e.scopeErrors s.prelude.names with
    | nil => exact absurd hds h
    | cons d ds => simp only [Settings.evaluate, hds]

theorem run_of_check_nil (h : p.check s = []) (henv : s.prelude.env 1 = .ok env) :
    ∃ e, p.read = .ok e ∧ p.run s = .ok (executeWithin s.setup e env) := by
  cases hread : p.read with
  | error ds =>
    unfold check at h
    rw [hread] at h
    exact absurd h (read_error_ne_nil hread)
  | ok e =>
    rw [check_of_read hread] at h
    exact ⟨e, rfl, by rw [run_of_read hread, Settings.evaluate, h, henv]⟩

/-- The run is nested deeper than any that comes to an end, and no limit on steps or depth
stops it. -/
def Unending (p : Program) (s : Settings) : Prop :=
  s.limits.maxSteps = none ∧ s.limits.maxDepth = none ∧
    ∃ o, p.run s = .ok o ∧ Limits.plentyOfFuel ≤ o.usage.maxDepth

end Program

namespace Report

inductive OfChecked (pretty : Bool) (limits : Limits) : Report → Prop
  | value (v : Value) (hv : v ≠ .absent) :
      OfChecked pretty limits
        { status := 0, output := (if pretty then v.text else v.toJson.text) ++ "\n", errors := "" }
  | exceeded (limit : Limit) (bound : Int) (span : Option Span)
      (h : limits.bound? limit = some bound) : OfChecked pretty limits
        { status := 3, output := ""
          errors := diagnostics pretty [{ code := .budget, message := limit.message bound, span }] }
  | mismatch (expected actual : Kind) (span : Option Span) (h : expected ≠ actual)
      (hactual : actual ≠ .absent) : OfChecked pretty limits
        { status := 4, output := ""
          errors := diagnostics pretty
            [{ code := .type, span,
               message := "expected " ++ expected.name ++ ", got " ++ actual.name }] }

theorem OfChecked.status_ne {r : Report} (h : r.OfChecked pretty limits) : r.status ≠ 2 := by
  cases h <;> exact nofun

end Report

theorem Program.report_of_check_nil {p : Program} {s : Settings} (h : p.check s = [])
    (hprelude : s.prelude.Checked) (henv : s.prelude.env 1 = .ok env) (hcancel : s.cancelAt = none)
    (pretty : Bool) :
    Report.OfChecked pretty s.limits (.ofRun pretty (p.run s)) ∨
      (Report.ofRun pretty (p.run s)).status ≠ 2 ∧ p.Unending s := by
  obtain ⟨e, hread, hrun⟩ := run_of_check_nil h henv
  obtain ⟨_, hcoherent⟩ := read_complete hread
  obtain ⟨hscoped, hnames⟩ := hprelude.env_scoped henv
  rw [check_of_read hread] at h
  have he := ((scopeErrors_eq_nil hcoherent).mp h).mono hnames
  have hends := execute_checked s.setup s.setup.limits.fuel hscoped he
    (fun _ _ => by simp [Settings.setup, hcancel])
  simp only [hrun, Report.ofRun, executeWithin]
  rcases hends with ⟨v, hr, hv⟩ | ⟨expected, actual, span, hr, hne, hactual⟩ |
    ⟨limit, bound, span, hr, hbound⟩ | hr
  · rw [hr]
    exact .inl (.value v hv)
  · rw [hr]
    exact .inl (.mismatch expected actual span hne hactual)
  · rw [hr]
    exact .inl (.exceeded limit bound span hbound)
  · -- The fuel that a limit on steps or depth gives is enough, so there is none, and all the fuel
    -- is used up.
    have hlimits : ¬ (s.limits.maxSteps ≠ none ∨ s.limits.maxDepth ≠ none) :=
      fun hlimits => (executeWithin_ends s.setup e env hlimits).1 hr
    obtain ⟨hsteps, hdepth⟩ := not_or.mp hlimits
    rw [not_not] at hsteps hdepth
    have hfuel : s.setup.limits.fuel = Limits.plentyOfFuel := by
      simp [Limits.fuel, Settings.setup, hsteps, hdepth]
    rw [hr]
    exact .inr ⟨show 4 ≠ 2 by decide, hsteps, hdepth, _, hrun, hfuel ▸ fuel_le_maxDepth hr⟩

-- ---------------------------------------------------------------------------
-- The two commands
-- ---------------------------------------------------------------------------

def Host.TimesRuns (host : Host (StateM σ)) : Prop :=
  ∀ run w, ∃ clock, ((host.timed run).run w).1 = run clock

namespace Command

theorem Task.prelude_checked (t : Task) : t.settings.prelude.Checked := by
  simp only [settings]
  split
  · exact Prelude.standard_checked
  · trivial

theorem Task.prelude_env (t : Task) : ∃ env, t.settings.prelude.env 1 = .ok env := by
  simp only [settings]
  split <;> exact ⟨_, rfl⟩

variable {σ : Type} {host : Host (StateM σ)} {w w₁ w₂ : σ}

theorem run_bind (action : StateM σ α) (next : α → StateM σ β) (w : σ) :
    (action >>= next).run w = (next (action.run w).1).run (action.run w).2 := rfl

theorem run_prepare {settings : Config} (hflags : Flags.parse args = .ok flags)
    (hfile : flags.file ≠ "") (hconfig : (Config.load host).run w = (.ok (settings, path), w₁))
    (hprogram : (readProgram host (flags.applyTo settings).pretty flags.file).run w₁ =
      (.ok program, w₂))
    (usage : String) :
    (prepare host usage args).run w = (.ok ⟨program, flags.applyTo settings, flags.trace⟩, w₂) := by
  simp only [prepare, hflags, if_neg hfile]
  rw [run_bind, hconfig, run_bind, hprogram]
  rfl

theorem run_of_prepare {t : Task} (hprepare : (prepare host runUsage args).run w = (.ok t, w₁))
    (htrace : t.trace = "") (htimes : host.TimesRuns) :
    ∃ runId clock, ((run host args).run w).1 =
      .ofRun t.config.pretty (t.program.run { t.settings with runId, clock }) := by
  obtain ⟨clock, hclock⟩ := htimes
    (fun clock => t.program.run { t.settings with runId := (host.freshRunId.run w₁).1, clock })
    (host.freshRunId.run w₁).2
  refine ⟨(host.freshRunId.run w₁).1, clock, ?_⟩
  simp only [run, run_bind, hprepare, if_pos htrace, runTask, ← hclock]
  rfl

section Check

variable {t : Task} (hprepare : (prepare host checkUsage args).run w = (.ok t, w₁))
include hprepare

theorem check_of_nil (h : t.program.check t.settings = []) :
    ((check host args).run w).1 =
      .success (if t.config.pretty then "No errors found.\n" else "[]\n") := by
  simp only [check, run_bind, hprepare, h]
  rfl

theorem check_of_ne (h : t.program.check t.settings ≠ []) :
    ((check host args).run w).1 =
      .invalid (Report.diagnostics t.config.pretty (t.program.check t.settings)) := by
  simp only [check, run_bind, hprepare]
  cases hds : t.program.check t.settings with
  | nil => exact absurd hds h
  | cons d ds => rfl

end Check

/-- The exit status tells how a program ended: 2 if and only if the check refuses it, with the
same words, and otherwise 0, 3 or 4 for a value, a limit that is set, or a value of another kind
than expected. -/
theorem status_tells_outcome {settings : Config} (host : Host (StateM σ)) (htimes : host.TimesRuns)
    (hflags : Flags.parse args = .ok flags) (hfile : flags.file ≠ "") (htrace : flags.trace = "")
    (hconfig : (Config.load host).run w = (.ok (settings, path), w₁))
    (hprogram : (readProgram host (flags.applyTo settings).pretty flags.file).run w₁ =
      (.ok program, w₂)) :
    let t : Task := ⟨program, flags.applyTo settings, flags.trace⟩
    let ran := ((run host args).run w).1
    let checked := ((check host args).run w).1
    (ran.status = 2 ↔ checked.status = 2) ∧
    (checked.status = 2 → ran.errors = checked.errors ∧ ran.output = "" ∧ checked.output = "") ∧
    (checked.status ≠ 2 → checked.status = 0 ∧
      (ran.OfChecked (flags.pretty || settings.pretty) (flags.limits.orElse settings.limits) ∨
        ∃ runId clock, program.Unending { t.settings with runId, clock })) := by
  intro t ran checked
  have hprepare := run_prepare hflags hfile hconfig hprogram
  obtain ⟨runId, clock, hrun⟩ := run_of_prepare (hprepare runUsage) htrace htimes
  change ran = .ofRun t.config.pretty (t.program.run { t.settings with runId, clock }) at hrun
  by_cases h : t.program.check t.settings = []
  · have hcheck : checked = _ := check_of_nil (hprepare checkUsage) h
    obtain ⟨env, henv⟩ := t.prelude_env
    have hends := Program.report_of_check_nil (s := { t.settings with runId, clock }) h
      t.prelude_checked henv rfl t.config.pretty
    rw [← hrun] at hends
    have hran : ran.status ≠ 2 := hends.elim (·.status_ne) (·.1)
    rw [hcheck]
    exact ⟨iff_of_false hran nofun, nofun,
      fun _ => ⟨rfl, hends.imp_right fun h => ⟨runId, clock, h.2⟩⟩⟩
  · have hcheck : checked = _ := check_of_ne (hprepare checkUsage) h
    have hran : ran = checked := by
      rw [hrun, hcheck, Program.run_of_check_ne (s := { t.settings with runId, clock }) h]
      rfl
    rw [hran, hcheck]
    exact ⟨.rfl, fun _ => ⟨rfl, rfl, rfl⟩, fun hstatus => absurd rfl hstatus⟩

theorem status_tells_outcome_let :
    let host := Files.host "/" none .empty "" ""
    let files : Files := ⟨[(["f"], .file Program.letProgram.bytes)]⟩
    let args := ["--max-steps", "9", "f"]
    ((check host args).run files).1.status = 0 ∧
      ((run host args).run files).1.OfChecked false { maxSteps := some 9 } := by
  intro host files args
  have hflags : Flags.parse args = .ok { file := "f", limits := { maxSteps := some 9 } } := by
    decide
  have hpaths : Config.candidates "/" none = ["/.letrec.yaml"] := by decide
  have hconfig : (Config.load host).run files = (.ok ({}, ""), files) := by
    change (Config.loadFirst host (Config.candidates "/" none)).run files = _
    rw [hpaths]
    rfl
  have hprogram : (readProgram host false "f").run files = (.ok Program.letProgram, files) := rfl
  have hcheck : Program.letProgram.check {} = [] := by
    rw [Program.check_of_read Program.letProgram_read]
    exact (scopeErrors_eq_nil (Program.read_complete Program.letProgram_read).2).mpr (by decide)
  obtain ⟨_, _, hends⟩ :=
    status_tells_outcome host (fun _ _ => ⟨_, rfl⟩) hflags (by decide) rfl hconfig hprogram
  have hstatus : ((check host args).run files).1.status = 0 :=
    congrArg Report.status
      (check_of_nil (run_prepare hflags (by decide) hconfig hprogram checkUsage) hcheck)
  obtain ⟨_, hran | ⟨_, _, hsteps, _⟩⟩ := hends (by simp [hstatus])
  · exact ⟨hstatus, hran⟩
  · cases hsteps

end Command

end Letrec
