import Letrec.Proofs.Evaluation.Lockstep

/-!
# Limits only cut runs short

Two runs that differ in their limits on steps and depth are in lockstep until the one with the
tighter limits fails: `lockstep_limits`. So a run that keeps within tight limits is the same under
wider ones, and from the counters of a run one reads off under which limits it fails.
-/

namespace Letrec

/-- Every bound of `l'` on steps and on depth comes with one of `l` that is at most as large. -/
structure Limits.Tighter (l l' : Limits) : Prop where
  steps : ∀ b' ∈ l'.maxSteps, ∃ b ∈ l.maxSteps, b ≤ b'
  depth : ∀ b' ∈ l'.maxDepth, ∃ b ∈ l.maxDepth, b ≤ b'

def Limits.Passed (l : Limits) (u : Usage) : Prop :=
  (∃ b ∈ l.maxSteps, b < u.steps) ∨ ∃ b ∈ l.maxDepth, b < u.maxDepth

theorem Limits.Passed.mono {l : Limits} {u v : Usage} (h : l.Passed u) (hle : u ≤ v) :
    l.Passed v := by
  have := Usage.le_steps hle
  have := Usage.le_maxDepth hle
  rcases h with ⟨b, hb, hlt⟩ | ⟨b, hb, hlt⟩
  · exact .inl ⟨b, hb, by omega⟩
  · exact .inr ⟨b, hb, by omega⟩

def Happening.isExceeded : Happening → Bool
  | .budgetExceeded _ => true
  | _ => false

def Usage.beforeExceeded (u : Usage) : List Event := u.events.toList.takeWhile (!·.what.isExceeded)

def Usage.ReportsExceeded (u : Usage) : Prop := ∃ ev ∈ u.events.toList, ev.what.isExceeded

theorem Usage.ReportsExceeded.note (h : Usage.ReportsExceeded u) :
    (u.note setup what span).ReportsExceeded := by
  obtain ⟨ev, hev, hex⟩ := h
  refine ⟨ev, ?_, hex⟩
  rw [Usage.note_events]
  exact List.mem_append_left _ hev

theorem Usage.reportsExceeded_note (u : Usage) (htracing : setup.tracing) :
    (u.note setup (.budgetExceeded limit) span).ReportsExceeded := by
  refine ⟨⟨.budgetExceeded limit, setup.runId, span⟩, ?_, rfl⟩
  rw [Usage.note_events, if_pos htracing]
  exact List.mem_append_right _ (.head _)

def Outcome.OverBudget (o : Outcome) : Prop := ∃ f, o.result = .error f ∧ f.code? = some .budget

namespace Run

variable {setup : Setup} {u : Usage} {depth : Nat}

/-- A run that was cut short by its limits `l`, and one that has come at least as far. -/
structure OverBudget (l : Limits) (tracing : Bool) (f : Failure) (v w : Usage) : Prop where
  code : f.code? = some .budget
  reported : tracing → v.ReportsExceeded
  events : v.beforeExceeded <+: w.events.toList
  passed : l.Passed w

structure InBudget (l : Limits) (u : Usage) : Prop where
  events : ∀ ev ∈ u.events.toList, ¬ ev.what.isExceeded
  kept : 0 < u.steps → ¬ l.Passed u
  start : u.steps = 0 → u.maxDepth = 0

theorem InBudget.count (hu : InBudget l u)
    (hsteps : ∀ b ∈ l.maxSteps, ((u.steps + 1 : Nat) : Int) ≤ b)
    (hdepth : ∀ b ∈ l.maxDepth, (depth : Int) ≤ b) : InBudget l (u.count depth) where
  events := hu.events
  kept _ := by
    rintro (⟨b, hb, hlt⟩ | ⟨b, hb, hlt⟩)
    · have := hsteps b hb
      simp at hlt
      omega
    · have := hdepth b hb
      by_cases hzero : u.steps = 0
      · have := hu.start hzero
        simp at hlt
        omega
      · refine hu.kept (by omega) (.inr ⟨b, hb, ?_⟩)
        simp at hlt
        omega
  start h := by simp at h

theorem InBudget.note (hu : InBudget l u) (hwhat : ∀ limit, what ≠ .budgetExceeded limit) :
    InBudget l (u.note setup what span) where
  events ev hev := by
    rw [Usage.note_events, List.mem_append] at hev
    rcases hev with hev | hev
    · exact hu.events ev hev
    · split at hev
      · rw [List.mem_singleton.mp hev]
        intro hex
        cases what <;> cases hex
        exact hwhat _ rfl
      · simp at hev
  kept h := by simpa [Limits.Passed] using hu.kept (by simpa using h)
  start h := by simpa using hu.start (by simpa using h)

theorem beforeExceeded_note (h : setup.tracing → u.ReportsExceeded) :
    (u.note setup what span).beforeExceeded = u.beforeExceeded := by
  rw [Usage.beforeExceeded, Usage.note_events]
  split
  · rename_i htracing
    obtain ⟨ev, hev, hex⟩ := h htracing
    rw [List.takeWhile_append, if_neg]
    · rfl
    · -- There is a report, so the events in front of it are not all of them.
      intro hlength
      have hall : ∀ ev ∈ u.beforeExceeded, (!ev.what.isExceeded) = true :=
        List.all_eq_true.mp List.all_takeWhile
      have hself : u.beforeExceeded = u.events.toList :=
        (List.takeWhile_prefix _).eq_of_length hlength
      simpa [hex] using hall ev (hself ▸ hev)
  · rw [List.append_nil, Usage.beforeExceeded]

theorem beforeExceeded_exceeded (h : ∀ ev ∈ u.events.toList, ¬ ev.what.isExceeded) :
    (u.note setup (.budgetExceeded limit) span).beforeExceeded = u.events.toList := by
  rw [Usage.beforeExceeded, Usage.note_events, List.takeWhile_append_of_pos (by simpa using h)]
  split <;> simp [Happening.isExceeded]

theorem lockstep_limits (setup : Setup) (h : Limits.Tighter l l') (htime : l.timeMs = none)
    (htime' : l'.timeMs = none) (hcancel : ∀ step events, setup.cancelled step events = false) :
    Lockstep (InBudget l) (OverBudget l setup.tracing) { setup with limits := l }
      { setup with limits := l' } where
  run := rfl
  tracing := rfl
  runId := rfl
  enter depth e u hu := by
    have hi {l : Limits} (htime : l.timeMs = none) :
        interruption? { setup with limits := l } (u.count depth) = none :=
      interruption?_eq_none htime hcancel
    cases hhalt : halt? { setup with limits := l } depth (u.count depth) with
    | none =>
      obtain ⟨hsteps, hdepth, _⟩ := halt?_eq_none.mp hhalt
      have hhalt' : halt? { setup with limits := l' } depth (u.count depth) = none := by
        refine halt?_eq_none.mpr ⟨fun b' hb' => ?_, fun b' hb' => ?_, hi htime'⟩
        · obtain ⟨b, hb, hle⟩ := h.steps b' hb'
          exact Int.le_trans (hsteps b hb) hle
        · obtain ⟨b, hb, hle⟩ := h.depth b' hb'
          exact Int.le_trans (hdepth b hb) hle
      refine .inl ⟨.ok (), u.count depth, ?_, ?_, hu.count hsteps hdepth⟩
      · rw [runFrom_enter, hhalt]
      · rw [runFrom_enter, hhalt']
    | some halt =>
      -- The step that the tight run refuses is counted in the wide run as well, which is thus no
      -- shorter.
      have hle : u.count depth ≤ ((Run.enter { setup with limits := l' } depth e).runFrom u).2 := by
        rw [runFrom_enter]
        split
        · exact le_refl _
        · exact Halt.le_note _
      obtain ⟨limit, b, rfl, hpassed⟩ : ∃ limit b, halt = .exceeded limit b ∧
        l.Passed (u.count depth) := by
        rw [halt?, hi htime, Option.or_none, Option.or_eq_some_iff, passed?_eq_some,
          passed?_eq_some] at hhalt
        rcases hhalt with ⟨b, hb, hlt, heq⟩ | ⟨_, b, hb, hlt, heq⟩
        · exact ⟨_, b, heq, .inl ⟨b, hb, hlt⟩⟩
        · exact ⟨_, b, heq, .inr ⟨b, hb, by simp; omega⟩⟩
      refine .inr ⟨_, _, by rw [runFrom_enter, hhalt], rfl, fun ht => ?_, ?_, hpassed.mono hle⟩
      · exact Usage.reportsExceeded_note _ (by exact ht)
      · rw [Halt.note, beforeExceeded_exceeded (by exact hu.events)]
        exact Usage.le_events hle
  note _ _ _ hwhat hu := hu.note hwhat
  cutNote f v w what span _ hc :=
    { hc with
      reported := fun htracing => (hc.reported htracing).note
      events := by
        rw [beforeExceeded_note (by exact hc.reported)]
        exact hc.events }
  cutLe f v w w' hle hc :=
    { hc with
      events := hc.events.trans (Usage.le_events hle)
      passed := hc.passed.mono hle }

theorem eval_reports : Triple (eval setup fuel depth e env) u (fun _ _ => True)
    (fun f v => f.code? = some .budget → setup.tracing → v.ReportsExceeded) := by
  induction fuel generalizing depth e env u with
  | zero => exact .of_error runFrom_throw fun hcode => by cases hcode
  | succ fuel ih =>
    rw [Triple, runFrom_eval_succ]
    cases halt? setup (depth + 1) (u.count (depth + 1)) with
    | none =>
      refine carryOut_triple (I := fun _ _ => True) (fun _ _ _ _ _ => ih) (fun _ _ _ => trivial)
        (fun _ _ _ _ _ => trivial)
          (fun _ _ _ _ _ h hcode ht => (h hcode ht).note) ?_ plan_atMost trivial
      intro _ f _ hf _ hcode
      cases f with
      | exceeded => exact hf.elim
      | _ => cases hcode
    | some halt =>
      cases halt with
      | exceeded limit bound => exact fun _ => Usage.reportsExceeded_note _
      | cancelled =>
        intro hcode
        cases hcode

end Run

theorem Outcome.OverBudget.reported
    (h : (execute setup fuel e env).OverBudget) (ht : setup.tracing) :
    (execute setup fuel e env).usage.ReportsExceeded := by
  obtain ⟨f, hf, hcode⟩ := h
  rcases hr : (Run.eval setup fuel 0 e env.orEmpty).runFrom
    (Usage.note {} setup .runStart e.span.known?) with ⟨r, u⟩
  rw [Run.execute_eq hr] at hf ⊢
  cases hf
  have hreported := Run.eval_reports.error hr hcode ht
  rcases u.close_cases (.error f : Except Failure Value) with ⟨_, h⟩ | ⟨_, h⟩
  · rw [h]
    exact hreported
  · rw [h]
    exact hreported.note

theorem Run.InBudget.runStart : Run.InBudget l (Usage.note {} setup .runStart span) :=
  .note ⟨by simp, by simp, by simp⟩ (fun _ => nofun)

theorem Ends.steps_pos (h : Ends setup e env o) : 0 < o.usage.steps := by
  obtain ⟨hne, fuel, rfl⟩ := h
  rcases hr : (Run.eval setup fuel 0 e env.orEmpty).runFrom
    (Usage.note {} setup .runStart e.span.known?) with ⟨r, u⟩
  rw [Run.execute_eq hr] at hne ⊢
  cases fuel with
  | zero =>
    cases hr
    exact absurd rfl hne
  | succ fuel =>
    have hle := Usage.le_steps (hr ▸ Run.count_le_eval)
    simp at hle ⊢
    omega

section
variable {setup : Setup} {l l' : Limits} {e : Expr} {env : Env}

/-- Two runs in lockstep on the same fuel: they do not differ, or the first is over its budget. -/
def CutShort (setup : Setup) (l l' : Limits) (e : Expr) (env : Env) : Prop :=
  ∀ fuel, let o := execute { setup with limits := l } fuel e env
    let o' := execute { setup with limits := l' } fuel e env
    o' = o ∧ Run.InBudget l o.usage ∨
      ∃ f, o.result = .error f ∧ Run.OverBudget l setup.tracing f o.usage o'.usage

theorem cutShort (htight : l.Tighter l') (htime : l.timeMs = none) (htime' : l'.timeMs = none)
    (hcancel : ∀ step events, setup.cancelled step events = false) : CutShort setup l l' e env :=
  fun _ => (Run.lockstep_limits setup htight htime htime' hcancel).execute e env .runStart
    (.inl rfl)

theorem CutShort.ends (h : CutShort setup l l' e env) (ho : Ends { setup with limits := l } e env o)
    (hbudget : ¬ o.OverBudget) : Ends { setup with limits := l' } e env o := by
  obtain ⟨hne, fuel, rfl⟩ := ho
  rcases h fuel with ⟨heq, _⟩ | ⟨f, hf, hover⟩
  · exact ⟨hne, fuel, heq⟩
  · exact absurd ⟨f, hf, hover.code⟩ hbudget

theorem CutShort.diverges (h : CutShort setup l l' e env)
    (hd : Diverges { setup with limits := l } e env) :
    Diverges { setup with limits := l' } e env := by
  intro fuel
  rcases h fuel with ⟨heq, _⟩ | ⟨f, hf, hover⟩
  · rw [heq]
    exact hd fuel
  · cases (hd fuel).symm.trans hf
    cases hover.code

theorem CutShort.overBudget_iff (h : CutShort setup l l' e env)
    (ho' : Ends { setup with limits := l' } e env o') (hbudget : ¬ o'.OverBudget) :
    ∃ o, Ends { setup with limits := l } e env o ∧ (o.OverBudget ↔ l.Passed o'.usage) := by
  have hpos := ho'.steps_pos
  obtain ⟨hne, fuel, rfl⟩ := ho'
  rcases h fuel with ⟨heq, hin⟩ | ⟨f, hf, hover⟩
  · refine ⟨_, ⟨hne, fuel, heq.symm⟩, fun ho => absurd ho hbudget, fun hpassed => ?_⟩
    rw [heq] at hpos hpassed
    exact absurd hpassed (hin.kept hpos)
  · refine ⟨_, ⟨fun hout => ?_, fuel, rfl⟩, fun _ => hover.passed, fun _ => ⟨f, hf, hover.code⟩⟩
    cases hout.symm.trans hf
    cases hover.code

theorem CutShort.events (h : CutShort setup l l' e env) (fuel : Nat) :
    (execute { setup with limits := l } fuel e env).usage.beforeExceeded <+:
      (execute { setup with limits := l' } fuel e env).usage.events.toList := by
  rcases h fuel with ⟨heq, _⟩ | ⟨f, _, hover⟩
  · rw [heq]
    exact List.takeWhile_prefix _
  · exact hover.events

end

/-- Limits on steps and depth cut a run short exactly where it passes them, and change nothing
before. -/
theorem limits_only_cut_short (setup : Setup) (l l' : Limits) (e : Expr) (env : Env)
    (htight : l.Tighter l') (htime : l.timeMs = none) (htime' : l'.timeMs = none)
    (hcancel : ∀ step events, setup.cancelled step events = false) :
    let tight : Setup := { setup with limits := l }
    let wide : Setup := { setup with limits := l' }
    (∀ o, Ends tight e env o → ¬ o.OverBudget → Ends wide e env o) ∧
    (Diverges tight e env → Diverges wide e env) ∧
    (∀ o', Ends wide e env o' → ¬ o'.OverBudget → ∃ o, Ends tight e env o ∧
      (o.OverBudget ↔ (∃ m, l.maxSteps = some m ∧ m < o'.usage.steps) ∨
        ∃ d, l.maxDepth = some d ∧ d < o'.usage.maxDepth)) ∧
    ∀ o, Ends tight e env o → o.OverBudget → (setup.tracing → o.usage.ReportsExceeded) ∧
      (∀ o', Ends wide e env o' → o.usage.beforeExceeded <+: o'.usage.events.toList) ∧
      ∃ fuel, ∀ fuel' ≥ fuel,
        o.usage.beforeExceeded <+: (execute wide fuel' e env).usage.events.toList := by
  have h : CutShort setup l l' e env := cutShort htight htime htime' hcancel
  refine ⟨fun o => h.ends, h.diverges, fun o' => h.overBudget_iff, ?_⟩
  rintro o ⟨_, fuel, rfl⟩ hover
  have hevents := h.events fuel
  refine ⟨hover.reported, fun o' ho' => ?_, fuel, fun fuel' hle => ?_⟩
  · rcases ho'.execute fuel with rfl | ⟨_, hle⟩
    · exact hevents
    · exact hevents.trans (Usage.le_events hle)
  · rcases execute_mono hle _ e env with heq | ⟨_, hle⟩
    · rw [heq]
      exact hevents
    · exact hevents.trans (Usage.le_events hle)

/-- `let y = 7 in ((proc (x) y) 5)` takes six steps, and may take five. -/
theorem limits_only_cut_short_closure :
    let e : Expr := .letIn default "y" (.const default 7)
      (.call default (.proc default "x" (.var default "y")) (.const default 5))
    let wide := execute { tracing := true } 3 e .empty
    ∃ o, Ends { tracing := true, limits := { maxSteps := some 5 } } e .empty o ∧ o.OverBudget ∧
      o.usage.ReportsExceeded ∧ o.usage.beforeExceeded <+: wide.usage.events.toList := by
  intro e wide
  obtain ⟨_, _, hiff, hevents⟩ :=
    limits_only_cut_short { tracing := true } { maxSteps := some 5 } {} e .empty
    ⟨nofun, nofun⟩ rfl rfl fun _ _ => rfl
  have hwide : Ends { tracing := true } e .empty wide := ⟨nofun, 3, rfl⟩
  obtain ⟨o, ho, hover⟩ := hiff wide hwide (by rintro ⟨f, hf, _⟩; cases hf)
  have hover := hover.mpr (.inl ⟨5, rfl, by decide⟩)
  obtain ⟨hreport, hprefix, _⟩ := hevents o ho hover
  exact ⟨o, ho, hover, hreport rfl, hprefix wide hwide⟩

end Letrec
