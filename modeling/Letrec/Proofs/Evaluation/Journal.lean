import Letrec.Proofs.Evaluation.Lockstep

/-!
# The moments of a run

A run counts a step for each expression it enters, reports events, and leaves each expression with a
result. `journal` lists these moments in order, beside the evaluator and with its results.
`Recorded` is what is asked of a property to hold of every journal. Two such properties are shown
here: the moments of a journal are in order and leave out no step (`Orderly`), and a step that is
refused or an evaluation that fails is the end of the run (`Moment.Settles`). More fuel adds moments
and takes none away, so that `Passes` leaves it out.
-/

namespace Letrec

namespace Run

inductive Moment where
  | entered (depth : Nat) (e : Expr) (env : Env) (usage : Usage)
  | reported (usage : Usage)
  | left (e : Expr) (result : Except Failure Value) (usage : Usage)

def Moment.usage : Moment → Usage
  | .entered _ _ _ u | .reported u | .left _ _ u => u

-- ---------------------------------------------------------------------------
-- Journals
-- ---------------------------------------------------------------------------

def noted (setup : Setup) (what : Happening) (span : Option Span) (u : Usage) : List Moment :=
  if setup.tracing then [.reported (u.note setup what span)] else []

def ended (r : Except Failure Value) (last : List Moment) : List Moment :=
  match r with
  | .error .outOfFuel => []
  | _ => last

theorem ended_outOfFuel : ended (.error .outOfFuel) last = [] := rfl

theorem ended_of_ne (h : r ≠ .error .outOfFuel) : ended r last = last := by
  unfold ended
  split
  · exact absurd rfl h
  · rfl

theorem mem_of_mem_ended (h : m ∈ ended r last) : m ∈ last := by
  unfold ended at h
  split at h
  · cases h
  · exact h

def Halt.journal (setup : Setup) (span : Option Span) (u : Usage) : Halt → List Moment
  | .exceeded limit _ => noted setup (.budgetExceeded limit) span u
  | .cancelled => []

/-- The moments of a plan that is carried out at the given depth, where `ev` evaluates what stands
below and `log` lists the moments of that. -/
def Plan.journal (setup : Setup) (depth : Nat) (ev : Expr → Env → Run Value)
    (log : Expr → Env → Usage → List Moment) : Plan → Usage → List Moment
  | .done _, _ => []
  | .bound name param span rest, u =>
    noted setup (.letrecBind name param) span u ++
      rest.journal setup depth ev log (u.note setup (.letrecBind name param) span)
  | .operand e env rest, u =>
    log e env u ++
      match (ev e env).runFrom u with
      | (.ok a, v) => (rest a).journal setup depth ev log v
      | (.error _, _) => []
  | .body param span e env, u =>
    let start := u.note setup (.callStart param depth) span
    let result := (ev e env).runFrom start
    noted setup (.callStart param depth) span u ++
      (log e env start ++ ended result.1 (noted setup (.callEnd param depth) span result.2))

def journal (setup : Setup) : (fuel depth : Nat) → Expr → Env → Usage → List Moment
  | 0, _, _, _, _ => []
  | fuel + 1, depth, e, env, u =>
    let v := u.count (depth + 1)
    let result := (eval setup (fuel + 1) depth e env).runFrom u
    .entered (depth + 1) e env v ::
      ((match halt? setup (depth + 1) v with
        | none =>
          (plan ⟨setup.run, v.steps⟩ env e).journal setup (depth + 1) (eval setup fuel (depth + 1))
            (journal setup fuel (depth + 1)) v
        | some halt => halt.journal setup e.span.known? v) ++
      ended result.1 [.left e result.1 result.2])

section
variable {setup : Setup} {ev : Expr → Env → Run Value} {log : Expr → Env → Usage → List Moment}
  {rest : Value → Plan} {u v : Usage}

theorem journal_operand_ok (h : (ev e env).runFrom u = (.ok a, v)) :
    (Plan.operand e env rest).journal setup depth ev log u =
      log e env u ++ (rest a).journal setup depth ev log v := by
  rw [Plan.journal, h]

theorem journal_operand_error (h : (ev e env).runFrom u = (.error f, v)) :
    (Plan.operand e env rest).journal setup depth ev log u = log e env u := by
  rw [Plan.journal, h, List.append_nil]

theorem journal_body
    (h : (ev e env).runFrom (u.note setup (.callStart param depth) span) = (r, v)) :
    (Plan.body param span e env).journal setup depth ev log u =
      noted setup (.callStart param depth) span u ++
        (log e env (u.note setup (.callStart param depth) span) ++
          ended r (noted setup (.callEnd param depth) span v)) := by
  rw [Plan.journal, h]

theorem journal_entered (hhalt : halt? setup (depth + 1) (u.count (depth + 1)) = none)
    (h : (eval setup (fuel + 1) depth e env).runFrom u = (r, v)) :
    journal setup (fuel + 1) depth e env u = .entered (depth + 1) e env (u.count (depth + 1)) ::
      ((plan ⟨setup.run, u.steps + 1⟩ env e).journal setup (depth + 1) (eval setup fuel (depth + 1))
        (journal setup fuel (depth + 1)) (u.count (depth + 1)) ++ ended r [.left e r v]) := by
  rw [journal, hhalt, h]
  rfl

theorem journal_halted (hhalt : halt? setup (depth + 1) (u.count (depth + 1)) = some halt)
    (h : (eval setup (fuel + 1) depth e env).runFrom u = (r, v)) :
    journal setup (fuel + 1) depth e env u = .entered (depth + 1) e env (u.count (depth + 1)) ::
      (halt.journal setup e.span.known? (u.count (depth + 1)) ++ ended r [.left e r v]) := by
  rw [journal, hhalt, h]

end

def runJournal (setup : Setup) (fuel : Nat) (e : Expr) (env : Env) : List Moment :=
  let start : Usage := Usage.note {} setup .runStart e.span.known?
  let result := (eval setup fuel 0 e env.orEmpty).runFrom start
  noted setup .runStart e.span.known? {} ++
    (journal setup fuel 0 e env.orEmpty start ++
      ended result.1 (noted setup .runEnd e.span.known? result.2))

-- ---------------------------------------------------------------------------
-- Properties of journals
-- ---------------------------------------------------------------------------

/-- What makes `P l u r v` hold whenever an evaluation goes from `u` to `v` through the moments `l`
and comes to `r`. -/
structure Recorded (setup : Setup) (P : List Moment → Usage → Except Failure Value → Usage → Prop) :
    Prop where
  nil : ∀ r u, P [] u r u
  append : ∀ l l' u v w a r, P l u (.ok a) v → P l' v r w → P (l ++ l') u r w
  noted : ∀ what span u, P (noted setup what span u) u (.ok default) (u.note setup what span)
  ended : ∀ l u r v what span, P l u r v →
    P (l ++ Run.noted setup what span v) u r (v.note setup what span)
  entered : ∀ depth e env l u r v, halt? setup depth (u.count depth) = none →
    P l (u.count depth) r v → P (.entered depth e env (u.count depth) :: l) u r v
  halted : ∀ depth e env u halt, halt? setup depth (u.count depth) = some halt →
    P (.entered depth e env (u.count depth) :: halt.journal setup e.span.known? (u.count depth)) u
      (.error (halt.failure e.span.known?)) (halt.note setup e.span.known? (u.count depth))
  left : ∀ e l u r v, P l u r v → P (l ++ [.left e r v]) u r v

namespace Recorded

variable {setup : Setup} {P : List Moment → Usage → Except Failure Value → Usage → Prop}
    {u v : Usage}

theorem close (h : Recorded setup P) (hl : P l u r v) :
    P (l ++ Run.ended r (Run.noted setup what span v)) u r (v.close setup what span r) := by
  rcases v.close_cases r with ⟨rfl, hclose⟩ | ⟨hr, hclose⟩ <;> rw [hclose]
  · rwa [ended_outOfFuel, List.append_nil]
  · rw [ended_of_ne hr]
    exact h.ended _ _ _ _ _ _ hl

theorem leave (h : Recorded setup P) (hl : P l u r v) :
    P (l ++ Run.ended r [.left e r v]) u r v := by
  by_cases hr : r = .error .outOfFuel
  · rwa [hr, ended_outOfFuel, List.append_nil, ← hr]
  · rw [ended_of_ne hr]
    exact h.left _ _ _ _ _ hl

theorem carryOut (h : Recorded setup P) {p : Plan}
    (hev : ∀ e env u r v, (ev e env).runFrom u = (r, v) → P (log e env u) u r v)
    (hr : (p.carryOut setup depth ev).runFrom u = (r, v)) :
    P (p.journal setup depth ev log u) u r v := by
  induction p generalizing u with
  | done r' =>
    rw [Plan.carryOut, runFrom_conclude] at hr
    cases hr
    exact h.nil _ _
  | bound name param span rest ih =>
    rw [Plan.carryOut, runFrom_bind_ok runFrom_emit] at hr
    exact h.append _ _ _ _ _ _ _ (h.noted _ _ _) (ih hr)
  | operand e env rest ih =>
    rcases hm : (ev e env).runFrom u with ⟨f | a, w⟩
    · rw [Plan.carryOut, runFrom_bind_error hm] at hr
      cases hr
      rw [journal_operand_error hm]
      exact hev _ _ _ _ _ hm
    · rw [Plan.carryOut, runFrom_bind_ok hm] at hr
      rw [journal_operand_ok hm]
      exact h.append _ _ _ _ _ _ _ (hev _ _ _ _ _ hm) (ih a hr)
  | body param span e env =>
    rcases hm : (ev e env).runFrom (u.note setup (.callStart param depth) span) with ⟨r', w⟩
    rw [Plan.carryOut, runFrom_call hm] at hr
    cases hr
    rw [journal_body hm]
    exact h.append _ _ _ _ _ _ _ (h.noted _ _ _) (h.close (hev _ _ _ _ _ hm))

theorem eval (h : Recorded setup P) (hr : (Run.eval setup fuel depth e env).runFrom u = (r, v)) :
    P (journal setup fuel depth e env u) u r v := by
  induction fuel generalizing depth e env u r v with
  | zero =>
    cases hr
    exact h.nil _ _
  | succ fuel ih =>
    have hresult := hr
    rw [runFrom_eval_succ] at hr
    cases hhalt : halt? setup (depth + 1) (u.count (depth + 1)) with
    | none =>
      rw [hhalt] at hr
      rw [journal_entered hhalt hresult]
      exact h.entered _ _ _ _ _ _ _ hhalt (h.leave (h.carryOut (fun _ _ _ _ _ => ih) hr))
    | some halt =>
      rw [hhalt] at hr
      cases hr
      rw [journal_halted hhalt hresult, ← List.cons_append]
      exact h.leave (h.halted _ _ _ _ _ hhalt)

theorem run (h : Recorded setup P) (fuel : Nat) (e : Expr) (env : Env) :
    P (runJournal setup fuel e env) {} (execute setup fuel e env).result
      (execute setup fuel e env).usage := by
  rw [execute_eq rfl]
  exact h.append _ _ _ _ _ _ _ (h.noted _ _ _) (h.close (h.eval rfl))

end Recorded

-- ---------------------------------------------------------------------------
-- The order of moments
-- ---------------------------------------------------------------------------

theorem mem_noted {u : Usage} (h : m ∈ noted setup what span u) :
    setup.tracing ∧ m = .reported (u.note setup what span) := by
  unfold noted at h
  split at h
  case isTrue htracing => exact ⟨htracing, List.mem_singleton.1 h⟩
  case isFalse => cases h

theorem mem_haltJournal {halt : Halt} (h : m ∈ halt.journal setup span u) :
    ∃ v, m = .reported v := by
  cases halt with
  | exceeded limit bound => exact ⟨_, (mem_noted h).2⟩
  | cancelled => cases h

/-- A moment after `u` has been used up: a step adds to the steps, and an event to the events. -/
def Moment.After (u : Usage) : Moment → Prop
  | .entered _ _ _ v => u ≤ v ∧ u.steps < v.steps
  | .reported v => u ≤ v ∧ u.events.size < v.events.size
  | .left _ _ v => u ≤ v

theorem Moment.After.of_le {m : Moment} (hle : u ≤ v) (h : m.After v) : m.After u := by
  cases m with
  | entered => exact ⟨le_trans hle h.1, Nat.lt_of_le_of_lt (Usage.le_steps hle) h.2⟩
  | reported => exact ⟨le_trans hle h.1, Nat.lt_of_le_of_lt (Usage.le_events hle).length_le h.2⟩
  | left => exact le_trans hle h

/-- The moments of a journal that goes from `u` to `v` are in order, and no step is left out. -/
structure Orderly (u : Usage) (l : List Moment) (v : Usage) : Prop where
  le : u ≤ v
  after : ∀ m ∈ l, m.After u
  before : ∀ m ∈ l, m.usage ≤ v
  sorted : l.Pairwise fun m m' => m'.After m.usage
  steps : ∀ j, u.steps < j → j ≤ v.steps → ∃ depth e env w, .entered depth e env w ∈ l ∧ w.steps = j

namespace Orderly

variable {u v w : Usage}

theorem nil (h : u ≤ v) (hsteps : v.steps = u.steps) : Orderly u [] v where
  le := h
  after := nofun
  before := nofun
  sorted := .nil
  steps j hlt hle := by omega

theorem append (h : Orderly u l v) (h' : Orderly v l' w) : Orderly u (l ++ l') w where
  le := le_trans h.le h'.le
  after m hm := by
    rcases List.mem_append.1 hm with hm | hm
    · exact h.after m hm
    · exact (h'.after m hm).of_le h.le
  before m hm := by
    rcases List.mem_append.1 hm with hm | hm
    · exact le_trans (h.before m hm) h'.le
    · exact h'.before m hm
  sorted := List.pairwise_append.2
    ⟨h.sorted, h'.sorted, fun m hm m' hm' => (h'.after m' hm').of_le (h.before m hm)⟩
  steps j hlt hle := by
    rcases Nat.lt_or_ge v.steps j with hj | hj
    · obtain ⟨depth, e, env, x, hx, hsteps⟩ := h'.steps j hj hle
      exact ⟨depth, e, env, x, List.mem_append_right l hx, hsteps⟩
    · obtain ⟨depth, e, env, x, hx, hsteps⟩ := h.steps j hlt hj
      exact ⟨depth, e, env, x, List.mem_append_left l' hx, hsteps⟩

theorem entered (u : Usage) (depth : Nat) (e : Expr) (env : Env) :
    Orderly u [.entered depth e env (u.count depth)] (u.count depth) where
  le := u.le_count
  after := by simp [Moment.After, u.le_count]
  before := by simp [Moment.usage]
  sorted := List.pairwise_singleton _ _
  steps j hlt hle := by
    rw [Usage.count_steps] at hle
    exact ⟨depth, e, env, _, List.mem_singleton_self _, by rw [Usage.count_steps]; omega⟩

theorem noted (u : Usage) (setup : Setup) (what : Happening) (span : Option Span) :
    Orderly u (noted setup what span u) (u.note setup what span) := by
  unfold Run.noted
  split
  case isFalse => exact nil u.le_note u.note_steps
  case isTrue htracing =>
    refine ⟨u.le_note, ?_, by simp [Moment.usage], List.pairwise_singleton _ _, ?_⟩
    · simpa [Moment.After, u.le_note] using by simp [Usage.note, htracing]
    · intro j hlt hle
      rw [Usage.note_steps] at hle
      omega

theorem left (u : Usage) : Orderly u [.left e r u] u where
  le := le_refl u
  after := by simp [Moment.After]
  before := by simp [Moment.usage]
  sorted := List.pairwise_singleton _ _
  steps j hlt hle := by omega

theorem halted (u : Usage) (halt : Halt) :
    Orderly u (halt.journal setup span u) (halt.note setup span u) := by
  cases halt with
  | exceeded => exact noted u setup _ span
  | cancelled => exact nil (le_refl u) rfl

theorem cases (h : Orderly u l v) (hm : m ∈ l) (hm' : m' ∈ l) :
    m = m' ∨ m'.After m.usage ∨ m.After m'.usage := by
  have hsorted := h.sorted
  clear h
  induction hsorted with
  | nil => cases hm
  | cons hhead _ ih =>
    rcases List.mem_cons.1 hm with rfl | htail <;> rcases List.mem_cons.1 hm' with rfl | htail'
    · exact .inl rfl
    · exact .inr (.inl (hhead _ htail'))
    · exact .inr (.inr (hhead _ htail))
    · exact ih htail htail'

end Orderly

theorem recorded_orderly (setup : Setup) : Recorded setup fun l u _ v => Orderly u l v where
  nil _ u := .nil (le_refl u) rfl
  append _ _ _ _ _ _ _ h h' := h.append h'
  noted what span u := .noted u setup what span
  ended _ _ _ v what span h := h.append (.noted v setup what span)
  entered depth e env _ u _ _ _ h := (Orderly.entered u depth e env).append h
  halted depth e env u halt _ := (Orderly.entered u depth e env).append (.halted _ halt)
  left _ _ _ _ v h := h.append (.left v)

-- ---------------------------------------------------------------------------
-- The end of a run
-- ---------------------------------------------------------------------------

/-- If a step is refused or an evaluation fails, then that is the result, and no step comes
after. -/
def Moment.Settles (setup : Setup) (r : Except Failure Value) (v : Usage) : Moment → Prop
  | .entered depth e _ u =>
    ∀ halt, halt? setup depth u = some halt → r = .error (halt.failure e.span.known?) ∧
      v.steps = u.steps
  | .left _ (.error f) u => r = .error f ∧ v.steps = u.steps
  | _ => True

section
variable {m : Moment} {setup : Setup} {v w : Usage}

theorem Moment.Settles.of_steps (h : m.Settles setup r v) (hsteps : w.steps = v.steps) :
    m.Settles setup r w := by
  cases m with
  | entered => exact fun halt hhalt => (h halt hhalt).imp_right hsteps.trans
  | reported => trivial
  | left e result u =>
    cases result with
    | error f => exact h.imp_right hsteps.trans
    | ok a => trivial

theorem Moment.Settles.of_ok (h : m.Settles setup (.ok a) v) : m.Settles setup r w := by
  cases m with
  | entered => exact fun halt hhalt => absurd (h halt hhalt).1 nofun
  | reported => trivial
  | left e result u =>
    cases result with
    | error f => exact absurd h.1 nofun
    | ok a => trivial

theorem Moment.settles_left : (Moment.left e r v).Settles setup r v := by
  cases r with
  | error f => exact ⟨rfl, rfl⟩
  | ok a => trivial

end

theorem recorded_settled (setup : Setup) :
    Recorded setup fun l _ r v => ∀ m ∈ l, m.Settles setup r v where
  nil _ _ := nofun
  append _ _ _ _ _ _ _ h h' m hm := (List.mem_append.1 hm).elim (fun hm => (h m hm).of_ok) (h' m)
  noted _ _ _ m hm := by
    rw [(mem_noted hm).2]
    trivial
  ended _ _ _ _ _ _ h m hm := by
    rcases List.mem_append.1 hm with hm | hm
    · exact (h m hm).of_steps (Usage.note_steps _)
    · rw [(mem_noted hm).2]
      trivial
  entered _ _ _ _ _ _ _ hhalt h m hm := by
    rcases List.mem_cons.1 hm with rfl | hm
    · exact fun halt hsome => absurd (hhalt.symm.trans hsome) nofun
    · exact h m hm
  halted _ _ _ _ halt hhalt m hm := by
    rcases List.mem_cons.1 hm with rfl | hm
    · intro halt' hhalt'
      cases hhalt.symm.trans hhalt'
      exact ⟨rfl, halt.note_steps _⟩
    · obtain ⟨_, rfl⟩ := mem_haltJournal hm
      trivial
  left _ _ _ _ _ h m hm := by
    rcases List.mem_append.1 hm with hm | hm
    · exact h m hm
    · rw [List.mem_singleton.1 hm]
      exact Moment.settles_left

-- ---------------------------------------------------------------------------
-- Fuel
-- ---------------------------------------------------------------------------

theorem eval_mono (h : fuel ≤ fuel') : (eval setup fuel' depth e env).runFrom u =
    (eval setup fuel depth e env).runFrom u ∨
      ((eval setup fuel depth e env).runFrom u).1 = .error .outOfFuel := by
  rcases (lockstep_fuel setup).eval trivial (.inr ⟨h, fun _ _ hle _ => ⟨rfl, hle⟩⟩) with
    ⟨r, v, hr, hr', _⟩ | ⟨f, v, hf, rfl, _⟩
  · exact .inl (hr'.trans hr.symm)
  · exact .inr (congrArg Prod.fst hf)

theorem ended_subset {x y : Except Failure Value × Usage} (h : y = x ∨ x.1 = .error .outOfFuel)
    (last : Except Failure Value × Usage → List Moment) :
    ended x.1 (last x) ⊆ ended y.1 (last y) := by
  rcases h with rfl | hfuel
  · exact List.Subset.refl _
  · rw [hfuel]
    exact List.nil_subset _

theorem append_subset_append {k k' l l' : List Moment} (hk : k ⊆ k') (hl : l ⊆ l') :
    k ++ l ⊆ k' ++ l' :=
  List.append_subset.2
    ⟨List.Subset.trans hk (List.subset_append_left k' l'),
      List.Subset.trans hl (List.subset_append_right k' l')⟩

theorem planJournal_subset {p : Plan} (hlog : ∀ e env u, log e env u ⊆ log' e env u)
    (hev : ∀ e env u, (ev' e env).runFrom u = (ev e env).runFrom u ∨
      ((ev e env).runFrom u).1 = .error .outOfFuel) :
    p.journal setup depth ev log u ⊆ p.journal setup depth ev' log' u := by
  induction p generalizing u with
  | done r => exact List.Subset.refl _
  | bound name param span rest ih => exact append_subset_append (List.Subset.refl _) ih
  | operand e env rest ih =>
    rcases hm : (ev e env).runFrom u with ⟨f | a, v⟩
    · rw [journal_operand_error hm, Plan.journal]
      exact List.Subset.trans (hlog e env u) (List.subset_append_left _ _)
    · have hm' : (ev' e env).runFrom u = (.ok a, v) := by
        rcases hev e env u with heq | hfuel
        · rw [heq, hm]
        · rw [hm] at hfuel
          cases hfuel
      rw [journal_operand_ok hm, journal_operand_ok hm']
      exact append_subset_append (hlog e env u) (ih a)
  | body param span e env =>
    refine append_subset_append (List.Subset.refl _) (append_subset_append (hlog e env _) ?_)
    exact ended_subset (hev e env _) fun x => noted setup (.callEnd param depth) span x.2

theorem journal_subset (h : fuel ≤ fuel') :
    journal setup fuel depth e env u ⊆ journal setup fuel' depth e env u := by
  induction fuel generalizing fuel' depth e env u with
  | zero => exact List.nil_subset _
  | succ fuel ih =>
    obtain ⟨fuel', rfl⟩ : ∃ k, fuel' = k + 1 := ⟨fuel' - 1, by omega⟩
    have hfuel : fuel ≤ fuel' := by omega
    have hend := ended_subset (@eval_mono _ _ setup depth e env u h) fun x => [.left e x.1 x.2]
    cases hhalt : halt? setup (depth + 1) (u.count (depth + 1)) with
    | none =>
      rw [journal_entered hhalt rfl, journal_entered hhalt rfl]
      refine List.cons_subset_cons _ (append_subset_append ?_ hend)
      exact planJournal_subset (fun _ _ _ => ih hfuel) fun _ _ _ => eval_mono hfuel
    | some halt =>
      rw [journal_halted hhalt rfl, journal_halted hhalt rfl]
      exact List.cons_subset_cons _ (append_subset_append (List.Subset.refl _) hend)

theorem runJournal_subset (h : fuel ≤ fuel') :
    runJournal setup fuel e env ⊆ runJournal setup fuel' e env := by
  refine append_subset_append (List.Subset.refl _) (append_subset_append (journal_subset h) ?_)
  exact ended_subset (eval_mono h) fun x => noted setup .runEnd e.span.known? x.2

end Run

def Passes (setup : Setup) (e : Expr) (env : Env) (m : Run.Moment) : Prop :=
  ∃ fuel, m ∈ Run.runJournal setup fuel e env

theorem Passes.mem (h : Passes setup e env m) (fuel : Nat) :
    ∃ fuel' ≥ fuel, m ∈ Run.runJournal setup fuel' e env := by
  obtain ⟨fuel', hm⟩ := h
  exact ⟨max fuel fuel', Nat.le_max_left _ _, Run.runJournal_subset (Nat.le_max_right _ _) hm⟩

theorem Passes.mem_of_ends (hm : Passes setup e env m) (h : Ends setup e env o) :
    ∃ fuel, execute setup fuel e env = o ∧ m ∈ Run.runJournal setup fuel e env := by
  obtain ⟨hne, fuel, rfl⟩ := h
  obtain ⟨fuel', hle, hm⟩ := hm.mem fuel
  rcases execute_mono hle setup e env with heq | ⟨hout, _⟩
  · exact ⟨fuel', heq, hm⟩
  · exact absurd hout hne

theorem Ends.settles (h : Ends setup e env o) (hm : Passes setup e env m) :
    m.Settles setup o.result o.usage := by
  obtain ⟨fuel, rfl, hm⟩ := hm.mem_of_ends h
  exact (Run.recorded_settled setup).run fuel e env m hm

theorem Ends.usage_le (h : Ends setup e env o) (hm : Passes setup e env m) : m.usage ≤ o.usage := by
  obtain ⟨fuel, rfl, hm⟩ := hm.mem_of_ends h
  exact ((Run.recorded_orderly setup).run fuel e env).before m hm

end Letrec
