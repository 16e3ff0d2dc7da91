import Letrec.Proofs.Evaluation.Journal
import Letrec.Proofs.Evaluation.Trace
import Mathlib.Order.Bounds.Defs

/-!
# Cancelling a run

A run looks at its cancellation at check points only. So a run that is cancelled at an event does
the same as one that is left alone, up to the first check point after the event; there it fails, and
reports no more than the ends of the calls that are open and its own end. `CutAt` says this of an
evaluation by the moment of its journal at which it is stopped. The order of moments tells which one
that is: the step at the least check point past the event, unless the run does not come so far or a
limit refuses that step.
-/

namespace Letrec

def Event.closing (ev : Event) : Event :=
  match ev.what with
  | .callStart x depth => { ev with what := .callEnd x depth }
  | _ => ev

namespace Trace

def follow (calls : List Event) (ev : Event) : List Event :=
  match ev.what with
  | .callStart .. => ev :: calls
  | .callEnd .. => calls.tail
  | _ => calls

/-- The first events of the calls that are open after the given events, innermost first. -/
def openCalls (evs : List Event) : List Event := evs.foldl follow []

variable {id : String}

theorem foldl_follow (h : Nested id high low evs) (calls : List Event) :
    evs.foldl follow calls = calls := by
  induction h generalizing calls with
  | nil => rfl
  | bound _ ih => exact ih calls
  | exceeded _ ih => exact ih calls
  | call _ _ _ _ ihbody ihrest =>
    rw [List.foldl_cons, List.foldl_append, ihbody]
    exact ihrest calls

theorem openCalls_append (h : Nested id high low evs') :
    openCalls (evs ++ evs') = openCalls evs := by
  rw [openCalls, List.foldl_append, foldl_follow h, openCalls]

theorem openCalls_concat : openCalls (evs ++ [ev]) = follow (openCalls evs) ev := by
  rw [openCalls, List.foldl_append, List.foldl_cons, List.foldl_nil, openCalls]

end Trace

open Trace (openCalls)

def Usage.openCalls (u : Usage) : List Event := Trace.openCalls u.events.toList

def Usage.addEvents (u : Usage) (evs : List Event) : Usage :=
  { u with events := u.events ++ evs.toArray }

theorem Usage.addEvents_nil (u : Usage) : u.addEvents [] = u := by simp [addEvents]

theorem Usage.addEvents_note (u : Usage) (evs : List Event) :
    (u.addEvents evs).note setup what span =
    u.addEvents (evs ++ if setup.tracing then [⟨what, setup.runId, span⟩] else []) := by
  unfold note
  split <;> simp [addEvents]

theorem Usage.openCalls_note (u : Usage) : (u.note setup what span).openCalls =
    if setup.tracing then Trace.follow u.openCalls ⟨what, setup.runId, span⟩ else u.openCalls := by
  rw [openCalls, note_events]
  split
  · rw [Trace.openCalls_concat, openCalls]
  · rw [List.append_nil, openCalls]

/-- The same setup, where somebody cancels the run at its `n`-th event, or before it starts if `n`
is zero. -/
def Setup.cancelledAt (setup : Setup) (n : Nat) : Setup :=
  { setup with cancelled := fun _ events => decide (n ≤ events) }

def Limits.Allows (limits : Limits) (depth step : Nat) : Prop :=
  (∀ m ∈ limits.maxSteps, (step : Int) ≤ m) ∧ ∀ d ∈ limits.maxDepth, (depth : Int) ≤ d

namespace Run

-- ---------------------------------------------------------------------------
-- Open calls
-- ---------------------------------------------------------------------------

theorem recorded_untraced (h : setup.tracing = false) :
    Recorded setup fun _ u _ v => v.events = u.events where
  nil _ _ := rfl
  append _ _ _ _ _ _ _ huv hvw := hvw.trans huv
  noted _ _ _ := by simp [Usage.note, h]
  ended _ _ _ _ _ _ huv := by simpa [Usage.note, h] using huv
  entered _ _ _ _ _ _ _ _ huv := huv
  halted _ _ _ _ halt _ := by cases halt <;> simp [Halt.note, Usage.note, h]
  left _ _ _ _ _ huv := huv

theorem eval_openCalls
    (hr : (eval setup fuel depth e env).runFrom u = (r, v)) (hne : r ≠ .error .outOfFuel) :
    v.openCalls = u.openCalls := by
  cases htracing : setup.tracing with
  | true =>
    obtain ⟨evs, hadds⟩ := eval_traced htracing r v hr hne
    rw [Usage.openCalls, hadds.events, Trace.openCalls_append hadds.nested, Usage.openCalls]
  | false => rw [Usage.openCalls, (recorded_untraced htracing).eval hr, Usage.openCalls]

-- ---------------------------------------------------------------------------
-- Runs that are cut
-- ---------------------------------------------------------------------------

/-- At `stop` the first action is cancelled and closes the calls that are open; up to there, or to
its end if there is no such moment, it does as the second one. -/
def CutAt (stop : Option Moment) (m m' : Run Value) (u : Usage) : Prop :=
  match stop with
  | none => m.runFrom u = m'.runFrom u
  | some x =>
    ∃ calls, m.runFrom u = (.error .cancelled, x.usage.addEvents (calls.map Event.closing)) ∧
      x.usage.openCalls = calls ++ u.openCalls

theorem CutAt.congr {stop : Option Moment} (h : CutAt stop m m' v) (hm : k.runFrom u = m.runFrom v)
    (hm' : k'.runFrom u = m'.runFrom v) (hopen : v.openCalls = u.openCalls) :
    CutAt stop k k' u := by
  cases stop with
  | none => exact hm.trans (h.trans hm'.symm)
  | some x =>
    obtain ⟨calls, hcut, hcalls⟩ := h
    exact ⟨calls, hm.trans hcut, hopen ▸ hcalls⟩

def isDue (n : Nat) (u : Usage) : Bool := isCheckPoint u.steps && decide (n ≤ u.events.size)

def stopsAt (setup : Setup) (n : Nat) : Moment → Bool
  | .entered depth _ _ u => isDue n u && (halt? setup depth u).isNone
  | .reported _ | .left .. => false

theorem stopsAt_iff {m : Moment} :
    stopsAt setup n m ↔ ∃ depth a scope u, m = .entered depth a scope u ∧
    u.steps % 1024 = 1 ∧ n ≤ u.events.size ∧ halt? setup depth u = none := by
  cases m <;> simp [stopsAt, isDue, isCheckPoint, and_assoc]

theorem find?_noted : (noted setup what span u).find? (stopsAt setup' n) = none := by
  unfold noted
  split <;> rfl

theorem find?_ended (h : last.find? (stopsAt setup n) = none) :
    (ended r last).find? (stopsAt setup n) = none := by
  unfold ended
  split
  · rfl
  · exact h

theorem find?_halt (halt : Halt) : (halt.journal setup span u).find? (stopsAt setup' n) = none := by
  cases halt with
  | exceeded => exact find?_noted
  | cancelled => rfl

section
variable {setup : Setup} {n : Nat}

theorem interruption?_cancelledAt (htime : setup.limits.timeMs = none) (u : Usage) :
    interruption? (setup.cancelledAt n) u = if isDue n u then some .cancelled else none := by
  cases hcheck : isCheckPoint u.steps with
  | true => simp [interruption?, isCancelled, isDue, Setup.cancelledAt, htime, hcheck]
  | false => simp [interruption?, isDue, hcheck]

theorem halt?_cancelledAt (htime : setup.limits.timeMs = none)
    (hcancel : ∀ step events, setup.cancelled step events = false) (depth : Nat) (u : Usage) :
    halt? (setup.cancelledAt n) depth u =
      (halt? setup depth u).or (if isDue n u then some .cancelled else none) := by
  have hnone : interruption? setup u = none := interruption?_eq_none htime hcancel
  rw [halt?, halt?, hnone, Option.or_none, interruption?_cancelledAt htime]
  rfl

theorem halt?_eq_none_iff (htime : setup.limits.timeMs = none)
    (hcancel : ∀ step events, setup.cancelled step events = false) :
    halt? setup depth u = none ↔ setup.limits.Allows depth u.steps := by
  rw [halt?_eq_none, Limits.Allows, interruption?_eq_none htime hcancel]
  exact and_congr_right fun _ => and_iff_left rfl

theorem carryOut_cut {p : Plan}
    (hev : ∀ e env u, CutAt ((log e env u).find? (stopsAt setup n)) (ev e env) (ev' e env) u)
    (hopen : ∀ e env u r v, (ev' e env).runFrom u = (r, v) → r ≠ .error .outOfFuel →
      v.openCalls = u.openCalls) :
    CutAt ((p.journal setup depth ev' log u).find? (stopsAt setup n))
      (p.carryOut (setup.cancelledAt n) depth ev) (p.carryOut setup depth ev') u := by
  induction p generalizing u with
  | done r => rfl
  | bound name param span rest ih =>
    rw [Plan.journal, List.find?_append, find?_noted, Option.none_or]
    refine ih.congr (runFrom_bind_ok runFrom_emit) (runFrom_bind_ok runFrom_emit) ?_
    rw [Usage.openCalls_note]
    split <;> rfl
  | operand e env rest ih =>
    have hcut := hev e env u
    cases hstop : (log e env u).find? (stopsAt setup n) with
    | some x =>
      rw [hstop] at hcut
      obtain ⟨calls, hm, hcalls⟩ := hcut
      rw [Plan.journal, List.find?_append, hstop, Option.some_or]
      exact ⟨calls, runFrom_bind_error hm, hcalls⟩
    | none =>
      rw [hstop] at hcut
      rcases hm' : (ev' e env).runFrom u with ⟨f | a, v⟩
      · have hm : (ev e env).runFrom u = (.error f, v) := hcut.trans hm'
        rw [journal_operand_error hm', hstop]
        exact (runFrom_bind_error hm).trans (runFrom_bind_error hm').symm
      · have hm : (ev e env).runFrom u = (.ok a, v) := hcut.trans hm'
        rw [journal_operand_ok hm', List.find?_append, hstop, Option.none_or]
        exact (ih a).congr (runFrom_bind_ok hm) (runFrom_bind_ok hm')
          (hopen e env u _ v hm' (by simp))
  | body param span e env =>
    have hcut := hev e env (u.note setup (.callStart param depth) span)
    rcases hm' : (ev' e env).runFrom (u.note setup (.callStart param depth) span) with ⟨r, v⟩
    rw [journal_body hm', List.find?_append, find?_noted, Option.none_or, List.find?_append,
      find?_ended find?_noted, Option.or_none]
    cases hstop : (log e env (u.note setup (.callStart param depth) span)).find?
      (stopsAt setup n) with
    | none =>
      rw [hstop] at hcut
      exact (runFrom_call (hcut.trans hm')).trans (runFrom_call hm').symm
    | some x =>
      rw [hstop] at hcut
      obtain ⟨calls, hm, hcalls⟩ := hcut
      -- The call is open as well, outside of those that its body has opened.
      have hrun : ((Plan.body param span e env).carryOut (setup.cancelledAt n) depth ev).runFrom u =
          (.error .cancelled,
            (x.usage.addEvents (calls.map Event.closing)).note (setup.cancelledAt n)
            (.callEnd param depth) span) := runFrom_call hm
      rw [Usage.openCalls_note] at hcalls
      rw [Usage.addEvents_note] at hrun
      cases htracing : setup.tracing with
      | true =>
        rw [if_pos htracing] at hcalls
        refine ⟨calls ++ [⟨.callStart param depth, setup.runId, span⟩], ?_, ?_⟩
        · simpa [Setup.cancelledAt, htracing, Event.closing] using hrun
        · simpa [Trace.follow] using hcalls
      | false =>
        rw [if_neg (by simp [htracing])] at hcalls
        refine ⟨calls, ?_, hcalls⟩
        simpa [Setup.cancelledAt, htracing] using hrun

theorem eval_cut (htime : setup.limits.timeMs = none)
    (hcancel : ∀ step events, setup.cancelled step events = false) :
    CutAt ((journal setup fuel depth e env u).find? (stopsAt setup n))
      (eval (setup.cancelledAt n) fuel depth e env) (eval setup fuel depth e env) u := by
  induction fuel generalizing depth e env u with
  | zero => rfl
  | succ fuel ih =>
    have hhalt' := halt?_cancelledAt (n := n) htime hcancel (depth + 1) (u.count (depth + 1))
    have heval := @runFrom_eval_succ setup fuel depth e env u
    have heval' := @runFrom_eval_succ (setup.cancelledAt n) fuel depth e env u
    rw [hhalt'] at heval'
    cases hhalt : halt? setup (depth + 1) (u.count (depth + 1)) with
    | some halt =>
      rw [hhalt] at heval heval'
      rw [journal_halted hhalt rfl, List.find?_cons_of_neg (by simp [stopsAt, hhalt]),
        List.find?_append, find?_halt, Option.none_or, find?_ended rfl]
      exact heval'.trans heval.symm
    | none =>
      rw [hhalt] at heval heval'
      rw [journal_entered hhalt rfl]
      cases hdue : isDue n (u.count (depth + 1)) with
      | true =>
        rw [hdue] at heval'
        rw [List.find?_cons_of_pos (by simp [stopsAt, hhalt, hdue])]
        refine ⟨[], ?_, rfl⟩
        rw [heval', List.map_nil, Usage.addEvents_nil]
        rfl
      | false =>
        rw [hdue] at heval'
        rw [List.find?_cons_of_neg (by simp [stopsAt, hdue]), List.find?_append, find?_ended rfl,
          Option.or_none]
        exact (carryOut_cut (fun e env u => @ih (depth + 1) e env u)
          fun _ _ _ _ _ => eval_openCalls).congr heval' heval rfl

theorem run_cut (htime : setup.limits.timeMs = none)
    (hcancel : ∀ step events, setup.cancelled step events = false) (fuel : Nat) (e : Expr)
    (env : Env) :
    CutAt ((runJournal setup fuel e env).find? (stopsAt setup n))
      (eval (setup.cancelledAt n) fuel 0 e env.orEmpty)
      (eval setup fuel 0 e env.orEmpty) (Usage.note {} setup .runStart e.span.known?) := by
  rw [runJournal, List.find?_append, find?_noted, Option.none_or, List.find?_append,
    find?_ended find?_noted, Option.or_none]
  exact eval_cut htime hcancel

theorem execute_of_find?_none (htime : setup.limits.timeMs = none)
    (hcancel : ∀ step events, setup.cancelled step events = false)
    (h : (runJournal setup fuel e env).find? (stopsAt setup n) = none) :
    execute (setup.cancelledAt n) fuel e env = execute setup fuel e env := by
  rcases hr : (eval setup fuel 0 e env.orEmpty).runFrom
    (Usage.note {} setup .runStart e.span.known?) with ⟨r, v⟩
  have hcut := run_cut (n := n) htime hcancel fuel e env
  rw [h] at hcut
  rw [execute_eq hr, execute_eq (hcut.trans hr)]
  rfl

theorem execute_of_find?_some (htime : setup.limits.timeMs = none)
    (hcancel : ∀ step events, setup.cancelled step events = false)
    (h : (runJournal setup fuel e env).find? (stopsAt setup n) = some x) :
    execute (setup.cancelledAt n) fuel e env = ⟨.error .cancelled,
      x.usage.addEvents (x.usage.openCalls.map Event.closing ++
        if setup.tracing then [⟨.runEnd, setup.runId, e.span.known?⟩] else [])⟩ := by
  have hcut := run_cut (n := n) htime hcancel fuel e env
  rw [h] at hcut
  obtain ⟨calls, hr, hcalls⟩ := hcut
  have hstart : (Usage.note {} setup .runStart e.span.known?).openCalls = [] := by
    rw [Usage.openCalls_note]
    split <;> rfl
  rw [hstart, List.append_nil] at hcalls
  rw [execute_eq hr, hcalls]
  exact congrArg (Outcome.mk _) (Usage.addEvents_note _ _)

end

-- ---------------------------------------------------------------------------
-- The moment of the cut
-- ---------------------------------------------------------------------------

namespace Orderly

variable {setup : Setup} {l : List Moment} {n s k : Nat} {u v : Usage}

theorem steps_inj (h : Orderly u l v) (hm : .entered depth a scope w ∈ l)
    (hm' : .entered depth' a' scope' w' ∈ l) (hsteps : w.steps = w'.steps) :
    Moment.entered depth a scope w = .entered depth' a' scope' w' := by
  rcases h.cases hm hm' with heq | ⟨_, hlt⟩ | ⟨_, hlt⟩
  · exact heq
  · exact absurd hsteps (Nat.ne_of_lt hlt)
  · exact absurd hsteps.symm (Nat.ne_of_lt hlt)

theorem reported_iff (h : Orderly u l v) (hm : .reported x ∈ l)
    (hm' : .entered depth a scope w ∈ l) : x.events.size ≤ w.events.size ↔ x.steps < w.steps := by
  rcases h.cases hm hm' with heq | ⟨hle, hlt⟩ | ⟨hle, hlt⟩
  · cases heq
  · exact iff_of_true (Usage.le_events hle).length_le hlt
  · exact iff_of_false (Nat.not_le.2 hlt) (Nat.not_lt.2 (Usage.le_steps hle))

theorem find?_stopsAt (h : Orderly u l v)
    (hdue : ∀ depth a scope w, .entered depth a scope w ∈ l → (n ≤ w.events.size ↔ s < w.steps))
    (hk : IsLeast {j | s < j ∧ j % 1024 = 1} k) (hm : .entered depth a scope w ∈ l)
    (hsteps : w.steps = k) (hhalt : halt? setup depth w = none) :
    l.find? (stopsAt setup n) = some (.entered depth a scope w) := by
  obtain ⟨⟨hlt, hcheck⟩, hleast⟩ := hk
  have hstops : stopsAt setup n (.entered depth a scope w) :=
    stopsAt_iff.2 ⟨depth, a, scope, w, rfl, hsteps ▸ hcheck,
      (hdue _ _ _ _ hm).2 (hsteps ▸ hlt), hhalt⟩
  cases hfind : l.find? (stopsAt setup n) with
  | none => exact absurd hstops (List.find?_eq_none.1 hfind _ hm)
  | some m =>
    obtain ⟨hstops', before, after, rfl, hbefore⟩ := List.find?_eq_some_iff_append.1 hfind
    obtain ⟨depth', a', scope', w', rfl, hcheck', hn', _⟩ := stopsAt_iff.1 hstops'
    have hm' : Moment.entered depth' a' scope' w' ∈ before ++
      .entered depth' a' scope' w' :: after := by simp
    have hle : k ≤ w'.steps := hleast ⟨(hdue _ _ _ _ hm').1 hn', hcheck'⟩
    rcases List.mem_append.1 hm with hm | hm
    · have := hbefore _ hm
      simp [hstops] at this
    · rcases List.mem_cons.1 hm with heq | hm
      · rw [heq]
      · -- It would come after the first one, at a step before it.
        have hafter := (List.pairwise_cons.1 (List.pairwise_append.1 h.sorted).2.1).1 _ hm
        have : w'.steps < w.steps := hafter.2
        omega

theorem not_stopsAt (h : Orderly u l v) (hsettled : ∀ m ∈ l, m.Settles setup r v)
    (hdue : ∀ depth a scope w, .entered depth a scope w ∈ l → (n ≤ w.events.size ↔ s < w.steps))
    (hk : IsLeast {j | s < j ∧ j % 1024 = 1} k)
    (hnone : ∀ depth a scope w, .entered depth a scope w ∈ l → w.steps = k →
      halt? setup depth w ≠ none)
    (hu : u.steps = 0) (hm : m ∈ l) : ¬ stopsAt setup n m := by
  intro hstops
  obtain ⟨⟨hlt, hcheck⟩, hleast⟩ := hk
  obtain ⟨depth, a, scope, w, rfl, hcheck', hn, hhalt⟩ := stopsAt_iff.1 hstops
  have hle : k ≤ w.steps := hleast ⟨(hdue _ _ _ _ hm).1 hn, hcheck'⟩
  have hend : w.steps ≤ v.steps := Usage.le_steps (h.before _ hm)
  obtain ⟨depth', a', scope', w', hm', hsteps⟩ := h.steps k (by omega) (by omega)
  obtain ⟨halt, hsome⟩ := Option.ne_none_iff_exists'.1 (hnone _ _ _ _ hm' hsteps)
  -- The run ends where a step is refused, so that the two moments are the same step.
  obtain ⟨_, hlast⟩ := hsettled _ hm' halt hsome
  cases h.steps_inj hm hm' (by omega)
  rw [hhalt] at hsome
  cases hsome

end Orderly

end Run

/-- The `n`-th event of a run is reported after `s` steps; before the run there are none of both. -/
def ReportedAt (setup : Setup) (e : Expr) (env : Env) (n s : Nat) : Prop :=
  n = 0 ∧ s = 0 ∨ ∃ u, Passes setup e env (.reported u) ∧ u.events.size = n ∧ u.steps = s

theorem ReportedAt.due (h : ReportedAt setup e env n s) (fuel : Nat) :
    ∃ fuel' ≥ fuel, ∀ depth a scope w, .entered depth a scope w ∈ Run.runJournal setup fuel' e env →
      (n ≤ w.events.size ↔ s < w.steps) := by
  rcases h with ⟨rfl, rfl⟩ | ⟨u, hu, rfl, rfl⟩
  · refine ⟨fuel, Nat.le_refl _, fun depth a scope w hw => iff_of_true (Nat.zero_le _) ?_⟩
    exact (((Run.recorded_orderly setup).run fuel e env).after _ hw).2
  · obtain ⟨fuel', hle, hu⟩ := hu.mem fuel
    exact ⟨fuel', hle, fun _ _ _ _ =>
      ((Run.recorded_orderly setup).run fuel' e env).reported_iff hu⟩

/-- A run that is cancelled at its `n`-th event, when `s` steps have been counted, goes on as before
to the first check point past that. If it takes a step there, it fails at that step, closes the
calls that are open and ends. If it comes to its end before, or a limit refuses that step, then
nothing has changed. -/
theorem cancellation_waits_for_check_point (setup : Setup) (e : Expr) (env : Env) (n s k : Nat)
    (htime : setup.limits.timeMs = none)
    (hcancel : ∀ step events, setup.cancelled step events = false)
    (hs : ReportedAt setup e env n s) (hk : IsLeast {j | s < j ∧ j % 1024 = 1} k) :
    (∀ depth a scope u, Passes setup e env (.entered depth a scope u) → u.steps = k →
      setup.limits.Allows depth k →
      ∃ o, Ends (setup.cancelledAt n) e env o ∧ o.result = .error .cancelled ∧ o.usage.steps = k ∧
        o.usage.maxDepth = u.maxDepth ∧
        o.usage.events.toList = u.events.toList ++ ((openCalls u.events.toList).map Event.closing ++
          if setup.tracing then [⟨.runEnd, setup.runId, e.span.known?⟩] else []) ∧
        ∀ o', Ends setup e env o' → u.events.toList <+: o'.usage.events.toList) ∧
    ((∀ depth a scope u, Passes setup e env (.entered depth a scope u) → u.steps = k →
      ¬ setup.limits.Allows depth k) →
      (∀ o, Ends (setup.cancelledAt n) e env o ↔ Ends setup e env o) ∧
      (Diverges (setup.cancelledAt n) e env ↔ Diverges setup e env)) := by
  constructor
  · intro depth a scope u hentered hsteps hallows
    have ⟨fuel, hm⟩ := hentered
    obtain ⟨fuel', hle, hdue⟩ := hs.due fuel
    have hhalt : Run.halt? setup depth u = none :=
      (Run.halt?_eq_none_iff htime hcancel).2 (hsteps.symm ▸ hallows)
    have hfind := ((Run.recorded_orderly setup).run fuel' e env).find?_stopsAt hdue hk
      (Run.runJournal_subset hle hm) hsteps hhalt
    refine ⟨_, ⟨?_, fuel', Run.execute_of_find?_some htime hcancel hfind⟩, rfl, hsteps, rfl, ?_, ?_⟩
    · exact nofun
    · simp [Usage.addEvents, Run.Moment.usage, Usage.openCalls]
    · exact fun o' ho' => Usage.le_events (ho'.usage_le hentered)
  · intro hnone
    have hsame : ∀ fuel, execute (setup.cancelledAt n) fuel e env = execute setup fuel e env := by
      intro fuel
      obtain ⟨fuel', hle, hdue⟩ := hs.due fuel
      refine Run.execute_of_find?_none htime hcancel (List.find?_eq_none.2 fun m hm => ?_)
      refine ((Run.recorded_orderly setup).run fuel' e env).not_stopsAt
        ((Run.recorded_settled setup).run fuel' e env) hdue hk ?_ rfl (Run.runJournal_subset hle hm)
      intro depth a scope u hm' hsteps hhalt
      exact hnone depth a scope u ⟨fuel', hm'⟩ hsteps
        (hsteps ▸ (Run.halt?_eq_none_iff htime hcancel).1 hhalt)
    simp only [Ends, Diverges, hsame, implies_true, and_self]

/-- `letrec f(x) = (f x) in (f 0)` goes on for ever. Cancelled at its second event, the report of
the recursive binding at its first step, it is stopped at step 1025. -/
theorem cancellation_waits_for_check_point_loop :
    let e : Expr := .letRec default "f" "x" (.call default (.var default "f") (.var default "x"))
      (.call default (.var default "f") (.const default 0))
    let setup : Setup := { tracing := true, runId := "r" }
    ReportedAt setup e .empty 2 1 ∧ IsLeast {j | 1 < j ∧ j % 1024 = 1} 1025 ∧
      ∃ depth a scope u o, Passes setup e .empty (.entered depth a scope u) ∧ u.steps = 1025 ∧
        Ends (setup.cancelledAt 2) e .empty o ∧ o.result = .error .cancelled ∧
          o.usage.steps = 1025 ∧
        o.usage.events.toList =
          u.events.toList ++ ((openCalls u.events.toList).map Event.closing ++
            [⟨.runEnd, "r", none⟩]) := by
  intro e setup
  have hs : ReportedAt setup e .empty 2 1 :=
    .inr ⟨_, ⟨1, List.mem_of_getElem? (i := 2) rfl⟩, rfl, rfl⟩
  have hk : IsLeast {j | 1 < j ∧ j % 1024 = 1} 1025 :=
    ⟨⟨by decide, by decide⟩, fun j ⟨hlt, hcheck⟩ => by omega⟩
  have hfar : 1025 ≤ (execute setup 345 e .empty).usage.steps := by decide +kernel
  obtain ⟨depth, a, scope, u, hm, hsteps⟩ :=
    ((Run.recorded_orderly setup).run 345 e .empty).steps 1025 (by decide) hfar
  have hentered : Passes setup e .empty (.entered depth a scope u) := ⟨345, hm⟩
  obtain ⟨o, hends, hresult, hcount, _, hevents, _⟩ :=
    (cancellation_waits_for_check_point setup e .empty 2 1 1025 rfl (fun _ _ => rfl) hs hk).1
      depth a scope u hentered hsteps ⟨nofun, nofun⟩
  exact ⟨hs, hk, depth, a, scope, u, o, hentered, hsteps, hends, hresult, hcount, hevents⟩

end Letrec
