import Letrec.Proofs.Evaluation.Budget

/-!
# The shape of a trace

Between its first and its last event a run reports recursive bindings and calls, the calls nested as
they are made, and at most one limit that was passed. `Nested` is the grammar of that. What an
evaluation adds to the events is shown along its plan: an evaluation that ends has closed every call
that it opened, whatever it ended in, since the last event of a call is reported after a failure as
well.
-/

namespace Letrec

def Happening.isCallEnd : Happening → Bool
  | .callEnd .. => true
  | _ => false

namespace Trace

variable {id : String}

/-- The events within a call at depth `low`, zero outside of all calls, in a run that reaches
depth `high`. -/
inductive Nested (id : String) (high : Nat) : (low : Nat) → List Event → Prop
  | nil : Nested id high low []
  | bound (rest : Nested id high low evs) : Nested id high low (⟨.letrecBind f x, id, span⟩ :: evs)
  | exceeded (rest : Nested id high low evs) :
      Nested id high low (⟨.budgetExceeded limit, id, span⟩ :: evs)
  | call (hlow : low < depth) (hhigh : depth < high) (body : Nested id high depth between)
      (rest : Nested id high low evs) :
      Nested id high low (⟨.callStart x depth, id, span⟩ ::
        (between ++ ⟨.callEnd x depth, id, span⟩ :: evs))

namespace Nested

theorem mono (h : Nested id high low evs) (hlow : low' ≤ low) (hhigh : high ≤ high') :
    Nested id high' low' evs := by
  induction h generalizing low' with
  | nil => exact .nil
  | bound _ ih => exact .bound (ih hlow)
  | exceeded _ ih => exact .exceeded (ih hlow)
  | call hlt hdeep _ _ ihbody ihrest =>
    exact .call (Nat.lt_of_le_of_lt hlow hlt) (Nat.lt_of_lt_of_le hdeep hhigh)
      (ihbody (Nat.le_refl _)) (ihrest hlow)

theorem append (h : Nested id high low evs) (h' : Nested id high low evs') :
    Nested id high low (evs ++ evs') := by
  induction h with
  | nil => exact h'
  | bound _ ih => exact .bound (ih h')
  | exceeded _ ih => exact .exceeded (ih h')
  | call hlow hhigh body _ _ ihrest =>
    simp only [List.cons_append, List.append_assoc]
    exact .call hlow hhigh body (ihrest h')

end Nested

/-- A limit that was passed is reported once, with the place of the failure, and after it only calls
end. No other result comes with such a report. -/
structure Stopped (id : String) (r : Except Failure Value) (evs : List Event) : Prop where
  once : ∀ limit bound span, r = .error (.exceeded limit bound span) →
    ∃ before after, evs = before ++ ⟨.budgetExceeded limit, id, span⟩ :: after ∧
      (∀ ev ∈ before, ¬ ev.what.isExceeded) ∧ ∀ ev ∈ after, ev.what.isCallEnd
  never : (∀ limit bound span, r ≠ .error (.exceeded limit bound span)) →
    ∀ ev ∈ evs, ¬ ev.what.isExceeded

namespace Stopped

theorem none (hr : ∀ limit bound span, r ≠ .error (.exceeded limit bound span)) :
    Stopped id r [] where
  once limit bound span h := absurd h (hr limit bound span)
  never _ := nofun

theorem append (hevs : ∀ ev ∈ evs, ¬ ev.what.isExceeded) (h : Stopped id r evs') :
    Stopped id r (evs ++ evs') where
  once limit bound span hr := by
    obtain ⟨before, after, rfl, hbefore, hafter⟩ := h.once limit bound span hr
    exact ⟨evs ++ before, after, by simp, List.forall_mem_append.mpr ⟨hevs, hbefore⟩, hafter⟩
  never hr := List.forall_mem_append.mpr ⟨hevs, h.never hr⟩

theorem cons (hev : ¬ ev.what.isExceeded) (h : Stopped id r evs) : Stopped id r (ev :: evs) :=
  append (List.forall_mem_singleton.mpr hev) h

theorem callEnd (h : Stopped id r evs) : Stopped id r (evs ++ [⟨.callEnd x depth, id', span⟩]) where
  once limit bound place hr := by
    obtain ⟨before, after, rfl, hbefore, hafter⟩ := h.once limit bound place hr
    refine ⟨before, after ++ [⟨.callEnd x depth, id', span⟩], by simp, hbefore, ?_⟩
    exact List.forall_mem_append.mpr ⟨hafter, List.forall_mem_singleton.mpr rfl⟩
  never hr :=
    List.forall_mem_append.mpr ⟨h.never hr,
      List.forall_mem_singleton.mpr (by simp [Happening.isExceeded])⟩

end Stopped

end Trace

open Trace (Nested Stopped)

namespace Run

-- ---------------------------------------------------------------------------
-- What an action adds to the events
-- ---------------------------------------------------------------------------

/-- From `u` to `v` the events `evs` were reported, by an action below depth `low` that ended
in `r`. -/
structure Adds (id : String) (low : Nat) (u : Usage) (r : Except Failure Value) (v : Usage)
    (evs : List Event) : Prop where
  events : v.events.toList = u.events.toList ++ evs
  deep : low < v.maxDepth
  grows : u.maxDepth ≤ v.maxDepth
  nested : Nested id v.maxDepth low evs
  stopped : Stopped id r evs

def Traced (setup : Setup) (low : Nat) (m : Run Value) (u : Usage) : Prop :=
  ∀ r v, m.runFrom u = (r, v) → r ≠ .error .outOfFuel → ∃ evs, Adds setup.runId low u r v evs

variable {setup : Setup} {id : String} {u v w : Usage} {low depth : Nat}

theorem note_events_of_tracing (h : setup.tracing) (u : Usage) :
    (u.note setup what span).events.toList = u.events.toList ++ [⟨what, setup.runId, span⟩] := by
  simp [Usage.note_events, h]

theorem Adds.of_eq (hu : low < u.maxDepth)
    (hr : ∀ limit bound span, r ≠ .error (.exceeded limit bound span)) : Adds id low u r u [] :=
  ⟨by simp, hu, Nat.le_refl _, .nil, .none hr⟩

theorem Adds.mono (h : Adds id low u r v evs) (hlow : low' ≤ low) : Adds id low' u r v evs :=
  { h with
    deep := Nat.lt_of_le_of_lt hlow h.deep
    nested := h.nested.mono hlow (Nat.le_refl _) }

theorem Adds.trans {a : Value} (h : Adds id low u (.ok a) v evs) (h' : Adds id low v r w evs') :
    Adds id low u r w (evs ++ evs') where
  events := by rw [h'.events, h.events, List.append_assoc]
  deep := h'.deep
  grows := Nat.le_trans h.grows h'.grows
  nested := (h.nested.mono (Nat.le_refl _) h'.grows).append h'.nested
  stopped := .append (h.stopped.never nofun) h'.stopped

theorem Adds.bound (htracing : setup.tracing)
    (h : Adds setup.runId low (u.note setup (.letrecBind f x) span) r v evs) :
    Adds setup.runId low u r v (⟨.letrecBind f x, setup.runId, span⟩ :: evs) where
  events := by simp [h.events, note_events_of_tracing htracing]
  deep := h.deep
  grows := by simpa using h.grows
  nested := .bound h.nested
  stopped := .cons (by simp [Happening.isExceeded]) h.stopped

theorem Adds.call (htracing : setup.tracing)
    (h : Adds setup.runId (low + 1) (u.note setup (.callStart x (low + 1)) span) r v evs) :
    Adds setup.runId low u r (v.note setup (.callEnd x (low + 1)) span)
      (⟨.callStart x (low + 1), setup.runId, span⟩ ::
        (evs ++ [⟨.callEnd x (low + 1), setup.runId, span⟩])) where
  events := by simp [h.events, note_events_of_tracing htracing]
  deep := by simpa using Nat.lt_of_succ_lt h.deep
  grows := by simpa using h.grows
  nested := by simpa using .call (Nat.lt_succ_self low) h.deep h.nested .nil
  stopped := .cons (by simp [Happening.isExceeded]) h.stopped.callEnd

-- ---------------------------------------------------------------------------
-- Plans and evaluations
-- ---------------------------------------------------------------------------

theorem carryOut_traced (htracing : setup.tracing)
    (hev : ∀ e env u, Traced setup (depth + 1) (ev e env) u) (hp : Plan.AtMost n p)
    (hu : depth < u.maxDepth) : Traced setup depth (p.carryOut setup (depth + 1) ev) u := by
  induction hp generalizing u with
  | value =>
    intro r v hr _
    rw [Plan.carryOut, runFrom_conclude] at hr
    cases hr
    exact ⟨[], .of_eq hu (by simp)⟩
  | @failure n f hf =>
    intro r v hr _
    rw [Plan.carryOut, runFrom_conclude] at hr
    cases hr
    refine ⟨[], .of_eq hu ?_⟩
    rintro limit bound span ⟨⟩
    exact hf
  | bound h ih =>
    intro r v hr hne
    rw [Plan.carryOut, runFrom_bind_ok runFrom_emit] at hr
    obtain ⟨evs, hadds⟩ := ih (by simpa using hu) r v hr hne
    exact ⟨_, hadds.bound htracing⟩
  | @operand n rest e env h ih =>
    intro r v hr hne
    rcases hm : (ev e env).runFrom u with ⟨f | a, w⟩
    · rw [Plan.carryOut, runFrom_bind_error hm] at hr
      cases hr
      obtain ⟨evs, hadds⟩ := hev e env u _ _ hm hne
      exact ⟨evs, hadds.mono (Nat.le_succ _)⟩
    · rw [Plan.carryOut, runFrom_bind_ok hm] at hr
      obtain ⟨evs, hadds⟩ := hev e env u _ _ hm (by simp)
      have hfirst := hadds.mono (Nat.le_succ depth)
      obtain ⟨evs', hrest⟩ := ih a hfirst.deep r v hr hne
      exact ⟨_, hfirst.trans hrest⟩
  | @body n param span e env =>
    intro r v hr hne
    rcases hm : (ev e env).runFrom (u.note setup (.callStart param (depth + 1)) span) with ⟨r', w⟩
    rw [Plan.carryOut, runFrom_call hm] at hr
    obtain ⟨rfl, rfl⟩ := Prod.mk.inj hr
    obtain ⟨evs, hadds⟩ := hev e env _ _ _ hm hne
    rcases w.close_cases r' with ⟨hout, _⟩ | ⟨_, hclose⟩
    · exact absurd hout hne
    · rw [hclose]
      exact ⟨_, hadds.call htracing⟩

theorem Halt.traced (halt : Halt) (htracing : setup.tracing) (hu : low < u.maxDepth) :
    ∃ evs, Adds setup.runId low u (.error (halt.failure span)) (halt.note setup span u) evs := by
  cases halt with
  | cancelled => exact ⟨[], .of_eq hu nofun⟩
  | exceeded limit bound =>
    refine ⟨[⟨.budgetExceeded limit, setup.runId, span⟩], ?_, ?_, ?_, .exceeded .nil, ?_, ?_⟩
    · exact note_events_of_tracing htracing u
    · simpa using hu
    · simp
    · rintro _ _ _ ⟨⟩
      exact ⟨[], [], rfl, nofun, nofun⟩
    · intro hr
      exact absurd rfl (hr limit bound span)

theorem eval_traced (htracing : setup.tracing) :
    Traced setup depth (eval setup fuel depth e env) u := by
  induction fuel generalizing depth e env u with
  | zero =>
    intro r v hr hne
    cases hr
    exact absurd rfl hne
  | succ fuel ih =>
    intro r v hr hne
    have hu : depth < (u.count (depth + 1)).maxDepth := Nat.le_max_right _ _
    have hcount {evs} (h : Adds setup.runId depth (u.count (depth + 1)) r v evs) :
        Adds setup.runId depth u r v evs :=
      { h with
        grows := Nat.le_trans (Nat.le_max_left _ _) h.grows }
    rw [runFrom_eval_succ] at hr
    cases hhalt : halt? setup (depth + 1) (u.count (depth + 1)) with
    | some halt =>
      rw [hhalt] at hr
      cases hr
      obtain ⟨evs, hadds⟩ := halt.traced htracing hu
      exact ⟨evs, hcount hadds⟩
    | none =>
      rw [hhalt] at hr
      obtain ⟨evs, hadds⟩ := carryOut_traced htracing (fun _ _ _ => ih) plan_atMost hu r v hr hne
      exact ⟨evs, hcount hadds⟩

end Run

/-- The trace of a run that ends has the shape that it should have, whatever the run ended in. -/
theorem traces_are_nested (setup : Setup) (e : Expr) (env : Env) (o : Outcome)
    (htracing : setup.tracing = true) (h : Ends setup e env o) :
    ∃ evs, o.usage.events.toList = ⟨.runStart, setup.runId, e.span.known?⟩ ::
        (evs ++ [⟨.runEnd, setup.runId, e.span.known?⟩]) ∧
      Nested setup.runId o.usage.maxDepth 0 evs ∧ Stopped setup.runId o.result evs := by
  obtain ⟨hne, fuel, rfl⟩ := h
  rcases hr : (Run.eval setup fuel 0 e env.orEmpty).runFrom
    (Usage.note {} setup .runStart e.span.known?) with ⟨r, u⟩
  rw [Run.execute_eq hr] at hne ⊢
  obtain ⟨evs, hadds⟩ := Run.eval_traced htracing r u hr hne
  refine ⟨evs, ?_, by simpa using hadds.nested, hadds.stopped⟩
  rcases u.close_cases r with ⟨hout, _⟩ | ⟨_, hclose⟩
  · exact absurd hout hne
  · rw [hclose]
    simp [Run.note_events_of_tracing htracing, hadds.events]

/-- `letrec f(x) = (f x) in (f 0)`, stopped by a limit on the depth inside of two calls. -/
theorem traces_are_nested_loop :
    let e : Expr := .letRec default "f" "x" (.call default (.var default "f") (.var default "x"))
      (.call default (.var default "f") (.const default 0))
    let setup : Setup := { limits := { maxDepth := some 4 }, tracing := true, runId := "r" }
    let o := executeWithin setup e .empty
    let event (what : Happening) : Event := ⟨what, "r", none⟩
    let evs := [event (.letrecBind "f" "x"), event (.callStart "x" 2), event (.callStart "x" 3),
      event (.budgetExceeded .depth), event (.callEnd "x" 3), event (.callEnd "x" 2)]
    Ends setup e .empty o ∧ o.usage.events.toList = event .runStart :: (evs ++ [event .runEnd]) ∧
      o.usage.maxDepth = 5 ∧ Nested "r" 5 0 evs ∧
      o.result = .error (.exceeded .depth 4 none) ∧ Stopped "r" o.result evs := by
  intro e setup o event evs
  have hends : Ends setup e .empty o := ⟨nofun, _, rfl⟩
  have hevents : o.usage.events.toList = event .runStart :: (evs ++ [event .runEnd]) := rfl
  obtain ⟨evs', hevents', hnested, hstopped⟩ := traces_are_nested setup e .empty o rfl hends
  obtain rfl : evs' = evs :=
    List.append_cancel_right (List.cons.inj (hevents'.symm.trans hevents)).2
  exact ⟨hends, hevents, rfl, hnested, rfl, hstopped⟩

end Letrec
