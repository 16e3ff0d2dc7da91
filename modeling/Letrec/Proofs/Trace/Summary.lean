import Letrec.Command
import Letrec.Proofs.Evaluation.Trace
import Letrec.Proofs.Trace.Lines
import Letrec.Trace.Summary
import Mathlib.Algebra.GroupWithZero.Nat
import Mathlib.Algebra.Order.Group.Nat
import Mathlib.Algebra.Order.Group.Int

/-!
# Summaries are faithful

A summary is taken of the lines of a trace file, one after the other; `Summary.Tells` is what it
says of the events so far. With the shape that the events of a run have this gives what the summary
says of the run.
-/

namespace Letrec

namespace Happening

def isCallStart : Happening → Bool
  | .callStart .. => true
  | _ => false

def isCallOf (param : String) : Happening → Bool
  | .callStart x _ => x == param
  | _ => false

def isLetrecBind : Happening → Bool
  | .letrecBind .. => true
  | _ => false

def callDepth? : Happening → Option Nat
  | .callStart _ depth => some depth
  | _ => none

end Happening

namespace Trace

def callDepths (evs : List Event) : List Nat := evs.filterMap (·.what.callDepth?)

theorem callDepths_append (evs evs' : List Event) :
    callDepths (evs ++ evs') = callDepths evs ++ callDepths evs' :=
  List.filterMap_append

theorem callDepths_cons (e : Event) (evs : List Event) :
    callDepths (e :: evs) = e.what.callDepth?.toList ++ callDepths evs := by
  rw [callDepths, List.filterMap_cons]
  cases e.what.callDepth? <;> rfl

theorem length_callDepths (evs : List Event) :
    (callDepths evs).length = evs.countP (·.what.isCallStart) := by
  induction evs with
  | nil => rfl
  | cons e evs ih =>
    rw [callDepths_cons, List.length_append, ih, List.countP_cons, Nat.add_comm]
    cases e.what <;> rfl

theorem callDepths_singleton (e : Event) : callDepths [e] = e.what.callDepth?.toList :=
  (callDepths_cons e []).trans (List.append_nil _)

namespace Summary

-- ---------------------------------------------------------------------------
-- One event after the other
-- ---------------------------------------------------------------------------

/-- What a summary says of the events that it was taken of. Depths are read as 64-bit integers. -/
structure Tells (s : Summary) (evs : List Event) : Prop where
  events : s.events = evs.length
  runId : ∀ id, (∀ ev ∈ evs, ev.runId = id) → s.runId = if evs = [] then "" else id
  calls : s.calls = evs.countP (·.what.isCallStart)
  byParam : ∀ p, (s.callsByParam.lookup p).getD 0 = evs.countP (·.what.isCallOf p)
  total : (s.callsByParam.map Prod.snd).sum = s.calls
  binds : s.letrecBinds = evs.countP (·.what.isLetrecBind)
  depth : s.maxCallDepth = (((callDepths evs).filter (· < 2 ^ 63)).foldl max 0 : Nat)
  exceeded : s.budgetExceeded = evs.countP (·.what.isExceeded)

theorem lookup_count (name p : String) (counts : List (String × Nat)) :
    ((count name counts).lookup p).getD 0 =
      (counts.lookup p).getD 0 + if name == p then 1 else 0 := by
  induction counts with
  | nil =>
    rw [count, List.lookup_cons, Bool.beq_comm]
    cases name == p <;> rfl
  | cons entry counts ih =>
    obtain ⟨k, n⟩ := entry
    rw [count]
    by_cases hname : k = name
    · subst hname
      rw [if_pos rfl, List.lookup_cons, List.lookup_cons, Bool.beq_comm]
      cases k == p <;> rfl
    · rw [if_neg hname, List.lookup_cons, List.lookup_cons]
      cases hp : p == k with
      | false => exact ih
      | true =>
        have hne : (name == p) = false := by
          rw [beq_iff_eq.mp hp]
          exact beq_eq_false_iff_ne.mpr (Ne.symm hname)
        rw [hne]
        rfl

theorem sum_count (name : String) (counts : List (String × Nat)) :
    ((count name counts).map Prod.snd).sum = (counts.map Prod.snd).sum + 1 := by
  induction counts with
  | nil => rfl
  | cons entry counts ih =>
    obtain ⟨k, n⟩ := entry
    rw [count]
    split
    · simp; omega
    · simp [ih]; omega

theorem int64?_toString (n : Nat) :
    (match Number.int64? (toString n) with
    | some m => m.toInt
    | none => 0) = if n < 2 ^ 63 then (n : Int) else 0 := by
  have hnumeral : Number.Numeral (toString n).toList n := .unsigned (Number.digits_repr n)
  cases hread : Number.int64? (toString n) with
  | some m =>
    have hm := Number.signed?_eq_some.mpr (Number.int64?_eq_some.mp hread)
    rw [Number.signed?_eq_some.mpr hnumeral] at hm
    have hval : (n : Int) = m.toInt := Option.some.inj hm
    have hlt := m.toInt_lt
    rw [if_pos (by omega), hval]
  | none =>
    by_cases hlt : n < 2 ^ 63
    · have hval : (Int64.ofInt n).toInt = n := Int64.toInt_ofInt_of_le (by omega) (by omega)
      rw [← hval] at hnumeral
      rw [Number.int64?_eq_some.mpr hnumeral] at hread
      cases hread
    · rw [if_neg hlt]

theorem add_events (s : Summary) (l : Line) : (s.add l).events = s.events + 1 := by
  unfold Summary.add
  extract_lets counted
  split <;> rfl

theorem events_foldl (s : Summary) (lines : List Line) :
    (lines.foldl Summary.add s).events = s.events + lines.length := by
  induction lines generalizing s with
  | nil => rfl
  | cons l lines ih =>
    rw [List.foldl_cons, ih, add_events, List.length_cons]
    omega

theorem events_ofLines (lines : List Line) : (ofLines lines).events = lines.length :=
  (events_foldl {} lines).trans (Nat.zero_add _)

section
variable (s : Summary) (time : String) (e : Event)

theorem add_runId :
    (s.add (.ofEvent time e)).runId = if s.runId = "" then e.runId else s.runId := by
  obtain ⟨what, runId, span⟩ := e
  cases what <;> rfl

theorem add_calls :
    (s.add (.ofEvent time e)).calls = s.calls + if e.what.isCallStart then 1 else 0 := by
  obtain ⟨what, runId, span⟩ := e
  cases what <;> rfl

theorem add_callsByParam : (s.add (.ofEvent time e)).callsByParam =
    match e.what with
    | .callStart param _ => count param s.callsByParam
    | _ => s.callsByParam := by
  obtain ⟨what, runId, span⟩ := e
  cases what <;> rfl

theorem add_letrecBinds : (s.add (.ofEvent time e)).letrecBinds =
    s.letrecBinds + if e.what.isLetrecBind then 1 else 0 := by
  obtain ⟨what, runId, span⟩ := e
  cases what <;> rfl

theorem add_budgetExceeded : (s.add (.ofEvent time e)).budgetExceeded =
    s.budgetExceeded + if e.what.isExceeded then 1 else 0 := by
  obtain ⟨what, runId, span⟩ := e
  cases what <;> rfl

theorem add_maxCallDepth : (s.add (.ofEvent time e)).maxCallDepth =
    match e.what with
    | .callStart _ depth => max (if depth < 2 ^ 63 then (depth : Int) else 0) s.maxCallDepth
    | _ => s.maxCallDepth := by
  obtain ⟨what, runId, span⟩ := e
  cases what with
  | callStart param depth =>
    simp only [← int64?_toString depth]
    rfl
  | _ => rfl

end

theorem tells_nil : Tells {} [] := by
  constructor <;> simp [callDepths]

theorem Tells.add (h : Tells s evs) (time : String) (e : Event) :
    Tells (s.add (.ofEvent time e)) (evs ++ [e]) where
  events := by rw [add_events, h.events, List.length_append, List.length_singleton]
  runId id hid := by
    rw [List.forall_mem_append, List.forall_mem_singleton] at hid
    have hne : evs ++ [e] ≠ [] := by simp
    rw [add_runId, h.runId id hid.1, hid.2, if_neg hne]
    by_cases hnil : evs = [] <;> by_cases hempty : id = "" <;> simp [hnil, hempty]
  calls := by rw [add_calls, h.calls, List.countP_append, List.countP_singleton]
  byParam p := by
    rw [add_callsByParam, List.countP_append, List.countP_singleton, ← h.byParam]
    cases e.what <;> simp [Happening.isCallOf, lookup_count]
  total := by
    rw [add_callsByParam, add_calls, ← h.total]
    cases e.what <;> simp [Happening.isCallStart, sum_count]
  binds := by rw [add_letrecBinds, h.binds, List.countP_append, List.countP_singleton]
  depth := by
    rw [add_maxCallDepth, h.depth, callDepths_append, callDepths_singleton, List.filter_append,
      List.foldl_append]
    cases e.what with
    | callStart param depth =>
      rw [Happening.callDepth?, Option.toList_some, List.filter_singleton]
      by_cases hlt : depth < 2 ^ 63
      · simp only [hlt, decide_true, cond_true, List.foldl_cons, List.foldl_nil, if_true]
        omega
      · simp only [hlt, decide_false, cond_false, List.foldl_nil, if_false]
        omega
    | _ => rfl
  exceeded := by rw [add_budgetExceeded, h.exceeded, List.countP_append, List.countP_singleton]

theorem Tells.foldl (h : Tells s evs) (stamped : List (String × Event)) :
    Tells ((stamped.map fun p => .ofEvent p.1 p.2).foldl Summary.add s)
      (evs ++ stamped.map Prod.snd) := by
  induction stamped generalizing s evs with
  | nil => simpa using h
  | cons p stamped ih => simpa using ih (h.add p.1 p.2)

theorem tells_ofLines (stamped : List (String × Event)) :
    Tells (ofLines (stamped.map fun p => .ofEvent p.1 p.2)) (stamped.map Prod.snd) :=
  tells_nil.foldl stamped

end Summary

-- ---------------------------------------------------------------------------
-- The events of a run
-- ---------------------------------------------------------------------------

variable {id : String} {o : Outcome}

theorem Nested.balanced (h : Nested id high low evs) :
    evs.countP (·.what.isCallStart) = evs.countP (·.what.isCallEnd) := by
  induction h with
  | nil => rfl
  | bound _ ih => simpa [Happening.isCallStart, Happening.isCallEnd] using ih
  | exceeded _ ih => simpa [Happening.isCallStart, Happening.isCallEnd] using ih
  | call _ _ _ _ ihbody ihrest =>
    simp only [Happening.isCallStart, Happening.isCallEnd] at ihbody ihrest
    simp [Happening.isCallStart, Happening.isCallEnd, ihbody, ihrest]
    omega

theorem Nested.runId_eq (h : Nested id high low evs) : ∀ ev ∈ evs, ev.runId = id := by
  induction h with
  | nil => nofun
  | bound _ ih | exceeded _ ih => exact List.forall_mem_cons.mpr ⟨rfl, ih⟩
  | call _ _ _ _ ihbody ihrest =>
    refine List.forall_mem_cons.mpr ⟨rfl, List.forall_mem_append.mpr ⟨ihbody, ?_⟩⟩
    exact List.forall_mem_cons.mpr ⟨rfl, ihrest⟩

theorem Nested.callDepths_lt (h : Nested id high low evs) :
    ∀ depth ∈ callDepths evs, depth < high := by
  induction h with
  | nil => nofun
  | bound _ ih | exceeded _ ih => exact ih
  | call _ hhigh _ _ ihbody ihrest =>
    rw [callDepths_cons, callDepths_append, callDepths_cons]
    have hwithin := List.forall_mem_append.mpr ⟨ihbody, ihrest⟩
    exact List.forall_mem_append.mpr ⟨List.forall_mem_singleton.mpr hhigh, hwithin⟩

theorem Stopped.countP_of_overBudget (h : Stopped id o.result evs) (ho : o.OverBudget) :
    evs.countP (·.what.isExceeded) = 1 := by
  obtain ⟨f, hf, hcode⟩ := ho
  cases f with
  | exceeded limit bound span =>
    obtain ⟨before, after, rfl, hbefore, hafter⟩ := h.once limit bound span hf
    have hnone : after.countP (·.what.isExceeded) = 0 := by
      refine List.countP_eq_zero.mpr fun ev hev => ?_
      have hend := hafter ev hev
      revert hend
      cases ev.what <;> simp [Happening.isCallEnd, Happening.isExceeded]
    rw [List.countP_append, List.countP_eq_zero.mpr hbefore, List.countP_cons, hnone]
    rfl
  | _ => cases hcode

theorem Stopped.countP_of_inBudget (h : Stopped id o.result evs) (ho : ¬ o.OverBudget) :
    evs.countP (·.what.isExceeded) = 0 :=
  List.countP_eq_zero.mpr (h.never fun _ _ _ hr => ho ⟨_, hr, rfl⟩)

end Trace

open Trace

theorem Ends.adds (htracing : setup.tracing) (h : Ends setup e env o) :
    ∃ u evs, Run.Adds setup.runId 0 (Usage.note {} setup .runStart e.span.known?) o.result u evs ∧
      o.usage = u.note setup .runEnd e.span.known? := by
  obtain ⟨hne, fuel, rfl⟩ := h
  rcases hr : (Run.eval setup fuel 0 e env.orEmpty).runFrom
    (Usage.note {} setup .runStart e.span.known?) with ⟨r, u⟩
  rw [Run.execute_eq hr] at hne ⊢
  obtain ⟨evs, hadds⟩ := Run.eval_traced htracing r u hr hne
  rcases u.close_cases r with ⟨hout, _⟩ | ⟨_, hclose⟩
  · exact absurd hout hne
  · exact ⟨u, evs, hadds, hclose⟩

structure Outcome.Traced (setup : Setup) (o : Outcome) : Prop where
  nonempty : o.usage.events.toList ≠ []
  runId : ∀ ev ∈ o.usage.events.toList, ev.runId = setup.runId
  calls : o.usage.events.toList.countP (·.what.isCallStart) =
    o.usage.events.toList.countP (·.what.isCallEnd)
  depths : ∀ depth ∈ callDepths o.usage.events.toList, depth < o.usage.maxDepth
  exceeded : o.OverBudget → o.usage.events.toList.countP (·.what.isExceeded) = 1
  inBudget : ¬ o.OverBudget → o.usage.events.toList.countP (·.what.isExceeded) = 0

theorem Ends.traced (htracing : setup.tracing) (h : Ends setup e env o) : o.Traced setup := by
  obtain ⟨u, evs, hadds, husage⟩ := h.adds htracing
  have hevents : o.usage.events.toList = ⟨.runStart, setup.runId, e.span.known?⟩ ::
      (evs ++ [⟨.runEnd, setup.runId, e.span.known?⟩]) := by
    simp [husage, Run.note_events_of_tracing htracing, hadds.events]
  have hcount (p : Happening → Bool) (hstart : p .runStart = false) (hend : p .runEnd = false) :
      o.usage.events.toList.countP (p ·.what) = evs.countP (p ·.what) := by
    simp [hevents, hstart, hend]
  have hdepths : callDepths o.usage.events.toList = callDepths evs := by
    rw [hevents, callDepths_cons, callDepths_append, callDepths_singleton]
    exact List.append_nil _
  refine ⟨?_, ?_, ?_, ?_, fun ho => ?_, fun ho => ?_⟩
  · simp [hevents]
  · rw [hevents]
    refine List.forall_mem_cons.mpr ⟨rfl, List.forall_mem_append.mpr ⟨hadds.nested.runId_eq, ?_⟩⟩
    exact List.forall_mem_singleton.mpr rfl
  · rw [hcount Happening.isCallStart rfl rfl, hcount Happening.isCallEnd rfl rfl,
      hadds.nested.balanced]
  · rw [hdepths, husage, Usage.note_maxDepth]
    exact hadds.nested.callDepths_lt
  · rw [hcount Happening.isExceeded rfl rfl, hadds.stopped.countP_of_overBudget ho]
  · rw [hcount Happening.isExceeded rfl rfl, hadds.stopped.countP_of_inBudget ho]

-- ---------------------------------------------------------------------------
-- What the summary of a trace file says of the run
-- ---------------------------------------------------------------------------

theorem foldl_max_lt {start n : Nat} {ms : List Nat} (hstart : start < n) (h : ∀ m ∈ ms, m < n) :
    ms.foldl max start < n := by
  induction ms generalizing start with
  | nil => exact hstart
  | cons m ms ih =>
    rw [List.forall_mem_cons] at h
    exact ih (Nat.max_lt.mpr ⟨hstart, h.1⟩) h.2

/-- The summary says of a run what its events say. Call depths are read as 64-bit integers. -/
structure Trace.Summary.Faithful (s : Summary) (setup : Setup) (o : Outcome) : Prop where
  events : s.events = o.usage.events.size
  runId : s.runId = setup.runId
  calls : s.calls = o.usage.events.toList.countP (·.what.isCallStart)
  callEnds : s.calls = o.usage.events.toList.countP (·.what.isCallEnd)
  byParam : ∀ p, (s.callsByParam.lookup p).getD 0 = o.usage.events.toList.countP (·.what.isCallOf p)
  total : (s.callsByParam.map Prod.snd).sum = s.calls
  binds : s.letrecBinds = o.usage.events.toList.countP (·.what.isLetrecBind)
  deepest : o.usage.maxDepth < 2 ^ 63 →
    s.maxCallDepth = ((callDepths o.usage.events.toList).foldl max 0 : Nat)
  deepestWithin : s.maxCallDepth =
    (((callDepths o.usage.events.toList).filter (· < 2 ^ 63)).foldl max 0 : Nat)
  noCalls : s.calls = 0 → s.maxCallDepth = 0
  below : s.calls ≠ 0 → s.maxCallDepth < o.usage.maxDepth
  exceeded : o.OverBudget → s.budgetExceeded = 1
  inBudget : ¬ o.OverBudget → s.budgetExceeded = 0

theorem Trace.Summary.Tells.faithful (h : Tells s o.usage.events.toList) (ho : o.Traced setup) :
    s.Faithful setup o where
  events := h.events
  runId := by rw [h.runId setup.runId ho.runId, if_neg ho.nonempty]
  calls := h.calls
  callEnds := h.calls.trans ho.calls
  byParam := h.byParam
  total := h.total
  binds := h.binds
  deepest hlt := by
    rw [h.depth, List.filter_eq_self.mpr]
    intro depth hdepth
    exact decide_eq_true (Nat.lt_trans (ho.depths depth hdepth) hlt)
  deepestWithin := h.depth
  noCalls hnone := by
    have hnil : callDepths o.usage.events.toList = [] := by
      rw [← List.length_eq_zero_iff, length_callDepths, ← h.calls, hnone]
    rw [h.depth, hnil]
    rfl
  below hsome := by
    have hne : callDepths o.usage.events.toList ≠ [] := by
      rwa [ne_eq, ← List.length_eq_zero_iff, length_callDepths, ← h.calls]
    obtain ⟨depth, hdepth⟩ := List.exists_mem_of_ne_nil _ hne
    rw [h.depth, Int.ofNat_lt]
    refine foldl_max_lt (Nat.zero_lt_of_lt (ho.depths depth hdepth)) fun depth hdepth => ?_
    exact ho.depths depth (List.mem_of_mem_filter hdepth)
  exceeded hover := h.exceeded.trans (ho.exceeded hover)
  inBudget hin := h.exceeded.trans (ho.inBudget hin)

theorem faithful_of_written (htracing : setup.tracing) (h : Ends setup e env o)
    (hevents : stamped.map Prod.snd = o.usage.events.toList)
    (hsize : ∀ p ∈ stamped, (p.2.toJson p.1).text.utf8ByteSize < lengthLimit) :
    (Summary.ofBytes (written stamped).toUTF8).Faithful setup o := by
  have htells := Summary.tells_ofLines stamped
  rw [hevents] at htells
  rw [Summary.ofBytes, linesOf_written hsize]
  exact htells.faithful (h.traced htracing)

theorem events_writtenAround {o : Outcome}
    (hevents : (before ++ after).map Prod.snd = o.usage.events.toList)
    (hsize : ∀ p ∈ before ++ after, (p.2.toJson p.1).text.utf8ByteSize < lengthLimit)
    (hline : 10 ∉ line) (hlength : line.length < lengthLimit)
    (hl : Line.ofText? (lineText line) = some l) :
    (Summary.ofBytes ⟨(writtenAround line before after).toArray⟩).events =
      o.usage.events.size + 1 := by
  have hcount : before.length + after.length = o.usage.events.size := by
    simpa using congrArg List.length hevents
  rw [Summary.ofBytes, linesOf_writtenAround hsize hline hlength, hl,
    Summary.events_ofLines, ← hcount]
  simp only [List.length_append, List.length_map, Option.toList_some, List.length_singleton]
  omega

/-- An event with the time that is written to its line: that of the start of the run for its first
event, and that of its end for the others. -/
def stamp (start finish : String) (e : Event) : String × Event :=
  (match e.what with
    | .runStart => start
    | _ => finish, e)

theorem traceText_eq (start finish : String) (evs : List Event) :
    ∃ stamped, stamped.map Prod.snd = evs ∧
      Command.traceText start finish evs = written stamped := by
  refine ⟨evs.map (stamp start finish), ?_, ?_⟩
  · rw [List.map_map]
    exact List.map_id evs
  · rw [Command.traceText, written, List.map_map]
    rfl

/-- The summary of a trace file says of the run what its events say, whatever the times of the
events are. A line is judged without the white space around it: those that are blank or no JSON
can stand anywhere in a file, and one that is an event counts as one. A line that is too long ends
the file. -/
theorem summaries_are_faithful (setup : Setup) (e : Expr) (env : Env) (o : Outcome)
    (htracing : setup.tracing = true) (h : Ends setup e env o) :
    (∀ stamped, stamped.map Prod.snd = o.usage.events.toList →
      (∀ p ∈ stamped, (p.2.toJson p.1).text.utf8ByteSize ≤ 65535) →
      (Summary.ofBytes (written stamped).toUTF8).Faithful setup o) ∧
    (∀ start finish, ∃ stamped, stamped.map Prod.snd = o.usage.events.toList ∧
      Command.traceText start finish o.usage.events.toList = written stamped) ∧
    (∀ before line after, Whole before → 10 ∉ line → line.length ≤ 65535 → Idle line →
      Summary.ofBytes ⟨(before ++ (line ++ 10 :: after)).toArray⟩ =
        Summary.ofBytes ⟨(before ++ after).toArray⟩ ∧
      Summary.ofBytes ⟨(before ++ line).toArray⟩ = Summary.ofBytes ⟨before.toArray⟩) ∧
    (∀ before line after, (before ++ after).map Prod.snd = o.usage.events.toList →
      (∀ p ∈ before ++ after, (p.2.toJson p.1).text.utf8ByteSize ≤ 65535) →
      10 ∉ line → line.length ≤ 65535 →
      Summary.ofBytes ⟨(writtenAround line before after).toArray⟩ =
        Summary.ofLines ((before.map fun p => .ofEvent p.1 p.2) ++
          ((Line.ofText? (lineText line)).toList ++ after.map fun p => .ofEvent p.1 p.2)) ∧
      ∀ l, Line.ofText? (lineText line) = some l →
        (Summary.ofBytes ⟨(writtenAround line before after).toArray⟩).events =
          o.usage.events.size + 1) ∧
    ∀ before line after, Whole before → 10 ∉ line → 65535 < line.length →
      Summary.ofBytes ⟨(before ++ (line ++ after)).toArray⟩ = Summary.ofBytes ⟨before.toArray⟩ := by
  refine ⟨fun stamped hevents hsize => ?_,
    fun start finish => traceText_eq start finish _, ?_, ?_, ?_⟩
  · exact faithful_of_written htracing h hevents fun p hp => Nat.lt_succ_of_le (hsize p hp)
  · intro before line after hbefore hline hsize hidle
    have hlt : line.length < lengthLimit := Nat.lt_succ_of_le hsize
    exact ⟨congrArg Summary.ofLines (linesOf_idle hbefore hline hlt hidle after),
      congrArg Summary.ofLines (linesOf_idle_end hbefore hline hlt hidle)⟩
  · intro before line after hevents hsize hline hlength
    have hlt : ∀ p ∈ before ++ after, (p.2.toJson p.1).text.utf8ByteSize < lengthLimit :=
      fun p hp => Nat.lt_succ_of_le (hsize p hp)
    have hlength' : line.length < lengthLimit := Nat.lt_succ_of_le hlength
    exact ⟨congrArg Summary.ofLines (linesOf_writtenAround hlt hline hlength'),
      fun l => events_writtenAround hevents hlt hline hlength'⟩
  · intro before line after hbefore hline hlong
    exact congrArg Summary.ofLines (linesOf_long hbefore hline hlong after)

/-- `letrec f(x) = (f x) in (f 0)`, stopped by a limit on the depth inside of two calls. The
parameter is named by a newline, and at its end the file has a note, a vertical tab and `{}`, or a
line that is too long. -/
theorem summaries_are_faithful_loop :
    let e : Expr := .letRec default "f" "\n" (.call default (.var default "f") (.var default "\n"))
      (.call default (.var default "f") (.const default 0))
    let setup : Setup := { limits := { maxDepth := some 4 }, tracing := true, runId := "r" }
    let o := executeWithin setup e .empty
    let stamped := o.usage.events.toList.map fun ev => ("now", ev)
    let file := (written stamped).toUTF8.toList
    Ends setup e .empty o ∧ o.OverBudget ∧
      (∀ p ∈ stamped, (p.2.toJson p.1).text.utf8ByteSize ≤ 65535) ∧
      (Summary.ofBytes (written stamped).toUTF8).Faithful setup o ∧
      (Whole file ∧ Idle [35] ∧
        Summary.ofBytes ⟨(file ++ [35]).toArray⟩ = Summary.ofBytes ⟨file.toArray⟩) ∧
      (Summary.ofBytes ⟨(writtenAround [11, 123, 125] stamped []).toArray⟩).events =
        o.usage.events.size + 1 ∧
      Summary.ofBytes ⟨(file ++ (List.replicate 65536 35 ++ [10])).toArray⟩ =
        Summary.ofBytes ⟨file.toArray⟩ := by
  intro e setup o stamped file
  have hends : Ends setup e .empty o := ⟨nofun, _, rfl⟩
  have hsize : ∀ p ∈ stamped, (p.2.toJson p.1).text.utf8ByteSize ≤ 65535 := by decide
  have hwhole : Whole file := whole_written stamped
  have hidle : Idle [35] := .inr (by decide)
  obtain ⟨hfaithful, -, hpass, hinsert, hlong⟩ := summaries_are_faithful setup e .empty o rfl hends
  refine ⟨hends, ⟨_, rfl, rfl⟩, hsize, hfaithful stamped rfl hsize, ⟨hwhole, hidle, ?_⟩, ?_, ?_⟩
  · exact (hpass file [35] [] hwhole (by decide) (by decide) hidle).2
  · refine (hinsert stamped [11, 123, 125] [] rfl ?_ (by decide) (by decide)).2 {} (by decide)
    rwa [List.append_nil]
  · refine hlong file (List.replicate 65536 35) [10] hwhole ?_ ?_
    · rw [List.mem_replicate]
      exact fun h => absurd h.2 (by decide)
    · rw [List.length_replicate]
      decide

/-- White space around a line is more than what JSON allows there: a vertical tab in front of `{}`
makes the line no JSON, and yet it counts as an event. The file is the trace of a constant. -/
theorem line_counts_despite_white_space :
    let e : Expr := .const default 7
    let setup : Setup := { limits := { maxSteps := some 9 }, tracing := true, runId := "r" }
    let o := executeWithin setup e .empty
    let stamped := o.usage.events.toList.map fun ev => ("now", ev)
    let file := (written stamped).toUTF8.toList
    let line : List UInt8 := [11, 123, 125]
    Ends setup e .empty o ∧ (∀ p ∈ stamped, (p.2.toJson p.1).text.utf8ByteSize ≤ 65535) ∧
      Whole file ∧ 10 ∉ line ∧ line.length ≤ 65535 ∧
      Json.read? (Text.ofBytes ⟨line.toArray⟩) = none ∧
      (Summary.ofBytes ⟨file.toArray⟩).events = 2 ∧
      (Summary.ofBytes ⟨(file ++ (line ++ 10 :: [])).toArray⟩).events = 3 := by
  intro e setup o stamped file line
  have hsize : ∀ p ∈ stamped, (p.2.toJson p.1).text.utf8ByteSize ≤ 65535 := by decide
  have hlines := linesOf_written_append fun p hp => Nat.lt_succ_of_le (hsize p hp)
  have hfile : linesOf ⟨file.toArray⟩ = stamped.map fun p => .ofEvent p.1 p.2 := by
    rw [← List.append_nil file, hlines, linesOf_nil, List.append_nil]
  have hcounted : linesOf ⟨(line ++ 10 :: []).toArray⟩ = [{}] := by
    rw [linesOf_toArray]
    decide
  refine ⟨⟨nofun, _, rfl⟩, hsize, whole_written stamped, by decide, by decide, by decide, ?_, ?_⟩
  · rw [Summary.ofBytes, hfile]
    rfl
  · rw [Summary.ofBytes, hlines, hcounted]
    rfl

end Letrec
