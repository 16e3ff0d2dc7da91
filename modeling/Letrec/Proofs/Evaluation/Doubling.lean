import Letrec.Proofs.Evaluation.Cost
import Letrec.Proofs.Evaluation.Places

/-!
# A recursive procedure that doubles

`double` takes one off its argument and calls itself until nothing is left, then adds two for each
call on the way back. Every call makes a frame in front of the one recursive frame that all of them
share. Value, steps, depth and events are found together, by induction on the argument.
-/

namespace Letrec

namespace Doubling

def body : Expr :=
  .ifThenElse default (.zeroTest default (.var default "x")) (.const default 0)
    (.diff default
      (.call default (.var default "double") (.diff default (.var default "x") (.const default 1)))
      (.const default (-2)))

/-- `letrec double(x) = if zero?(x) then 0 else -((double -(x, 1)), -2) in (double n)` -/
def program (n : Nat) : Expr :=
  .letRec default "double" "x" body
    (.call default (.var default "double") (.const default (.ofNat n)))

/-- The calls that a body evaluated at the given depth makes when `n` is left. -/
def calls : (n depth : Nat) → List Happening
  | 0, _ => []
  | n + 1, depth => .callStart "x" (depth + 3) :: calls n (depth + 3) ++ [.callEnd "x" (depth + 3)]

def bodyCost (n depth : Nat) : Cost := ⟨10 * n + 4, 3 * n + 3, calls n depth⟩

-- ---------------------------------------------------------------------------
-- Arithmetic
-- ---------------------------------------------------------------------------

theorem ofNat_succ_ne_zero (h : n + 1 < Nat.pow 2 63) : (Int64.ofNat (n + 1) == 0) = false := by
  rw [int64_beq_zero, Int64.toInt_ofNat_of_lt h]
  simp
  omega

theorem ofNat_succ_sub_one (n : Nat) : Int64.ofNat (n + 1) - 1 = Int64.ofNat n := by
  rw [Int64.ofNat_add]
  exact Int64.add_sub_cancel _ _

theorem ofNat_double_add_two (n : Nat) :
    Int64.ofNat (2 * n) - (-2) = Int64.ofNat (2 * (n + 1)) := by
  rw [Int64.sub_neg, Nat.mul_succ, Int64.ofNat_add]
  rfl

-- ---------------------------------------------------------------------------
-- The procedure
-- ---------------------------------------------------------------------------

open Run (Free Yields)

variable {setup : Setup}

theorem yields_body (hfree : Free setup) (hn : n < Nat.pow 2 63) (depth : Nat)
    (stamp stamp' : Stamp) :
    Yields setup depth body
      (.bind stamp "x" (.int (.ofNat n)) (.recur stamp' "double" "x" body .empty))
      (.int (.ofNat (2 * n))) (bodyCost n depth) := by
  induction n generalizing depth stamp with
  | zero =>
    let env : Env := .bind stamp "x" (.int (.ofNat 0)) (.recur stamp' "double" "x" body .empty)
    have hx : Yields setup (depth + 2) (.var default "x") env (.int (.ofNat 0)) Cost.none.enter :=
      .var hfree rfl
    have htest := Yields.zeroTest (o := default) hfree hx
    exact Yields.ifThenElse hfree htest (.const hfree)
  | succ n ih =>
    let frame : Env := .recur stamp' "double" "x" body .empty
    let env : Env := .bind stamp "x" (.int (.ofNat (n + 1))) frame
    have hx (k : Nat) :
      Yields setup k (.var default "x") env (.int (.ofNat (n + 1))) Cost.none.enter :=
      .var hfree rfl
    have hdouble : Yields setup (depth + 3) (.var default "double") env
        (.closure "x" body frame) Cost.none.enter :=
      .var hfree rfl
    have htest := Yields.zeroTest (o := default) hfree (hx (depth + 2))
    rw [ofNat_succ_ne_zero hn] at htest
    have hrest :=
      Yields.diff (o := default) hfree (hx (depth + 4)) (.const (o := default) (n := 1) hfree)
    rw [ofNat_succ_sub_one] at hrest
    have hcall :=
      Yields.call (o := default) hfree hdouble hrest fun stamp => ih (by omega) (depth + 3) stamp
    have hsum := Yields.diff (o := default) hfree hcall (.const (o := default) (n := -2) hfree)
    rw [ofNat_double_add_two] at hsum
    have hbody : Yields setup depth body env _ _ := .ifThenElse hfree htest hsum
    refine cast (congrArg (Yields setup depth body env _) ?_) hbody
    ext1
    · simp [bodyCost, Cost.none, Cost.enter, Cost.andThen, Cost.between]
      omega
    · simp [bodyCost, Cost.none, Cost.enter, Cost.andThen, Cost.between]
      omega
    · simp [bodyCost, Cost.none, Cost.enter, Cost.andThen, Cost.between, calls]

def programCost (n : Nat) : Cost :=
  ⟨10 * n + 8, 3 * n + 5,
    .letrecBind "double" "x" :: .callStart "x" 2 :: calls n 2 ++ [.callEnd "x" 2]⟩

theorem yields_program (hfree : Free setup) (hn : n < Nat.pow 2 63) :
    Yields setup 0 (program n) .empty (.int (.ofNat (2 * n))) (programCost n) := by
  have hcall (stamp' : Stamp) :
    Yields setup 1 (.call default (.var default "double") (.const default (.ofNat n)))
      (.recur stamp' "double" "x" body .empty) (.int (.ofNat (2 * n))) _ :=
    .call hfree (.var hfree rfl) (.const hfree) fun stamp => yields_body hfree hn 2 stamp stamp'
  have hprogram : Yields setup 0 (program n) .empty _ _ := .letRec hfree hcall
  refine cast (congrArg (Yields setup 0 (program n) .empty _) ?_) hprogram
  ext1
  · simp [programCost, bodyCost, Cost.none, Cost.enter, Cost.andThen, Cost.between]
    omega
  · simp [programCost, bodyCost, Cost.none, Cost.enter, Cost.andThen, Cost.between]
  · simp [programCost, bodyCost, Cost.none, Cost.enter, Cost.andThen, Cost.between]

-- ---------------------------------------------------------------------------
-- Runs
-- ---------------------------------------------------------------------------

theorem countP_cons_toNat (kind : Happening → Bool) (what : Happening) (l : List Happening) :
    (what :: l).countP kind = l.countP kind + (kind what).toNat := by
  rw [List.countP_cons]
  cases kind what <;> rfl

theorem countP_calls (kind : Happening → Bool) (hstart : ∀ k, kind (.callStart "x" k) = s)
    (hend : ∀ k, kind (.callEnd "x" k) = t) :
    (calls n depth).countP kind = n * s.toNat + n * t.toNat := by
  induction n generalizing depth with
  | zero => simp [calls]
  | succ n ih =>
    simp only [calls, List.cons_append, countP_cons_toNat, List.countP_append, List.countP_nil,
      hstart, hend, ih, Nat.succ_mul]
    omega

theorem countP_program (kind : Happening → Bool) (hstart : ∀ k, kind (.callStart "x" k) = s)
    (hend : ∀ k, kind (.callEnd "x" k) = t) :
    ((programCost n).between .runStart [.runEnd]).happenings.countP kind =
      [.runStart, .letrecBind "double" "x", .runEnd].countP kind +
        (n + 1) * s.toNat + (n + 1) * t.toNat := by
  simp only [programCost, Cost.between, List.cons_append, countP_cons_toNat, List.countP_append,
    List.countP_nil, hstart, hend, countP_calls kind hstart hend, Nat.succ_mul]
  omega

end Doubling

theorem Value.eq_int {v : Value} (hkind : v.kind = .int)
    (hjson : v.toJson = (Value.int n).toJson) : v = .int n := by
  cases v with
  | int m =>
    have htoInt : m.toInt = n.toInt := Json.number.inj hjson
    rw [Int64.toInt_inj.mp htoInt]
  | _ => cases hkind

theorem Outcome.AlikeThroughout.int {o o' : Outcome} (h : o.AlikeThroughout o')
    (ho' : o'.result = .ok (.int n)) : o.result = .ok (.int n) := by
  rcases h.result with ⟨v, w, hv, hw, hkind, _, hjson⟩ | ⟨f, g, _, hg, _⟩
  · cases hw.symm.trans ho'
    rw [hv, Value.eq_int hkind hjson]
  · cases hg.symm.trans ho'

theorem Outcome.AlikeThroughout.happenings {o o' : Outcome} (h : o.AlikeThroughout o') :
    o.usage.events.toList.map Event.what = o'.usage.events.toList.map Event.what := by
  have hwhat := congrArg (List.map Event.what) h.events
  rwa [List.map_map, List.map_map] at hwhat

theorem Doubling.run_spends (hfree : Run.Free setup) (hfuel : 3 * n + 5 ≤ setup.limits.fuel)
    (hn : n < Nat.pow 2 63) (he : e.alike (Doubling.program n)) :
    ∃ v, (executeWithin setup e .empty).AlikeThroughout ⟨.ok (.int (.ofNat (2 * n))), v⟩ ∧
      Run.Spent setup 0 {} v ((Doubling.programCost n).between .runStart [.runEnd]) := by
  have hprogram : Run.Yields setup 0 (Doubling.program n) (Env.orEmpty .empty) _ _ :=
    yields_program hfree hn
  obtain ⟨v, hrun, hspent⟩ := hprogram.execute hfuel
  refine ⟨v, ?_, hspent⟩
  rw [← hrun]
  exact execute_alikeThroughout (Expr.alike_iff.mp he) rfl setup _

theorem Outcome.AlikeThroughout.countP {o : Outcome} (h : o.AlikeThroughout ⟨r, v⟩)
    (hspent : Run.Spent setup 0 {} v c)
    (htracing : setup.tracing = true) (kind : Happening → Bool) :
    o.usage.events.toList.countP (kind ∘ Event.what) = c.happenings.countP kind := by
  rw [← List.countP_map, h.happenings, hspent.happenings, Run.heard, if_pos htracing]
  rfl

/-- A procedure that calls itself `n` times, with nothing to stop the run: it doubles `n`, in `10 n
+ 8` steps and at most `3 n + 5` levels deep, and reports its binding and all its calls. Neither the
places of the program nor the identities of its nodes matter. -/
theorem recursion_doubles (n : Nat) (hn : 10 * n + 8 < Nat.pow 2 63) (e : Expr)
    (he : e.alike (Doubling.program n)) (setup : Setup) (hlimits : setup.limits = {})
    (hcancel : ∀ step events, setup.cancelled step events = false) :
    let o := executeWithin setup e .empty
    (∃ v, o.result = .ok (.int v) ∧ v.toInt = 2 * n) ∧ o.usage.steps = 10 * n + 8 ∧
      o.usage.maxDepth = 3 * n + 5 ∧
    (setup.tracing = true →
      let reported (name : String) := o.usage.events.toList.countP (·.what.name = name)
      reported "call_start" = n + 1 ∧ reported "call_end" = n + 1 ∧ reported "letrec_bind" = 1 ∧
        o.usage.events.size = 2 * n + 5) := by
  intro o
  have hfuel : setup.limits.fuel = Nat.pow 2 63 := by rw [hlimits]; rfl
  obtain ⟨v, halike, hspent⟩ :=
    Doubling.run_spends (Run.free_of_unlimited hlimits hcancel) (by omega) (by omega) he
  refine ⟨⟨_, halike.int rfl, ?_⟩, ?_, ?_, ?_⟩
  · rw [Int64.toInt_ofNat_of_lt (Nat.lt_of_le_of_lt (by omega) hn)]
    omega
  · rw [halike.steps, hspent.steps]
    exact Nat.zero_add _
  · rw [halike.maxDepth, hspent.maxDepth]
    simp [Doubling.programCost, Cost.between]
  · intro htracing reported
    have hnamed (name : String) : reported name =
        [.runStart, .letrecBind "double" "x", .runEnd].countP
          (fun what : Happening => what.name = name) +
          (n + 1) * (decide ("call_start" = name)).toNat +
          (n + 1) * (decide ("call_end" = name)).toNat :=
      (halike.countP hspent htracing (·.name = name)).trans
        (Doubling.countP_program _ (fun _ => rfl) fun _ => rfl)
    have hall : o.usage.events.size =
        [true, true, true].length + (n + 1) * true.toNat + (n + 1) * true.toNat := by
      rw [← Array.length_toList, ← List.countP_true]
      exact (halike.countP hspent htracing fun _ => true).trans
        (Doubling.countP_program _ (fun _ => rfl) fun _ => rfl)
    refine ⟨(hnamed _).trans ?_, (hnamed _).trans ?_, (hnamed _).trans ?_, hall.trans ?_⟩
    · simp [Happening.name]
    · simp [Happening.name]
    · simp [Happening.name]
    · simp
      omega

theorem recursion_doubles_six :
    let place (line col : Int) : Origin := ⟨⟨1, 0⟩, ⟨"program.yaml", line, col⟩⟩
    let e : Expr := .letRec (place 1 1) "double" "x" Doubling.body
      (.call (place 12 5) (.var (place 12 12) "double") (.const (place 12 27) 6))
    let setup : Setup := { tracing := true, runId := "six" }
    let o := executeWithin setup e .empty
    e.alike (Doubling.program 6) = true ∧ setup.limits = {} ∧ setup.tracing = true ∧
      (∃ v, o.result = .ok (.int v) ∧ v.toInt = 12) ∧ o.usage.steps = 68 ∧ o.usage.maxDepth = 23 ∧
      o.usage.events.toList.countP (·.what.name = "call_start") = 7 ∧
      o.usage.events.toList.countP (·.what.name = "call_end") = 7 ∧
      o.usage.events.toList.countP (·.what.name = "letrec_bind") = 1 ∧
        o.usage.events.size = 17 := by
  intro place e setup
  have he : e.alike (Doubling.program 6) = true := by decide
  obtain ⟨hvalue, hsteps, hdepth, hevents⟩ :=
    recursion_doubles 6 (by decide) e he setup rfl fun _ _ => rfl
  exact ⟨he, rfl, rfl, hvalue, hsteps, hdepth, hevents rfl⟩

end Letrec
