import Letrec.Prelude
import Letrec.Proofs.Evaluation.Refinement

/-!
# The procedures of the standard prelude

`plus` and `minus` compute sums and negatives of 64-bit integers, wrapped as two's complement wraps
them, and `not` negates truth values. They do so wherever they are visible: their bodies are
evaluated in the environment in which they were defined, so that it does not matter what `true`, `a`
or any other name but their own stands for at the call.

The proofs are derivations by the rules of the language, which know nothing of fuel and steps.
-/

namespace Letrec

def Evaluates (run : Nat) (e : Expr) (env : Env) (r : Except Failure Value) : Prop :=
  r ≠ .error .outOfFuel ∧ ∃ fuel, evalFor fuel run e env = r

namespace Evaluates

variable {run : Nat} {e : Expr} {env : Env}

theorem derivation (h : Evaluates run e env (.ok v)) :
    Nonempty (Derivation e env.unstamped (.ok v.unstamped)) := by
  obtain ⟨_, fuel, hfuel⟩ := h
  obtain ⟨d, _⟩ := evalFor_answer_iff.mp (congrArg answer? hfuel)
  exact ⟨d⟩

theorem of_derivation (run : Nat) (d : Derivation e env.unstamped a) :
    ∃ r, Evaluates run e env r ∧ answer? r = some a := by
  have ha : answer? (evalFor d.height run e env) = some a :=
    evalFor_answer_iff.mpr ⟨d, Nat.le_refl _⟩
  refine ⟨_, ⟨fun hout => ?_, d.height, rfl⟩, ha⟩
  rw [hout] at ha
  cases ha

theorem int_of_derivation (d : Derivation e env.unstamped (.ok (.int n))) :
    Evaluates run e env (.ok (.int n)) := by
  obtain ⟨r, hr, ha⟩ := of_derivation run d
  obtain ⟨v, rfl, hv⟩ := answer?_eq_ok.mp ha
  rwa [Value.unstamped_eq_int.mp hv] at hr

theorem bool_of_derivation (d : Derivation e env.unstamped (.ok (.bool b))) :
    Evaluates run e env (.ok (.bool b)) := by
  obtain ⟨r, hr, ha⟩ := of_derivation run d
  obtain ⟨v, rfl, hv⟩ := answer?_eq_ok.mp ha
  rwa [Value.unstamped_eq_bool.mp hv] at hr

theorem mismatch_of_derivation (d : Derivation e env.unstamped (.error (.mismatch k actual))) :
    ∃ span, Evaluates run e env (.error (.mismatch k actual span)) := by
  obtain ⟨r, hr, ha⟩ := of_derivation run d
  obtain ⟨f, rfl, hf⟩ := answer?_eq_error.mp ha
  cases f with
  | mismatch =>
    cases hf
    exact ⟨_, hr⟩
  | _ => cases hf

end Evaluates

/-- Frames were put in front of `base`, none of which binds `kept`. -/
inductive Env.Grows (kept : String) (base : Env) : Env → Prop
  | refl : Grows kept base base
  | extend (h : Grows kept base env) (hne : x ≠ kept) : Grows kept base (env.extend stamp x v)
  | extendRec (h : Grows kept base env) (hne : f ≠ kept) :
      Grows kept base (env.extendRec stamp f x body)

theorem Env.orEmpty_of_lookup {env : Env} (h : env.lookup x = .ok v) : env.orEmpty = env := by
  cases env with
  | absent => cases h
  | _ => rfl

theorem Env.Grows.lookup (h : Env.Grows kept base env) (hkept : base.lookup kept = .ok v) :
    env.lookup kept = .ok v := by
  induction h with
  | refl => exact hkept
  | extend _ hne ih => simpa [Env.extend, Env.lookup, Env.orEmpty_of_lookup ih, hne] using ih
  | extendRec _ hne ih => simpa [Env.extendRec, Env.lookup, Env.orEmpty_of_lookup ih, hne] using ih

theorem finds_of_lookup {env : Env} (h : env.lookup x = .ok v) :
    Finds env.unstamped x (.ok v.unstamped) :=
  answer?_lookup.mp (congrArg answer? h)

-- ---------------------------------------------------------------------------
-- Applications
-- ---------------------------------------------------------------------------

namespace Prelude

variable {base env : Env}

def negative : Expr := .diff (builtin 9) (.const (builtin 7) 0) (.var (builtin 8) "n")

def sum : Expr :=
  .diff (builtin 15) (.var (builtin 11) "a")
    (.diff (builtin 14) (.const (builtin 12) 0) (.var (builtin 13) "b"))

def negation : Expr :=
  .ifThenElse (builtin 21) (.var (builtin 18) "b") (.var (builtin 19) "false")
    (.var (builtin 20) "true")

theorem derivation_minus (o o' : Origin) (hbase : standard.env start = .ok base)
    (henv : Env.Grows "minus" base env) (arg : Derivation e env.unstamped (.ok v))
    (body : ∀ closed, Derivation negative (.bind default "n" v closed) a) :
    Nonempty (Derivation (.call o (.var o' "minus") e) env.unstamped a) := by
  obtain ⟨closed, hminus⟩ : ∃ closed, base.lookup "minus" = .ok (.closure "n" negative closed) := by
    cases hbase
    exact ⟨_, rfl⟩
  exact ⟨.call (.var (finds_of_lookup (henv.lookup hminus))) arg (body _)⟩

theorem derivation_plus (o o' o'' : Origin) (hbase : standard.env start = .ok base)
    (henv : Env.Grows "plus" base env)
    (arg : Derivation e env.unstamped (.ok v)) (arg' : Derivation e' env.unstamped (.ok v'))
    (body : ∀ closed, Derivation sum (.bind default "b" v' (.bind default "a" v closed)) a) :
    Nonempty (Derivation (.call o (.call o' (.var o'' "plus") e) e') env.unstamped a) := by
  obtain ⟨closed, hplus⟩ :
      ∃ closed, base.lookup "plus" = .ok (.closure "a" (.proc (builtin 16) "b" sum) closed) := by
    cases hbase
    exact ⟨_, rfl⟩
  exact ⟨.call (.call (.var (finds_of_lookup (henv.lookup hplus))) arg .proc) arg' (body _)⟩

theorem derivation_not (o o' : Origin) (hbase : standard.env start = .ok base)
    (henv : Env.Grows "not" base env) (arg : Derivation e env.unstamped (.ok v))
    (body : ∀ closed, Finds closed "true" (.ok (.bool true)) →
      Finds closed "false" (.ok (.bool false)) →
      Derivation negation (.bind default "b" v closed) a) :
    Nonempty (Derivation (.call o (.var o' "not") e) env.unstamped a) := by
  obtain ⟨closed, hnot, htrue, hfalse, hclosed⟩ : ∃ closed : Env,
      base.lookup "not" = .ok (.closure "b" negation closed) ∧
        closed.lookup "true" = .ok (.bool true) ∧
        closed.lookup "false" = .ok (.bool false) ∧ closed.orEmpty = closed := by
    cases hbase
    exact ⟨_, rfl, rfl, rfl, rfl⟩
  have happly := body closed.unstamped (finds_of_lookup htrue) (finds_of_lookup hfalse)
  rw [← hclosed, Env.unstamped_orEmpty] at happly
  exact ⟨.call (.var (finds_of_lookup (henv.lookup hnot))) arg happly⟩

/-- Taking away the negative is adding, also where the negative wraps around to the number
itself. -/
theorem sub_negative (a b : Int64) :
    Int64.ofInt (a.toInt - (Int64.ofInt (Int64.toInt 0 - b.toInt)).toInt) =
      Int64.ofInt (a.toInt + b.toInt) := by
  rw [Int64.ofInt_sub, Int64.ofInt_toInt, Int64.ofInt_toInt, Int64.ofInt_sub, Int64.ofInt_toInt,
    Int64.ofInt_toInt, Int64.ofInt_add, Int64.ofInt_toInt, Int64.ofInt_toInt]
  simp

section
variable {start run : Nat} (o o' o'' : Origin) (hbase : standard.env start = .ok base)
include hbase

theorem call_plus (henv : Env.Grows "plus" base env) (he : Evaluates run e env (.ok (.int a)))
    (he' : Evaluates run e' env (.ok (.int b))) :
    Evaluates run (.call o (.call o' (.var o'' "plus") e) e') env
      (.ok (.int (.ofInt (a.toInt + b.toInt)))) := by
  obtain ⟨arg⟩ := he.derivation
  obtain ⟨arg'⟩ := he'.derivation
  obtain ⟨d⟩ := derivation_plus o o' o'' hbase henv arg arg' fun closed =>
    .diff (.var (.bindThere (by decide) .bindHere)) (.diff .const (.var .bindHere))
  rw [sub_negative] at d
  exact .int_of_derivation d

theorem call_plus_left (henv : Env.Grows "plus" base env) (he : Evaluates run e env (.ok v))
    (he' : Evaluates run e' env (.ok v')) (hkind : v.kind ≠ .int) :
    ∃ span, Evaluates run (.call o (.call o' (.var o'' "plus") e) e') env
      (.error (.mismatch .int v.kind span)) := by
  obtain ⟨arg⟩ := he.derivation
  obtain ⟨arg'⟩ := he'.derivation
  obtain ⟨d⟩ := derivation_plus o o' o'' hbase henv arg arg' fun closed =>
    .diffLeft (.var (.bindThere (by decide) .bindHere)) (.mismatch (by simpa using hkind))
  simpa using Evaluates.mismatch_of_derivation d

theorem call_plus_right (henv : Env.Grows "plus" base env) (he : Evaluates run e env (.ok (.int a)))
    (he' : Evaluates run e' env (.ok v')) (hkind : v'.kind ≠ .int) :
    ∃ span, Evaluates run (.call o (.call o' (.var o'' "plus") e) e') env
      (.error (.mismatch .int v'.kind span)) := by
  obtain ⟨arg⟩ := he.derivation
  obtain ⟨arg'⟩ := he'.derivation
  obtain ⟨d⟩ := derivation_plus o o' o'' hbase henv arg arg' fun closed =>
    .diffRight (.var (.bindThere (by decide) .bindHere))
      (.diffRight .const (.var .bindHere) (.mismatch (by simpa using hkind))) .fault
  simpa using Evaluates.mismatch_of_derivation d

theorem call_minus (henv : Env.Grows "minus" base env) (he : Evaluates run e env (.ok (.int a))) :
    Evaluates run (.call o (.var o' "minus") e) env (.ok (.int (.ofInt (-a.toInt)))) := by
  obtain ⟨arg⟩ := he.derivation
  obtain ⟨d⟩ := derivation_minus o o' hbase henv arg fun closed => .diff .const (.var .bindHere)
  exact .int_of_derivation (by simpa using d)

theorem call_minus_mismatch (henv : Env.Grows "minus" base env) (he : Evaluates run e env (.ok v))
    (hkind : v.kind ≠ .int) :
    ∃ span, Evaluates run (.call o (.var o' "minus") e) env
      (.error (.mismatch .int v.kind span)) := by
  obtain ⟨arg⟩ := he.derivation
  obtain ⟨d⟩ := derivation_minus o o' hbase henv arg fun closed =>
    .diffRight .const (.var .bindHere) (.mismatch (by simpa using hkind))
  simpa using Evaluates.mismatch_of_derivation d

theorem call_not (henv : Env.Grows "not" base env) (he : Evaluates run e env (.ok (.bool p))) :
    Evaluates run (.call o (.var o' "not") e) env (.ok (.bool (!p))) := by
  obtain ⟨arg⟩ := he.derivation
  cases p with
  | true =>
    obtain ⟨d⟩ := derivation_not o o' hbase henv arg fun closed _ hfalse =>
      .ifTrue (.var .bindHere) (.var (.bindThere (by decide) hfalse))
    exact .bool_of_derivation d
  | false =>
    obtain ⟨d⟩ := derivation_not o o' hbase henv arg fun closed htrue _ =>
      .ifFalse (.var .bindHere) (.var (.bindThere (by decide) htrue))
    exact .bool_of_derivation d

theorem call_not_mismatch (henv : Env.Grows "not" base env) (he : Evaluates run e env (.ok v))
    (hkind : v.kind ≠ .bool) :
    ∃ span, Evaluates run (.call o (.var o' "not") e) env
      (.error (.mismatch .bool v.kind span)) := by
  obtain ⟨arg⟩ := he.derivation
  obtain ⟨d⟩ := derivation_not o o' hbase henv arg fun closed _ _ =>
    .ifTest (.var .bindHere) (.mismatch (by simpa using hkind))
  simpa using Evaluates.mismatch_of_derivation d

end

/-- Wherever they are visible, the procedures of the standard prelude compute what they are for,
wrapped to 64 bits (`Int64.ofInt`), and refuse values of another kind. -/
theorem standard_procedures_are_exact (start run : Nat) (base : Env)
    (hbase : standard.env start = .ok base) : (∀ env e e' v v' o o' o'', Env.Grows "plus" base env →
      Evaluates run e env (.ok v) → Evaluates run e' env (.ok v') →
      let call : Expr := .call o (.call o' (.var o'' "plus") e) e'
      (∀ a b, v = .int a → v' = .int b →
        Evaluates run call env (.ok (.int (.ofInt (a.toInt + b.toInt))))) ∧
      (v.kind ≠ .int → ∃ span, Evaluates run call env (.error (.mismatch .int v.kind span))) ∧
      (v.kind = .int → v'.kind ≠ .int →
        ∃ span, Evaluates run call env (.error (.mismatch .int v'.kind span)))) ∧
    (∀ env e v o o', Env.Grows "minus" base env → Evaluates run e env (.ok v) →
      let call : Expr := .call o (.var o' "minus") e
      (∀ a, v = .int a → Evaluates run call env (.ok (.int (.ofInt (-a.toInt))))) ∧
      (v.kind ≠ .int → ∃ span, Evaluates run call env (.error (.mismatch .int v.kind span)))) ∧
    ∀ env e v o o', Env.Grows "not" base env → Evaluates run e env (.ok v) →
      let call : Expr := .call o (.var o' "not") e
      (∀ p, v = .bool p → Evaluates run call env (.ok (.bool (!p)))) ∧
      (v.kind ≠ .bool → ∃ span, Evaluates run call env (.error (.mismatch .bool v.kind span))) := by
  refine ⟨?_, ?_, ?_⟩
  · intro env e e' v v' o o' o'' henv he he' call
    refine ⟨?_, call_plus_left o o' o'' hbase henv he he', fun hint hkind => ?_⟩
    · rintro a b rfl rfl
      exact call_plus o o' o'' hbase henv he he'
    · cases v with
      | int a => exact call_plus_right o o' o'' hbase henv he he' hkind
      | _ => cases hint
  · intro env e v o o' henv he call
    refine ⟨?_, call_minus_mismatch o o' hbase henv he⟩
    rintro a rfl
    exact call_minus o o' hbase henv he
  · intro env e v o o' henv he call
    refine ⟨?_, call_not_mismatch o o' hbase henv he⟩
    rintro p rfl
    exact call_not o o' hbase henv he

/-- `true` stands for nothing and `b` for another procedure; the least integer is its own
negative. -/
theorem standard_procedures_are_exact_wrapped :
    ∃ base, standard.env 1 = .ok base ∧
      let env := (base.extend ⟨2, 0⟩ "true" .absent).extendRec ⟨2, 0⟩ "b" "a" (.var default "n")
      let least : Expr := .const default Int64.minValue
      Evaluates 2 (.call default (.call default (.var default "plus") (.const default (-1))) least)
        env (.ok (.int Int64.maxValue)) ∧
      Evaluates 2 (.call default (.var default "minus") least) env (.ok (.int Int64.minValue)) ∧
      ∃ span, Evaluates 2 (.call default (.var default "not") least) env
        (.error (.mismatch .bool .int span)) := by
  obtain ⟨base, hbase⟩ : ∃ base, standard.env 1 = .ok base := ⟨_, rfl⟩
  obtain ⟨hplus, hminus, hnot⟩ := standard_procedures_are_exact 1 2 base hbase
  have hgrows {kept : String} (htrue : "true" ≠ kept) (hb : "b" ≠ kept) : Env.Grows kept base
      ((base.extend ⟨2, 0⟩ "true" .absent).extendRec ⟨2, 0⟩ "b" "a" (.var default "n")) :=
    .extendRec (.extend .refl htrue) hb
  have hconst {env : Env} (n : Int64) : Evaluates 2 (.const default n) env (.ok (.int n)) :=
    .int_of_derivation .const
  refine ⟨base, hbase, ?_, ?_, ?_⟩
  · exact (hplus _ _ _ _ _ _ _ _ (hgrows (by decide) (by decide)) (hconst _) (hconst _)).1 _ _ rfl
      rfl
  · exact (hminus _ _ _ _ _ (hgrows (by decide) (by decide)) (hconst _)).1 _ rfl
  · exact (hnot _ _ _ _ _ (hgrows (by decide) (by decide)) (hconst _)).2 (by decide)

end Prelude

end Letrec
