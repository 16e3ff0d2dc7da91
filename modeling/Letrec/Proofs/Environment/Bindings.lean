import Letrec.Evaluation.Failure

/-!
# Names and lookup

An environment is walked in two ways: `lookup` stops at the first frame that binds a name, and
`names` gathers the names of all frames, each once. Both are described by the list of frames. A name
is found exactly if it is listed, its value is that of the innermost frame that binds it, and names
are listed in the order of these frames. The closure of a recursive frame has captured the frame, so
that it can be looked up in itself.
-/

namespace Letrec

namespace Env

/-- Made by putting frames in front of the empty environment, or of none, which is taken for the
empty one. -/
inductive Built : Env → Prop
  | empty : Built .empty
  | extend {tail : Env} (h : Built tail.orEmpty) : Built (tail.extend stamp x v)
  | extendRec {tail : Env} (h : Built tail.orEmpty) : Built (tail.extendRec stamp f x body)

def frames : Env → List Env
  | .empty | .absent => []
  | .bind stamp x v tail => .bind stamp x v tail :: tail.frames
  | .recur stamp f x body tail => .recur stamp f x body tail :: tail.frames

def binder? : Env → Option String
  | .empty | .absent => none
  | .bind _ x _ _ => some x
  | .recur _ f _ _ _ => some f

def held? : Env → Option Value
  | .empty | .absent => none
  | .bind _ _ v _ => some v
  | .recur stamp f x body tail => some (.closure x body (.recur stamp f x body tail))

def binders (env : Env) : List String := env.frames.filterMap binder?

def innermost? (env : Env) (x : String) : Option Env := env.frames.find? (·.binder? = some x)

end Env

/-- Looks a name up in the environment that a closure has captured, then in that of the closure
found there, and so on. -/
def Value.lookupAgain (x : String) : Nat → Value → Except Failure Value
  | 0, v => .ok v
  | n + 1, v => do
    let (_, _, captured) ← v.asClosure
    lookupAgain x n (← captured.lookup x)

namespace Env

variable {env : Env} {x : String}

-- ---------------------------------------------------------------------------
-- Names
-- ---------------------------------------------------------------------------

theorem mem_names_iff : ∀ env : Env, y ∈ env.names ↔ y ∈ env.binders
  | .empty => .rfl
  | .absent => .rfl
  | .bind _ x _ tail => by
    have ih := tail.mem_names_iff (y := y)
    by_cases hyx : y = x <;> simp_all [names_bind, binders, frames, binder?]
  | .recur _ f _ _ tail => by
    have ih := tail.mem_names_iff (y := y)
    by_cases hyf : y = f <;> simp_all [names_recur, binders, frames, binder?]

theorem pairwise_idxOf_cons {l b : List String}
    (h : l.Pairwise fun y z => b.idxOf y < b.idxOf z) :
    (x :: l.filter (· ≠ x)).Pairwise fun y z => (x :: b).idxOf y < (x :: b).idxOf z := by
  have hother {y : String} (hy : y ∈ l.filter (· ≠ x)) : (x :: b).idxOf y = b.idxOf y + 1 := by
    have hyx : y ≠ x := by simpa using (List.mem_filter.mp hy).2
    rw [List.idxOf_cons, beq_false_of_ne hyx.symm, cond_false]
  refine List.pairwise_cons.mpr ⟨fun y hy => ?_, ?_⟩
  · rw [hother hy, List.idxOf_cons_self]
    exact Nat.succ_pos _
  · refine (h.filter _).imp_of_mem fun hy hz hyz => ?_
    rw [hother hy, hother hz]
    exact Nat.succ_lt_succ hyz

theorem pairwise_names :
    ∀ env : Env, env.names.Pairwise fun y z => env.binders.idxOf y < env.binders.idxOf z
  | .empty => .nil
  | .absent => .nil
  | .bind _ _ _ tail => by
    rw [names_bind]
    exact pairwise_idxOf_cons tail.pairwise_names
  | .recur _ _ _ _ tail => by
    rw [names_recur]
    exact pairwise_idxOf_cons tail.pairwise_names

theorem nodup_names (env : Env) : env.names.Nodup := by
  refine env.pairwise_names.imp fun hlt heq => ?_
  rw [heq] at hlt
  exact Nat.lt_irrefl _ hlt

-- ---------------------------------------------------------------------------
-- Lookup
-- ---------------------------------------------------------------------------

theorem innermost?_isSome_iff : (env.innermost? x).isSome ↔ x ∈ env.binders := by
  simp [innermost?, binders]

theorem binder?_of_innermost? (h : env.innermost? x = some frame) : frame.binder? = some x := by
  simpa using List.find?_some h

theorem held?_of_innermost? (h : env.innermost? x = some frame) : ∃ v, frame.held? = some v := by
  have hbinder := binder?_of_innermost? h
  cases frame with
  | bind => exact ⟨_, rfl⟩
  | recur => exact ⟨_, rfl⟩
  | _ => cases hbinder

theorem innermost?_bind : (Env.bind stamp y v tail).innermost? x =
    if y = x then some (.bind stamp y v tail) else tail.innermost? x := by
  split <;> rename_i hyx <;> simp [innermost?, frames, binder?, hyx]

theorem innermost?_recur : (Env.recur stamp f y body tail).innermost? x =
    if f = x then some (.recur stamp f y body tail) else tail.innermost? x := by
  split <;> rename_i hfx <;> simp [innermost?, frames, binder?, hfx]

theorem Built.lookup (h : env.Built) :
    env.lookup x = ((env.innermost? x).bind held?).elim (.error (.unbound x none)) .ok := by
  induction h with
  | empty => rfl
  | extend _ ih =>
    rw [Env.extend, Env.lookup, innermost?_bind]
    split
    · rfl
    · exact ih
  | extendRec _ ih =>
    rw [Env.extendRec, Env.lookup, innermost?_recur]
    split
    · rfl
    · exact ih

theorem Built.lookup_eq_ok (h : env.Built) :
    env.lookup x = .ok v ↔ ∃ frame, env.innermost? x = some frame ∧ frame.held? = some v := by
  rw [h.lookup, ← Option.bind_eq_some_iff]
  cases (env.innermost? x).bind held? <;> simp

theorem Built.lookup_eq_unbound (h : env.Built) (hx : x ∉ env.names) :
    env.lookup x = .error (.unbound x none) := by
  have hnone : env.innermost? x = none := by
    rwa [mem_names_iff, ← innermost?_isSome_iff, Option.not_isSome_iff_eq_none] at hx
  rw [h.lookup, hnone]
  rfl

end Env

theorem Value.lookupAgain_recur (stamp : Stamp) (x param : String) (body : Expr)
    (tail : Env) (n : Nat) :
    (Value.closure param body (.recur stamp x param body tail)).lookupAgain x n =
      .ok (.closure param body (.recur stamp x param body tail)) := by
  induction n with
  | zero => rfl
  | succ n ih =>
    have hlookup : (Env.recur stamp x param body tail).lookup x =
      .ok (.closure param body (.recur stamp x param body tail)) := if_pos rfl
    simp only [lookupAgain, asClosure, bind, Except.bind, hlookup, ih]

theorem Value.same_self (param : String) (body : Expr) (stamp : Stamp) (f x : String) (p : Expr)
    (tail : Env) :
    (Value.closure param body (.recur stamp f x p tail)).same
      (.closure param body (.recur stamp f x p tail)) := by
  simp [same, Expr.sameNode, Env.sameFrame]

/-- Names are listed and looked up alike: a name is found exactly if it is listed, each once and in
the order of the innermost frames that bind them, and what is found is the value of that frame. For
a recursive frame it is a closure in the frame itself, in which it is found again and again as the
same closure. -/
theorem names_and_lookup_agree (env : Env) (h : env.Built) (x : String) :
    ((∃ v, env.lookup x = .ok v) ↔ x ∈ env.names) ∧
    (x ∉ env.names → env.lookup x = .error (.unbound x none)) ∧
    env.names.Nodup ∧ (x ∈ env.names ↔ x ∈ env.binders) ∧
    (env.names.Pairwise fun y z => env.binders.idxOf y < env.binders.idxOf z) ∧
    (∀ v, env.lookup x = .ok v ↔ ∃ frame, env.innermost? x = some frame ∧ frame.held? = some v) ∧
    ∀ stamp f param body tail, env.innermost? x = some (.recur stamp f param body tail) →
      let closure := Value.closure param body (.recur stamp f param body tail)
      env.lookup x = .ok closure ∧
      ∀ n, ∃ again, closure.lookupAgain x n = .ok again ∧ closure.same again := by
  refine ⟨⟨?_, ?_⟩, h.lookup_eq_unbound, env.nodup_names, env.mem_names_iff, env.pairwise_names,
    fun v => h.lookup_eq_ok, ?_⟩
  · rintro ⟨v, hv⟩
    refine Decidable.byContradiction fun hx => ?_
    rw [h.lookup_eq_unbound hx] at hv
    cases hv
  · intro hx
    rw [Env.mem_names_iff, ← Env.innermost?_isSome_iff, Option.isSome_iff_exists] at hx
    obtain ⟨frame, hframe⟩ := hx
    obtain ⟨v, hv⟩ := Env.held?_of_innermost? hframe
    exact ⟨v, h.lookup_eq_ok.mpr ⟨frame, hframe, hv⟩⟩
  · intro stamp f param body tail hframe closure
    cases Env.binder?_of_innermost? hframe
    refine ⟨h.lookup_eq_ok.mpr ⟨_, hframe, rfl⟩, fun n => ⟨closure, ?_, ?_⟩⟩
    · exact Value.lookupAgain_recur stamp _ param body tail n
    · exact Value.same_self param body stamp _ param body tail

/-- A recursive binding of `f` hides a plain one, and a plain binding of `x` hides another; none
hides `f`. -/
theorem names_and_lookup_agree_shadowed :
    let body : Expr := .call default (.var default "f") (.var default "x")
    let inner := (Env.absent.extend ⟨1, 0⟩ "f" (.int 1)).extendRec ⟨2, 0⟩ "f" "x" body
    let env := (inner.extend ⟨3, 0⟩ "x" (.int 2)).extend ⟨4, 0⟩ "x" .absent
    env.Built ∧ env.names = ["x", "f"] ∧ env.binders = ["x", "x", "f", "f"] ∧
      env.lookup "x" = .ok .absent ∧ env.lookup "y" = .error (.unbound "y" none) ∧
      env.lookup "f" = .ok (.closure "x" body inner) ∧
      ∃ again, (Value.closure "x" body inner).lookupAgain "f" 3 = .ok again ∧
        (Value.closure "x" body inner).same again := by
  intro body inner env
  have hbuilt : env.Built := .extend (.extend (.extendRec (.extend .empty)))
  have hx := (names_and_lookup_agree env hbuilt "x").2.2.2.2.2.1
  have hy := (names_and_lookup_agree env hbuilt "y").2.1 (by decide)
  obtain ⟨hlookup, hagain⟩ := (names_and_lookup_agree env hbuilt "f").2.2.2.2.2.2 _ _ _ _ _ rfl
  exact ⟨hbuilt, by decide, by decide, (hx _).mpr ⟨_, rfl, rfl⟩, hy, hlookup, hagain 3⟩

end Letrec
