import Letrec.Number.Numeral

/-!
# What numerals stand for

The numerals of 64-bit integers, told apart from how they are read: one or more decimal digits with
at most one sign in front, whose value lies in the range. `int64?_eq_some` says that exactly these
are read, and `numeral_toString` that integers are written so.
-/

namespace Letrec.Number

/-- Decimal digits, one at least, and the number they stand for. -/
structure Digits (cs : List Char) (n : Nat) : Prop where
  ne_nil : cs ≠ []
  digits : ∀ c ∈ cs, c.isDigit
  value : Nat.ofDigitChars 10 cs 0 = n

inductive Numeral : List Char → Int → Prop
  | unsigned (h : Digits cs n) : Numeral cs n
  | plus (h : Digits cs n) : Numeral ('+' :: cs) n
  | minus (h : Digits cs n) : Numeral ('-' :: cs) (-n)

theorem digit?_eq_some (c : Char) (d : Nat) :
    digit? c = some d ∧ d < 10 ↔ c.isDigit ∧ d = c.toNat - '0'.toNat := by
  have hdigit : c.isDigit = true ↔ '0' ≤ c ∧ c ≤ '9' := by
    rw [Char.isDigit, Bool.and_eq_true, decide_eq_true_eq, decide_eq_true_eq]
    rfl
  unfold digit?
  simp only [hdigit, Bool.and_eq_true, decide_eq_true_eq]
  by_cases hc : '0' ≤ c ∧ c ≤ '9'
  · have hle : c.toNat ≤ 57 := UInt32.le_iff_toNat_le.mp hc.2
    have hzero : '0'.toNat = 48 := rfl
    rw [if_pos hc, Option.some.injEq, and_iff_right hc]
    omega
  · -- The further digits of larger bases stand for ten and more.
    rw [if_neg hc, iff_false_intro hc, false_and, iff_false]
    split
    · rintro ⟨hd, hlt⟩
      cases hd
      omega
    · split
      · rintro ⟨hd, hlt⟩
        cases hd
        omega
      · exact fun h => nomatch h.1

theorem digitsFrom_eq_some {value : Nat} :
    digitsFrom 10 value cs = some n ↔ (∀ c ∈ cs, c.isDigit) ∧ Nat.ofDigitChars 10 cs value = n := by
  induction cs generalizing value with
  | nil => simp [digitsFrom]
  | cons c rest ih =>
    have hdigit := digit?_eq_some c
    rw [digitsFrom, Nat.ofDigitChars_cons, List.forall_mem_cons]
    cases hd : digit? c with
    | none =>
      have : ¬ c.isDigit := fun h => by simpa [hd] using (hdigit _).mpr ⟨h, rfl⟩
      simp [this]
    | some d =>
      simp only [hd, Option.some.injEq] at hdigit
      by_cases hlt : d < 10
      · obtain ⟨hc, rfl⟩ := (hdigit d).mp ⟨rfl, hlt⟩
        simp only [if_pos hlt, ih, hc, true_and, Nat.mul_comm]
      · have : ¬ c.isDigit := fun h => by
          obtain ⟨heq, hlt'⟩ := (hdigit _).mpr ⟨h, rfl⟩
          exact hlt (heq ▸ hlt')
        simp [hlt, this]

theorem digits?_eq_some : digits? 10 cs = some n ↔ Digits cs n := by
  cases cs with
  | nil => exact ⟨nofun, fun h => absurd rfl h.ne_nil⟩
  | cons c rest =>
    rw [digits?, digitsFrom_eq_some]
    exact ⟨fun h => ⟨nofun, h.1, h.2⟩, fun h => ⟨h.digits, h.value⟩⟩

theorem Digits.head_ne (h : Digits (c :: cs) n) (hc : c.isDigit = false) : False := by
  have := h.digits c (.head _)
  rw [hc] at this
  cases this

theorem signed?_eq_some : signed? (digits? 10) cs = some n ↔ Numeral cs n := by
  constructor
  · intro h
    unfold signed? at h
    split at h
    all_goals
      simp only [Option.map_eq_some_iff, Option.bind_eq_bind, Option.bind_eq_some_iff,
        Option.pure_def, Option.some.injEq] at h
      obtain ⟨_, ⟨m, hm, rfl⟩, rfl⟩ := h
      rw [digits?_eq_some] at hm
    · exact .minus hm
    · exact .plus hm
    · exact .unsigned hm
  · intro h
    cases h with
    | plus h => simp [signed?, digits?_eq_some.mpr h]
    | minus h => simp [signed?, digits?_eq_some.mpr h]
    | unsigned h =>
      unfold signed?
      split
      · exact (h.head_ne rfl).elim
      · exact (h.head_ne rfl).elim
      · simp [digits?_eq_some.mpr h]

theorem fitsInt64_iff : fitsInt64 n ↔ (Int64.ofInt n).toInt = n := by
  have hmin : Int64.minValue.toInt = -2 ^ 63 := rfl
  have hmax : Int64.maxValue.toInt = 2 ^ 63 - 1 := rfl
  simp only [fitsInt64, hmin, hmax, Bool.and_eq_true, decide_eq_true_eq]
  constructor
  · rintro ⟨hle, hlt⟩
    exact Int64.toInt_ofInt_of_le hle (Int.lt_of_le_sub_one hlt)
  · intro h
    rw [← h]
    exact ⟨Int64.le_toInt _, Int.le_sub_one_of_lt (Int64.toInt_lt _)⟩

theorem int64?_eq_some {text : String} {n : Int64} :
    int64? text = some n ↔ Numeral text.toList n.toInt := by
  rw [← signed?_eq_some]
  unfold int64?
  cases signed? (digits? 10) text.toList with
  | none => simp
  | some m =>
    simp only [Option.some.injEq]
    constructor
    · intro h
      split at h
      · rename_i hfits
        cases h
        exact (fitsInt64_iff.mp hfits).symm
      · cases h
    · rintro rfl
      rw [if_pos (fitsInt64_iff.mpr (by rw [Int64.ofInt_toInt])), Int64.ofInt_toInt]

theorem digits_repr (n : Nat) : Digits n.repr.toList n := by
  rw [Nat.toList_repr]
  exact ⟨Nat.toDigits_ne_nil, fun c => Nat.isDigit_of_mem_toDigits (by decide) (by decide),
    Nat.ofDigitChars_ten_toDigits⟩

theorem toList_toString_negSucc (m : Nat) :
    (toString (Int.negSucc m)).toList = '-' :: (m + 1).repr.toList := by
  rw [Int.toString_eq_repr, Int.repr, String.toList_append]
  rfl

theorem numeral_toString (n : Int) : Numeral (toString n).toList n := by
  cases n with
  | ofNat m => exact .unsigned (digits_repr m)
  | negSucc m =>
    rw [toList_toString_negSucc, Int.negSucc_eq]
    exact .minus (digits_repr (m + 1))

theorem newline_not_mem_toString (n : Int) : '\n' ∉ (toString n).toList := by
  have hdigits (m : Nat) : '\n' ∉ m.repr.toList := fun h => by cases (digits_repr m).digits _ h
  cases n with
  | ofNat m => exact hdigits m
  | negSucc m =>
    rw [toList_toString_negSucc]
    simpa using hdigits (m + 1)

end Letrec.Number
