import Letrec.Json.Read
import Letrec.Proofs.Number.Numeral

/-!
# What is written as JSON is read back

The text of a value is read as that value, with its numbers as they are written. Reading is shown to
take exactly the text of a value off the front of any text in which it is not continued; only a
number could be.
-/

namespace Letrec.Json

open Number (Digits digits_repr toList_toString_negSucc newline_not_mem_toString)

-- ---------------------------------------------------------------------------
-- Strings
-- ---------------------------------------------------------------------------

def coded : List Nat := List.range 0x20 ++ [0x26, 0x3c, 0x3e, 0x2028, 0x2029]

/-- A character is written in a short form, by its code, or as it is. -/
theorem escapedChar_cases (c : Char) :
    (∃ d, escapedChar c = ['\\', d] ∧ simpleEscape? d = some c) ∨
    c.toNat ∈ coded ∧ escapedChar c = '\\' :: 'u' :: Text.hex 4 c.toNat ∨
    escapedChar c = [c] ∧ ¬ c.toNat < 0x20 ∧ c ≠ '"' ∧ c ≠ '\\' := by
  unfold escapedChar
  split
  case h_8 hquote hslash _ _ _ _ _ =>
    split
    case isTrue h =>
      refine .inr (.inl ⟨?_, rfl⟩)
      simp only [Bool.or_eq_true, decide_eq_true_eq, beq_iff_eq] at h
      rcases h with ((((h | rfl) | rfl) | rfl) | rfl) | rfl
      · exact List.mem_append_left _ (List.mem_range.mpr h)
      all_goals decide
    case isFalse h => exact .inr (.inr ⟨rfl, fun hlt => h (by simp [hlt]), hquote, hslash⟩)
  all_goals exact .inl ⟨_, rfl, rfl⟩

def unit? : List Char → Option Nat
  | [a, b, c, d] => hexValue? a b c d
  | _ => none

theorem unit?_hex : ∀ n ∈ coded, unit? (Text.hex 4 n) = some n := by decide

theorem not_surrogate : ∀ n ∈ coded, isHighSurrogate n = false ∧ isLowSurrogate n = false := by
  decide

theorem stringFrom?_hex (hn : n ∈ coded) (text tail : List Char) :
    stringFrom? text none ('\\' :: 'u' :: (Text.hex 4 n ++ tail)) =
      stringFrom? (Char.ofNat n :: text) none tail := by
  have hunit := unit?_hex n hn
  unfold unit? at hunit
  split at hunit
  case h_1 a b c d hhex =>
    obtain ⟨hhigh, hlow⟩ := not_surrogate n hn
    simp [hhex, stringFrom?, hunit, addUnit, hhigh, hlow, settle]
  case h_2 => cases hunit

theorem stringFrom?_escapedChar (c : Char) (text tail : List Char) :
    stringFrom? text none (escapedChar c ++ tail) = stringFrom? (c :: text) none tail := by
  rcases escapedChar_cases c with ⟨d, heq, hd⟩ | ⟨hn, heq⟩ | ⟨heq, hcode, hquote, hslash⟩
  · have hu : d ≠ 'u' := by
      rintro rfl
      cases hd
    simp [heq, stringFrom?, hu, hd, settle]
  · rw [heq, List.cons_append, List.cons_append, stringFrom?_hex hn, Char.ofNat_toNat]
  · simp [heq, stringFrom?, hcode, hslash, settle]

theorem stringFrom?_flatMap (cs text rest : List Char) :
    stringFrom? text none (cs.flatMap escapedChar ++ '"' :: rest) =
      some (String.ofList (text.reverse ++ cs), rest) := by
  induction cs generalizing text with
  | nil => simp [stringFrom?, settle]
  | cons c cs ih =>
    rw [List.flatMap_cons, List.append_assoc, stringFrom?_escapedChar, ih]
    simp

theorem toList_renderString (s : String) :
    (renderString s).toList = '"' :: (s.toList.flatMap escapedChar ++ ['"']) := by
  simp [renderString]

theorem stringFrom?_renderString (s : String) (rest : List Char) :
    ∃ cs, (renderString s).toList ++ rest = '"' :: cs ∧
      stringFrom? [] none cs = some (s, rest) := by
  refine ⟨s.toList.flatMap escapedChar ++ '"' :: rest, by simp [toList_renderString], ?_⟩
  simpa using stringFrom?_flatMap s.toList [] rest

-- ---------------------------------------------------------------------------
-- Numbers
-- ---------------------------------------------------------------------------

def EndsNumber : List Char → Prop
  | [] => True
  | c :: _ => c.isDigit = false ∧ c ≠ '.' ∧ c ≠ 'e' ∧ c ≠ 'E'

def Literal.ofInt (n : Int) : Literal := ⟨true, n < 0, ⟨n.natAbs, 0⟩⟩

theorem natOfDigits_eq (cs : List Char) (value : Nat) :
    natOfDigits value cs = Nat.ofDigitChars 10 cs value := by
  induction cs generalizing value with
  | nil => rfl
  | cons c cs ih =>
    refine (ih _).trans ?_
    rw [Nat.ofDigitChars_cons, Nat.mul_comm value]

theorem digits?_append (h : Digits ds n) (hrest : EndsNumber rest) :
    digits? (ds ++ rest) = some (ds, rest) := by
  have hnone : rest.takeWhile Char.isDigit = [] ∧ rest.dropWhile Char.isDigit = rest := by
    cases rest with
    | nil => simp
    | cons c rest => simp [hrest.1]
  have htake : (ds ++ rest).takeWhile Char.isDigit = ds := by
    rw [List.takeWhile_append_of_pos h.digits, hnone.1, List.append_nil]
  have hdrop : (ds ++ rest).dropWhile Char.isDigit = rest := by
    rw [List.dropWhile_append_of_pos h.digits, hnone.2]
  unfold digits?
  rw [htake, hdrop]
  cases ds with
  | nil => exact absurd rfl h.ne_nil
  | cons => rfl

theorem fraction?_of_ends (h : EndsNumber rest) : fraction? rest = some ([], rest) := by
  cases rest with
  | nil => rfl
  | cons c rest => rw [fraction?]; simp_all [EndsNumber]

theorem exponent?_of_ends (h : EndsNumber rest) : exponent? rest = some (none, rest) := by
  cases rest with
  | nil => rfl
  | cons c rest => simp_all [EndsNumber, exponent?]

theorem toDigits_head (h : Nat.toDigits 10 n = '0' :: ds) : n = 0 ∧ ds = [] := by
  induction n using Nat.strongRecOn generalizing ds with
  | ind n ih =>
    rw [Nat.toDigits_eq_if (by decide)] at h
    split at h
    case isTrue hlt =>
      obtain ⟨hzero, rfl⟩ := List.cons.inj h
      have hall : ∀ n < 10, n.digitChar = '0' → n = 0 := by decide
      exact ⟨hall n hlt hzero, rfl⟩
    case isFalse hle =>
      cases hds : Nat.toDigits 10 (n / 10) with
      | nil => exact absurd hds Nat.toDigits_ne_nil
      | cons c cs =>
        rw [hds, List.cons_append] at h
        obtain ⟨rfl, -⟩ := List.cons.inj h
        have := (ih (n / 10) (by omega) hds).1
        omega

theorem number?_repr (m : Nat) (h : EndsNumber rest) :
    number? (m.repr.toList ++ rest) = some (⟨true, false, ⟨m, 0⟩⟩, rest) ∧
    number? ('-' :: (m.repr.toList ++ rest)) = some (⟨true, true, ⟨m, 0⟩⟩, rest) := by
  have hvalue : natOfDigits 0 m.repr.toList = m := by rw [natOfDigits_eq, (digits_repr m).value]
  have hread := digits?_append (digits_repr m) h
  cases hds : m.repr.toList with
  | nil => exact absurd hds (digits_repr m).ne_nil
  | cons c ds =>
    rw [hds] at hvalue hread
    rw [List.cons_append] at hread ⊢
    by_cases hc : c = '0'
    · subst hc
      obtain ⟨rfl, rfl⟩ := toDigits_head (Nat.toList_repr ▸ hds)
      constructor <;> simp [number?, fraction?_of_ends h, exponent?_of_ends h, hvalue]
    · have hminus : c ≠ '-' := by
        rintro rfl
        exact absurd ((digits_repr m).digits '-' (by simp [hds])) (by decide)
      constructor <;>
        simp [number?, hc, hminus, hread, fraction?_of_ends h, exponent?_of_ends h, hvalue]

theorem number?_toString (n : Int) (h : EndsNumber rest) :
    number? ((toString n).toList ++ rest) = some (Literal.ofInt n, rest) := by
  cases n with
  | ofNat m => exact (number?_repr m h).1
  | negSucc m =>
    have hneg : Literal.ofInt (.negSucc m) = ⟨true, true, ⟨m + 1, 0⟩⟩ := by
      simp [Literal.ofInt, Int.negSucc_lt_zero]
    rw [toList_toString_negSucc, List.cons_append, hneg]
    exact (number?_repr (m + 1) h).2

-- ---------------------------------------------------------------------------
-- Values
-- ---------------------------------------------------------------------------

mutual
def literal : Json Int → Json Literal
  | .null => .null
  | .bool b => .bool b
  | .number n => .number (.ofInt n)
  | .string s => .string s
  | .array items => .array (literalItems items)
  | .object fields => .object (literalFields fields)

def literalItems : List (Json Int) → List (Json Literal)
  | [] => []
  | item :: rest => item.literal :: literalItems rest

def literalFields : List (String × Json Int) → List (String × Json Literal)
  | [] => []
  | (key, value) :: rest => (key, value.literal) :: literalFields rest
end

mutual
def depth : Json ν → Nat
  | .array items => depthItems items + 1
  | .object fields => depthFields fields + 1
  | _ => 0

def depthItems : List (Json ν) → Nat
  | [] => 0
  | item :: rest => max item.depth (depthItems rest)

def depthFields : List (String × Json ν) → Nat
  | [] => 0
  | (_, value) :: rest => max value.depth (depthFields rest)
end

def itemChars (items : List (Json Int)) : List Char :=
  (String.intercalate "," (renderItems toString items)).toList

def fieldChars (fields : List (String × Json Int)) : List Char :=
  (String.intercalate "," (renderFields toString fields)).toList

theorem itemChars_singleton (item : Json Int) : itemChars [item] = item.text.toList := by
  simp [itemChars, renderItems, text]

theorem itemChars_cons (item next : Json Int) (rest : List (Json Int)) :
    itemChars (item :: next :: rest) = item.text.toList ++ ',' :: itemChars (next :: rest) := by
  simp [itemChars, renderItems, text, String.toList_intercalate]

theorem fieldChars_singleton (key : String) (value : Json Int) :
    fieldChars [(key, value)] = (renderString key).toList ++ ':' :: value.text.toList := by
  simp [fieldChars, renderFields, text]

theorem fieldChars_cons (key : String) (value : Json Int) (next : String × Json Int)
    (rest : List (String × Json Int)) :
    fieldChars ((key, value) :: next :: rest) =
      (renderString key).toList ++ ':' ::
        (value.text.toList ++ ',' :: fieldChars (next :: rest)) := by
  simp [fieldChars, renderFields, text, String.toList_intercalate]

theorem text_array (items : List (Json Int)) :
    (array items).text.toList = '[' :: (itemChars items ++ [']']) := by
  simp [text, render, itemChars]

theorem text_object (fields : List (String × Json Int)) :
    (object fields).text.toList = '\x7b' :: (fieldChars fields ++ ['\x7d']) := by
  simp [text, render, fieldChars]

theorem isBlank_of_isDigit (h : c.isDigit = true) : isBlank c = false := by
  rw [isBlank, Bool.eq_false_iff]
  intro hblank
  simp only [Bool.or_eq_true, beq_iff_eq] at hblank
  rcases hblank with ((rfl | rfl) | rfl) | rfl <;> cases h

theorem number_head (n : Int) :
    ∃ c cs, (toString n).toList = c :: cs ∧ (c.isDigit = true ∨ c = '-') := by
  cases n with
  | ofNat m =>
    have hdigits := digits_repr m
    change ∃ c cs, m.repr.toList = c :: cs ∧ _
    cases hds : m.repr.toList with
    | nil => exact absurd hds hdigits.ne_nil
    | cons c cs => exact ⟨c, cs, rfl, .inl (hdigits.digits c (by simp [hds]))⟩
  | negSucc m => exact ⟨'-', _, toList_toString_negSucc m, .inr rfl⟩

theorem text_head (v : Json Int) :
    ∃ c cs, v.text.toList = c :: cs ∧ isBlank c = false ∧ c ≠ ']' := by
  cases v with
  | null => exact ⟨'n', _, rfl, by decide, by decide⟩
  | bool b => cases b <;> exact ⟨_, _, rfl, by decide, by decide⟩
  | number n =>
    obtain ⟨c, cs, htext, hc⟩ := number_head n
    refine ⟨c, cs, htext, ?_⟩
    rcases hc with hc | rfl
    · refine ⟨isBlank_of_isDigit hc, ?_⟩
      rintro rfl
      cases hc
    · decide
  | string s => exact ⟨'"', _, toList_renderString s, by decide, by decide⟩
  | array items => exact ⟨'[', _, text_array items, by decide, by decide⟩
  | object fields => exact ⟨'\x7b', _, text_object fields, by decide, by decide⟩

theorem skipBlanks_text (v : Json Int) (rest : List Char) :
    skipBlanks (v.text.toList ++ rest) = v.text.toList ++ rest := by
  obtain ⟨c, cs, htext, hc, -⟩ := text_head v
  simp [htext, skipBlanks, hc]

theorem valueFrom?_number (n : Int) (h : EndsNumber rest) :
    valueFrom? (fuel + 1) room ((toString n).toList ++ rest) = some (.number (.ofInt n), rest) := by
  obtain ⟨c, cs, htext, hc⟩ := number_head n
  have hread := number?_toString n h
  rw [htext, List.cons_append] at hread ⊢
  rw [valueFrom?]
  · rw [hread]
    rfl
  all_goals
    rintro _ heq
    obtain ⟨rfl, -⟩ := List.cons.inj heq
    exact absurd hc (by decide)

variable {v : Json Int}

def marks : List Char := [',', ':', ']', '\x7d']

theorem endsNumber_mark (hc : c ∈ marks) (rest : List Char) : EndsNumber (c :: rest) := by
  revert c
  simp [marks, EndsNumber]

theorem skipBlanks_mark (hc : c ∈ marks) (rest : List Char) :
    skipBlanks (c :: rest) = c :: rest := by
  revert c
  simp [marks, skipBlanks, isBlank]

theorem skipBlanks_renderString (s : String) (rest : List Char) :
    skipBlanks ((renderString s).toList ++ rest) = (renderString s).toList ++ rest := by
  simp [toList_renderString, skipBlanks, isBlank]

theorem itemsFrom?_last
    (hv : valueFrom? fuel room (v.text.toList ++ ']' :: rest) = some (v.literal, ']' :: rest)) :
    itemsFrom? (fuel + 1) room done (v.text.toList ++ ']' :: rest) =
      some ((v.literal :: done).reverse, rest) := by
  rw [itemsFrom?, skipBlanks_text, hv]
  simp only [skipBlanks_mark (show ']' ∈ marks by decide)]

theorem itemsFrom?_next
    (hv : valueFrom? fuel room (v.text.toList ++ ',' :: rest) = some (v.literal, ',' :: rest)) :
    itemsFrom? (fuel + 1) room done (v.text.toList ++ ',' :: rest) =
      itemsFrom? fuel room (v.literal :: done) rest := by
  rw [itemsFrom?, skipBlanks_text, hv]
  simp only [skipBlanks_mark (show ',' ∈ marks by decide)]

theorem fieldsFrom?_last
    (hv : valueFrom? fuel room (v.text.toList ++ '\x7d' :: rest) =
      some (v.literal, '\x7d' :: rest)) :
    fieldsFrom? (fuel + 1) room done
      ((renderString key).toList ++ ':' :: (v.text.toList ++ '\x7d' :: rest)) =
      some (((key, v.literal) :: done).reverse, rest) := by
  obtain ⟨cs, hcs, hkey⟩ := stringFrom?_renderString key (':' :: (v.text.toList ++ '\x7d' :: rest))
  rw [fieldsFrom?, skipBlanks_renderString, hcs]
  simp only [hkey, skipBlanks_mark (show ':' ∈ marks by decide), skipBlanks_text, hv,
    skipBlanks_mark (show '\x7d' ∈ marks by decide)]

theorem fieldsFrom?_next
    (hv : valueFrom? fuel room (v.text.toList ++ ',' :: rest) = some (v.literal, ',' :: rest)) :
    fieldsFrom? (fuel + 1) room done
      ((renderString key).toList ++ ':' :: (v.text.toList ++ ',' :: rest)) =
      fieldsFrom? fuel room ((key, v.literal) :: done) rest := by
  obtain ⟨cs, hcs, hkey⟩ := stringFrom?_renderString key (':' :: (v.text.toList ++ ',' :: rest))
  rw [fieldsFrom?, skipBlanks_renderString, hcs]
  simp only [hkey, skipBlanks_mark (show ':' ∈ marks by decide), skipBlanks_text, hv,
    skipBlanks_mark (show ',' ∈ marks by decide)]

theorem itemChars_head (item : Json Int) (others : List (Json Int)) :
    ∃ c cs, itemChars (item :: others) = c :: cs ∧ isBlank c = false ∧ c ≠ ']' := by
  obtain ⟨c, cs, htext, hc⟩ := text_head item
  cases others with
  | nil => exact ⟨c, cs, (itemChars_singleton item).trans htext, hc⟩
  | cons next others => exact ⟨c, _, by rw [itemChars_cons, htext, List.cons_append], hc⟩

theorem fieldChars_head (field : String × Json Int) (others : List (String × Json Int)) :
    ∃ cs, fieldChars (field :: others) = '"' :: cs := by
  obtain ⟨key, value⟩ := field
  cases others with
  | nil => exact ⟨_, by rw [fieldChars_singleton, toList_renderString, List.cons_append]⟩
  | cons next others => exact ⟨_, by rw [fieldChars_cons, toList_renderString, List.cons_append]⟩

theorem valueFrom?_array
    (hitems : items ≠ [] →
      itemsFrom? fuel room [] (itemChars items ++ ']' :: rest) = some (literalItems items, rest)) :
    valueFrom? (fuel + 1) (room + 1) ((array items).text.toList ++ rest) =
      some ((array items).literal, rest) := by
  rw [text_array, List.cons_append, List.append_assoc, List.singleton_append, literal]
  cases items with
  | nil =>
    have hskip := skipBlanks_mark (show ']' ∈ marks by decide) rest
    simp [itemChars, renderItems, valueFrom?, hskip, literalItems]
  | cons item others =>
    obtain ⟨c, cs, hchars, hblank, hc⟩ := itemChars_head item others
    have hread := hitems nofun
    rw [hchars, List.cons_append] at hread ⊢
    simp [valueFrom?, skipBlanks, hblank, hc, hread]

theorem valueFrom?_object
    (hfields : fields ≠ [] →
      fieldsFrom? fuel room [] (fieldChars fields ++ '\x7d' :: rest) =
        some (literalFields fields, rest)) :
    valueFrom? (fuel + 1) (room + 1) ((object fields).text.toList ++ rest) =
      some ((object fields).literal, rest) := by
  rw [text_object, List.cons_append, List.append_assoc, List.singleton_append, literal]
  cases fields with
  | nil =>
    have hskip := skipBlanks_mark (show '\x7d' ∈ marks by decide) rest
    simp [fieldChars, renderFields, valueFrom?, hskip, literalFields]
  | cons field others =>
    obtain ⟨cs, hchars⟩ := fieldChars_head field others
    have hread := hfields nofun
    rw [hchars, List.cons_append] at hread ⊢
    simp [valueFrom?, skipBlanks, isBlank, hread]

/-- On so much fuel the texts of values and of their parts are read back. -/
structure Reads (fuel : Nat) : Prop where
  value : ∀ (v : Json Int) room rest, v.text.toList.length ≤ fuel → v.depth ≤ room →
    EndsNumber rest → valueFrom? fuel room (v.text.toList ++ rest) = some (v.literal, rest)
  items : ∀ items room done rest, items ≠ [] → (itemChars items).length < fuel →
    depthItems items ≤ room →
    itemsFrom? fuel room done (itemChars items ++ ']' :: rest) =
      some (done.reverse ++ literalItems items, rest)
  fields : ∀ fields room done rest, fields ≠ [] → (fieldChars fields).length < fuel →
    depthFields fields ≤ room →
    fieldsFrom? fuel room done (fieldChars fields ++ '\x7d' :: rest) =
      some (done.reverse ++ literalFields fields, rest)

namespace Reads

theorem value_succ (h : Reads fuel) (v : Json Int) (hfuel : v.text.toList.length ≤ fuel + 1)
    (hroom : v.depth ≤ room) (hrest : EndsNumber rest) :
    valueFrom? (fuel + 1) room (v.text.toList ++ rest) = some (v.literal, rest) := by
  cases v with
  | null => simp [text, render, valueFrom?, literal]
  | bool b => cases b <;> simp [text, render, valueFrom?, literal]
  | number n => exact valueFrom?_number n hrest
  | string s =>
    obtain ⟨cs, hcs, hread⟩ := stringFrom?_renderString s rest
    change valueFrom? (fuel + 1) room ((renderString s).toList ++ rest) = _
    rw [hcs, valueFrom?, hread]
    rfl
  | array items =>
    rw [text_array, List.length_cons, List.length_append, List.length_singleton] at hfuel
    rw [depth] at hroom
    obtain ⟨room, rfl⟩ := Nat.exists_eq_add_one.mpr (Nat.lt_of_lt_of_le (Nat.succ_pos _) hroom)
    exact valueFrom?_array fun hne => h.items items room [] rest hne (by omega) (by omega)
  | object fields =>
    rw [text_object, List.length_cons, List.length_append, List.length_singleton] at hfuel
    rw [depth] at hroom
    obtain ⟨room, rfl⟩ := Nat.exists_eq_add_one.mpr (Nat.lt_of_lt_of_le (Nat.succ_pos _) hroom)
    exact valueFrom?_object fun hne => h.fields fields room [] rest hne (by omega) (by omega)

theorem items_succ (h : Reads fuel) (item : Json Int) (others : List (Json Int))
    (hfuel : (itemChars (item :: others)).length < fuel + 1)
    (hroom : depthItems (item :: others) ≤ room) :
    itemsFrom? (fuel + 1) room done (itemChars (item :: others) ++ ']' :: rest) =
      some (done.reverse ++ literalItems (item :: others), rest) := by
  rw [depthItems, Nat.max_le] at hroom
  cases others with
  | nil =>
    rw [itemChars_singleton] at hfuel ⊢
    have hread :=
      h.value item room (']' :: rest) (by omega) hroom.1 (endsNumber_mark (by decide) rest)
    rw [itemsFrom?_last hread]
    simp [literalItems]
  | cons next others =>
    rw [itemChars_cons] at hfuel ⊢
    rw [List.length_append, List.length_cons] at hfuel
    rw [List.append_assoc, List.cons_append]
    have hread :=
      h.value item room (',' :: (itemChars (next :: others) ++ ']' :: rest)) (by omega) hroom.1
      (endsNumber_mark (by decide) _)
    rw [itemsFrom?_next hread, h.items (next :: others) room _ rest nofun (by omega) hroom.2]
    simp [literalItems]

theorem fields_succ (h : Reads fuel) (field : String × Json Int) (others : List (String × Json Int))
    (hfuel : (fieldChars (field :: others)).length < fuel + 1)
    (hroom : depthFields (field :: others) ≤ room) :
    fieldsFrom? (fuel + 1) room done (fieldChars (field :: others) ++ '\x7d' :: rest) =
      some (done.reverse ++ literalFields (field :: others), rest) := by
  obtain ⟨key, value⟩ := field
  rw [depthFields, Nat.max_le] at hroom
  cases others with
  | nil =>
    rw [fieldChars_singleton] at hfuel ⊢
    rw [List.length_append, List.length_cons] at hfuel
    rw [List.append_assoc, List.cons_append]
    have hread :=
      h.value value room ('\x7d' :: rest) (by omega) hroom.1 (endsNumber_mark (by decide) rest)
    rw [fieldsFrom?_last hread]
    simp [literalFields]
  | cons next others =>
    rw [fieldChars_cons] at hfuel ⊢
    simp only [List.length_append, List.length_cons] at hfuel
    simp only [List.append_assoc, List.cons_append]
    have hread :=
      h.value value room (',' :: (fieldChars (next :: others) ++ '\x7d' :: rest)) (by omega) hroom.1
      (endsNumber_mark (by decide) _)
    rw [fieldsFrom?_next hread, h.fields (next :: others) room _ rest nofun (by omega) hroom.2]
    simp [literalFields]

end Reads

theorem reads (fuel : Nat) : Reads fuel := by
  induction fuel with
  | zero =>
    refine ⟨fun v _ _ hfuel => ?_, fun _ _ _ _ _ hfuel => absurd hfuel (Nat.not_lt_zero _),
      fun _ _ _ _ _ hfuel => absurd hfuel (Nat.not_lt_zero _)⟩
    obtain ⟨c, cs, htext, -⟩ := text_head v
    rw [htext] at hfuel
    exact absurd hfuel (Nat.not_succ_le_zero _)
  | succ fuel ih =>
    refine ⟨fun v _ _ => ih.value_succ v, fun items _ _ _ hne => ?_, fun fields _ _ _ hne => ?_⟩
    · cases items with
      | nil => exact absurd rfl hne
      | cons item others => exact ih.items_succ item others
    · cases fields with
      | nil => exact absurd rfl hne
      | cons field others => exact ih.fields_succ field others

theorem read?_text (v : Json Int) (h : v.depth ≤ greatestDepth) :
    read? v.text = some v.literal := by
  have hskip := skipBlanks_text v []
  have hread :=
    (reads (v.text.toList.length + 1)).value v greatestDepth [] (Nat.le_succ _) h trivial
  rw [List.append_nil] at hskip hread
  simp only [read?, hskip, hread]
  rfl

-- ---------------------------------------------------------------------------
-- One line
-- ---------------------------------------------------------------------------

theorem newline_not_mem_hex : ∀ n ∈ coded, '\n' ∉ Text.hex 4 n := by decide

theorem newline_not_mem_escapedChar (c : Char) : '\n' ∉ escapedChar c := by
  rcases escapedChar_cases c with ⟨d, heq, hd⟩ | ⟨hn, heq⟩ | ⟨heq, hcode, -, -⟩ <;> rw [heq]
  · have hnewline : d ≠ '\n' := by
      rintro rfl
      cases hd
    simpa using hnewline.symm
  · simpa using newline_not_mem_hex c.toNat hn
  · rw [List.mem_singleton]
    rintro rfl
    exact hcode (by decide)

theorem newline_not_mem_renderString (s : String) : '\n' ∉ (renderString s).toList := by
  simp [toList_renderString, newline_not_mem_escapedChar]

theorem newline_not_mem_itemChars (h : ∀ item ∈ items, '\n' ∉ item.text.toList) :
    '\n' ∉ itemChars items := by
  induction items with
  | nil => simp [itemChars, renderItems]
  | cons item others ih =>
    rw [List.forall_mem_cons] at h
    cases others with
    | nil => simpa [itemChars_singleton] using h.1
    | cons next others => simpa [itemChars_cons] using ⟨h.1, ih h.2⟩

theorem newline_not_mem_fieldChars (h : ∀ field ∈ fields, '\n' ∉ field.2.text.toList) :
    '\n' ∉ fieldChars fields := by
  induction fields with
  | nil => simp [fieldChars, renderFields]
  | cons field others ih =>
    obtain ⟨key, value⟩ := field
    rw [List.forall_mem_cons] at h
    cases others with
    | nil => simpa [fieldChars_singleton, newline_not_mem_renderString] using h.1
    | cons next others => simpa [fieldChars_cons, newline_not_mem_renderString] using ⟨h.1, ih h.2⟩

theorem newline_not_mem_text (v : Json Int) : '\n' ∉ v.text.toList := by
  match v with
  | .null => decide
  | .bool b => cases b <;> decide
  | .number n => exact newline_not_mem_toString n
  | .string s => exact newline_not_mem_renderString s
  | .array items =>
    have hitems :=
      newline_not_mem_itemChars fun item (_ : item ∈ items) => newline_not_mem_text item
    simpa [text_array] using hitems
  | .object fields =>
    have hfields :=
      newline_not_mem_fieldChars fun field (_ : field ∈ fields) => newline_not_mem_text field.2
    simpa [text_object] using hfields
termination_by sizeOf v
decreasing_by
  · have := List.sizeOf_lt_of_mem ‹item ∈ items›
    simp_wf
    omega
  · have := List.sizeOf_lt_of_mem ‹field ∈ fields›
    obtain ⟨key, value⟩ := field
    simp_wf
    simp only [Prod.mk.sizeOf_spec] at this
    omega

end Letrec.Json
