import Letrec.Proofs.Expr.Likeness
import Letrec.Proofs.Number.Numeral
import Letrec.Proofs.Text.Tokens

/-!
# Textbook notation can be read back

`spelling` is an expression as a list of tokens, and `readFrom` reads expressions off the front of
such a list: the first token or two tell the kind of the expression, and each kind has a fixed
number of parts. As the layout of an expression has its spelling for tokens, however it is broken
into lines, two expressions that are written alike are alike.
-/

namespace Letrec.Expr

open Text (Token tokens Starts isNameChar)

-- ---------------------------------------------------------------------------
-- Names
-- ---------------------------------------------------------------------------

def reserved : List String := ["if", "then", "else", "let", "letrec", "in", "proc"]

/-- ASCII letters, digits and underscores, with no digit in front, and not a reserved word. -/
structure IsIdentifier (x : String) : Prop where
  ne_empty : x ≠ ""
  chars : ∀ c ∈ x.toList, isNameChar c
  head : ∀ c ∈ x.toList.head?, c.isDigit = false
  free : x ∉ reserved

theorem isIdentifier_iff {x : String} : IsIdentifier x ↔
    x ≠ "" ∧ x.toList.all isNameChar ∧ x.toList.head?.any Char.isDigit = false ∧ x ∉ reserved := by
  rw [List.all_eq_true, Option.any_eq_false]
  constructor
  · rintro ⟨hne, hchars, hhead, hfree⟩
    exact ⟨hne, hchars, by simpa using hhead, hfree⟩
  · rintro ⟨hne, hchars, hhead, hfree⟩
    exact ⟨hne, hchars, by simpa using hhead, hfree⟩

instance (x : String) : Decidable (IsIdentifier x) := decidable_of_iff _ isIdentifier_iff.symm

def allNames : Expr → List String
  | .const .. | .absent => []
  | .var _ x => [x]
  | .diff _ left right => left.allNames ++ right.allNames
  | .zeroTest _ operand => operand.allNames
  | .ifThenElse _ test yes no => test.allNames ++ (yes.allNames ++ no.allNames)
  | .letIn _ x value body => x :: (value.allNames ++ body.allNames)
  | .letRec _ f x procBody body => f :: x :: (procBody.allNames ++ body.allNames)
  | .proc _ x body => x :: body.allNames
  | .call _ operator operand => operator.allNames ++ operand.allNames

def Spellable (e : Expr) : Prop := ∀ x ∈ e.allNames, IsIdentifier x

theorem tokens_name (hx : IsIdentifier x) (h : Starts rest) :
    tokens (x.toList ++ rest) = .word x.toList :: tokens rest := by
  rw [Text.tokens_append h, Text.tokens_word hx.chars (by simpa using hx.ne_empty)]
  rfl

-- ---------------------------------------------------------------------------
-- Numerals
-- ---------------------------------------------------------------------------

theorem isNameChar_of_isDigit (h : Char.isDigit c) : isNameChar c := by
  simp [isNameChar, Char.isAlphanum, h]

theorem tokens_toString (n : Int) : ∃ ds m, Number.Digits ds m ∧
    ((toString n).toList = ds ∧ tokens (toString n).toList = [.word ds] ∨
      (toString n).toList = '-' :: ds ∧ tokens (toString n).toList = [.mark '-', .word ds]) := by
  have hword {ds m} (h : Number.Digits ds m) : tokens ds = [.word ds] :=
    Text.tokens_word (fun c hc => isNameChar_of_isDigit (h.digits c hc)) h.ne_nil
  cases n with
  | ofNat m => exact ⟨_, m, Number.digits_repr m, .inl ⟨rfl, hword (Number.digits_repr m)⟩⟩
  | negSucc m =>
    have hdigits := Number.digits_repr (m + 1)
    refine ⟨_, m + 1, hdigits, .inr ⟨Number.toList_toString_negSucc m, ?_⟩⟩
    rw [Number.toList_toString_negSucc, Text.tokens_mark rfl rfl, hword hdigits]

theorem int64?_toString_toInt (n : Int64) : Number.int64? (toString n.toInt) = some n :=
  Number.int64?_eq_some.mpr (Number.numeral_toString n.toInt)

-- ---------------------------------------------------------------------------
-- Spelling
-- ---------------------------------------------------------------------------

def spelling : Expr → List Token
  | .const _ n => tokens (toString n.toInt).toList
  | .var _ x => [.word x.toList]
  | .diff _ left right =>
    .mark '-' :: .mark '(' :: (left.spelling ++ .mark ',' :: (right.spelling ++ [.mark ')']))
  | .zeroTest _ operand =>
    .word "zero".toList :: .mark '?' :: .mark '(' :: (operand.spelling ++ [.mark ')'])
  | .ifThenElse _ test yes no =>
    .word "if".toList :: (test.spelling ++ .word "then".toList ::
      (yes.spelling ++ .word "else".toList :: no.spelling))
  | .letIn _ x value body =>
    .word "let".toList :: .word x.toList :: .mark '=' ::
      (value.spelling ++ .word "in".toList :: body.spelling)
  | .letRec _ f x procBody body =>
    .word "letrec".toList :: .word f.toList :: .mark '(' :: .word x.toList :: .mark ')' ::
      .mark '=' :: (procBody.spelling ++ .word "in".toList :: body.spelling)
  | .proc _ x body =>
    .word "proc".toList :: .mark '(' :: .word x.toList :: .mark ')' :: body.spelling
  | .call _ operator operand =>
    .mark '(' :: (operator.spelling ++ (operand.spelling ++ [.mark ')']))
  | .absent => [.mark '<', .word "nil".toList, .mark '>']

theorem tokens_indentation (depth : Nat) :
    tokens ((indentation depth).toList ++ rest) = tokens rest := by
  refine Text.tokens_spaces fun c hc => ?_
  rw [indentation, String.toList_ofList] at hc
  rw [List.eq_of_mem_replicate hc]
  rfl

theorem tokens_layout {e : Expr} (he : e.Spellable) (depth : Nat) (rest : List Char)
    (h : Starts rest) : tokens ((e.layout depth).toList ++ rest) = e.spelling ++ tokens rest := by
  have hcut := @Text.tokens_append_of_ends
  have hstart := @Text.starts_append
  induction e generalizing depth rest with
  | const o n => exact Text.tokens_append h
  | var o x => exact tokens_name (he x (.head _)) h
  | diff o left right ihl ihr =>
    obtain ⟨hl, hr⟩ := List.forall_mem_append.mp he
    rw [layout.eq_def]
    simp only [spelling, String.toList_append, List.append_assoc, List.cons_append]
    rw [hcut "-(".toList rfl, ihl hl _ _ (hstart ", ".toList rfl), hcut ", ".toList rfl,
      ihr hr _ _ (hstart ")".toList rfl), hcut ")".toList rfl]
    rfl
  | zeroTest o operand ih =>
    rw [layout.eq_def]
    simp only [spelling, String.toList_append, List.append_assoc, List.cons_append]
    rw [hcut "zero?(".toList rfl, ih he _ _ (hstart ")".toList rfl), hcut ")".toList rfl]
    rfl
  | ifThenElse o test yes no iht ihy ihn =>
    obtain ⟨ht, hyn⟩ := List.forall_mem_append.mp he
    obtain ⟨hy, hn⟩ := List.forall_mem_append.mp hyn
    rw [layout.eq_def]
    simp only [spelling, String.toList_append, List.append_assoc, List.cons_append]
    rw [hcut "if ".toList rfl, iht ht _ _ (hstart "\n".toList rfl), hcut "\n".toList rfl,
      tokens_indentation,
      hcut "then ".toList rfl, ihy hy _ _ (hstart "\n".toList rfl), hcut "\n".toList rfl,
        tokens_indentation,
      hcut "else ".toList rfl, ihn hn _ _ h]
    rfl
  | letIn o x value body ihv ihb =>
    obtain ⟨hx, hvb⟩ := List.forall_mem_cons.mp he
    obtain ⟨hv, hb⟩ := List.forall_mem_append.mp hvb
    rw [layout.eq_def]
    simp only [spelling, String.toList_append, List.append_assoc, List.cons_append]
    rw [hcut "let ".toList rfl, tokens_name hx (hstart " = ".toList rfl), hcut " = ".toList rfl,
      ihv hv _ _ (hstart "\n".toList rfl), hcut "\n".toList rfl, tokens_indentation,
        hcut "in ".toList rfl,
      ihb hb _ _ h]
    rfl
  | letRec o f x procBody body ihp ihb =>
    obtain ⟨hf, hrest⟩ := List.forall_mem_cons.mp he
    obtain ⟨hx, hpb⟩ := List.forall_mem_cons.mp hrest
    obtain ⟨hp, hb⟩ := List.forall_mem_append.mp hpb
    rw [layout.eq_def]
    simp only [spelling, String.toList_append, List.append_assoc, List.cons_append]
    rw [hcut "letrec ".toList rfl, tokens_name hf (hstart "(".toList rfl), hcut "(".toList rfl,
      tokens_name hx (hstart ") = ".toList rfl), hcut ") = ".toList rfl,
        ihp hp _ _ (hstart "\n".toList rfl),
      hcut "\n".toList rfl, tokens_indentation, hcut "in ".toList rfl, ihb hb _ _ h]
    rfl
  | proc o x body ih =>
    obtain ⟨hx, hb⟩ := List.forall_mem_cons.mp he
    rw [layout.eq_def]
    simp only [spelling, String.toList_append, List.append_assoc, List.cons_append]
    rw [hcut "proc (".toList rfl, tokens_name hx (hstart ") ".toList rfl), hcut ") ".toList rfl,
      ih hb _ _ h]
    rfl
  | call o operator operand ihf iha =>
    obtain ⟨hf, ha⟩ := List.forall_mem_append.mp he
    rw [layout.eq_def]
    simp only [spelling, String.toList_append, List.append_assoc, List.cons_append]
    rw [hcut "(".toList rfl, ihf hf _ _ (hstart " ".toList rfl), hcut " ".toList rfl,
      iha ha _ _ (hstart ")".toList rfl), hcut ")".toList rfl]
    rfl
  | absent => exact hcut "<nil>".toList rfl

theorem tokens_format {e : Expr} (he : e.Spellable) : tokens e.format.toList = e.spelling := by
  rw [format, String.toList_append, tokens_layout he 0 "\n".toList (.cons rfl)]
  exact List.append_nil _

theorem tokens_inline {e : Expr} (he : e.Spellable) : tokens e.inline.toList = e.spelling := by
  have hwords : (Text.words (e.layout 0)).map String.toList =
    Text.wordsFrom [] (e.layout 0).toList := by
    simp [Text.words]
  have hlayout := tokens_layout he 0 [] nofun
  rw [List.append_nil, Text.tokens_nil, List.append_nil] at hlayout
  rw [inline, String.toList_intercalate, hwords, ← hlayout]
  exact Text.tokens_intercalate_wordsFrom _

-- ---------------------------------------------------------------------------
-- Reading
-- ---------------------------------------------------------------------------

def expect (t : Token) : List Token → Option (List Token)
  | [] => none
  | t' :: rest => if t' = t then some rest else none

def name? : List Token → Option (String × List Token)
  | .word w :: rest => some (String.ofList w, rest)
  | _ => none

@[simp] theorem expect_cons : expect t (t :: rest) = some rest := if_pos rfl

theorem expect_ne (h : t' ≠ t) : expect t (t' :: rest) = none := if_neg h

@[simp] theorem name?_cons (x : String) : name? (.word x.toList :: rest) = some (x, rest) := by
  simp [name?]

def readFrom : (fuel : Nat) → List Token → Option (Expr × List Token)
  | 0, _ => none
  | _, [] => none
  | fuel + 1, .mark c :: rest =>
    if c = '(' then do
      let (operator, rest) ← readFrom fuel rest
      let (operand, rest) ← readFrom fuel rest
      let rest ← expect (.mark ')') rest
      return (.call default operator operand, rest)
    else if c = '<' then do
      let rest ← expect (.word "nil".toList) rest
      let rest ← expect (.mark '>') rest
      return (.absent, rest)
    else if c = '-' then
      match expect (.mark '(') rest with
      | none => do
        let (ds, rest) ← name? rest
        let n ← Number.int64? ("-" ++ ds)
        return (.const default n, rest)
      | some rest => do
        let (left, rest) ← readFrom fuel rest
        let rest ← expect (.mark ',') rest
        let (right, rest) ← readFrom fuel rest
        let rest ← expect (.mark ')') rest
        return (.diff default left right, rest)
    else none
  | fuel + 1, .word w :: rest =>
    if w = "if".toList then do
      let (test, rest) ← readFrom fuel rest
      let rest ← expect (.word "then".toList) rest
      let (yes, rest) ← readFrom fuel rest
      let rest ← expect (.word "else".toList) rest
      let (no, rest) ← readFrom fuel rest
      return (.ifThenElse default test yes no, rest)
    else if w = "let".toList then do
      let (x, rest) ← name? rest
      let rest ← expect (.mark '=') rest
      let (value, rest) ← readFrom fuel rest
      let rest ← expect (.word "in".toList) rest
      let (body, rest) ← readFrom fuel rest
      return (.letIn default x value body, rest)
    else if w = "letrec".toList then do
      let (f, rest) ← name? rest
      let rest ← expect (.mark '(') rest
      let (x, rest) ← name? rest
      let rest ← expect (.mark ')') rest
      let rest ← expect (.mark '=') rest
      let (procBody, rest) ← readFrom fuel rest
      let rest ← expect (.word "in".toList) rest
      let (body, rest) ← readFrom fuel rest
      return (.letRec default f x procBody body, rest)
    else if w = "proc".toList then do
      let rest ← expect (.mark '(') rest
      let (x, rest) ← name? rest
      let rest ← expect (.mark ')') rest
      let (body, rest) ← readFrom fuel rest
      return (.proc default x body, rest)
    else if w.head?.any Char.isDigit then do
      let n ← Number.int64? (String.ofList w)
      return (.const default n, rest)
    else
      -- A zero test begins with a word that may be a name as well.
      match expect (.mark '?') rest with
      | none => some (.var default (String.ofList w), rest)
      | some rest => do
        let rest ← expect (.mark '(') rest
        let (operand, rest) ← readFrom fuel rest
        let rest ← expect (.mark ')') rest
        return (.zeroTest default operand, rest)

/-- What follows an expression cannot turn its last word into the beginning of a zero test. -/
def Follows (rest : List Token) : Prop := rest.head? ≠ some (.mark '?')

theorem Follows.cons (h : t ≠ .mark '?') : Follows (t :: rest) := by
  simpa [Follows] using h

theorem follows_spelling (e : Expr) : Follows (e.spelling ++ rest) := by
  cases e with
  | const o n =>
    rw [spelling]
    obtain ⟨ds, m, _, ⟨_, h⟩ | ⟨_, h⟩⟩ := tokens_toString n.toInt <;> rw [h] <;> simp [Follows]
  | _ => simp [Follows, spelling]

theorem Follows.expect (h : Follows rest) : Expr.expect (.mark '?') rest = none := by
  cases rest with
  | nil => rfl
  | cons t rest => exact if_neg fun heq => h (by rw [heq]; rfl)

theorem readFrom_const (o : Origin) (n : Int64) :
    readFrom (fuel + 1) ((Expr.const o n).spelling ++ rest) = some (.const default n, rest) := by
  have hread := int64?_toString_toInt n
  rw [← @String.ofList_toList (toString n.toInt)] at hread
  rw [spelling]
  obtain ⟨ds, m, hds, ⟨htext, h⟩ | ⟨htext, h⟩⟩ :=
    tokens_toString n.toInt <;> rw [htext] at hread <;> rw [h]
  · have hdigit : ds.head?.any Char.isDigit := by
      cases ds with
      | nil => exact absurd rfl hds.ne_nil
      | cons c ds => exact hds.digits c (.head _)
    have hne (k : String) (hk : k.toList.head?.any Char.isDigit = false) : ds ≠ k.toList := by
      rintro rfl
      rw [hk] at hdigit
      cases hdigit
    rw [List.singleton_append, readFrom, if_neg (hne _ rfl), if_neg (hne _ rfl), if_neg (hne _ rfl),
      if_neg (hne _ rfl), if_pos hdigit, hread]
    rfl
  · have hof : "-" ++ String.ofList ds = String.ofList ('-' :: ds) := by
      rw [← String.toList_inj]
      simp
    have hnone : expect (.mark '(') (.word ds :: rest) = none := expect_ne nofun
    rw [List.cons_append, readFrom, if_neg (by decide), if_neg (by decide), if_pos rfl,
      List.singleton_append, hnone]
    simp only [name?, Option.bind_eq_bind, Option.bind_some, hof, hread]
    rfl

theorem readFrom_var (o : Origin) (hx : IsIdentifier x) (h : Follows rest) :
    readFrom (fuel + 1) ((Expr.var o x).spelling ++ rest) = some (.var default x, rest) := by
  have hne (k : String) (hk : k ∈ reserved) : x.toList ≠ k.toList := by
    intro heq
    rw [String.toList_inj] at heq
    exact hx.free (heq ▸ hk)
  have hdigit : ¬ x.toList.head?.any Char.isDigit := by
    have hhead := hx.head
    cases hc : x.toList.head? with
    | none => simp
    | some c => simpa using hhead c hc
  rw [spelling, List.singleton_append, readFrom, if_neg (hne _ (by decide)),
    if_neg (hne _ (by decide)),
    if_neg (hne _ (by decide)), if_neg (hne _ (by decide)), if_neg hdigit, h.expect,
      String.ofList_toList]

theorem exists_succ_of_sizeOf_le {e : Expr} (h : sizeOf e ≤ fuel) : ∃ k, fuel = k + 1 :=
  ⟨fuel - 1, by cases e <;> simp at h <;> omega⟩

theorem readFrom_spelling {e : Expr} (he : e.Spellable) (hfuel : sizeOf e ≤ fuel)
    (h : Follows rest) : readFrom fuel (e.spelling ++ rest) = some (e.bare, rest) := by
  have hmark {c : Char} {rest : List Token} (hc : c ≠ '?') : Follows (.mark c :: rest) :=
    .cons (by simpa using hc)
  have hword {w : List Char} {rest : List Token} : Follows (.word w :: rest) := .cons nofun
  induction e generalizing fuel rest with
  | const o n =>
    obtain ⟨fuel, rfl⟩ := exists_succ_of_sizeOf_le hfuel
    exact readFrom_const o n
  | var o x =>
    obtain ⟨fuel, rfl⟩ := exists_succ_of_sizeOf_le hfuel
    exact readFrom_var o (he x (.head _)) h
  | diff o left right ihl ihr =>
    obtain ⟨hl, hr⟩ := List.forall_mem_append.mp he
    obtain ⟨fuel, rfl⟩ := exists_succ_of_sizeOf_le hfuel
    simp at hfuel
    rw [spelling, List.cons_append, readFrom, if_neg (by decide), if_neg (by decide), if_pos rfl,
      List.cons_append, expect_cons]
    simp only [List.append_assoc, List.cons_append]
    rw [ihl hl (by omega) (hmark (by decide))]
    simp only [Option.bind_eq_bind, Option.bind_some, expect_cons]
    rw [ihr hr (by omega) (hmark (by decide))]
    rfl
  | zeroTest o operand ih =>
    obtain ⟨fuel, rfl⟩ := exists_succ_of_sizeOf_le hfuel
    simp at hfuel
    rw [spelling, List.cons_append, readFrom, if_neg (by decide), if_neg (by decide),
      if_neg (by decide), if_neg (by decide), if_neg (by decide), List.cons_append, expect_cons]
    simp only [Option.bind_eq_bind, Option.bind_some, List.append_assoc, List.cons_append,
      expect_cons]
    rw [ih he (by omega) (hmark (by decide))]
    rfl
  | ifThenElse o test yes no iht ihy ihn =>
    obtain ⟨ht, hyn⟩ := List.forall_mem_append.mp he
    obtain ⟨hy, hn⟩ := List.forall_mem_append.mp hyn
    obtain ⟨fuel, rfl⟩ := exists_succ_of_sizeOf_le hfuel
    simp at hfuel
    rw [spelling, List.cons_append, readFrom, if_pos rfl]
    simp only [List.append_assoc, List.cons_append]
    rw [iht ht (by omega) hword]
    simp only [Option.bind_eq_bind, Option.bind_some, expect_cons]
    rw [ihy hy (by omega) hword]
    simp only [Option.bind_some, expect_cons]
    rw [ihn hn (by omega) h]
    rfl
  | letIn o x value body ihv ihb =>
    obtain ⟨_, hvb⟩ := List.forall_mem_cons.mp he
    obtain ⟨hv, hb⟩ := List.forall_mem_append.mp hvb
    obtain ⟨fuel, rfl⟩ := exists_succ_of_sizeOf_le hfuel
    simp at hfuel
    rw [spelling, List.cons_append, readFrom, if_neg (by decide), if_pos rfl]
    simp only [Option.bind_eq_bind, Option.bind_some, List.append_assoc, List.cons_append,
      name?_cons, expect_cons]
    rw [ihv hv (by omega) hword]
    simp only [Option.bind_some, expect_cons]
    rw [ihb hb (by omega) h]
    rfl
  | letRec o f x procBody body ihp ihb =>
    obtain ⟨_, hrest⟩ := List.forall_mem_cons.mp he
    obtain ⟨_, hpb⟩ := List.forall_mem_cons.mp hrest
    obtain ⟨hp, hb⟩ := List.forall_mem_append.mp hpb
    obtain ⟨fuel, rfl⟩ := exists_succ_of_sizeOf_le hfuel
    simp at hfuel
    rw [spelling, List.cons_append, readFrom, if_neg (by decide), if_neg (by decide), if_pos rfl]
    simp only [Option.bind_eq_bind, Option.bind_some, List.append_assoc, List.cons_append,
      name?_cons, expect_cons]
    rw [ihp hp (by omega) hword]
    simp only [Option.bind_some, expect_cons]
    rw [ihb hb (by omega) h]
    rfl
  | proc o x body ih =>
    obtain ⟨_, hb⟩ := List.forall_mem_cons.mp he
    obtain ⟨fuel, rfl⟩ := exists_succ_of_sizeOf_le hfuel
    simp at hfuel
    rw [spelling, List.cons_append, readFrom, if_neg (by decide), if_neg (by decide),
      if_neg (by decide), if_pos rfl]
    simp only [Option.bind_eq_bind, Option.bind_some, List.cons_append, name?_cons, expect_cons]
    rw [ih hb (by omega) h]
    rfl
  | call o operator operand ihf iha =>
    obtain ⟨hf, ha⟩ := List.forall_mem_append.mp he
    obtain ⟨fuel, rfl⟩ := exists_succ_of_sizeOf_le hfuel
    simp at hfuel
    rw [spelling, List.cons_append, readFrom, if_pos rfl]
    simp only [List.append_assoc]
    rw [ihf hf (by omega) (follows_spelling operand)]
    simp only [Option.bind_eq_bind, Option.bind_some]
    rw [List.singleton_append, iha ha (by omega) (hmark (by decide))]
    rfl
  | absent =>
    obtain ⟨fuel, rfl⟩ := exists_succ_of_sizeOf_le hfuel
    rfl

theorem bare_eq_of_spelling {a b : Expr} (ha : a.Spellable) (hb : b.Spellable)
    (h : a.spelling = b.spelling) : a.bare = b.bare := by
  have hread {e : Expr} (he : e.Spellable) (hfuel : sizeOf e ≤ sizeOf a + sizeOf b) :
      readFrom (sizeOf a + sizeOf b) e.spelling = some (e.bare, []) := by
    have h : readFrom _ (e.spelling ++ []) = some (e.bare, []) := readFrom_spelling he hfuel nofun
    rwa [List.append_nil] at h
  have heq := (hread ha (by omega)).symm.trans (h ▸ hread hb (by omega))
  exact (Prod.mk.inj (Option.some.inj heq)).1

/-- Expressions whose names are identifiers are written alike, on one line or over several, only if
they are alike. -/
theorem printed_form_is_unambiguous (a b : Expr) (ha : ∀ x ∈ a.allNames, IsIdentifier x)
    (hb : ∀ x ∈ b.allNames, IsIdentifier x) :
    (a.inline = b.inline ↔ a.alike b) ∧ (a.format = b.format ↔ a.alike b) := by
  rw [alike_iff]
  refine ⟨⟨fun h => ?_, fun h => ?_⟩, ⟨fun h => ?_, fun h => ?_⟩⟩
  · refine bare_eq_of_spelling ha hb ?_
    rw [← tokens_inline ha, ← tokens_inline hb, h]
  · rw [← inline_bare, h, inline_bare]
  · refine bare_eq_of_spelling ha hb ?_
    rw [← tokens_format ha, ← tokens_format hb, h]
  · rw [← format_bare, h, format_bare]

/-- `(zero -5)` calls a procedure, which is no zero test of `-5`; where it was written does
not matter. -/
theorem printed_form_is_unambiguous_zero :
    let here : Origin := ⟨⟨0, 0⟩, ⟨"a", 1, 1⟩⟩
    let a : Expr := .call default (.var default "zero") (.const default (-5))
    let a' : Expr := .call here (.var here "zero") (.const here (-5))
    let b : Expr := .zeroTest default (.const default (-5))
    (∀ x ∈ a.allNames, IsIdentifier x) ∧ (∀ x ∈ b.allNames, IsIdentifier x) ∧
      a.inline = a'.inline ∧ a.format = a'.format ∧ a.inline ≠ b.inline ∧ a.format ≠ b.format := by
  intro here a a' b
  have ha : ∀ x ∈ a.allNames, IsIdentifier x := by decide
  have ha' : ∀ x ∈ a'.allNames, IsIdentifier x := by decide
  have hb : ∀ x ∈ b.allNames, IsIdentifier x := by decide
  obtain ⟨hinline, hformat⟩ := printed_form_is_unambiguous a a' ha ha'
  obtain ⟨hinline', hformat'⟩ := printed_form_is_unambiguous a b ha hb
  refine ⟨ha, hb, hinline.mpr (by decide), hformat.mpr (by decide), fun h => ?_, fun h => ?_⟩
  · exact absurd (hinline'.mp h) (by decide)
  · exact absurd (hformat'.mp h) (by decide)

end Letrec.Expr
