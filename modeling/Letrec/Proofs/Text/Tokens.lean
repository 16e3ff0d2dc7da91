import Letrec.Text.Basic
import Mathlib.Data.List.Basic

/-!
# Texts as tokens

A text read as words of letters, digits and underscores and as single other characters. White space
only divides words, so that a text and its words with one blank between them have the same tokens:
`tokens_intercalate_wordsFrom`.
-/

namespace Letrec.Text

def isNameChar (c : Char) : Bool := c.isAlphanum || c == '_'

theorem isNameChar_of_isSpace (h : isSpace c) : isNameChar c = false := by
  rw [Bool.eq_false_iff]
  intro hname
  simp only [isSpace, Bool.or_eq_true, Bool.and_eq_true, decide_eq_true_eq, beq_iff_eq] at h
  change ((decide (65 ≤ c.val ∧ c.val ≤ 90) || (decide (97 ≤ c.val) && decide (c.val ≤ 122))) ||
    (decide (48 ≤ c.val) && decide (c.val ≤ 57)) || c == '_') = true at hname
  simp only [Bool.or_eq_true, Bool.and_eq_true, decide_eq_true_eq, beq_iff_eq,
    UInt32.le_iff_toNat_le] at hname
  change ((((65 ≤ c.toNat ∧ c.toNat ≤ 90) ∨ (97 ≤ c.toNat ∧ c.toNat ≤ 122)) ∨
    (48 ≤ c.toNat ∧ c.toNat ≤ 57)) ∨ c = '_') at hname
  rcases hname with hname | rfl
  · omega
  · revert h
    decide

inductive Token where
  | word (cs : List Char)
  | mark (c : Char)
deriving DecidableEq

/-- The word that has been read up to here, if there is one; `word` is reversed. -/
def flush (word : List Char) : List Token := if word.isEmpty then [] else [.word word.reverse]

def tokensFrom (word : List Char) : List Char → List Token
  | [] => flush word
  | c :: rest =>
    if isNameChar c then tokensFrom (c :: word) rest
    else flush word ++ ((if isSpace c then [] else [.mark c]) ++ tokensFrom [] rest)

def tokens (cs : List Char) : List Token := tokensFrom [] cs

@[simp] theorem tokens_nil : tokens [] = [] := rfl

/-- No word goes on into the text from in front of it. -/
def Starts (cs : List Char) : Prop := ∀ c ∈ cs.head?, isNameChar c = false

theorem Starts.cons (h : isNameChar c = false) : Starts (c :: cs) := by
  rintro _ ⟨⟩
  exact h

theorem starts_append (a : List Char) (h : a.head?.any (!isNameChar ·)) : Starts (a ++ b) := by
  cases a with
  | nil => cases h
  | cons c rest => exact .cons (by simpa using h)

theorem tokensFrom_of_starts (h : Starts cs) : tokensFrom word cs = flush word ++ tokens cs := by
  cases cs with
  | nil => simp [tokens, tokensFrom, flush]
  | cons c rest =>
    have hc : isNameChar c = false := h c rfl
    simp [tokens, tokensFrom, hc, flush]

theorem tokensFrom_append (h : Starts b) :
    tokensFrom word (a ++ b) = tokensFrom word a ++ tokens b := by
  induction a generalizing word with
  | nil => rw [List.nil_append, tokensFrom_of_starts h, tokensFrom]
  | cons c rest ih =>
    simp only [List.cons_append, tokensFrom, ih]
    split <;> simp

theorem tokens_append (h : Starts b) : tokens (a ++ b) = tokens a ++ tokens b := tokensFrom_append h

theorem tokensFrom_append_of_ends (a : List Char)
    (h : a.getLast?.all (!isNameChar ·)) (hne : a ≠ []) :
    tokensFrom word (a ++ b) = tokensFrom word a ++ tokens b := by
  induction a generalizing word with
  | nil => exact absurd rfl hne
  | cons c rest ih =>
    cases rest with
    | nil =>
      have hc : isNameChar c = false := by simpa using h
      simp [tokens, tokensFrom, hc, flush]
    | cons d rest =>
      rw [List.getLast?_cons_cons] at h
      simp only [List.cons_append, tokensFrom] at ih ⊢
      split <;> simp [ih h]

theorem tokens_append_of_ends (a : List Char) (h : a.getLast?.all (!isNameChar ·)) :
    tokens (a ++ b) = tokens a ++ tokens b := by
  cases a with
  | nil => rfl
  | cons c rest => exact tokensFrom_append_of_ends _ h (List.cons_ne_nil _ _)

theorem tokens_space (h : isSpace c) : tokens (c :: cs) = tokens cs := by
  simp [tokens, tokensFrom, isNameChar_of_isSpace h, h, flush]

theorem tokens_mark (hname : isNameChar c = false) (hspace : isSpace c = false) :
    tokens (c :: cs) = .mark c :: tokens cs := by
  simp [tokens, tokensFrom, hname, hspace, flush]

theorem tokens_spaces (h : ∀ c ∈ a, isSpace c) : tokens (a ++ b) = tokens b := by
  induction a with
  | nil => rfl
  | cons c rest ih =>
    rw [List.forall_mem_cons] at h
    rw [List.cons_append, tokens_space h.1, ih h.2]

theorem tokensFrom_word (h : ∀ c ∈ cs, isNameChar c) :
    tokensFrom word cs = flush (cs.reverse ++ word) := by
  induction cs generalizing word with
  | nil => rfl
  | cons c rest ih =>
    rw [List.forall_mem_cons] at h
    simp [tokensFrom, h.1, ih h.2]

theorem tokens_word (h : ∀ c ∈ cs, isNameChar c) (hne : cs ≠ []) : tokens cs = [.word cs] := by
  simp [tokens, tokensFrom_word h, flush, hne]

-- ---------------------------------------------------------------------------
-- White space
-- ---------------------------------------------------------------------------

theorem tokens_intercalate (ws : List (List Char)) :
    tokens ([' '].intercalate ws) = ws.flatMap tokens := by
  induction ws with
  | nil => rfl
  | cons w ws ih =>
    cases ws with
    | nil => simp
    | cons w' ws =>
      rw [List.intercalate_cons_cons, List.append_assoc, List.singleton_append,
        tokens_append (.cons rfl), tokens_space rfl, ih]
      rfl

theorem flatMap_wordsFrom (word cs : List Char) :
    (wordsFrom word cs).flatMap tokens = tokens (word.reverse ++ cs) := by
  induction cs generalizing word with
  | nil => cases word <;> simp [wordsFrom, tokens, tokensFrom, flush]
  | cons c rest ih =>
    by_cases hc : isSpace c
    · rw [tokens_append (.cons (isNameChar_of_isSpace hc)), tokens_space hc]
      cases word with
      | nil => simpa [wordsFrom, hc] using ih []
      | cons d word => simpa [wordsFrom, hc] using ih []
    · simpa [wordsFrom, hc] using ih (c :: word)

theorem tokens_intercalate_wordsFrom (cs : List Char) :
    tokens ([' '].intercalate (wordsFrom [] cs)) = tokens cs := by
  rw [tokens_intercalate, flatMap_wordsFrom, List.reverse_nil, List.nil_append]

end Letrec.Text
