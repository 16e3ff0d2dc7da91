import Letrec.Text.Basic
import Mathlib.Data.List.Basic

/-!
# Texts moved to the right

A text is moved to the right by blanks behind each of its newlines. This is done piece by piece
(`shifted_append`), changes no line but for the blanks in front of it (`splitOn_shifted`), and
leaves the words of the text as they are (`words_shifted`).
-/

namespace Letrec.Text

def blanks (n : Nat) : List Char := List.replicate n ' '

def shiftedChars (n : Nat) (cs : List Char) : List Char :=
  cs.flatMap fun c => if c = '\n' then '\n' :: blanks n else [c]

def shifted (n : Nat) (text : String) : String := String.ofList (shiftedChars n text.toList)

/-- The lines with `n` blanks in front of each but the first. -/
def hanging (n : Nat) : List (List Char) → List (List Char)
  | [] => []
  | first :: rest => first :: rest.map (blanks n ++ ·)

@[simp] theorem shiftedChars_newline :
    shiftedChars n ('\n' :: cs) = '\n' :: (blanks n ++ shiftedChars n cs) := by
  simp [shiftedChars]

theorem shiftedChars_cons (h : c ≠ '\n') : shiftedChars n (c :: cs) = c :: shiftedChars n cs := by
  simp [shiftedChars, h]

theorem shiftedChars_of_not_mem (h : '\n' ∉ cs) : shiftedChars n cs = cs := by
  induction cs with
  | nil => rfl
  | cons c cs ih =>
    rw [List.mem_cons, not_or] at h
    rw [shiftedChars_cons (Ne.symm h.1), ih h.2]

-- ---------------------------------------------------------------------------
-- Pieces
-- ---------------------------------------------------------------------------

theorem shifted_append (a b : String) : shifted n (a ++ b) = shifted n a ++ shifted n b := by
  simp [shifted, shiftedChars, String.ofList_append]

theorem shifted_of_not_mem {text : String} (h : '\n' ∉ text.toList) : shifted n text = text := by
  rw [shifted, shiftedChars_of_not_mem h, String.ofList_toList]

theorem shifted_newline : shifted n "\n" = "\n" ++ String.ofList (blanks n) := by
  rw [← String.toList_inj]
  simp [shifted, shiftedChars]

-- ---------------------------------------------------------------------------
-- Lines
-- ---------------------------------------------------------------------------

theorem splitOn_append {a : List Char} (h : '\n' ∉ a) :
    (a ++ b).splitOn '\n' = (b.splitOn '\n').modifyHead (a ++ ·) := by
  induction a with
  | nil =>
    rw [List.nil_append]
    cases b.splitOn '\n' <;> rfl
  | cons c a ih =>
    rw [List.mem_cons, not_or] at h
    have hc : ¬ (c == '\n') = true := by simpa using Ne.symm h.1
    rw [List.cons_append, List.splitOn_cons_eq_if_modifyHead, if_neg hc, ih h.2,
      List.modifyHead_modifyHead]
    rfl

theorem newline_not_mem_blanks : '\n' ∉ blanks n := by
  simp [blanks]

theorem splitOn_shiftedChars (cs : List Char) :
    (shiftedChars n cs).splitOn '\n' = hanging n (cs.splitOn '\n') := by
  induction cs with
  | nil => rfl
  | cons c cs ih =>
    -- The rest of the text has a first line, which goes on from `c` unless that is the end of a
    -- line.
    obtain ⟨first, rest, hcs⟩ := List.exists_cons_of_ne_nil (List.splitOn_ne_nil '\n' cs)
    rw [hcs] at ih
    by_cases hc : c = '\n'
    · subst hc
      rw [shiftedChars_newline, List.splitOn_cons_eq_if_modifyHead,
        List.splitOn_cons_eq_if_modifyHead, splitOn_append newline_not_mem_blanks, ih, hcs]
      rfl
    · have hne : ¬ (c == '\n') = true := by simpa using hc
      rw [shiftedChars_cons hc, List.splitOn_cons_eq_if_modifyHead,
        List.splitOn_cons_eq_if_modifyHead, if_neg hne, if_neg hne, ih, hcs]
      rfl

theorem splitOn_shifted (text : String) :
    (shifted n text).toList.splitOn '\n' = hanging n (text.toList.splitOn '\n') := by
  rw [shifted, String.toList_ofList, splitOn_shiftedChars]

-- ---------------------------------------------------------------------------
-- Words
-- ---------------------------------------------------------------------------

theorem wordsFrom_blanks (cs : List Char) : wordsFrom [] (blanks n ++ cs) = wordsFrom [] cs := by
  induction n with
  | zero => rfl
  | succ n ih => exact ih

theorem wordsFrom_shiftedChars (word cs : List Char) :
    wordsFrom word (shiftedChars n cs) = wordsFrom word cs := by
  induction cs generalizing word with
  | nil => rfl
  | cons c cs ih =>
    by_cases hc : c = '\n'
    · subst hc
      have hspace : isSpace '\n' = true := rfl
      simp only [shiftedChars_newline, wordsFrom, hspace, if_true, wordsFrom_blanks, ih]
    · simp only [shiftedChars_cons hc, wordsFrom, ih]

theorem words_shifted (text : String) : words (shifted n text) = words text := by
  rw [words, shifted, String.toList_ofList, wordsFrom_shiftedChars, words]

end Letrec.Text
