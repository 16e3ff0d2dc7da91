import Letrec.Evaluation.Event
import Letrec.Proofs.Json.RoundTrip
import Letrec.Trace.Line
import Mathlib.Data.List.Basic

/-!
# The lines of a trace file

An event that is written to a line of its own is found there again. The lines before some line are
the same whatever follows them, unless one of them is too long and ends the file there; so a line
can be added or left out without regard to the others.
-/

namespace Letrec

-- ---------------------------------------------------------------------------
-- Bytes of a text
-- ---------------------------------------------------------------------------

namespace Text

theorem toList_loop (bytes : ByteArray) (i : Nat) (acc : List UInt8) :
    ByteArray.toList.loop bytes i acc = acc.reverse ++ bytes.data.toList.drop i := by
  fun_induction ByteArray.toList.loop bytes i acc with
  | case1 i acc h ih =>
    have hlt : i < bytes.data.toList.length := h
    have hget : bytes.get! i = bytes.data.toList[i] := getElem!_pos bytes.data i h
    rw [ih, List.drop_eq_getElem_cons hlt, hget]
    simp
  | case2 i acc h =>
    have hle : bytes.data.toList.length ≤ i := Nat.le_of_not_lt h
    rw [List.drop_eq_nil_of_le hle, List.append_nil]

theorem toList_eq_data (bytes : ByteArray) : bytes.toList = bytes.data.toList :=
  toList_loop bytes 0 []

theorem toList_toUTF8 (s : String) : s.toUTF8.toList = s.toList.flatMap String.utf8EncodeChar := by
  have hbytes : s.toByteArray = s.toList.utf8Encode := by
    rw [← String.toByteArray_ofList, String.ofList_toList]
  rw [String.toUTF8_eq_toByteArray, hbytes, toList_eq_data]
  simp [List.utf8Encode]

theorem ofBytes_toUTF8 (s : String) : ofBytes ⟨s.toUTF8.toList.toArray⟩ = s := by
  have hread : String.fromUTF8? s.toUTF8 = some s := by
    simp only [String.fromUTF8?, String.toUTF8_eq_toByteArray, dif_pos s.isValidUTF8]
    rfl
  rw [toList_eq_data, Array.toArray_toList, ofBytes, hread]

/-- The byte of a newline stands in no other character. -/
theorem newline_mem_utf8EncodeChar {c : Char} (h : 10 ∈ String.utf8EncodeChar c) : c = '\n' := by
  have hten : (10 : UInt8).toNat = 10 := rfl
  simp only [String.utf8EncodeChar] at h
  split_ifs at h
  all_goals
    simp only [List.mem_cons, List.not_mem_nil, or_false, ← UInt8.toNat_inj,
      UInt8.toNat_ofNat', hten] at h
  · have hval : c.val.toNat = 10 := by omega
    exact Char.ext (UInt32.toNat_inj.mp hval)
  all_goals omega

theorem newline_not_mem_toUTF8 {s : String} (h : '\n' ∉ s.toList) : 10 ∉ s.toUTF8.toList := by
  rw [toList_toUTF8, List.mem_flatMap]
  rintro ⟨c, hc, hbyte⟩
  exact h (newline_mem_utf8EncodeChar hbyte ▸ hc)

theorem trim_eq {s : String} (h : s.toList = c :: (cs ++ [d])) (hc : isSpace c = false)
    (hd : isSpace d = false) : trim s = s := by
  rw [← String.toList_inj, trim, h]
  simp [hc, hd]

end Text

namespace Trace

-- ---------------------------------------------------------------------------
-- Lines of bytes
-- ---------------------------------------------------------------------------

open linesFrom (finish)

-- What happens up to the next newline, to the end of the file, and in a line that is too long.

theorem linesFrom_newline (acc : List UInt8) (size : Nat) (hline : 10 ∉ line)
    (hsize : size + line.length < lengthLimit) (rest : List UInt8) :
    linesFrom acc size (line ++ 10 :: rest) =
      finish (line.reverse ++ acc) :: linesFrom [] 0 rest := by
  induction line generalizing acc size with
  | nil => simp [linesFrom]
  | cons byte line ih =>
    rw [List.mem_cons, not_or] at hline
    rw [List.length_cons] at hsize
    have hnext : ¬ size + 1 ≥ lengthLimit := by omega
    rw [List.cons_append, linesFrom, if_neg (Ne.symm hline.1), if_neg hnext,
      ih _ _ hline.2 (by omega)]
    simp

theorem linesFrom_end (acc : List UInt8) (size : Nat) (hline : 10 ∉ line)
    (hsize : size + line.length < lengthLimit) :
    linesFrom acc size line =
      if size + line.length = 0 then [] else [finish (line.reverse ++ acc)] := by
  induction line generalizing acc size with
  | nil => simp [linesFrom]
  | cons byte line ih =>
    rw [List.mem_cons, not_or] at hline
    rw [List.length_cons] at hsize
    have hnext : ¬ size + 1 ≥ lengthLimit := by omega
    rw [linesFrom, if_neg (Ne.symm hline.1), if_neg hnext, ih _ _ hline.2 (by omega)]
    simp

theorem linesFrom_long (acc : List UInt8) (hline : 10 ∉ line) (hsize : size < lengthLimit)
    (hlong : lengthLimit ≤ size + line.length) (rest : List UInt8) :
    linesFrom acc size (line ++ rest) = [] := by
  induction line generalizing acc size with
  | nil => exact absurd hlong (by simpa using hsize)
  | cons byte line ih =>
    rw [List.mem_cons, not_or] at hline
    rw [List.length_cons] at hlong
    rw [List.cons_append, linesFrom, if_neg (Ne.symm hline.1)]
    split
    · rfl
    · exact ih _ hline.2 (by omega) (by omega)

/-- The bytes are those of whole lines, each with its newline. -/
def Whole (bytes : List UInt8) : Prop := bytes = [] ∨ bytes.getLast? = some 10

/-- What stands before some line is read in the same way whatever follows: to the end, or up to a
line that is too long. -/
theorem linesFrom_append (h : bytes.getLast? = some 10) (acc : List UInt8) (size : Nat) :
    ∃ lines, (∀ rest, linesFrom acc size (bytes ++ rest) = lines) ∨
      ∀ rest, linesFrom acc size (bytes ++ rest) = lines ++ linesFrom [] 0 rest := by
  induction bytes generalizing acc size with
  | nil => cases h
  | cons byte bytes ih =>
    by_cases hbyte : byte = 10
    · subst hbyte
      cases bytes with
      | nil => exact ⟨[finish acc], .inr fun rest => by simp [linesFrom]⟩
      | cons next bytes =>
        rw [List.getLast?_cons_cons] at h
        obtain ⟨lines, hlines | hlines⟩ := ih h [] 0
        · exact ⟨finish acc :: lines, .inl
            fun rest => by rw [List.cons_append, linesFrom, if_pos rfl, hlines]⟩
        · exact ⟨finish acc :: lines, .inr fun rest => by
            rw [List.cons_append, linesFrom, if_pos rfl, hlines, List.cons_append]⟩
    · cases bytes with
      | nil => exact absurd (Option.some.inj h) hbyte
      | cons next bytes =>
        rw [List.getLast?_cons_cons] at h
        by_cases hlong : size + 1 ≥ lengthLimit
        · exact ⟨[], .inl fun rest => by rw [List.cons_append, linesFrom, if_neg hbyte,
            if_pos hlong]⟩
        · obtain ⟨lines, hlines⟩ := ih h (byte :: acc) (size + 1)
          refine ⟨lines, hlines.imp ?_ ?_⟩ <;>
          · intro hlines rest
            rw [List.cons_append, linesFrom, if_neg hbyte, if_neg hlong, hlines]

theorem Whole.lines (h : Whole bytes) :
    ∃ lines, (∀ rest, linesFrom [] 0 (bytes ++ rest) = lines) ∨
      ∀ rest, linesFrom [] 0 (bytes ++ rest) = lines ++ linesFrom [] 0 rest := by
  rcases h with rfl | h
  · exact ⟨[], .inr fun _ => rfl⟩
  · exact linesFrom_append h [] 0

-- ---------------------------------------------------------------------------
-- Lines that hold no event, and lines that are too long
-- ---------------------------------------------------------------------------

def eventIn? (line : List UInt8) : Option Line :=
  let text := Text.trim (Text.ofBytes ⟨line.toArray⟩)
  if text = "" then none else Line.ofText? text

theorem linesOf_eq (bytes : ByteArray) :
    linesOf bytes = (linesFrom [] 0 bytes.toList).filterMap eventIn? := rfl

theorem linesOf_toArray (bytes : List UInt8) :
    linesOf ⟨bytes.toArray⟩ = (linesFrom [] 0 bytes).filterMap eventIn? := by
  rw [linesOf_eq, Text.toList_eq_data]

theorem linesOf_nil : linesOf ⟨([] : List UInt8).toArray⟩ = [] := by
  rw [linesOf_toArray]
  rfl

/-- The text of a line, without a carriage return at its end and the white space around it. -/
def lineText (line : List UInt8) : String :=
  Text.trim (Text.ofBytes ⟨(finish line.reverse).toArray⟩)

def Idle (line : List UInt8) : Prop := lineText line = "" ∨ Json.read? (lineText line) = none

theorem eventIn?_finish (line : List UInt8) :
    eventIn? (finish line.reverse) = Line.ofText? (lineText line) := by
  change (if lineText line = "" then none else Line.ofText? (lineText line)) = _
  split
  · next hblank =>
    rw [hblank]
    rfl
  · rfl

theorem Idle.eventIn? (h : Idle line) : eventIn? (finish line.reverse) = none := by
  rw [eventIn?_finish]
  rcases h with hblank | hread
  · rw [hblank]
    rfl
  · rw [Line.ofText?, hread]
    rfl

theorem linesOf_idle (hbefore : Whole before) (hline : 10 ∉ line)
    (hsize : line.length < lengthLimit) (h : Idle line) (after : List UInt8) :
    linesOf ⟨(before ++ (line ++ 10 :: after)).toArray⟩ = linesOf ⟨(before ++ after).toArray⟩ := by
  have hnewline := linesFrom_newline [] 0 hline (by simpa using hsize) after
  rw [linesOf_toArray, linesOf_toArray]
  obtain ⟨lines, hlines | hlines⟩ := hbefore.lines
  · rw [hlines, hlines]
  · rw [hlines, hlines, hnewline, List.filterMap_append, List.filterMap_append, List.append_nil,
      List.filterMap_cons_none h.eventIn?]

theorem linesOf_idle_end (hbefore : Whole before) (hline : 10 ∉ line)
    (hsize : line.length < lengthLimit) (h : Idle line) :
    linesOf ⟨(before ++ line).toArray⟩ = linesOf ⟨before.toArray⟩ := by
  have hend := linesFrom_end [] 0 hline (by simpa using hsize)
  rw [linesOf_toArray, linesOf_toArray]
  obtain ⟨lines, hlines | hlines⟩ := hbefore.lines
  all_goals
    have hnone := hlines []
    rw [List.append_nil] at hnone
    rw [hlines, hnone]
  rw [hend, List.filterMap_append, List.filterMap_append, List.append_nil]
  split
  · rfl
  · rw [List.filterMap_cons_none h.eventIn?]
    rfl

theorem linesOf_long (hbefore : Whole before) (hline : 10 ∉ line)
    (hlong : lengthLimit ≤ line.length) (after : List UInt8) :
    linesOf ⟨(before ++ (line ++ after)).toArray⟩ = linesOf ⟨before.toArray⟩ := by
  have hend := linesFrom_long [] hline (show 0 < lengthLimit by decide) (by simpa using hlong) after
  rw [linesOf_toArray, linesOf_toArray]
  obtain ⟨lines, hlines | hlines⟩ := hbefore.lines
  all_goals
    have hnone := hlines []
    rw [List.append_nil] at hnone
    rw [hlines, hnone]
  rw [hend]
  rfl

-- ---------------------------------------------------------------------------
-- Lines of events
-- ---------------------------------------------------------------------------

def Line.ofEvent (time : String) (e : Event) : Line :=
  { event := e.what.name, runId := e.runId, time, data := e.what.data }

theorem depth_toJson (time : String) (e : Event) : (e.toJson time).depth ≤ 2 := by
  obtain ⟨what, runId, span⟩ := e
  cases span <;> cases what <;>
    simp [Event.toJson, Happening.data, Diagnostic.spanJson, Json.depth, Json.depthFields]

theorem Line.ofText?_toJson (time : String) (e : Event) :
    Line.ofText? (e.toJson time).text = some (.ofEvent time e) := by
  have hread := Json.read?_text (e.toJson time) (Nat.le_trans (depth_toJson time e) (by decide))
  rw [Line.ofText?, hread]
  have hevent : isKey "event" "event" = true ∧ isKey "event" "ts" = false ∧
      isKey "event" "runId" = false ∧ isKey "event" "span" = false ∧
      isKey "event" "data" = false := by decide
  have hrunId : isKey "runId" "runId" = true ∧ isKey "runId" "ts" = false ∧
      isKey "runId" "span" = false ∧ isKey "runId" "data" = false := by decide
  have hts : isKey "ts" "ts" = true ∧ isKey "ts" "span" = false ∧ isKey "ts" "data" = false := by
    decide
  have hdata : isKey "data" "data" = true ∧ isKey "data" "span" = false := by decide
  obtain ⟨what, runId, span⟩ := e
  cases span <;> cases what <;>
    simp [Event.toJson, Happening.data, Diagnostic.spanJson, Json.literal,
      Json.literalFields, fieldsFrom,
      hevent, hrunId, hts, hdata, textFrom, dataFrom, putData, Line.ofEvent]

def written (stamped : List (String × Event)) : String :=
  String.join (stamped.map fun s => (s.2.toJson s.1).text ++ "\n")

def lineOf (s : String × Event) : List UInt8 := (s.2.toJson s.1).text.toUTF8.toList

theorem lineOf_eq (s : String × Event) :
    lineOf s = (s.2.toJson s.1).text.toList.flatMap String.utf8EncodeChar :=
  Text.toList_toUTF8 _

theorem newline_not_mem_lineOf (s : String × Event) : 10 ∉ lineOf s :=
  Text.newline_not_mem_toUTF8 (Json.newline_not_mem_text _)

theorem length_lineOf (s : String × Event) :
    (lineOf s).length = (s.2.toJson s.1).text.utf8ByteSize := by
  rw [lineOf, Text.toList_eq_data, Array.length_toList, String.toUTF8_eq_toByteArray]
  exact String.size_toByteArray

theorem toList_written (stamped : List (String × Event)) :
    (written stamped).toUTF8.toList = stamped.flatMap fun s => lineOf s ++ [10] := by
  have hnewline : String.utf8EncodeChar '\n' = [10] := by decide
  rw [Text.toList_toUTF8, written, String.toList_join]
  simp [List.flatMap_map, List.flatMap_assoc, lineOf_eq, hnewline]

theorem whole_written (stamped : List (String × Event)) :
    Whole (written stamped).toUTF8.toList := by
  rw [toList_written]
  rcases List.eq_nil_or_concat stamped with rfl | ⟨before, s, rfl⟩
  · exact .inl rfl
  · exact .inr (by simp)

theorem text_toJson (time : String) (e : Event) :
    ∃ cs, (e.toJson time).text.toList = '\x7b' :: (cs ++ ['\x7d']) :=
  ⟨_, Json.text_object _⟩

theorem finish_lineOf (s : String × Event) : finish (lineOf s).reverse = lineOf s := by
  obtain ⟨cs, htext⟩ := text_toJson s.1 s.2
  have hbrace : String.utf8EncodeChar '\x7d' = [125] := by decide
  have hline : ∃ bytes, lineOf s = bytes ++ [125] :=
    ⟨('\x7b' :: cs).flatMap String.utf8EncodeChar, by simp [lineOf_eq, htext, hbrace]⟩
  obtain ⟨bytes, hbytes⟩ := hline
  rw [hbytes, List.reverse_append]
  simp [finish]

theorem eventIn?_lineOf (s : String × Event) : eventIn? (lineOf s) = some (.ofEvent s.1 s.2) := by
  obtain ⟨cs, htext⟩ := text_toJson s.1 s.2
  have htrim := Text.trim_eq htext (by decide) (by decide)
  have hne : (s.2.toJson s.1).text ≠ "" := by
    intro hempty
    rw [hempty] at htext
    cases htext
  simp only [eventIn?, lineOf, Text.ofBytes_toUTF8, htrim, if_neg hne, Line.ofText?_toJson]

variable {stamped : List (String × Event)}

theorem linesFrom_lineOf (h : ∀ s ∈ stamped, (s.2.toJson s.1).text.utf8ByteSize < lengthLimit)
    (rest : List UInt8) :
    linesFrom [] 0 ((stamped.flatMap fun s => lineOf s ++ [10]) ++ rest) =
      stamped.map lineOf ++ linesFrom [] 0 rest := by
  induction stamped with
  | nil => rfl
  | cons s stamped ih =>
    rw [List.forall_mem_cons] at h
    have hsize : 0 + (lineOf s).length < lengthLimit := by
      rw [Nat.zero_add, length_lineOf]
      exact h.1
    rw [List.flatMap_cons, List.append_assoc, List.append_assoc, List.singleton_append,
      linesFrom_newline [] 0 (newline_not_mem_lineOf s) hsize, List.append_nil,
        finish_lineOf, ih h.2]
    rfl

theorem linesOf_written_append (h : ∀ s ∈ stamped, (s.2.toJson s.1).text.utf8ByteSize < lengthLimit)
    (rest : List UInt8) :
    linesOf ⟨((written stamped).toUTF8.toList ++ rest).toArray⟩ =
      (stamped.map fun s => .ofEvent s.1 s.2) ++ linesOf ⟨rest.toArray⟩ := by
  rw [linesOf_toArray, linesOf_toArray, toList_written, linesFrom_lineOf h, List.filterMap_append,
    List.filterMap_map]
  simp only [Function.comp_def, eventIn?_lineOf]
  exact congrArg (· ++ _) (List.filterMap_eq_map_iff_forall_eq_some.mpr fun _ _ => rfl)

theorem linesOf_written (h : ∀ s ∈ stamped, (s.2.toJson s.1).text.utf8ByteSize < lengthLimit) :
    linesOf (written stamped).toUTF8 = stamped.map fun s => .ofEvent s.1 s.2 := by
  have happend := linesOf_written_append h []
  rwa [List.append_nil, Text.toList_eq_data, Array.toArray_toList, linesOf_nil,
    List.append_nil] at happend

def writtenAround (line : List UInt8) (before after : List (String × Event)) : List UInt8 :=
  (written before).toUTF8.toList ++ (line ++ 10 :: (written after).toUTF8.toList)

theorem linesOf_writtenAround {before after : List (String × Event)}
    (h : ∀ s ∈ before ++ after, (s.2.toJson s.1).text.utf8ByteSize < lengthLimit)
    (hline : 10 ∉ line) (hsize : line.length < lengthLimit) :
    linesOf ⟨(writtenAround line before after).toArray⟩ =
      (before.map fun s => .ofEvent s.1 s.2) ++ ((Line.ofText? (lineText line)).toList ++
        after.map fun s => .ofEvent s.1 s.2) := by
  rw [List.forall_mem_append] at h
  have hnewline := linesFrom_newline [] 0 hline (by simpa using hsize) (written after).toUTF8.toList
  rw [writtenAround, linesOf_written_append h.1, linesOf_toArray, hnewline, List.append_nil,
    List.filterMap_cons, eventIn?_finish, ← linesOf_written h.2, linesOf_eq]
  cases Line.ofText? (lineText line) <;> rfl

end Trace

end Letrec
