import Mathlib.Data.List.TakeWhile

/-!
# Lines and words of a text stream

`std::getline` reads up to the next line feed, and at the end of the text what is
left if there is any; the operator `>>` skips white space and reads up to the
next.

## Main results

* `getlines_print` — the lines of a printed text, with line feeds or carriage
  returns and line feeds.
* `extract_word` — the next word of a text.
-/

namespace Iriseus.Verified.TextStream

/-! ## Lines -/

/-- The lines `std::getline` reads from a text, in order. -/
def getlines : List Char → List (List Char)
  | [] => []
  | c :: text =>
      if c = '\n' then [] :: getlines text
      else
        match getlines text with
        | [] => [[c]]
        | line :: lines => (c :: line) :: lines

example : getlines "ab\n\nc".toList = ["ab".toList, [], "c".toList] := by decide

theorem getlines_cons_newline (text : List Char) :
    getlines ('\n' :: text) = [] :: getlines text := by
  simp only [getlines, if_true]

/-- A line without a line feed is read up to the next one. -/
theorem getlines_append {line : List Char} (hline : '\n' ∉ line) (text : List Char) :
    getlines (line ++ '\n' :: text) = line :: getlines text := by
  induction line with
  | nil => exact getlines_cons_newline text
  | cons c line ih =>
      rw [List.mem_cons, not_or] at hline
      rw [List.cons_append, getlines, if_neg (Ne.symm hline.1), ih hline.2]

/-- The two ways to end a line. -/
inductive LineEnd where
  | lf
  | crlf
  deriving DecidableEq, Repr

/-- What `std::getline` leaves of the end of a line. -/
def LineEnd.left : LineEnd → List Char
  | .lf => []
  | .crlf => ['\r']

/-- A text printed line by line. -/
def print (lines : List (List Char × LineEnd)) : List Char :=
  lines.flatMap fun (line, lineEnd) => line ++ lineEnd.left ++ ['\n']

@[simp] theorem print_cons (line : List Char) (lineEnd : LineEnd)
    (lines : List (List Char × LineEnd)) :
    print ((line, lineEnd) :: lines) = line ++ lineEnd.left ++ '\n' :: print lines := by
  simp [print]

/-- **The lines of a printed text.** -/
theorem getlines_print {lines : List (List Char × LineEnd)}
    (hlines : ∀ l ∈ lines, '\n' ∉ l.1) :
    getlines (print lines) = lines.map fun l => l.1 ++ l.2.left := by
  induction lines with
  | nil => rfl
  | cons l lines ih =>
      obtain ⟨line, lineEnd⟩ := l
      rw [List.forall_mem_cons] at hlines
      have hline : '\n' ∉ line ++ lineEnd.left := by
        rw [List.mem_append, not_or]
        refine ⟨hlines.1, ?_⟩
        cases lineEnd <;> decide
      rw [print_cons, getlines_append hline, ih hlines.2, List.map_cons]

/-- A line is made of the text's characters. -/
theorem mem_of_mem_getlines {text line : List Char} (hline : line ∈ getlines text) {c : Char}
    (hc : c ∈ line) : c ∈ text := by
  induction text generalizing line with
  | nil => cases hline
  | cons d text ih =>
      by_cases hd : d = '\n'
      · rw [getlines, if_pos hd] at hline
        rcases List.mem_cons.mp hline with rfl | hline
        · cases hc
        · exact List.mem_cons_of_mem _ (ih hline hc)
      · rw [getlines, if_neg hd] at hline
        cases hrest : getlines text with
        | nil =>
            rw [hrest] at hline
            obtain rfl := List.mem_singleton.mp hline
            rw [List.mem_singleton.mp hc]
            exact List.mem_cons_self
        | cons first lines =>
            rw [hrest] at hline ih
            rcases List.mem_cons.mp hline with rfl | hline
            · rcases List.mem_cons.mp hc with rfl | hc
              · exact List.mem_cons_self
              · exact List.mem_cons_of_mem _ (ih List.mem_cons_self hc)
            · exact List.mem_cons_of_mem _ (ih (List.mem_cons_of_mem _ hline) hc)

/-! ## Words -/

/-- White space, as `isspace` has it in the "C" locale. -/
def isSpace (c : Char) : Bool :=
  c = ' ' || c = '\t' || c = '\n' || c = '\x0b' || c = '\x0c' || c = '\r'

/-- `stream >> word`: the word read, empty at the end of the text, and the rest. -/
def extract (text : List Char) : List Char × List Char :=
  let text := text.dropWhile isSpace
  (text.takeWhile (!isSpace ·), text.dropWhile (!isSpace ·))

example : extract "  ab cd".toList = ("ab".toList, " cd".toList) := by decide

/-- A word: not empty, and without white space. -/
structure Word (word : List Char) : Prop where
  ne_nil : word ≠ []
  noSpace : ∀ c ∈ word, isSpace c = false

theorem Word.newline_notMem {word : List Char} (h : Word word) : '\n' ∉ word := by
  intro hmem
  have hspace := h.noSpace '\n' hmem
  revert hspace
  decide

/-- What is extracted is a word of the text, or nothing. -/
theorem word_extract {text : List Char} (h : (extract text).1 ≠ []) :
    Word (extract text).1 where
  ne_nil := h
  noSpace c hc := by simpa using List.mem_takeWhile_imp hc

theorem mem_of_mem_extract {text : List Char} {c : Char} (hc : c ∈ (extract text).1) :
    c ∈ text :=
  (List.dropWhile_suffix _).subset ((List.takeWhile_prefix _).subset hc)

/-- **The next word** is read up to white space or the end of the text. -/
theorem extract_word {before word after : List Char} (hbefore : ∀ c ∈ before, isSpace c = true)
    (hword : Word word) (hafter : ∀ c ∈ after.head?, isSpace c = true) :
    extract (before ++ word ++ after) = (word, after) := by
  have hstart : (before ++ word ++ after).dropWhile isSpace = word ++ after := by
    rw [List.append_assoc, List.dropWhile_append_of_pos hbefore]
    obtain ⟨c, word', rfl⟩ := List.exists_cons_of_ne_nil hword.ne_nil
    rw [List.cons_append, List.dropWhile_cons_of_neg]
    simp [hword.noSpace c (by simp)]
  have hnot : ∀ c ∈ word, (!isSpace c) = true := by
    intro c hc
    simp [hword.noSpace c hc]
  simp only [extract, hstart]
  rw [List.takeWhile_append_of_pos hnot, List.dropWhile_append_of_pos hnot]
  cases after with
  | nil => simp
  | cons c after =>
      have hc : isSpace c = true := hafter c rfl
      simp [hc]

end Iriseus.Verified.TextStream
