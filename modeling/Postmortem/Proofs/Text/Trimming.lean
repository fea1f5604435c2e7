import Mathlib.Data.List.TakeWhile
import Postmortem.Text.Blank

/-!
# Text between blanks

What is found of a text that has blanks around it or in it: the text itself, or its words.

* `Text.Trimmed`: a text with no blank at its ends.
* `Text.trim_padded`: blanks around such a text are cut off.
* `Text.Spaced` and `Text.words_of_spaced`: words with blanks between them.
* `Text.takeWhile_ne_append`: what stands in front of a mark that is looked for.
-/

namespace Postmortem.Text

/-- There is no blank at either end. -/
structure Trimmed (cs : List Char) : Prop where
  head : ∀ c ∈ cs.head?, ¬ IsBlank c
  last : ∀ c ∈ cs.getLast?, ¬ IsBlank c

instance (cs : List Char) : Decidable (Trimmed cs) :=
  decidable_of_iff (cs.head?.all (¬ IsBlank ·) ∧ cs.getLast?.all (¬ IsBlank ·)) <| by
    simp only [Option.all_eq_true, decide_eq_true_eq]
    exact ⟨fun ⟨head, last⟩ => ⟨head, last⟩, fun ⟨head, last⟩ => ⟨head, last⟩⟩

/-- Words, with one blank or more between each two of them. -/
inductive Spaced : List (List Char) → List Char → Prop
  | none : Spaced [] []
  | last {word : List Char} (some : word ≠ []) (whole : ∀ c ∈ word, ¬ IsBlank c) :
      Spaced [word] word
  | more {word gap cs : List Char} {words : List (List Char)} (some : word ≠ [])
      (whole : ∀ c ∈ word, ¬ IsBlank c) (apart : gap ≠ []) (blank : ∀ c ∈ gap, IsBlank c)
      (rest : Spaced words cs) (further : words ≠ []) : Spaced (word :: words) (word ++ gap ++ cs)

variable {before after cs : List Char}

theorem trimLeft_padded (blank : ∀ c ∈ before, IsBlank c) (head : ∀ c ∈ cs.head?, ¬ IsBlank c) :
    trimLeft (before ++ cs) = cs := by
  rw [trimLeft, List.dropWhile_append_of_pos (by simpa using blank)]
  cases cs with
  | nil => rfl
  | cons c cs => exact List.dropWhile_cons_of_neg (by simpa using head c rfl)

theorem trimLeft_of_blank (blank : ∀ c ∈ cs, IsBlank c) : trimLeft cs = [] :=
  List.dropWhile_eq_nil_iff.mpr (by simpa using blank)

theorem trim_of_blank (blank : ∀ c ∈ cs, IsBlank c) : trim cs = [] := by
  rw [trim, trimLeft_of_blank blank]
  rfl

theorem trimLeft_concat {c : Char} (letter : ¬ IsBlank c) (cs : List Char) :
    trimLeft (cs ++ [c]) = trimLeft cs ++ [c] := by
  induction cs with
  | nil => exact List.dropWhile_cons_of_neg (by simpa using letter)
  | cons d cs ih =>
    unfold trimLeft at ih ⊢
    by_cases blank : IsBlank d
    · rw [List.cons_append, List.dropWhile_cons_of_pos (by simpa using blank),
        List.dropWhile_cons_of_pos (by simpa using blank), ih]
    · rw [List.cons_append, List.dropWhile_cons_of_neg (by simpa using blank),
        List.dropWhile_cons_of_neg (by simpa using blank), List.cons_append]

/-- What a text begins with behind its blanks is not cut off. -/
theorem trim_cons {c : Char} (blank : ∀ c ∈ before, IsBlank c) (letter : ¬ IsBlank c) :
    trim (before ++ c :: cs) = c :: (trimLeft cs.reverse).reverse := by
  have head : ∀ d ∈ (c :: cs).head?, ¬ IsBlank d := by
    rintro d ⟨⟩
    exact letter
  rw [trim, trimLeft_padded blank head, List.reverse_cons, trimLeft_concat letter,
    List.reverse_append]
  rfl

theorem trim_padded (trimmed : Trimmed cs) (first : ∀ c ∈ before, IsBlank c)
    (last : ∀ c ∈ after, IsBlank c) : trim (before ++ cs ++ after) = cs := by
  obtain ⟨head, tail⟩ := trimmed
  rw [← List.head?_reverse] at tail
  cases cs with
  | nil =>
    apply trim_of_blank
    rw [List.append_nil, List.forall_mem_append]
    exact ⟨first, last⟩
  | cons c cs =>
    have head' : ∀ d ∈ ((c :: cs) ++ after).head?, ¬ IsBlank d := head
    rw [trim, List.append_assoc, trimLeft_padded first head', List.reverse_append,
      trimLeft_padded (by simpa using last) tail, List.reverse_reverse]

theorem trim_eq_self (trimmed : Trimmed cs) : trim cs = cs := by
  have padded : trim ([] ++ cs ++ []) = cs := trim_padded trimmed (by simp) (by simp)
  rwa [List.nil_append, List.append_nil] at padded

/-! ## Cutting at a mark -/

section

variable {α : Type} [DecidableEq α] {mark : α} {front : List α} (free : mark ∉ front)

include free

theorem takeWhile_ne_append (rest : List α) :
    (front ++ rest).takeWhile (· ≠ mark) = front ++ rest.takeWhile (· ≠ mark) :=
  List.takeWhile_append_of_pos fun _ here => decide_eq_true (ne_of_mem_of_not_mem here free)

theorem dropWhile_ne_append (rest : List α) :
    (front ++ rest).dropWhile (· ≠ mark) = rest.dropWhile (· ≠ mark) :=
  List.dropWhile_append_of_pos fun _ here => decide_eq_true (ne_of_mem_of_not_mem here free)

end

/-! ## Cutting at blanks -/

theorem splitFirst_of_blank {word rest : List Char} {c : Char} (whole : ∀ c ∈ word, ¬ IsBlank c)
    (blank : IsBlank c) : splitFirst (word ++ c :: rest) = (word, rest) := by
  have inside : ∀ c ∈ word, (¬ IsBlank c : Bool) = true := by simpa using whole
  rw [splitFirst, List.takeWhile_append_of_pos inside, List.dropWhile_append_of_pos inside]
  simp [blank]

theorem splitFirst_of_whole {word : List Char} (whole : ∀ c ∈ word, ¬ IsBlank c) :
    splitFirst word = (word, []) := by
  have inside : ∀ c ∈ word, (¬ IsBlank c : Bool) = true := by simpa using whole
  rw [splitFirst, List.takeWhile_eq_self_iff.mpr inside, List.dropWhile_eq_nil_iff.mpr inside]
  rfl

theorem words_blanks_append (blank : ∀ c ∈ before, IsBlank c) :
    words (before ++ cs) = words cs := by
  induction before with
  | nil => rfl
  | cons c before ih =>
    obtain ⟨first, rest⟩ := List.forall_mem_cons.mp blank
    have cut : ([] ++ c :: (before ++ cs)).splitOnP (IsBlank ·) =
        [] :: (before ++ cs).splitOnP (IsBlank ·) :=
      List.splitOnP_append_cons_of_forall_mem (by simp) c (by simpa using first) _
    have dropped : words ((c :: before) ++ cs) = words (before ++ cs) := by
      rw [words, ← List.nil_append ((c :: before) ++ cs), List.cons_append, cut, words]
      rfl
    rw [dropped, ih rest]

theorem words_of_whole {word : List Char} (some : word ≠ []) (whole : ∀ c ∈ word, ¬ IsBlank c) :
    words word = [word] := by
  rw [words, List.splitOnP_eq_singleton (by simpa using whole)]
  simp [some]

theorem words_word_append {word : List Char} {c : Char} (some : word ≠ [])
    (whole : ∀ c ∈ word, ¬ IsBlank c) (blank : IsBlank c) :
    words (word ++ c :: cs) = word :: words cs := by
  have cut : (word ++ c :: cs).splitOnP (IsBlank ·) = word :: cs.splitOnP (IsBlank ·) :=
    List.splitOnP_append_cons_of_forall_mem (by simpa using whole) c (by simpa using blank) _
  rw [words, cut, List.filter_cons_of_pos (by simp [some]), words]

theorem words_of_spaced {split : List (List Char)} (spaced : Spaced split cs) :
    words cs = split := by
  induction spaced with
  | none => rfl
  | last some whole => exact words_of_whole some whole
  | @more word gap cs split some whole apart blank rest further ih =>
    obtain ⟨c, gap, rfl⟩ := List.exists_cons_of_ne_nil apart
    obtain ⟨first, others⟩ := List.forall_mem_cons.mp blank
    rw [List.append_assoc, List.cons_append, words_word_append some whole first,
      words_blanks_append others, ih]

end Postmortem.Text
