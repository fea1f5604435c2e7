import Postmortem.Path
import Postmortem.Proofs.Text.Trimming

/-!
# Names below a directory

What is found of a path that was made by joining a directory and a name, however the directory is
spelled: the name, its stem and its extension.

* `Path.front` and `Path.join_eq_iff`: when two joined paths are one.
* `Path.fileName?_join`, `Path.stem?_join` and `Path.extension?_join`: what is found of the name.
* `Path.withExtension_join`: the joined path with another extension.
* `Path.parts` and `Path.parts_join`: a path as its names.
-/

namespace Postmortem.Path

/-- What stands in front of a name that is joined to the directory. -/
def front (dir : Path) : List Char :=
  if dir.isEmpty then [] else if dir.endsWith "/" then dir.toList else dir.toList ++ ['/']

/-- The name of an entry of a directory, or the way up from it. -/
structure IsStep (name : List Char) : Prop where
  whole : '/' ∉ name
  nonempty : name ≠ []
  other : name ≠ ['.']

/-- The names that a path consists of. Slashes side by side count as one, and a single dot counts
only in the first place. A path from the root begins with an empty name. -/
def parts (p : Path) : List (List Char) :=
  match p.toList.splitOn '/' with
  | [] => []
  | first :: rest =>
    (if first = [] ∧ rest = [] then [] else [first]) ++ rest.filter fun n => n ≠ [] ∧ n ≠ ['.']

variable {dir : Path} {name : String} {stem ext cs : List Char}

theorem isStep_up : IsStep "..".toList := ⟨by decide, by decide, by decide⟩

theorem toList_join (dir : Path) (name : String) :
    (join dir name).toList = front dir ++ name.toList := by
  unfold join front
  split
  · rfl
  · split
    · exact String.toList_append
    · rw [String.toList_append, String.toList_append]
      rfl

theorem front_cases (dir : Path) :
    (dir = "" ∧ front dir = []) ∨
      ∃ cs, front dir = cs ++ ['/'] ∧ (dir.toList = cs ++ ['/'] ∨ dir.toList = cs ∧ cs ≠ []) := by
  unfold front
  split
  case isTrue nowhere => exact .inl ⟨String.isEmpty_iff.mp nowhere, rfl⟩
  case isFalse somewhere =>
    split
    case isTrue slash =>
      rw [← String.endsWith_toSlice, String.Slice.endsWith_string_iff, String.copy_toSlice] at slash
      obtain ⟨cs, ends⟩ := slash
      exact .inr ⟨cs, ends.symm, .inl ends.symm⟩
    case isFalse =>
      refine .inr ⟨_, rfl, .inr ⟨rfl, ?_⟩⟩
      simpa using somewhere

/-! ## The last name -/

/-- Only slashes and single dots are cut off. -/
theorem dropTail_append (whole : '/' ∉ cs) (nonempty : cs ≠ []) (other : cs ≠ ['.'])
    (rest : List Char) : dropTail (cs ++ rest) = cs ++ rest := by
  unfold dropTail
  split
  case h_1 slash =>
    obtain ⟨c, cs, rfl⟩ := List.exists_cons_of_ne_nil nonempty
    cases (List.cons.inj slash).1
    exact absurd List.mem_cons_self whole
  case h_2 dot =>
    match cs with
    | [] => exact absurd rfl nonempty
    | [c] =>
      cases (List.cons.inj dot).1
      exact absurd rfl other
    | c :: d :: cs =>
      cases (List.cons.inj (List.cons.inj dot).2).1
      exact absurd (List.mem_cons_of_mem c List.mem_cons_self) whole
  case h_3 => rfl

theorem dropTail_join (step : IsStep name.toList) :
    dropTail (join dir name).toList.reverse = name.toList.reverse ++ (front dir).reverse := by
  rw [toList_join, List.reverse_append]
  apply dropTail_append
  · rw [List.mem_reverse]
    exact step.whole
  · rw [Ne, List.reverse_eq_nil_iff]
    exact step.nonempty
  · rw [Ne, List.reverse_eq_iff]
    exact step.other

theorem takeWhile_front (step : IsStep name.toList) :
    (name.toList.reverse ++ (front dir).reverse).takeWhile (· ≠ '/') = name.toList.reverse ∧
    (name.toList.reverse ++ (front dir).reverse).dropWhile (· ≠ '/') = (front dir).reverse := by
  have whole : '/' ∉ name.toList.reverse := mt List.mem_reverse.mp step.whole
  rw [Text.takeWhile_ne_append whole, Text.dropWhile_ne_append whole]
  obtain ⟨_, bare⟩ | ⟨cs, slash, _⟩ := front_cases dir
  · simp [bare]
  · simp [slash]

/-- A directory counts by what stands in front of its names. -/
theorem join_eq_iff {dir' : Path} {name' : String} (step : IsStep name.toList)
    (step' : IsStep name'.toList) :
    join dir name = join dir' name' ↔ front dir = front dir' ∧ name = name' := by
  rw [← String.toList_inj, ← String.toList_inj, toList_join, toList_join]
  constructor
  · intro same
    have reversed := congrArg List.reverse same
    rw [List.reverse_append, List.reverse_append] at reversed
    have before := congrArg (List.dropWhile (· ≠ '/')) reversed
    have last := congrArg (List.takeWhile (· ≠ '/')) reversed
    rw [(takeWhile_front step).2, (takeWhile_front step').2, List.reverse_inj] at before
    rw [(takeWhile_front step).1, (takeWhile_front step').1, List.reverse_inj] at last
    exact ⟨before, last⟩
  · rintro ⟨before, last⟩
    rw [before, last]

theorem lastName_join (step : IsStep name.toList) :
    lastName (join dir name).toList.reverse = name.toList := by
  rw [lastName, dropTail_join step, (takeWhile_front step).1, List.reverse_reverse]

theorem fileName?_join (step : IsStep name.toList) :
    (join dir name).fileName? = if name = ".." then none else some name := by
  have up : name.toList = ['.', '.'] ↔ name = ".." := by
    rw [← String.toList_inj]
    rfl
  simp only [fileName?, lastName_join step, step.nonempty, step.other, false_or, up,
    String.ofList_toList]

theorem stem?_join (step : IsStep name.toList) (proper : name ≠ "..") :
    (join dir name).stem? = some (String.ofList (cut name.toList).1) := by
  rw [stem?, fileName?_join step, if_neg proper, Option.map_some]

theorem extension?_join (step : IsStep name.toList) (proper : name ≠ "..") :
    (join dir name).extension? = (cut name.toList).2.map String.ofList := by
  rw [extension?, fileName?_join step, if_neg proper, Option.bind_some]

/-! ## Stem and extension -/

theorem cut_append (nonempty : stem ≠ []) (undotted : '.' ∉ ext) :
    cut (stem ++ '.' :: ext) = (stem, some ext) := by
  have free : '.' ∉ ext.reverse := mt List.mem_reverse.mp undotted
  have reversed : (stem ++ '.' :: ext).reverse = ext.reverse ++ '.' :: stem.reverse := by simp
  rw [cut, reversed, Text.takeWhile_ne_append free, Text.dropWhile_ne_append free]
  simp [nonempty]

/-- Only a dot with something in front of it and no dot behind it cuts a name. -/
theorem of_cut (cuts : (cut cs).2 = some ext) :
    ∃ stem, stem ≠ [] ∧ '.' ∉ ext ∧ cs = stem ++ '.' :: ext := by
  unfold cut at cuts
  dsimp only at cuts
  split at cuts
  case isTrue => cases cuts
  case isFalse more =>
    cases cuts
    have first := List.head?_dropWhile_not (fun c => decide (c ≠ '.')) cs.reverse
    have split := List.takeWhile_append_dropWhile (p := fun c => decide (c ≠ '.')) (l := cs.reverse)
    cases dropped : cs.reverse.dropWhile (· ≠ '.') with
    | nil =>
      rw [dropped] at more
      exact absurd rfl more
    | cons c before =>
      rw [dropped] at first more split
      have dot : c = '.' := by simpa using first
      refine ⟨before.reverse, by simpa using more, ?_, ?_⟩
      · intro here
        simpa using List.mem_takeWhile_imp (List.mem_reverse.mp here)
      · rw [dot] at split
        have whole := congrArg List.reverse split
        rw [List.reverse_reverse, List.reverse_append, List.reverse_cons, List.append_assoc] at whole
        exact whole.symm

theorem setExtension_join (step : IsStep name.toList) (proper : name ≠ "..") {ext : String}
    (nonempty : ext ≠ "") : (join dir name).setExtension ext =
      join dir (String.ofList (cut name.toList).1 ++ "." ++ ext) := by
  simp only [setExtension, stem?_join step proper, dropTail_join step, (takeWhile_front step).2,
    String.isEmpty_iff, nonempty]
  rw [← String.toList_inj, toList_join]
  simp

theorem setExtension_up (dir : Path) (ext : String) :
    (join dir "..").setExtension ext = join dir ".." := by
  have nothing : (join dir "..").stem? = none := by
    rw [stem?, fileName?_join isStep_up, if_pos rfl, Option.map_none]
  simp only [setExtension, nothing]

theorem toList_dotted (stem ext : String) :
    (stem ++ "." ++ ext).toList = stem.toList ++ '.' :: ext.toList := by
  simp

section

variable {stem ext : String} (nonempty : stem ≠ "")

include nonempty

theorem cut_dotted (undotted : '.' ∉ ext.toList) :
    cut (stem ++ "." ++ ext).toList = (stem.toList, some ext.toList) := by
  rw [toList_dotted, cut_append (by simpa using nonempty) undotted]

theorem dotted_eq_up_iff : stem ++ "." ++ ext = ".." ↔ stem = "." ∧ ext = "" := by
  constructor
  · intro up
    have spelled := toList_dotted stem ext
    rw [up] at spelled
    have more : stem.toList ≠ [] := by simpa using nonempty
    rw [← String.toList_inj, ← String.toList_inj]
    match stem.toList, spelled, more with
    | [c], spelled, _ =>
      obtain ⟨rfl, rest⟩ := List.cons.inj spelled
      exact ⟨rfl, (List.cons.inj rest).2.symm⟩
    | c :: d :: cs, spelled, _ =>
      have short : 2 = (c :: d :: cs).length + (ext.toList.length + 1) := by
        simpa using congrArg List.length spelled
      rw [List.length_cons, List.length_cons] at short
      omega
  · rintro ⟨rfl, rfl⟩
    rfl

theorem isStep_dotted (whole : '/' ∉ stem.toList ∧ '/' ∉ ext.toList) :
    IsStep (stem ++ "." ++ ext).toList := by
  rw [toList_dotted]
  refine ⟨by simpa using whole, by simp, ?_⟩
  intro dot
  have short := congrArg List.length dot
  have long : stem.toList.length ≠ 0 := by simpa using nonempty
  rw [List.length_append, List.length_cons, List.length_singleton] at short
  omega

/-- The old extension goes first, and what is left has an extension that is empty. It is replaced
unless nothing but two dots is left. -/
theorem withExtension_join (whole : '/' ∉ stem.toList ∧ '/' ∉ ext.toList)
    (proper : stem ++ "." ++ ext ≠ "..") (undotted : '.' ∉ ext.toList)
    {new : String} (some : new ≠ "") :
    (join dir (stem ++ "." ++ ext)).withExtension new =
      if stem = "." then join dir ".." else join dir (stem ++ "." ++ new) := by
  have left : ((join dir (stem ++ "." ++ ext)).dropEnd ext.length).copy =
      join dir (stem ++ "." ++ "") := by
    rw [← String.toList_inj, String.toList_copy_dropEnd, toList_join, toList_join, toList_dotted,
      toList_dotted]
    have split : front dir ++ (stem.toList ++ '.' :: ext.toList) =
        (front dir ++ (stem.toList ++ ['.'])) ++ ext.toList := by simp
    rw [split, List.length_append, ← String.length_toList, Nat.add_sub_cancel, List.take_left]
    rfl
  rw [withExtension, extension?_join (isStep_dotted nonempty whole) proper,
    cut_dotted nonempty undotted]
  simp only [Option.map_some, String.ofList_toList, left]
  by_cases dot : stem = "."
  · rw [if_pos dot, dot]
    exact setExtension_up dir new
  · have step : IsStep (stem ++ "." ++ "").toList := isStep_dotted nonempty ⟨whole.1, by simp⟩
    have proper' : stem ++ "." ++ "" ≠ ".." := fun up => dot ((dotted_eq_up_iff nonempty).mp up).1
    rw [if_neg dot, setExtension_join step proper' some, cut_dotted nonempty (by simp)]
    simp

end

/-! ## The names of a path -/

theorem parts_join (step : IsStep name.toList) :
    parts (join dir name) = parts dir ++ [name.toList] := by
  have lone : name.toList.splitOn '/' = [name.toList] := List.splitOn_eq_singleton step.whole
  have kept : [name.toList].filter (fun n => n ≠ [] ∧ n ≠ ['.']) = [name.toList] := by
    simp [step.nonempty, step.other]
  rw [parts, parts, toList_join]
  obtain ⟨rfl, bare⟩ | ⟨cs, slash, spelled⟩ := front_cases dir
  · rw [bare, List.nil_append, lone]
    simp [step.nonempty]
  · obtain ⟨first, rest, pieces⟩ := List.exists_cons_of_ne_nil (List.splitOn_ne_nil '/' cs)
    have joined : (cs ++ ['/'] ++ name.toList).splitOn '/' = first :: (rest ++ [name.toList]) := by
      rw [List.append_assoc, List.singleton_append, List.splitOn_append_cons_self, pieces, lone]
      rfl
    rw [slash, joined]
    rcases spelled with ends | ⟨ends, some⟩
    · rw [ends, List.splitOn_append_cons_self, pieces]
      simp [step.nonempty, step.other]
    · rw [ends, pieces]
      have more : ¬ (first = [] ∧ rest = []) := by
        rintro ⟨rfl, rfl⟩
        have whole : ['/'].intercalate (cs.splitOn '/') = cs := List.intercalate_splitOn '/'
        rw [pieces] at whole
        exact some whole.symm
      simp [step.nonempty, step.other, more]

end Postmortem.Path
