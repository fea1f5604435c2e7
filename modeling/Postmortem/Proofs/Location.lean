import Mathlib.Data.List.Forall2
import Mathlib.Data.List.ReduceOption
import Postmortem.Locator
import Postmortem.Proofs.Json.Records
import Postmortem.Proofs.Text.Octets

/-!
# Where a script is found

Of all files that a script may have come from the first is taken, whatever the file system says of
the others: by the place of its directory among those that are searched, and then by its name.

* `Volume`: what a file system answers, be it a tree or not.
* `Locator.search?`: the search on any volume; on a tree it is `Locator.locate?`.
* `Locator.Fits`: what makes a file one of the script, with no search in sight.
* `located_first`: the search finds the first file that fits.
-/

namespace Postmortem

/-! ## Directories from the environment -/

namespace Settings

theorem not_mem_of_mem_splitOn {x : Char} {cs piece : List Char} (h : piece ∈ cs.splitOn x) :
    x ∉ piece := by
  induction cs generalizing piece with
  | nil =>
    rw [List.splitOn_nil, List.mem_singleton] at h
    rw [h]
    exact List.not_mem_nil
  | cons c cs ih =>
    rw [List.splitOn_cons_eq_if_modifyHead] at h
    by_cases here : c = x
    · rw [if_pos (by simpa using here), List.mem_cons] at h
      rcases h with rfl | later
      · exact List.not_mem_nil
      · exact ih later
    · rw [if_neg (by simpa using here)] at h
      cases pieces : cs.splitOn x with
      | nil => exact absurd pieces (List.splitOn_ne_nil x cs)
      | cons first rest =>
        rw [pieces, List.modifyHead_cons, List.mem_cons] at h
        rcases h with rfl | later
        · rw [List.mem_cons, not_or]
          exact ⟨Ne.symm here, ih (by rw [pieces]; exact List.mem_cons_self)⟩
        · exact ih (by rw [pieces]; exact List.mem_cons_of_mem _ later)

/-- The directories of the environment are the pieces between colons, but for empty ones. -/
theorem environmentPaths_of_value {s : Settings} {env : Environment} {value : String}
    (set : env.value? s.pathVariable = some value) :
    ∃ pieces : List String, (∀ piece ∈ pieces, ':' ∉ piece.toList) ∧
      value = ":".intercalate pieces ∧ s.environmentPaths env = pieces.filter (· ≠ "") := by
  refine ⟨(value.toList.splitOn ':').map String.ofList, ?_, ?_, ?_⟩
  · rw [List.forall_mem_map]
    intro piece hpiece
    rw [String.toList_ofList]
    exact not_mem_of_mem_splitOn hpiece
  · rw [← String.toList_inj, String.toList_intercalate, List.map_map]
    have same : String.toList ∘ String.ofList = id := funext fun _ => String.toList_ofList
    rw [same, List.map_id]
    exact (List.intercalate_splitOn ':').symm
  · simp only [environmentPaths, set, List.filter_map]
    congr 1
    apply List.filter_congr
    intro piece _
    simp only [Function.comp_apply, ne_eq, String.ofList_eq_empty_iff]
    cases piece <;> rfl

end Settings

/-! ## Letters of either case -/

/-- The letters are the same, but for the case of a letter from A to Z. -/
def SameLetter (c d : Char) : Prop :=
  c = d ∨ (c.isUpper ∧ d.toNat = c.toNat + 32) ∨ (d.isUpper ∧ c.toNat = d.toNat + 32)

theorem isUpper_eq (c : Char) : c.isUpper = decide (c.val ≥ 'A'.val ∧ c.val ≤ 'Z'.val) := rfl

theorem isUpper_iff {c : Char} : c.isUpper ↔ 65 ≤ c.toNat ∧ c.toNat ≤ 90 := by
  rw [isUpper_eq, decide_eq_true_iff, ge_iff_le, UInt32.le_iff_toNat_le, UInt32.le_iff_toNat_le]
  rfl

theorem toNat_toLower (c : Char) :
    c.toLower.toNat = if c.isUpper then c.toNat + 32 else c.toNat := by
  rw [isUpper_eq]
  unfold Char.toLower
  by_cases upper : c.val ≥ 'A'.val ∧ c.val ≤ 'Z'.val
  · have low : c.val.toNat ≤ 90 := UInt32.le_iff_toNat_le.mp upper.2
    rw [dif_pos upper, if_pos (decide_eq_true upper), Char.toNat, Char.toNat, UInt32.toNat_add]
    change (c.val.toNat + 32) % 4294967296 = _
    omega
  · rw [dif_neg upper, if_neg (by simpa using upper)]

theorem toLower_eq_iff {c d : Char} : c.toLower = d.toLower ↔ SameLetter c d := by
  rw [← Char.toNat_inj, toNat_toLower, toNat_toLower, SameLetter, ← Char.toNat_inj]
  simp only [isUpper_iff]
  split_ifs <;> omega

theorem foldCase_eq_iff {s t : String} :
    Locator.foldCase s = Locator.foldCase t ↔ List.Forall₂ SameLetter s.toList t.toList := by
  have letter : SameLetter = fun c d => c.toLower = d.toLower := by
    funext c d
    exact propext toLower_eq_iff.symm
  rw [letter, Locator.foldCase, Locator.foldCase, ← List.forall₂_eq_eq_eq,
    List.forall₂_map_left_iff, List.forall₂_map_right_iff]

/-! ## Volumes -/

/-- What a file system answers while a script is looked for. -/
structure Volume where
  /-- The entries of a directory in any order, `none` for one that cannot be read. There is no
  answer for what cannot be listed. -/
  list? : Path → Option (List (Option String))
  /-- There is a regular file at the path, whether it can be read or not. -/
  isFile : Path → Bool
  read? : Path → Option Bytes

def FileTree.volume (t : FileTree) : Volume where
  list? p :=
    if (t.resolve? p).bind t.node? = some .directory then some ((t.list p).map some) else none
  isFile p := (t.read? p).isSome
  read? := t.read?

namespace Volume

/-- The names that are listed in a directory. -/
def names (v : Volume) (dir : Path) : List String := (v.list? dir).elim [] List.reduceOption

/-- The other volume lists the entries of some directories in another order, and that is all. -/
structure Reordered (v w : Volume) : Prop where
  list : ∀ dir, Option.Rel List.Perm (v.list? dir) (w.list? dir)
  isFile : v.isFile = w.isFile
  read : v.read? = w.read?

end Volume

namespace Locator

def isScriptOn (l : Locator) (v : Volume) (p : Path) : Bool :=
  v.isFile p && p.extension?.any fun e => foldCase e = foldCase l.ext

/-- The script files in a directory, by name. -/
def scriptsIn (l : Locator) (v : Volume) (dir : Path) : List Path :=
  (((v.names dir).mergeSort fun a b => decide (a ≤ b)).map (Path.join dir)).filter (l.isScriptOn v)

def hasCode (v : Volume) (i : Image) (p : Path) : Bool :=
  (v.read? p).any fun bytes => Matches i bytes

/-- The first script file with the code of the image where the image has it. -/
def search? (l : Locator) (v : Volume) (i : Image) : Option Path :=
  if i.code.isEmpty then none
  else (l.searchPaths.flatMap (l.scriptsIn v)).find? (hasCode v i)

/-- The file in the directory under this name may be the one that the script came from. -/
structure Fits (l : Locator) (v : Volume) (i : Image) (dir : Path) (name : String) : Prop where
  listed : ∃ entries, v.list? dir = some entries ∧ some name ∈ entries
  regular : v.isFile (Path.join dir name)
  ext : ∃ e, (Path.join dir name).extension? = some e ∧
    List.Forall₂ SameLetter e.toList l.ext.toList
  code : ∃ bytes before after, v.read? (Path.join dir name) = some bytes ∧
    bytes.toList = before ++ i.code.toList ++ after ∧ before.length = i.header.code.toNat

/-- The file is the first that fits, by the place of its directory and then by the octets of its
name. -/
def First (l : Locator) (v : Volume) (i : Image) (p : Path) : Prop :=
  ∃ (k : Nat) (dir : Path) (name : String), l.searchPaths[k]? = some dir ∧
    p = Path.join dir name ∧ l.Fits v i dir name ∧
    ∀ (k' : Nat) (dir' : Path) (name' : String), l.searchPaths[k']? = some dir' →
      l.Fits v i dir' name' → k < k' ∨ k = k' ∧ Text.octets name ≤ Text.octets name'

theorem names_volume (t : FileTree) (dir : Path) : t.volume.names dir = t.list dir := by
  by_cases directory : (t.resolve? dir).bind t.node? = some .directory
  · have listed : t.volume.list? dir = some ((t.list dir).map some) := if_pos directory
    rw [Volume.names, listed, Option.elim_some, List.reduceOption, List.filterMap_map]
    exact List.filterMap_some
  · have unlisted : t.volume.list? dir = none := if_neg directory
    rw [Volume.names, unlisted, FileTree.list]
    cases place : t.resolve? dir with
    | none => rfl
    | some place =>
      rw [place] at directory
      exact (if_neg directory).symm

/-- The search in a tree is the search on its volume. -/
theorem locate?_eq_search? (l : Locator) (t : FileTree) (i : Image) :
    l.locate? t i = l.search? t.volume i := by
  have same (dir : Path) : l.candidatesIn t dir = l.scriptsIn t.volume dir := by
    rw [candidatesIn, scriptsIn, names_volume]
    rfl
  rw [locate?, candidates, funext same]
  rfl

/-! ## One directory -/

theorem pairwise_sorted (names : List String) :
    (names.mergeSort fun a b => decide (a ≤ b)).Pairwise (· ≤ ·) := by
  have trans (a b c : String) (h : decide (a ≤ b)) (h' : decide (b ≤ c)) : decide (a ≤ c) := by
    simp only [decide_eq_true_eq] at h h' ⊢
    exact String.le_trans h h'
  have total (a b : String) : decide (a ≤ b) || decide (b ≤ a) := by
    simp only [Bool.or_eq_true, decide_eq_true_eq]
    exact String.le_total a b
  exact (List.pairwise_mergeSort trans total names).imp (by simp)

/-- In a sorted list the first name that passes a test is the least. -/
theorem find?_eq_some_iff_least {names : List String} (sorted : names.Pairwise (· ≤ ·))
    {test : String → Bool} {name : String} :
    names.find? test = some name ↔
      (name ∈ names ∧ test name) ∧ ∀ other ∈ names, test other → name ≤ other := by
  induction names with
  | nil => simp
  | cons first rest ih =>
    obtain ⟨least, further⟩ := List.pairwise_cons.mp sorted
    by_cases passed : test first
    · rw [List.find?_cons_of_pos passed, Option.some.injEq]
      constructor
      · rintro rfl
        refine ⟨⟨List.mem_cons_self, passed⟩, ?_⟩
        rw [List.forall_mem_cons]
        exact ⟨fun _ => String.le_refl _, fun other later _ => least other later⟩
      · rintro ⟨⟨listed, _⟩, below⟩
        rcases List.mem_cons.mp listed with rfl | later
        · rfl
        · exact String.le_antisymm (least name later) (below first List.mem_cons_self passed)
    · rw [List.find?_cons_of_neg passed, ih further, List.forall_mem_cons, List.mem_cons]
      constructor
      · rintro ⟨⟨later, passes⟩, below⟩
        exact ⟨⟨.inr later, passes⟩, fun passes' => absurd passes' passed, below⟩
      · rintro ⟨⟨listed, passes⟩, _, below⟩
        rcases listed with rfl | later
        · exact absurd passes passed
        · exact ⟨⟨later, passes⟩, below⟩

/-- Code matches where it stands behind as many bytes as come before the code of the image. -/
theorem matches_iff {i : Image} (coded : i.code ≠ #[]) {bytes : Bytes} :
    Matches i bytes ↔ ∃ before after, bytes.toList = before ++ i.code.toList ++ after ∧
      before.length = i.header.code.toNat := by
  have positive : 0 < i.code.size := Array.size_pos_iff.mpr coded
  rw [Matches, ← Array.toList_inj, Array.toList_extract, List.extract_eq_take_drop,
    Nat.add_sub_cancel_left]
  constructor
  · intro found
    have room := congrArg List.length found
    rw [List.length_take, List.length_drop, Array.length_toList, Array.length_toList] at room
    refine ⟨bytes.toList.take i.header.code.toNat,
      (bytes.toList.drop i.header.code.toNat).drop i.code.size, ?_, ?_⟩
    · rw [← found, List.append_assoc, List.take_append_drop, List.take_append_drop]
    · rw [List.length_take, Array.length_toList]
      omega
  · rintro ⟨before, after, split, length⟩
    rw [split, ← length, List.append_assoc, List.drop_left, ← Array.length_toList, List.take_left]

theorem mem_names_iff {v : Volume} {dir : Path} {name : String} :
    name ∈ v.names dir ↔ ∃ entries, v.list? dir = some entries ∧ some name ∈ entries := by
  unfold Volume.names
  cases v.list? dir with
  | none => simp
  | some entries => simp [List.reduceOption_mem_iff]

section

variable {l : Locator} {v : Volume} {i : Image} (coded : i.code ≠ #[])

include coded

/-- A file fits if it is a script file of its directory and has the code. -/
theorem fits_iff {dir : Path} {name : String} :
    l.Fits v i dir name ↔ name ∈ v.names dir ∧
      (l.isScriptOn v (Path.join dir name) ∧ hasCode v i (Path.join dir name)) := by
  rw [isScriptOn, hasCode, mem_names_iff]
  simp only [Bool.and_eq_true, Option.any_eq_true, decide_eq_true_eq, foldCase_eq_iff,
    matches_iff coded]
  constructor
  · rintro ⟨listed, regular, ext, bytes, before, after, read, split, length⟩
    exact ⟨listed, ⟨regular, ext⟩, bytes, read, before, after, split, length⟩
  · rintro ⟨listed, ⟨regular, ext⟩, bytes, read, before, after, split, length⟩
    exact ⟨listed, regular, ext, bytes, before, after, read, split, length⟩

theorem find?_scriptsIn_eq_some_iff {dir p : Path} :
    (l.scriptsIn v dir).find? (hasCode v i) = some p ↔
      ∃ name, p = Path.join dir name ∧ l.Fits v i dir name ∧
        ∀ other, l.Fits v i dir other → Text.octets name ≤ Text.octets other := by
  have sorted := pairwise_sorted (v.names dir)
  rw [scriptsIn, List.find?_filter, List.find?_map, Option.map_eq_some_iff]
  simp only [find?_eq_some_iff_least sorted, List.mem_mergeSort, Function.comp_apply,
    decide_eq_true_eq, fits_iff coded, Text.octets_le_iff, and_imp]
  constructor
  · rintro ⟨name, ⟨fits, least⟩, rfl⟩
    exact ⟨name, rfl, fits, least⟩
  · rintro ⟨name, rfl, fits, least⟩
    exact ⟨name, ⟨fits, least⟩, rfl⟩

theorem find?_scriptsIn_eq_none_iff {dir : Path} :
    (l.scriptsIn v dir).find? (hasCode v i) = none ↔ ∀ name, ¬ l.Fits v i dir name := by
  rw [scriptsIn, List.find?_filter, List.find?_map, Option.map_eq_none_iff, List.find?_eq_none]
  simp only [List.mem_mergeSort, Function.comp_apply, decide_eq_true_eq, fits_iff coded, not_and,
    Bool.not_eq_true]

/-! ## All directories -/

theorem search?_eq_some_iff {p : Path} : l.search? v i = some p ↔ l.First v i p := by
  rw [search?, if_neg (by simpa using coded), List.find?_flatMap, List.findSome?_eq_some_iff]
  simp only [find?_scriptsIn_eq_some_iff coded, find?_scriptsIn_eq_none_iff coded]
  constructor
  · rintro ⟨before, dir, after, split, ⟨name, rfl, fits, least⟩, nothing⟩
    refine ⟨before.length, dir, name, by simp [split], rfl, fits, ?_⟩
    intro k dir' name' here fits'
    rcases Nat.lt_trichotomy before.length k with later | same | earlier
    · exact .inl later
    · have there : dir' = dir := by simpa [split, ← same, eq_comm] using here
      exact .inr ⟨same, least name' (there ▸ fits')⟩
    · rw [split, List.getElem?_append_left earlier] at here
      exact absurd fits' (nothing dir' (List.mem_of_getElem? here) name')
  · rintro ⟨k, dir, name, here, rfl, fits, least⟩
    obtain ⟨inside, rfl⟩ := List.getElem?_eq_some_iff.mp here
    refine ⟨l.searchPaths.take k, _, l.searchPaths.drop (k + 1), ?_, ⟨name, rfl, fits, ?_⟩, ?_⟩
    · rw [← List.drop_eq_getElem_cons inside, List.take_append_drop]
    · intro other fits'
      rcases least k _ other here fits' with beyond | ⟨_, below⟩
      · exact absurd beyond (Nat.lt_irrefl k)
      · exact below
    · intro dir' earlier name' fits'
      obtain ⟨j, hj, rfl⟩ := List.mem_take_iff_getElem.mp earlier
      have bound := least j _ name' (List.getElem?_eq_getElem (by omega)) fits'
      omega

theorem search?_eq_none_iff :
    l.search? v i = none ↔ ∀ dir ∈ l.searchPaths, ∀ name, ¬ l.Fits v i dir name := by
  rw [search?, if_neg (by simpa using coded), List.find?_flatMap, List.findSome?_eq_none_iff]
  simp only [find?_scriptsIn_eq_none_iff coded]

end

theorem search?_of_no_code {l : Locator} {v : Volume} {i : Image} (bare : i.code = #[]) :
    l.search? v i = none := by
  rw [search?, if_pos (by simpa using bare)]

end Locator

/-! ## Any order of entries -/

namespace Volume

theorem Reordered.fits_iff {v w : Volume} (reordered : v.Reordered w) {l : Locator} {i : Image}
    {dir : Path} {name : String} : l.Fits w i dir name ↔ l.Fits v i dir name := by
  have listed : (∃ entries, w.list? dir = some entries ∧ some name ∈ entries) ↔
      ∃ entries, v.list? dir = some entries ∧ some name ∈ entries := by
    have perm := reordered.list dir
    revert perm
    cases v.list? dir <;> cases w.list? dir <;> intro perm
    · simp
    · cases perm
    · cases perm
    · cases perm with
      | some perm => simp [perm.mem_iff]
  constructor
  · rintro ⟨here, regular, ext, code⟩
    exact ⟨listed.mp here, reordered.isFile ▸ regular, ext, reordered.read ▸ code⟩
  · rintro ⟨here, regular, ext, code⟩
    exact ⟨listed.mpr here, reordered.isFile ▸ regular, ext, reordered.read ▸ code⟩

/-- What is found depends on which entries there are, not on their order. -/
theorem Reordered.search?_eq {v w : Volume} (reordered : v.Reordered w) (l : Locator) (i : Image) :
    l.search? w i = l.search? v i := by
  by_cases coded : i.code = #[]
  · rw [Locator.search?_of_no_code coded, Locator.search?_of_no_code coded]
  · apply Option.ext
    intro p
    rw [Locator.search?_eq_some_iff coded, Locator.search?_eq_some_iff coded, Locator.First,
      Locator.First]
    simp only [reordered.fits_iff]

end Volume

namespace FileTree

variable {t u : FileTree} (once : (t.entries.map (·.1)).Nodup) (perm : t.entries.Perm u.entries)

include once perm

theorem node?_of_perm : u.node? = t.node? := by
  have once' : (u.entries.map (·.1)).Nodup := (perm.map (·.1)).nodup_iff.mp once
  funext place
  have same : u.entries.lookup place = t.entries.lookup place := by
    apply Option.ext
    intro node
    rw [lookup_eq_some_iff_mem once, lookup_eq_some_iff_mem once', perm.mem_iff]
  rw [node?, node?, same]

theorem resolve?_of_perm : u.resolve? = t.resolve? := by
  have same : u.descend = t.descend := by
    funext place name
    rw [descend, descend, node?_of_perm once perm]
  funext p
  rw [resolve?, resolve?, same]

/-- A tree lists the entries of a directory in the order it has them in. -/
theorem reordered_of_perm : t.volume.Reordered u.volume := by
  have node := node?_of_perm once perm
  have resolve := resolve?_of_perm once perm
  have read : u.read? = t.read? := by
    funext p
    rw [read?, read?, node, resolve]
  refine ⟨?_, ?_, read.symm⟩
  · intro dir
    have listed : (t.list dir).Perm (u.list dir) := by
      rw [list, list, node, resolve]
      cases t.resolve? dir with
      | none => exact .refl _
      | some place =>
        dsimp only
        split
        · exact perm.filterMap _
        · exact .refl _
    rw [volume, volume, node, resolve]
    dsimp only
    split
    · exact .some (listed.map some)
    · exact .none
  · rw [volume, volume, read]

end FileTree

/-- **A script is found where it comes first.** The directories that are searched are those of the
settings and, behind them, the pieces of the environment variable that are not empty. Whatever a
volume answers, the search gives the first file that fits, and nothing exactly where no file does or
there is no code. The order in which directories list their entries makes no difference. The search
in a tree is the search on its volume. -/
theorem located_first (s : Settings) (env : Environment) (l : Locator) (i : Image) :
    ((env.value? s.pathVariable = none ∧
        (Locator.ofSettings s env).searchPaths = s.searchDirs) ∨
      ∃ value pieces, env.value? s.pathVariable = some value ∧
        (∀ piece ∈ pieces, ':' ∉ piece.toList) ∧ value = ":".intercalate pieces ∧
        (Locator.ofSettings s env).searchPaths = s.searchDirs ++ pieces.filter (· ≠ "")) ∧
      (∀ v : Volume,
        (∀ p, l.search? v i = some p ↔ i.code ≠ #[] ∧ l.First v i p) ∧
        (l.search? v i = none ↔
          i.code = #[] ∨ ∀ dir ∈ l.searchPaths, ∀ name, ¬ l.Fits v i dir name) ∧
        ∀ w, v.Reordered w → l.search? w i = l.search? v i) ∧
      ∀ t : FileTree, l.locate? t i = l.search? t.volume i ∧
        ∀ u : FileTree, (t.entries.map (·.1)).Nodup → t.entries.Perm u.entries →
          l.locate? u i = l.locate? t i := by
  refine ⟨?_, ?_, ?_⟩
  · cases set : env.value? s.pathVariable with
    | none =>
      have nothing : s.environmentPaths env = [] := by
        simp only [Settings.environmentPaths, set]
      exact .inl ⟨rfl, by simp [Locator.ofSettings, Settings.searchPaths, nothing]⟩
    | some value =>
      obtain ⟨pieces, whole, joined, paths⟩ := Settings.environmentPaths_of_value set
      refine .inr ⟨value, pieces, rfl, whole, joined, ?_⟩
      rw [← paths]
      rfl
  · intro v
    refine ⟨?_, ?_, fun w reordered => reordered.search?_eq l i⟩
    · intro p
      by_cases bare : i.code = #[]
      · rw [Locator.search?_of_no_code bare]
        exact iff_of_false nofun fun ⟨coded, _⟩ => coded bare
      · rw [Locator.search?_eq_some_iff bare]
        exact (and_iff_right bare).symm
    · by_cases bare : i.code = #[]
      · exact iff_of_true (Locator.search?_of_no_code bare) (.inl bare)
      · rw [Locator.search?_eq_none_iff bare]
        exact (or_iff_right bare).symm
  · intro t
    refine ⟨l.locate?_eq_search? t i, ?_⟩
    intro u once perm
    have reordered := FileTree.reordered_of_perm once perm
    rw [l.locate?_eq_search? u i, l.locate?_eq_search? t i, reordered.search?_eq l i]

/-- Of five entries one cannot be read, one is a file that cannot be read, and one ends too early.
The other two fit, and the one listed last comes first. -/
theorem located_first_lookalikes :
    let i : Image := ⟨⟨2, 4⟩, #[0, 0, 7, 8, 9]⟩
    let l : Locator := { searchPaths := ["missing", "scripts"] }
    let entries : List (Option String) :=
      [some "d.AMX", none, some "a.amx", some "b.amx", some "c.amx"]
    let v : Volume :=
      { list? := fun p => if p = "scripts" then some entries else none
        isFile := fun _ => true
        read? := fun p => if p = "scripts/a.amx" then none
          else if p = "scripts/b.amx" then some #[0, 0, 7] else some #[1, 1, 7, 8, 5] }
    let w : Volume :=
      { v with list? := fun p => if p = "scripts" then some entries.reverse else none }
    v.Reordered w ∧ l.search? v i = some "scripts/c.amx" ∧
      l.search? w i = some "scripts/c.amx" := by
  intro i l entries v w
  obtain ⟨_, volumes, _⟩ := located_first {} {} l i
  obtain ⟨found_iff, _, unordered⟩ := volumes v
  have reordered : v.Reordered w := by
    refine ⟨?_, rfl, rfl⟩
    intro dir
    by_cases here : dir = "scripts"
    · have listed : v.list? dir = some entries := if_pos here
      have listed' : w.list? dir = some entries.reverse := if_pos here
      rw [listed, listed']
      exact .some (List.reverse_perm _).symm
    · have unlisted : v.list? dir = none := if_neg here
      have unlisted' : w.list? dir = none := if_neg here
      rw [unlisted, unlisted']
      exact .none
  have joined (name : String) (h : name ∈ ["a.amx", "b.amx", "c.amx"]) :
      Path.join "scripts" name = "scripts/" ++ name := by
    revert name
    decide +kernel
  have code : i.code.toList = [7, 8] := by decide
  have fits : l.Fits v i "scripts" "c.amx" := by
    refine ⟨⟨entries, rfl, by decide⟩, rfl, ⟨"amx", by decide +kernel, ?_⟩,
      ⟨#[1, 1, 7, 8, 5], [1, 1], [5], ?_, by rw [code]; rfl, rfl⟩⟩
    · exact List.forall₂_same.mpr fun _ _ => .inl rfl
    · rw [joined "c.amx" (by decide)]
      decide
  have first : l.First v i "scripts/c.amx" := by
    refine ⟨1, "scripts", "c.amx", rfl, by decide +kernel, fits, ?_⟩
    rintro k dir name place
      ⟨⟨listed, answer, named⟩, _, _, bytes, before, after, read, split, length⟩
    match k with
    | 0 =>
      cases place
      cases answer
    | 1 =>
      cases place
      cases answer
      refine .inr ⟨rfl, ?_⟩
      simp only [entries, List.mem_cons, Option.some.injEq, reduceCtorEq, List.not_mem_nil,
        or_false, false_or] at named
      rcases named with rfl | rfl | rfl | rfl
      · decide
      · rw [joined "a.amx" (by decide)] at read
        cases read
      · rw [joined "b.amx" (by decide)] at read
        cases read
        have short := congrArg List.length split
        have front : i.header.code.toNat = 2 := rfl
        rw [code, List.length_append, List.length_append, length, front] at short
        simp only [List.length_cons, List.length_nil] at short
        omega
      · decide
    | k + 2 => cases place
  have found : l.search? v i = some "scripts/c.amx" := (found_iff _).mpr ⟨by decide, first⟩
  refine ⟨reordered, found, ?_⟩
  rw [unordered w reordered]
  exact found

end Postmortem
