import Postmortem.Proofs.Location
import Postmortem.Proofs.Paths
import Postmortem.Symbols.Source

/-!
# The sidecar of a script

The symbols of a script lie beside it, under its stem. Different scripts of one extension never look
for the same sidecar, and no sidecar is taken for a script. One kind of name has no sidecar at all:
where the stem is a single dot, what is looked for is the directory above.

* `ScriptFile`: a script as it may be found, and where its sidecar belongs.
* `ScriptFile.sidecar_eq`: where its sidecar is looked for.
* `ScriptFile.own_sidecar`: which paths those are.
-/

namespace Postmortem

/-- A script as it may be found: a directory that is searched, and the name of a file in it that has
an extension. -/
structure ScriptFile where
  dir : Path
  stem : String
  ext : String
  nonempty : stem ≠ ""
  whole : '/' ∉ stem.toList ∧ '/' ∉ ext.toList
  undotted : '.' ∉ ext.toList
  /-- Two dots are the way up from a directory and no file in it. -/
  proper : stem ++ "." ++ ext ≠ ".."

namespace ScriptFile

def name (f : ScriptFile) : String := f.stem ++ "." ++ f.ext

def path (f : ScriptFile) : Path := Path.join f.dir f.name

/-- Where symbols for the script are looked for. -/
def sidecar (f : ScriptFile) : Path := f.path.withExtension SymbolSource.sidecarExtension

/-- Where the sidecar of the script belongs. -/
def beside (f : ScriptFile) : Path := Path.join f.dir (f.stem ++ ".sym.json")

end ScriptFile

/-! ## Scripts that are found -/

/-- Directories list the names of their entries, and neither themselves nor the way up. -/
def Volume.Proper (v : Volume) : Prop :=
  ∀ dir, ∀ name ∈ v.names dir, Path.IsStep name.toList ∧ name ≠ ".."

namespace FileTree

theorem proper_volume {t : FileTree}
    (names : ∀ e ∈ t.entries, ∀ name ∈ e.1.getLast?, Path.IsStep name.toList ∧ name ≠ "..") :
    t.volume.Proper := by
  intro dir name listed
  rw [Locator.names_volume, list] at listed
  split at listed
  case h_2 => exact absurd listed List.not_mem_nil
  case h_1 =>
    split at listed
    case isFalse => exact absurd listed List.not_mem_nil
    case isTrue =>
      obtain ⟨e, here, last⟩ := List.mem_filterMap.mp listed
      split at last
      case isFalse => cases last
      case isTrue => exact names e here name last

end FileTree

namespace ScriptFile

theorem exists_of_extension {dir : Path} {name e : String} (step : Path.IsStep name.toList)
    (proper : name ≠ "..") (extended : (Path.join dir name).extension? = some e) :
    ∃ f : ScriptFile, f.dir = dir ∧ f.name = name ∧ f.ext = e := by
  rw [Path.extension?_join step proper, Option.map_eq_some_iff] at extended
  obtain ⟨ext, cuts, rfl⟩ := extended
  obtain ⟨stem, nonempty, undotted, split⟩ := Path.of_cut cuts
  have spelled : String.ofList stem ++ "." ++ String.ofList ext = name := by
    rw [← String.toList_inj, Path.toList_dotted, split, String.toList_ofList, String.toList_ofList]
  have whole := step.whole
  rw [split, List.mem_append, List.mem_cons, not_or, not_or] at whole
  refine ⟨⟨dir, String.ofList stem, String.ofList ext, ?_, ?_, ?_, ?_⟩, rfl, spelled, rfl⟩
  · simpa using nonempty
  · simpa using ⟨whole.1, whole.2.2⟩
  · simpa using undotted
  · rwa [spelled]

/-- What a search finds is a script file in one of the directories. -/
theorem exists_of_search? {l : Locator} {v : Volume} {i : Image} {p : Path} (proper : v.Proper)
    (found : l.search? v i = some p) : ∃ f : ScriptFile, f.path = p ∧ f.dir ∈ l.searchPaths := by
  by_cases coded : i.code = #[]
  · rw [Locator.search?_of_no_code coded] at found
    cases found
  · obtain ⟨k, dir, name, here, rfl, fits, _⟩ := (Locator.search?_eq_some_iff coded).mp found
    obtain ⟨step, other⟩ := proper dir name (Locator.mem_names_iff.mpr fits.listed)
    obtain ⟨e, extended, _⟩ := fits.ext
    obtain ⟨f, rfl, rfl, _⟩ := exists_of_extension step other extended
    exact ⟨f, rfl, List.mem_of_getElem? here⟩

/-! ## Where a sidecar is looked for -/

variable (f : ScriptFile)

theorem isStep_name : Path.IsStep f.name.toList := Path.isStep_dotted f.nonempty f.whole

theorem stem?_path : f.path.stem? = some f.stem := by
  rw [path, Path.stem?_join f.isStep_name f.proper, name, Path.cut_dotted f.nonempty f.undotted,
    String.ofList_toList]

theorem extension?_path : f.path.extension? = some f.ext := by
  rw [path, Path.extension?_join f.isStep_name f.proper, name,
    Path.cut_dotted f.nonempty f.undotted, Option.map_some, String.ofList_toList]

/-- The name under which a sidecar is looked for. -/
def sidecarName : String := if f.stem = "." then ".." else f.stem ++ "." ++ "sym.json"

theorem isStep_sidecarName : Path.IsStep f.sidecarName.toList := by
  unfold sidecarName
  split
  · exact Path.isStep_up
  · exact Path.isStep_dotted f.nonempty ⟨f.whole.1, by decide⟩

theorem sidecar_eq_join : f.sidecar = Path.join f.dir f.sidecarName := by
  rw [sidecar, path, name, Path.withExtension_join f.nonempty f.whole f.proper f.undotted (by decide),
    sidecarName]
  split <;> rfl

theorem sidecar_eq : f.sidecar = if f.stem = "." then Path.join f.dir ".." else f.beside := by
  have spelled : f.stem ++ "." ++ "sym.json" = f.stem ++ ".sym.json" := String.append_assoc
  rw [sidecar_eq_join, sidecarName, beside, spelled]
  split <;> rfl

theorem sidecar_eq_beside_iff : f.sidecar = f.beside ↔ f.stem ≠ "." := by
  rw [sidecar_eq]
  constructor
  · intro found dot
    rw [if_pos dot, beside, dot, Path.join_eq_iff Path.isStep_up ⟨by decide, by decide, by decide⟩]
      at found
    exact absurd found.2 (by decide)
  · intro other
    rw [if_neg other]

/-- A sidecar has another extension than a script. -/
theorem extension?_sidecar : f.sidecar.extension? = if f.stem = "." then none else some "json" := by
  rw [sidecar_eq_join]
  unfold sidecarName
  split
  case isTrue =>
    rw [Path.extension?, Path.fileName?_join Path.isStep_up, if_pos rfl]
    rfl
  case isFalse =>
    have cut : f.stem ++ "." ++ "sym.json" = f.stem ++ ".sym" ++ "." ++ "json" := by
      simp only [String.append_assoc]
      rfl
    have nonempty : f.stem ++ ".sym" ≠ "" := by simp
    have proper : f.stem ++ ".sym" ++ "." ++ "json" ≠ ".." := by
      rw [Ne, Path.dotted_eq_up_iff nonempty]
      simp
    have whole : '/' ∉ (f.stem ++ ".sym").toList := by simpa using f.whole.1
    rw [cut, Path.extension?_join (Path.isStep_dotted nonempty ⟨whole, by decide⟩) proper,
      Path.cut_dotted nonempty (by decide), Option.map_some, String.ofList_toList]

variable {f} {g : ScriptFile}

theorem name_eq_iff (same : f.ext = g.ext) : f.name = g.name ↔ f.stem = g.stem := by
  rw [name, name, same, String.append_left_inj, String.append_left_inj]

theorem sidecarName_eq_iff : f.sidecarName = g.sidecarName ↔ f.stem = g.stem := by
  have other (h : ScriptFile) : h.stem ++ "." ++ "sym.json" ≠ ".." := by
    rw [Ne, Path.dotted_eq_up_iff h.nonempty]
    simp
  unfold sidecarName
  by_cases dot : f.stem = "." <;> by_cases dot' : g.stem = "."
  · rw [if_pos dot, if_pos dot', dot, dot']
    exact iff_of_true rfl rfl
  · rw [if_pos dot, if_neg dot', dot]
    exact iff_of_false (Ne.symm (other g)) (Ne.symm dot')
  · rw [if_neg dot, if_pos dot', dot']
    exact iff_of_false (other f) dot
  · rw [if_neg dot, if_neg dot', String.append_left_inj, String.append_left_inj]

theorem sidecar_eq_iff (same : f.ext = g.ext) : f.sidecar = g.sidecar ↔ f.path = g.path := by
  rw [sidecar_eq_join, sidecar_eq_join, path, path,
    Path.join_eq_iff f.isStep_sidecarName g.isStep_sidecarName,
    Path.join_eq_iff f.isStep_name g.isStep_name, sidecarName_eq_iff, name_eq_iff same]

theorem parts_sidecar_eq_iff (same : f.ext = g.ext) :
    f.sidecar.parts = g.sidecar.parts ↔ f.path.parts = g.path.parts := by
  have names {n n' : String} {before before' : List (List Char)} :
      before ++ [n.toList] = before' ++ [n'.toList] ↔ before = before' ∧ n = n' := by
    rw [← String.toList_inj, ← List.singleton_inj (a := n.toList)]
    exact ⟨fun same => List.append_inj' same rfl, fun ⟨before, last⟩ => by rw [before, last]⟩
  rw [sidecar_eq_join, sidecar_eq_join, path, path, Path.parts_join f.isStep_sidecarName,
    Path.parts_join g.isStep_sidecarName, Path.parts_join f.isStep_name,
    Path.parts_join g.isStep_name, names, names, sidecarName_eq_iff, name_eq_iff same]

/-! ## Sidecars are no scripts -/

theorem not_extension_sidecar (f : ScriptFile) :
    (f.sidecar.extension?.any fun e => Locator.foldCase e = Locator.foldCase "amx") = false := by
  rw [extension?_sidecar]
  split
  · rfl
  · decide

theorem not_mem_candidates (f : ScriptFile) (dirs : List Path) (t : FileTree) :
    f.sidecar ∉ ({ searchPaths := dirs } : Locator).candidates t := by
  intro candidate
  obtain ⟨dir, _, here⟩ := List.mem_flatMap.mp candidate
  have script := (List.mem_filter.mp here).2
  rw [Locator.isScript, not_extension_sidecar, Bool.and_false] at script
  cases script

theorem not_mem_scriptsIn (f : ScriptFile) (dirs : List Path) (v : Volume) (dir : Path) :
    f.sidecar ∉ ({ searchPaths := dirs } : Locator).scriptsIn v dir := by
  intro here
  have script := (List.mem_filter.mp here).2
  rw [Locator.isScriptOn, not_extension_sidecar, Bool.and_false] at script
  cases script

/-- **A script has a sidecar of its own.** Its sidecar is looked for in its directory under its stem,
exactly unless the stem is a single dot: then the directory above is looked for. Scripts of one
extension look for the same sidecar only if they are the same script, whether paths are compared as
they are spelled or by their names. No sidecar is taken for a script. Whatever a search finds is such
a script file, in one of the directories that are searched. -/
theorem own_sidecar (f : ScriptFile) :
    (f.path.stem? = some f.stem ∧ f.path.extension? = some f.ext) ∧
    (f.sidecar = f.beside ↔ f.stem ≠ ".") ∧
    (f.stem = "." → f.sidecar = Path.join f.dir "..") ∧
    (∀ g : ScriptFile, f.ext = g.ext →
      (f.sidecar = g.sidecar ↔ f.path = g.path) ∧
      (f.sidecar.parts = g.sidecar.parts ↔ f.path.parts = g.path.parts)) ∧
    (∀ dirs : List Path,
      (∀ t : FileTree, f.sidecar ∉ ({ searchPaths := dirs } : Locator).candidates t) ∧
      ∀ (v : Volume) (dir : Path),
        f.sidecar ∉ ({ searchPaths := dirs } : Locator).scriptsIn v dir) ∧
    ∀ (l : Locator) (v : Volume) (i : Image) (p : Path), v.Proper → l.search? v i = some p →
      ∃ g : ScriptFile, g.path = p ∧ g.dir ∈ l.searchPaths := by
  refine ⟨⟨f.stem?_path, f.extension?_path⟩, f.sidecar_eq_beside_iff, ?_, ?_, ?_,
    fun l v i p => exists_of_search?⟩
  · intro dot
    rw [sidecar_eq, if_pos dot]
  · intro g same
    exact ⟨sidecar_eq_iff same, parts_sidecar_eq_iff same⟩
  · intro dirs
    exact ⟨f.not_mem_candidates dirs, f.not_mem_scriptsIn dirs⟩

/-- Two spellings of one directory: the paths of the script and of its sidecar differ as they are
spelled, and have the same names. Beside them a script whose stem is a single dot. -/
theorem own_sidecar_twoSpellings :
    let f : ScriptFile := ⟨"g/", "a.b", "amx", by decide, by decide, by decide, by decide⟩
    let g : ScriptFile := ⟨"g//.", "a.b", "amx", by decide, by decide, by decide, by decide⟩
    let dotted : ScriptFile := ⟨"g", ".", "amx", by decide, by decide, by decide, by decide⟩
    let i : Image := ⟨⟨0, 1⟩, #[7]⟩
    let l : Locator := { searchPaths := ["g/"] }
    let t : FileTree := ⟨[(["g"], .directory), (["g", "a.b.amx"], .file #[7])]⟩
    t.volume.Proper ∧ l.search? t.volume i = some f.path ∧
      (∃ h : ScriptFile, h.path = f.path ∧ h.dir ∈ l.searchPaths) ∧ f.ext = g.ext ∧
      f.sidecar = "g/a.b.sym.json" ∧ g.sidecar = "g//./a.b.sym.json" ∧ f.path ≠ g.path ∧
      f.sidecar.parts = g.sidecar.parts ∧ f.path.parts = g.path.parts ∧
      dotted.stem = "." ∧ dotted.sidecar = Path.join dotted.dir ".." := by
  intro f g dotted i l t
  obtain ⟨_, placed, _, own, _, searched⟩ := own_sidecar f
  have placed' : g.sidecar = g.beside ↔ g.stem ≠ "." := (own_sidecar g).2.1
  have proper : t.volume.Proper := by
    apply FileTree.proper_volume
    rw [List.forall_mem_cons, List.forall_mem_singleton]
    constructor
    · rintro _ ⟨⟩
      exact ⟨⟨by decide, by decide, by decide⟩, by decide⟩
    · rintro _ ⟨⟩
      exact ⟨⟨by decide, by decide, by decide⟩, by decide⟩
  have listed : t.list "g/" = ["a.b.amx"] := by decide +kernel
  have found : l.search? t.volume i = some f.path := by
    have one : l.candidates t = l.candidatesIn t "g/" := List.append_nil _
    rw [← Locator.locate?_eq_search?, Locator.locate?, if_neg (by decide), one,
      Locator.candidatesIn, listed, List.mergeSort_singleton]
    decide +kernel
  have sidecar : f.sidecar = "g/a.b.sym.json" :=
    (placed.mpr (by decide)).trans (by decide +kernel)
  have sidecar' : g.sidecar = "g//./a.b.sym.json" :=
    (placed'.mpr (by decide)).trans (by decide +kernel)
  have names : f.sidecar.parts = g.sidecar.parts := by
    rw [sidecar, sidecar']
    decide +kernel
  exact ⟨proper, found, searched l _ i _ proper found, rfl, sidecar, sidecar', by decide +kernel,
    names, (own g rfl).2.mp names, rfl, (own_sidecar dotted).2.2.1 rfl⟩

/-- Under a stem that is a single dot the sidecar is there, and the directory above is looked for. -/
theorem sidecar_astray :
    let f : ScriptFile := ⟨"g", ".", "amx", by decide, by decide, by decide, by decide⟩
    let i : Image := ⟨⟨0, 1⟩, #[7]⟩
    let l : Locator := { searchPaths := ["g"] }
    let t : FileTree :=
      ⟨[(["g"], .directory), (["g", "..amx"], .file #[7]), (["g", "..sym.json"], .file #[123, 125])]⟩
    l.locate? t i = some f.path ∧ f.path = "g/..amx" ∧ f.beside = "g/..sym.json" ∧
      (t.read? f.beside).isSome ∧ f.sidecar = "g/.." ∧ f.sidecar ≠ f.beside ∧
      (SymbolSource.sidecar SymbolSource.sidecarExtension).load t f.path =
        .error (.unreadable "g/..") := by
  intro f i l t
  have sidecar : f.sidecar = "g/.." := f.sidecar_eq.trans (by decide +kernel)
  have listed : t.list "g" = ["..amx", "..sym.json"] := by decide +kernel
  have sorted : (["..amx", "..sym.json"].mergeSort fun a b => decide (a ≤ b)) =
      ["..amx", "..sym.json"] := List.mergeSort_of_pairwise (by decide)
  have candidates : l.candidates t = ["g/..amx"] := by
    have one : l.candidates t = l.candidatesIn t "g" := List.append_nil _
    rw [one, Locator.candidatesIn, listed, sorted]
    decide +kernel
  have found : l.locate? t i = some "g/..amx" := by
    rw [Locator.locate?, if_neg (by decide), candidates]
    decide +kernel
  have path : f.path = "g/..amx" := by decide +kernel
  have beside : f.beside = "g/..sym.json" := by decide +kernel
  have refused : (SymbolSource.sidecar SymbolSource.sidecarExtension).load t f.path =
      .error (.unreadable "g/..") := by
    have load : (SymbolSource.sidecar SymbolSource.sidecarExtension).load t f.path =
        SymbolMap.table <$> SymbolSource.readSidecar t f.sidecar := rfl
    have missing : t.read? "g/.." = none := by decide +kernel
    rw [load, sidecar, SymbolSource.readSidecar, missing]
    rfl
  refine ⟨path ▸ found, path, beside, ?_, sidecar, ?_, refused⟩
  · rw [beside]
    decide +kernel
  · rw [beside, sidecar]
    decide

end ScriptFile

end Postmortem
