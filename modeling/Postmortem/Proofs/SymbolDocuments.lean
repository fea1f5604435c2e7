import Postmortem.Proofs.Json.Reading
import Postmortem.Proofs.Json.Records
import Postmortem.Symbols.Table

/-!
# Documents of symbol maps

A document of symbols lists function ranges and line rows, each of them as an object or as an array.
Whatever the order of the rows, the map that is read from it has them by address.

* `SymbolMap.Lists`: the documents of some ranges and rows.
* `SymbolMap.read_of_lists`: the map that is read from them.
-/

namespace Postmortem

namespace Document

instance : Faithful UInt32 where
  ofJson_toJson n := by
    have high := n.toNat_lt
    have range : 0 ≤ (n.toNat : Int) ∧ (n.toNat : Int) ≤ 4294967295 := by omega
    have read : (Json.int n.toNat).toInt 0 4294967295 = .ok (n.toNat : Int) := by
      simp only [Json.int, Json.toInt]
      rw [if_pos range]
    change (UInt32.ofNat ·.toNat) <$> (Json.int n.toNat).toInt 0 4294967295 = .ok n
    rw [read]
    exact congrArg Except.ok UInt32.ofNat_toNat

end Document

namespace Json

theorem Fields.required_of_lookup {α : Type} [Document α] [Document.Faithful α] {fs : Fields}
    {name : String} {a : α} (found : fs.lookup name = some (Document.toJson a)) :
    fs.required name = .ok a := by
  unfold required
  rw [found]
  exact Document.Faithful.ofJson_toJson a

/-- An array of values that are shown one by one, or nothing in place of an empty one. -/
inductive ShowsList {α : Type} (Shown : α → Json → Prop) : List α → Option Json → Prop
  | absent : ShowsList Shown [] none
  | array {as : List α} {items : List Json} (each : List.Forall₂ Shown as items) :
      ShowsList Shown as (some (.array items))

theorem showsList_toJson {α : Type} [Document α] {Shown : α → Json → Prop}
    (shown : ∀ a, Shown a (Document.toJson a)) (as : List α) :
    ShowsList Shown as (some (Document.toJson as)) := by
  apply ShowsList.array
  rw [List.forall₂_map_right_iff, List.forall₂_same]
  intro a _
  exact shown a

theorem mapM_of_forall₂ {α : Type} [Document α] {Shown : α → Json → Prop}
    (reads : ∀ a v, Shown a v → Document.ofJson v = .ok a) {as : List α} {items : List Json}
    (each : List.Forall₂ Shown as items) : items.mapM Document.ofJson = .ok as := by
  induction each with
  | nil => rfl
  | cons shown _ ih =>
    rw [List.mapM_cons, reads _ _ shown, ih]
    rfl

theorem Fields.optional_of_showsList {α : Type} [Document α] {Shown : α → Json → Prop}
    (reads : ∀ a v, Shown a v → Document.ofJson v = .ok a) {fs : Fields} {name : String}
    {as : List α} {field : Option Json} (shown : ShowsList Shown as field)
    (found : fs.lookup name = field) : fs.optional name [] = .ok as := by
  unfold optional
  rw [found]
  cases shown with
  | absent => rfl
  | array each => exact mapM_of_forall₂ reads each

end Json

/-! ## Ranges and rows -/

/-- A document of the range. -/
def FunctionRange.Shown (f : FunctionRange) : Json → Prop :=
  Json.Shows [("name", some (.text f.name)), ("start", some (.int f.start.toNat)),
    ("end", some (.int f.stop.toNat))]

/-- A document of the row. -/
def LineRow.Shown (r : LineRow) : Json → Prop :=
  Json.Shows [("address", some (.int r.address.toNat)), ("file", some (.text r.file)),
    ("line", some (.int r.line.toNat))]

theorem FunctionRange.ofJson_of_shown (f : FunctionRange) (v : Json) (shown : f.Shown v) :
    Document.ofJson v = .ok f := by
  obtain ⟨fs, fields, found⟩ := Json.fields_of_shows (by simp) shown
  simp only [List.forall_mem_cons] at found
  obtain ⟨name, start, stop, _⟩ := found
  have name : fs.required "name" = .ok f.name := Json.Fields.required_of_lookup name
  have start : fs.required "start" = .ok f.start := Json.Fields.required_of_lookup start
  have stop : fs.required "end" = .ok f.stop := Json.Fields.required_of_lookup stop
  change (v.fields ["name", "start", "end"]).bind _ = _
  rw [show v.fields ["name", "start", "end"] = .ok fs from fields]
  simp only [Except.bind, bind, name, start, stop]
  rfl

theorem LineRow.ofJson_of_shown (r : LineRow) (v : Json) (shown : r.Shown v) :
    Document.ofJson v = .ok r := by
  obtain ⟨fs, fields, found⟩ := Json.fields_of_shows (by simp) shown
  simp only [List.forall_mem_cons] at found
  obtain ⟨address, file, line, _⟩ := found
  have address : fs.required "address" = .ok r.address := Json.Fields.required_of_lookup address
  have file : fs.required "file" = .ok r.file := Json.Fields.required_of_lookup file
  have line : fs.required "line" = .ok r.line := Json.Fields.required_of_lookup line
  change (v.fields ["address", "file", "line"]).bind _ = _
  rw [show v.fields ["address", "file", "line"] = .ok fs from fields]
  simp only [Except.bind, bind, address, file, line]
  rfl

/-! ## Maps -/

namespace SymbolMap

/-- A document of these ranges and rows, each list in its order. -/
def Lists (functions : List FunctionRange) (rows : List LineRow) (v : Json) : Prop :=
  ∃ fs rs, Json.ShowsList FunctionRange.Shown functions fs ∧ Json.ShowsList LineRow.Shown rows rs ∧
    Json.Shows [("functions", fs), ("lines", rs)] v

theorem ofJson_of_lists {functions : List FunctionRange} {rows : List LineRow} {v : Json}
    (lists : Lists functions rows v) : Document.ofJson v = .ok (ofRows functions rows) := by
  obtain ⟨fs, rs, ranges, lines, shown⟩ := lists
  obtain ⟨fields, read, found⟩ := Json.fields_of_shows (by simp) shown
  simp only [List.forall_mem_cons] at found
  obtain ⟨first, second, _⟩ := found
  have functions : fields.optional "functions" [] = .ok functions :=
    Json.Fields.optional_of_showsList FunctionRange.ofJson_of_shown ranges first
  have rows : fields.optional "lines" [] = .ok rows :=
    Json.Fields.optional_of_showsList LineRow.ofJson_of_shown lines second
  change (v.fields ["functions", "lines"]).bind _ = _
  rw [show v.fields ["functions", "lines"] = .ok fields from read]
  simp only [Except.bind, bind, functions, rows]
  rfl

/-- A map is read from every document of some ranges and rows, with blanks around every token and
every character of a string escaped or not. -/
theorem read_of_lists {functions : List FunctionRange} {rows : List LineRow} {v : Json}
    {text : String} (written : Json.Written v text) (lists : Lists functions rows v) :
    Document.read SymbolMap text = .ok (ofRows functions rows) := by
  rw [Document.read, Json.read_of_written written]
  exact ofJson_of_lists lists

end SymbolMap

end Postmortem
