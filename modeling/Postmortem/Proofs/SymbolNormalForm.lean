import Postmortem.Proofs.Lookups

/-!
# The normal form of symbol documents

A map keeps its functions as they were listed and its rows by address. Written and read once more
it stays as it is, so what a map writes is a normal form of the documents it can be read from.

* `LineRow.InOrder`: rows by address, those of one address as they were listed.
* `SymbolMap.Deficient`: documents in which a function or a row lacks a field.
* `SymbolMap.normal_form`: what is read from documents, and which are refused.
-/

namespace Postmortem

def FunctionRange.fieldNames : List String := ["name", "start", "end"]

namespace LineRow

def fieldNames : List String := ["address", "file", "line"]

/-- These rows by address. Rows with one address keep their order. -/
structure InOrder (rows lines : List LineRow) : Prop where
  perm : lines.Perm rows
  ascending : lines.Pairwise fun r s => r.address ≤ s.address
  stable : ∀ a, lines.filter (·.address = a) = rows.filter (·.address = a)

theorem inOrder_sorted (rows : List LineRow) : InOrder rows (sorted rows) where
  perm := perm_sorted rows
  ascending := pairwise_sorted rows
  stable := filter_sorted rows

theorem sorted_of_ascending {lines : List LineRow}
    (ascending : lines.Pairwise fun r s => r.address ≤ s.address) : sorted lines = lines := by
  have tested : lines.Pairwise fun r s => decide (r.address ≤ s.address) :=
    ascending.imp fun le => decide_eq_true le
  exact List.mergeSort_of_pairwise tested

end LineRow

namespace SymbolMap

def fieldNames : List String := ["functions", "lines"]

/-- A function or a row in the document lacks a field. -/
inductive Deficient (v : Json) : Prop
  | function {items : List Json} {item : Json}
      (listed : (some "functions", .array items) ∈ v.told fieldNames) (here : item ∈ items)
      (lacks : item.Lacks FunctionRange.fieldNames)
  | row {items : List Json} {item : Json}
      (listed : (some "lines", .array items) ∈ v.told fieldNames) (here : item ∈ items)
      (lacks : item.Lacks LineRow.fieldNames)

end SymbolMap

/-! ## What a map writes -/

theorem FunctionRange.shown_toJson (f : FunctionRange) : f.Shown (Document.toJson f) := by
  refine .object _ ?_ (by simp)
  simp only [List.forall_mem_cons]
  exact ⟨rfl, rfl, rfl, nofun⟩

theorem LineRow.shown_toJson (r : LineRow) : r.Shown (Document.toJson r) := by
  refine .object _ ?_ (by simp)
  simp only [List.forall_mem_cons]
  exact ⟨rfl, rfl, rfl, nofun⟩

namespace SymbolMap

theorem ofRows_self (m : SymbolMap) : ofRows m.functions m.lines = m := by
  obtain ⟨functions, lines, ascending⟩ := m
  simp only [ofRows, LineRow.sorted_of_ascending ascending]

theorem lists_toJson (m : SymbolMap) : Lists m.functions m.lines (Document.toJson m) := by
  have ranges := Json.showsList_toJson FunctionRange.shown_toJson m.functions
  have rows := Json.showsList_toJson LineRow.shown_toJson m.lines
  exact ⟨_, _, ranges, rows, .object _ (by simp [List.lookup_cons]) (by simp)⟩

/-- The rows of a map are in order, so that they are read as they were written. -/
theorem read_write (m : SymbolMap) : Document.read SymbolMap (Document.write m) = .ok m := by
  have read := read_of_lists (Json.written_write _) (lists_toJson m)
  rw [ofRows_self] at read
  exact read

end SymbolMap

/-! ## What a map is read from -/

theorem FunctionRange.not_lacks {v : Json} {f : FunctionRange} (ok : Document.ofJson v = .ok f) :
    ¬ v.Lacks fieldNames := by
  obtain ⟨fs, read, ok⟩ := Json.bind_eq_ok ok
  obtain ⟨_, name, ok⟩ := Json.bind_eq_ok ok
  obtain ⟨_, start, ok⟩ := Json.bind_eq_ok ok
  obtain ⟨_, stop, _⟩ := Json.bind_eq_ok ok
  apply Json.not_lacks (by decide) read
  simp only [List.forall_mem_cons]
  exact ⟨Json.Fields.lookup_of_required name, Json.Fields.lookup_of_required start,
    Json.Fields.lookup_of_required stop, nofun⟩

theorem LineRow.not_lacks {v : Json} {r : LineRow} (ok : Document.ofJson v = .ok r) :
    ¬ v.Lacks fieldNames := by
  obtain ⟨fs, read, ok⟩ := Json.bind_eq_ok ok
  obtain ⟨_, address, ok⟩ := Json.bind_eq_ok ok
  obtain ⟨_, file, ok⟩ := Json.bind_eq_ok ok
  obtain ⟨_, line, _⟩ := Json.bind_eq_ok ok
  apply Json.not_lacks (by decide) read
  simp only [List.forall_mem_cons]
  exact ⟨Json.Fields.lookup_of_required address, Json.Fields.lookup_of_required file,
    Json.Fields.lookup_of_required line, nofun⟩

namespace SymbolMap

theorem ofJson_spec {v : Json} {m : SymbolMap} (ok : Document.ofJson v = .ok m) :
    ¬ Deficient v ∧
      (some "functions" ∉ (v.told fieldNames).map (·.1) → m.functions = []) ∧
      (some "lines" ∉ (v.told fieldNames).map (·.1) → m.lines = []) := by
  obtain ⟨fs, read, ok⟩ := Json.bind_eq_ok ok
  obtain ⟨functions, ranges, ok⟩ := Json.bind_eq_ok ok
  obtain ⟨rows, lines, made⟩ := Json.bind_eq_ok ok
  cases made
  have distinct : fieldNames.Nodup := by decide
  have ranges := Json.Fields.optional_list_spec distinct read (by decide) ranges
  have lines := Json.Fields.optional_list_spec distinct read (by decide) lines
  refine ⟨?_, ranges.2, ?_⟩
  · intro deficient
    cases deficient with
    | function listed here lacks =>
      obtain ⟨f, ok⟩ := ranges.1 _ listed _ here
      exact FunctionRange.not_lacks ok lacks
    | row listed here lacks =>
      obtain ⟨r, ok⟩ := lines.1 _ listed _ here
      exact LineRow.not_lacks ok lacks
  · intro absent
    rw [lines.2 absent]
    exact LineRow.sorted_of_ascending .nil

/-- **What a map writes is the normal form of what it can be read from.** Every map is read as it
was written. Functions and rows, listed in whatever order and written as objects or arrays with the
fields of objects in any order and others among them, make the map of these functions in their
order and of the rows by address, rows with one address as they were listed. A list that is not
there is empty. A document with a function or a row that lacks a field is refused as a whole. -/
theorem normal_form :
    (∀ m : SymbolMap, Document.read SymbolMap (Document.write m) = .ok m) ∧
      (∀ functions rows, (ofRows functions rows).functions = functions ∧
        LineRow.InOrder rows (ofRows functions rows).lines) ∧
      (∀ functions rows v text, Json.Written v text → Lists functions rows v →
        Document.read SymbolMap text = .ok (ofRows functions rows)) ∧
      (∀ v text m, Json.Written v text → Document.read SymbolMap text = .ok m →
        (some "functions" ∉ (v.told fieldNames).map (·.1) → m.functions = []) ∧
        (some "lines" ∉ (v.told fieldNames).map (·.1) → m.lines = [])) ∧
      ∀ v text, Json.Written v text → Deficient v →
        ∃ cause, Document.read SymbolMap text = .error cause := by
  have ofJson {v : Json} {text : String} (written : Json.Written v text) :
      Document.read SymbolMap text = Document.ofJson v := by
    rw [Document.read, Json.read_of_written written]
  refine ⟨read_write, fun functions rows => ⟨rfl, LineRow.inOrder_sorted rows⟩, ?_, ?_, ?_⟩
  · intro functions rows v text written lists
    exact read_of_lists written lists
  · intro v text m written ok
    rw [ofJson written] at ok
    exact (ofJson_spec ok).2
  · intro v text written deficient
    cases read : Document.read SymbolMap text with
    | error cause => exact ⟨cause, rfl⟩
    | ok m =>
      rw [ofJson written] at read
      exact absurd deficient (ofJson_spec read).1

/-- The rows come before the functions, out of order and in both shapes, with a field between them
that nobody knows. A row without its line spoils its document, a document without functions is
read. -/
theorem normal_form_unsorted :
    let functions : List FunctionRange := [⟨"main", 40, 8⟩, ⟨"\"caf\u00e9\"\n", 0, 4294967295⟩]
    let rows : List LineRow :=
      [⟨4294967295, "b.pwn", 2⟩, ⟨8, "a.pwn", 4294967295⟩, ⟨8, "a.pwn", 3⟩]
    let v : Json := .record [("lines", .array [.array [.int 4294967295, .text "b.pwn", .int 2],
        .record [("line", .int 4294967295), ("file", .text "a.pwn"), ("address", .int 8)],
        .array [.int 8, .text "a.pwn", .int 3]]),
      ("compiler", .null), ("functions", Document.toJson functions)]
    let m := ofRows functions rows
    let short : Json := .record [("lines", .array [.array [.int 8, .text "a.pwn"]])]
    let bare : Json := .record [("lines", .array [])]
    Lists functions rows v ∧ Document.read SymbolMap v.write = .ok m ∧
      m.lines.filter (·.address = 8) = [⟨8, "a.pwn", 4294967295⟩, ⟨8, "a.pwn", 3⟩] ∧
      Document.read SymbolMap (Document.write m) = .ok m ∧
      (∃ cause, Document.read SymbolMap short.write = .error cause) ∧
      ∃ spare, Document.read SymbolMap bare.write = .ok spare ∧ spare.functions = [] := by
  intro functions rows v m short bare
  obtain ⟨again, made, read, absent, refused⟩ := normal_form
  have ranges := Json.showsList_toJson FunctionRange.shown_toJson functions
  have lines : Json.ShowsList LineRow.Shown rows _ :=
    .array (.cons (.array [.int 4294967295, .text "b.pwn", .int 2] 0 rfl)
      (.cons (.object [("line", .int 4294967295), ("file", .text "a.pwn"), ("address", .int 8)]
        (by simp [List.lookup_cons]) (by simp))
      (.cons (.array [.int 8, .text "a.pwn", .int 3] 0 rfl) .nil)))
  have lists : Lists functions rows v :=
    ⟨_, _, ranges, lines, .object _ (by simp [List.lookup_cons]) (by simp)⟩
  have deficient : Deficient short :=
    .row (.head _) (.head _) ⟨"line", by decide, by decide⟩
  have empty : Lists [] [] bare :=
    ⟨_, _, .absent, .array .nil, .object _ (by simp [List.lookup_cons]) (by simp)⟩
  have written := Json.written_write bare
  have bareRead := read [] [] bare _ written empty
  exact ⟨lists, read functions rows v _ (Json.written_write v) lists,
    ((made functions rows).2.stable 8).trans (by decide), again m,
    refused short _ (Json.written_write short) deficient,
    _, bareRead, (absent bare _ _ written bareRead).1 (by decide)⟩

end SymbolMap

end Postmortem
