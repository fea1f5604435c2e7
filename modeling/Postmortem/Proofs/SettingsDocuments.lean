import Postmortem.Proofs.Json.Reading
import Postmortem.Proofs.Json.Records
import Postmortem.Settings.Basic

/-!
# Documents of settings

A document of settings may leave fields out, have them in any order and have others among them. What
is left out has its default. A field that is there twice spoils the document.

* `Settings.members`: the fields of settings, with their values.
* `Settings.only`: settings of which some fields are taken, with the defaults in the others.
* `Settings.read_documents`: what is read from every document of some of the fields.
-/

namespace Postmortem

namespace Settings

def fieldNames : List String :=
  ["die_on_error", "run_on_error", "search_dirs", "script_path_env", "detach_sentinel_index",
    "log_prefix"]

/-- The fields of settings, each with its value. -/
def members (s : Settings) : List (String × Json) :=
  [("die_on_error", .bool s.dieOnError), ("run_on_error", .text s.runOnError),
    ("search_dirs", .array (s.searchDirs.map .text)), ("script_path_env", .text s.pathVariable),
    ("detach_sentinel_index", s.detachIndex.elim .null fun n => .int n.toInt),
    ("log_prefix", .text s.marker)]

/-- The settings in the fields with these names, and the defaults in all others. -/
def only (s : Settings) (names : List String) : Settings :=
  let d : Settings := {}
  { dieOnError := if "die_on_error" ∈ names then s.dieOnError else d.dieOnError
    runOnError := if "run_on_error" ∈ names then s.runOnError else d.runOnError
    searchDirs := if "search_dirs" ∈ names then s.searchDirs else d.searchDirs
    pathVariable := if "script_path_env" ∈ names then s.pathVariable else d.pathVariable
    detachIndex := if "detach_sentinel_index" ∈ names then s.detachIndex else d.detachIndex
    marker := if "log_prefix" ∈ names then s.marker else d.marker }

theorem toJson_detachIndex (index : Option Int32) :
    (Document.toJson index : Json) = index.elim .null fun n => .int n.toInt := by
  cases index <;> rfl

theorem toJson_eq (s : Settings) : Document.toJson s = .record s.members := by
  change Json.record _ = Json.record _
  rw [toJson_detachIndex]
  rfl

theorem lookup_members {s : Settings} {name : String} {v : Json} (here : (name, v) ∈ s.members) :
    s.members.lookup name = some v := by
  simp only [members, List.mem_cons, Prod.mk.injEq, List.not_mem_nil, or_false] at here
  rcases here with ⟨rfl, rfl⟩ | ⟨rfl, rfl⟩ | ⟨rfl, rfl⟩ | ⟨rfl, rfl⟩ | ⟨rfl, rfl⟩ | ⟨rfl, rfl⟩
  all_goals rfl

/-- A known field is found in a document with the value that the settings have there, if it is there
at all. -/
theorem lookup_known {s : Settings} {fs : List (String × Json)}
    (faithful : ∀ m ∈ fs, m.1 ∈ fieldNames → m ∈ s.members) {name : String}
    (known : name ∈ fieldNames) :
    (fs.filter (·.1 ∈ fieldNames)).lookup name =
      if name ∈ fs.map (·.1) then s.members.lookup name else none := by
  rw [Json.lookup_known_members known]
  cases found : fs.lookup name with
  | none =>
    have absent : name ∉ fs.map (·.1) := by
      rw [List.mem_map]
      rintro ⟨m, hm, rfl⟩
      simpa using List.lookup_eq_none_iff.mp found m hm
    rw [if_neg absent]
  | some v =>
    obtain ⟨before, after, rfl, _⟩ := List.lookup_eq_some_iff.mp found
    have here : (name, v) ∈ s.members := faithful (name, v) (by simp) known
    rw [if_pos (by simp), lookup_members here]

theorem ofJson_record {s : Settings} {fs : List (String × Json)}
    (faithful : ∀ m ∈ fs, m.1 ∈ fieldNames → m ∈ s.members)
    (once : ∀ name ∈ fieldNames, (fs.map (·.1)).count name ≤ 1) :
    Document.ofJson (Json.record fs) = .ok (s.only (fs.map (·.1))) := by
  have fields : (Json.record fs).fields fieldNames = .ok (fs.filter (·.1 ∈ fieldNames)) :=
    Json.fields_of_once once
  have field {α : Type} [Document α] [Document.Faithful α] (name : String) (a default : α)
      (known : name ∈ fieldNames) (value : s.members.lookup name = some (Document.toJson a)) :
      Json.Fields.optional (fs.filter (·.1 ∈ fieldNames)) name default =
        .ok (if name ∈ fs.map (·.1) then a else default) := by
    apply Json.Fields.optional_of_lookup
    rw [lookup_known faithful known, value]
  have index : s.members.lookup "detach_sentinel_index" =
      some (Document.toJson s.detachIndex : Json) := by
    rw [toJson_detachIndex]
    rfl
  change ((Json.record fs).fields fieldNames).bind _ = _
  rw [fields]
  simp only [Except.bind, bind]
  rw [field "die_on_error" s.dieOnError _ (by decide) rfl,
    field "run_on_error" s.runOnError _ (by decide) rfl,
    field "search_dirs" s.searchDirs _ (by decide) rfl,
    field "script_path_env" s.pathVariable _ (by decide) rfl,
    field "detach_sentinel_index" s.detachIndex _ (by decide) index,
    field "log_prefix" s.marker _ (by decide) rfl]
  rfl

theorem read_of_document {s : Settings} {text : String} {v : Json} (written : Json.Written v text)
    (read : Document.ofJson v = .ok s) : Settings.read text = .ok s := by
  rw [Settings.read, Document.read, Json.read_of_written written]
  simp only [read]

/-- **Settings are read from every document of some of their fields.** The fields may be in any
order, with blanks around every token, every character of a string escaped or not, and fields nobody
knows among them. What is left out has its default. What is written here is read back. A document
with a known field twice is refused. -/
theorem read_documents :
    (∀ s : Settings, Settings.read (Document.write s) = .ok s) ∧
      (∀ (s : Settings) (fs : List (String × Json)) (text : String),
        Json.Written (.record fs) text →
        (∀ m ∈ fs, m.1 ∈ fieldNames → m ∈ s.members) →
        (∀ name ∈ fieldNames, (fs.map (·.1)).count name ≤ 1) →
        Settings.read text = .ok (s.only (fs.map (·.1)))) ∧
      (∀ (s : Settings) (names : List String), "detach_sentinel_index" ∉ names →
        (s.only names).detachIndex = some (-10)) ∧
      ∀ (fs : List (Option String × Json)) (text : String), Json.Written (.object fs) text →
        (∃ name ∈ fieldNames, 2 ≤ (fs.map (·.1)).count (some name)) →
        ∃ cause, Settings.read text = .error cause := by
  have partially (s : Settings) (fs : List (String × Json)) (text : String)
      (written : Json.Written (.record fs) text)
      (faithful : ∀ m ∈ fs, m.1 ∈ fieldNames → m ∈ s.members)
      (once : ∀ name ∈ fieldNames, (fs.map (·.1)).count name ≤ 1) :
      Settings.read text = .ok (s.only (fs.map (·.1))) :=
    read_of_document written (ofJson_record faithful once)
  refine ⟨?_, partially, ?_, ?_⟩
  · intro s
    have written : Json.Written (.record s.members) (Document.write s) := by
      rw [Document.write, toJson_eq]
      exact Json.written_write _
    have once : ∀ name ∈ fieldNames, (s.members.map (·.1)).count name ≤ 1 := by
      change ∀ name ∈ fieldNames, fieldNames.count name ≤ 1
      decide
    exact partially s s.members _ written (fun m hm _ => hm) once
  · intro s names missing
    exact if_neg missing
  · rintro fs text written ⟨name, known, twice⟩
    obtain ⟨cause, refused⟩ := Json.fields_of_repeated known twice
    refine ⟨.document cause, ?_⟩
    have unread : Document.ofJson (α := Settings) (.object fs) = .error cause := by
      change ((Json.object fs).fields fieldNames).bind _ = _
      rw [refused]
      rfl
    rw [Settings.read, Document.read, Json.read_of_written written]
    simp only [unread]

/-- Nobody knows the first field, and neither of its items is of a kind that any field has. -/
theorem read_documents_detachDisabled :
    let fs : List (String × Json) :=
      [("extra", .array [.number none, .string none]), ("detach_sentinel_index", .null)]
    let text := "\x7b \"extra\":[1e5,\"\\ud800\"],\n\"detach_sentinel_index\" : null\x7d"
    let s : Settings := { detachIndex := none, marker := "unused" }
    Json.Written (.record fs) text ∧
      (∀ m ∈ fs, m.1 ∈ fieldNames → m ∈ s.members) ∧
      (∀ name ∈ fieldNames, (fs.map (·.1)).count name ≤ 1) ∧
      Settings.read text = .ok { detachIndex := none } := by
  intro fs text s
  have noBlank : ∀ c ∈ ([] : List Char), Json.IsBlank c := nofun
  have space : ∀ c ∈ [' '], Json.IsBlank c := by simp [Json.IsBlank]
  have newline : ∀ c ∈ ['\n'], Json.IsBlank c := by simp [Json.IsBlank]
  have number : (Json.Token.number none).Spells ['1', 'e', '5'] := by
    have five : Json.Digits ['5'] := ⟨by decide, by simpa using ⟨5, by decide⟩⟩
    have one : Json.Whole 1 ['1'] := .digit (by decide)
    exact .exponent (.inl rfl) one ⟨'e', [], ['5'], .inl rfl, .inl rfl, five, rfl⟩
  have string := Json.spells_spelling (.string none)
  have laid :=
    Json.Laid.cons noBlank .openObject <| .cons space (Json.spells_quoted "extra") <|
    .cons noBlank .colon <| .cons noBlank .openArray <| .cons noBlank number <|
    .cons noBlank .comma <| .cons noBlank string <| .cons noBlank .closeArray <|
    .cons noBlank .comma <| .cons newline (Json.spells_quoted "detach_sentinel_index") <|
    .cons space .colon <| .cons space .null <| .cons noBlank .closeObject <| .nil noBlank
  have written : Json.Written (.record fs) text := by
    unfold Json.Written
    convert laid using 1
    · decide +kernel
    · decide +kernel
  have faithful : ∀ m ∈ fs, m.1 ∈ fieldNames → m ∈ s.members := by
    simp [fs, s, members, fieldNames]
  have once : ∀ name ∈ fieldNames, (fs.map (·.1)).count name ≤ 1 := by decide
  exact ⟨written, faithful, once, read_documents.2.1 s fs text written faithful once⟩

end Settings

end Postmortem
