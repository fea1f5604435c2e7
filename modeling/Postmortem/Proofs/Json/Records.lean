import Mathlib.Data.List.Count
import Mathlib.Data.List.Nodup
import Mathlib.Data.Option.Basic
import Postmortem.Json.Document

/-!
# Records in documents

A record is read from an object that has its fields in any order and may have others among them, or
from an array of its values. A field that is there twice spoils an object.

* `Document.Faithful`: types whose values are read back as they were written.
* `Json.fields_of_once` and `Json.fields_of_repeated`: which objects have the fields of a record.
* `Json.Shows` and `Json.fields_of_shows`: the objects and arrays of a record, and what they say.
* `Json.told` and `Json.lookup_fields`: what any object or array says, and where it is found.
-/

namespace Postmortem

/-- Where no key is there twice, what is listed under a key is what is found. -/
theorem lookup_eq_some_iff_mem {α β : Type} [BEq α] [LawfulBEq α] {entries : List (α × β)}
    (once : (entries.map (·.1)).Nodup) {key : α} {value : β} :
    entries.lookup key = some value ↔ (key, value) ∈ entries := by
  rw [List.lookup_eq_some_iff]
  constructor
  · rintro ⟨before, after, rfl, _⟩
    exact List.mem_append_right _ List.mem_cons_self
  · intro listed
    obtain ⟨before, after, rfl⟩ := List.append_of_mem listed
    refine ⟨before, after, rfl, ?_⟩
    intro entry earlier
    rw [List.map_append, List.map_cons] at once
    have apart := (List.nodup_append.mp once).2.2 entry.1 (List.mem_map_of_mem earlier) key
      List.mem_cons_self
    simpa using Ne.symm apart

/-! ## Values and their documents -/

namespace Document

/-- What is written is read back. -/
class Faithful (α : Type) [Document α] : Prop where
  ofJson_toJson (a : α) : ofJson (toJson a) = .ok a

instance : Faithful Bool := ⟨fun _ => rfl⟩

instance : Faithful String := ⟨fun _ => rfl⟩

instance : Faithful Int32 where
  ofJson_toJson n := by
    have low := n.le_toInt
    have high := n.toInt_lt
    have range : -2147483648 ≤ n.toInt ∧ n.toInt ≤ 2147483647 := by omega
    have read : (Json.int n.toInt).toInt (-2147483648) 2147483647 = .ok n.toInt := by
      simp only [Json.int, Json.toInt]
      rw [if_pos range]
    change Int32.ofInt <$> (Json.int n.toInt).toInt (-2147483648) 2147483647 = .ok n
    rw [read]
    exact congrArg Except.ok (Int32.ofInt_toInt n)

instance {α : Type} [Document α] [Faithful α] : Faithful (List α) where
  ofJson_toJson as := by
    change (as.map toJson).mapM ofJson = .ok as
    induction as with
    | nil => rfl
    | cons a as ih =>
      rw [List.map_cons, List.mapM_cons, Faithful.ofJson_toJson, ih]
      rfl

/-- A number is not confused with its absence. -/
instance : Faithful (Option Int32) where
  ofJson_toJson
    | none => rfl
    | some n => by
      change some <$> ofJson (toJson n) = .ok (some n)
      rw [Faithful.ofJson_toJson]
      rfl

end Document

namespace Json

theorem mapM_memberName (members : List (String × Json)) :
    (members.map fun m => (some m.1, m.2)).mapM memberName = .ok members := by
  induction members with
  | nil => rfl
  | cons m members ih =>
    rw [List.map_cons, List.mapM_cons, ih]
    rfl

theorem eq_of_mapM_memberName {members : List (Option String × Json)} {named : Fields}
    (ok : members.mapM memberName = .ok named) :
    members = named.map fun m => (some m.1, m.2) := by
  induction members generalizing named with
  | nil =>
    cases ok
    rfl
  | cons m members ih =>
    obtain ⟨key, v⟩ := m
    rw [List.mapM_cons] at ok
    cases key with
    | none => cases ok
    | some k =>
      cases rest : members.mapM memberName with
      | error cause =>
        rw [rest] at ok
        cases ok
      | ok later =>
        rw [rest] at ok
        cases ok
        rw [List.map_cons, ih rest]

/-- The names of the known members are those of the members that are known. -/
theorem names_known (members : Fields) (names : List String) :
    (members.filter (·.1 ∈ names)).map (·.1) = (members.map (·.1)).filter (· ∈ names) := by
  rw [List.filter_map]
  rfl

theorem fields_of_once {members : Fields} {names : List String}
    (once : ∀ name ∈ names, (members.map (·.1)).count name ≤ 1) :
    (record members).fields names = .ok (members.filter (·.1 ∈ names)) := by
  have distinct : ((members.filter (·.1 ∈ names)).map (·.1)).Nodup := by
    rw [names_known, List.nodup_iff_count_le_one]
    intro name
    by_cases known : name ∈ names
    · rw [List.count_filter (by simpa using known)]
      exact once name known
    · have absent : name ∉ (members.map (·.1)).filter (· ∈ names) := by
        simp [known]
      rw [List.count_eq_zero_of_not_mem absent]
      exact Nat.zero_le 1
  unfold record fields
  simp only [mapM_memberName, bind, Except.bind]
  rw [if_pos distinct]

theorem fields_of_repeated {members : List (Option String × Json)} {names : List String}
    {name : String} (known : name ∈ names) (twice : 2 ≤ (members.map (·.1)).count (some name)) :
    ∃ cause, (object members).fields names = .error cause := by
  cases ok : members.mapM memberName with
  | error cause => exact ⟨cause, by simp only [fields, ok, bind, Except.bind]⟩
  | ok named =>
    have count : (members.map (·.1)).count (some name) = (named.map (·.1)).count name := by
      have injective : Function.Injective (some : String → Option String) := Option.some_injective _
      rw [← List.count_map_of_injective _ _ injective, eq_of_mapM_memberName ok, List.map_map,
        List.map_map]
      rfl
    have repeats : ¬ ((named.filter (·.1 ∈ names)).map (·.1)).Nodup := by
      rw [names_known, List.nodup_iff_count_le_one]
      intro once
      have bound := once name
      rw [List.count_filter (by simpa using known)] at bound
      omega
    refine ⟨.repeated, ?_⟩
    simp only [fields, ok, bind, Except.bind]
    rw [if_neg repeats]

end Json

namespace Json.Fields

/-- A field with a default has the value it was written with, or its default if it is absent. -/
theorem optional_of_lookup {α : Type} [Document α] [Document.Faithful α] {fs : Fields}
    {name : String} {a default : α} {present : Prop} [Decidable present]
    (found : fs.lookup name = if present then some (Document.toJson a) else none) :
    fs.optional name default = .ok (if present then a else default) := by
  unfold optional
  rw [found]
  by_cases here : present
  · simp only [if_pos here]
    exact Document.Faithful.ofJson_toJson a
  · simp only [if_neg here]

end Json.Fields

/-! ## Objects and arrays of a record -/

namespace Json

/-- A record with these fields, as an object or as an array. `none` stands for a field that is left
out: an object may do without any field, an array without the last ones. -/
inductive Shows (fields : List (String × Option Json)) : Json → Prop
  | object (members : Fields) (told : ∀ f ∈ fields, members.lookup f.1 = f.2)
      (once : ∀ f ∈ fields, (members.map (·.1)).count f.1 ≤ 1) : Shows fields (record members)
  | array (items : List Json) (left : Nat)
      (told : fields.map (·.2) = items.map some ++ List.replicate left none) :
      Shows fields (.array items)

theorem lookup_known_members {members : Fields} {names : List String} {name : String}
    (known : name ∈ names) :
    (members.filter (·.1 ∈ names)).lookup name = members.lookup name := by
  induction members with
  | nil => rfl
  | cons m members ih =>
    obtain ⟨field, v⟩ := m
    by_cases same : name = field
    · subst same
      rw [List.filter_cons_of_pos (by simpa using known), List.lookup_cons_self,
        List.lookup_cons_self]
    · have different : (name == field) = false := beq_false_of_ne same
      rw [List.filter_cons]
      split
      · rw [List.lookup_cons, List.lookup_cons, different, ih]
      · rw [List.lookup_cons, different, ih]

/-- By induction on the fields: an array has their values in order, as far as it goes. -/
theorem lookup_zip {fields : List (String × Option Json)} (distinct : (fields.map (·.1)).Nodup)
    {items : List Json} {left : Nat}
    (told : fields.map (·.2) = items.map some ++ List.replicate left none) :
    ∀ f ∈ fields, ((fields.map (·.1)).zip items).lookup f.1 = f.2 := by
  induction fields generalizing items with
  | nil => exact nofun
  | cons f fields ih =>
    obtain ⟨name, value⟩ := f
    obtain ⟨absent, further⟩ := List.nodup_cons.mp distinct
    cases items with
    | nil =>
      intro g hg
      have out : g.2 ∈ List.replicate left none := by
        rw [List.map_nil, List.nil_append] at told
        rw [← told]
        exact List.mem_map_of_mem hg
      rw [List.zip_nil_right, List.eq_of_mem_replicate out]
      rfl
    | cons item items =>
      rw [List.map_cons, List.map_cons, List.cons_append, List.cons.injEq] at told
      obtain ⟨rfl, told⟩ := told
      rw [List.forall_mem_cons, List.map_cons, List.zip_cons_cons]
      refine ⟨List.lookup_cons_self, ?_⟩
      intro g hg
      have different : (g.1 == name) = false := by
        apply beq_false_of_ne
        intro same
        exact absent (List.mem_map.mpr ⟨g, hg, same⟩)
      rw [List.lookup_cons, different]
      exact ih further told g hg

theorem fields_of_shows {fields : List (String × Option Json)} {v : Json}
    (distinct : (fields.map (·.1)).Nodup) (shown : Shows fields v) :
    ∃ fs, v.fields (fields.map (·.1)) = .ok fs ∧ ∀ f ∈ fields, fs.lookup f.1 = f.2 := by
  cases shown with
  | object members told once =>
    refine ⟨_, fields_of_once (List.forall_mem_map.mpr once), ?_⟩
    intro f hf
    rw [lookup_known_members (List.mem_map_of_mem hf)]
    exact told f hf
  | array items left told =>
    have room : items.length ≤ (fields.map (·.1)).length := by
      have count := congrArg List.length told
      simp only [List.length_map, List.length_append, List.length_replicate] at count ⊢
      omega
    refine ⟨(fields.map (·.1)).zip items, ?_, lookup_zip distinct told⟩
    rw [Json.fields, if_pos room]

/-! ## What a record says -/

/-- The values of a record under the names of their fields. Those of an array have the names of the
fields in their declared order. -/
def told (names : List String) : Json → List (Option String × Json)
  | object members => members
  | array items => (names.map some).zip items
  | _ => []

/-- One of these fields is not there. -/
def Lacks (v : Json) (names : List String) : Prop :=
  ∃ name ∈ names, some name ∉ (v.told names).map (·.1)

theorem bind_eq_ok {ε α β : Type} {x : Except ε α} {f : α → Except ε β} {b : β}
    (ok : x >>= f = .ok b) : ∃ a, x = .ok a ∧ f a = .ok b := by
  cases x with
  | error cause => cases ok
  | ok a => exact ⟨a, rfl, ok⟩

theorem nodup_zip {names : List String} (distinct : names.Nodup) (items : List Json) :
    ((names.zip items).map (·.1)).Nodup := by
  rw [List.zip_eq_zip_take_min, List.map_fst_zip (by simp)]
  exact distinct.sublist (List.take_sublist _ _)

theorem lookup_fields {names : List String} (distinct : names.Nodup) {v : Json} {fs : Fields}
    (read : v.fields names = .ok fs) {name : String} (known : name ∈ names) {w : Json} :
    fs.lookup name = some w ↔ (some name, w) ∈ v.told names := by
  cases v with
  | object members =>
    obtain ⟨named, ok, chosen⟩ := bind_eq_ok read
    obtain rfl := eq_of_mapM_memberName ok
    dsimp only at chosen
    split at chosen
    · next once =>
      cases chosen
      rw [lookup_eq_some_iff_mem once]
      simp [told, known]
    · cases chosen
  | array items =>
    rw [fields] at read
    split at read
    · cases read
      rw [lookup_eq_some_iff_mem (nodup_zip distinct items), told, List.zip_map_left]
      simp
    · cases read
  | _ => cases read

theorem Fields.lookup_of_required {α : Type} [Document α] {fs : Fields} {name : String} {a : α}
    (ok : fs.required name = .ok a) : ∃ w, fs.lookup name = some w := by
  unfold required at ok
  cases found : fs.lookup name with
  | none =>
    rw [found] at ok
    cases ok
  | some w => exact ⟨w, rfl⟩

theorem not_lacks {names : List String} (distinct : names.Nodup) {v : Json} {fs : Fields}
    (read : v.fields names = .ok fs) (complete : ∀ name ∈ names, ∃ w, fs.lookup name = some w) :
    ¬ v.Lacks names := by
  rintro ⟨name, known, absent⟩
  obtain ⟨w, found⟩ := complete name known
  have here := (lookup_fields distinct read known).mp found
  exact absent (List.mem_map_of_mem here)

/-- Every item of a list that is read can be read. -/
theorem ofJson_of_mapM {α : Type} [Document α] {items : List Json} {as : List α}
    (ok : items.mapM Document.ofJson = .ok as) :
    ∀ item ∈ items, ∃ a : α, Document.ofJson item = .ok a := by
  induction items generalizing as with
  | nil => exact nofun
  | cons item items ih =>
    rw [List.mapM_cons] at ok
    obtain ⟨a, first, ok⟩ := bind_eq_ok ok
    obtain ⟨rest, later, _⟩ := bind_eq_ok ok
    exact List.forall_mem_cons.mpr ⟨⟨a, first⟩, ih later⟩

/-- What a list was read from: an array of which every item can be read, or nothing. -/
theorem Fields.optional_list_spec {α : Type} [Document α] {names : List String}
    (distinct : names.Nodup) {v : Json} {fs : Fields} (read : v.fields names = .ok fs)
    {name : String} (known : name ∈ names) {as : List α} (ok : fs.optional name [] = .ok as) :
    (∀ items, (some name, .array items) ∈ v.told names →
        ∀ item ∈ items, ∃ a : α, Document.ofJson item = .ok a) ∧
      (some name ∉ (v.told names).map (·.1) → as = []) := by
  unfold optional at ok
  constructor
  · intro items listed
    rw [(lookup_fields distinct read known).mpr listed] at ok
    exact ofJson_of_mapM ok
  · intro absent
    cases found : fs.lookup name with
    | none =>
      rw [found] at ok
      cases ok
      rfl
    | some w =>
      have here := (lookup_fields distinct read known).mp found
      exact absurd (List.mem_map_of_mem here) absent

end Json

end Postmortem
