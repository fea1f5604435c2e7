import Mathlib.Data.List.ReduceOption
import Postmortem.Proofs.SettingsDocuments
import Postmortem.Proofs.Text.Numerals
import Postmortem.Proofs.Text.Trimming
import Postmortem.Settings.KeyValue

/-!
# Settings in lines

What is read from a text of settings that was written line by line. The blanks around a key and a
value do not matter, comments and blank lines say nothing, and the last line with a key counts.

* `KeyValue.Writes`: the texts of some pairs of a key and a value.
* `KeyValue.Takes`: the pairs that spell some of the fields of settings, and the others badly or not
  at all.
* `KeyValue.read_lines`: what is looked up in such a text, and the settings that are read from it.
-/

namespace Postmortem

namespace KeyValue

/-! ## Lines -/

/-- A word that is not taken for a comment. -/
structure IsKey (key : String) : Prop where
  named : key ≠ ""
  whole : ∀ c ∈ key.toList, ¬ Text.IsBlank c
  meant : key.toList.head? ≠ some '#'

instance (key : String) : Decidable (IsKey key) :=
  decidable_of_iff
    (key ≠ "" ∧ key.toList.all (¬ Text.IsBlank ·) ∧ key.toList.head? ≠ some '#') <| by
    simp only [List.all_eq_true, decide_eq_true_eq]
    exact ⟨fun ⟨named, whole, meant⟩ => ⟨named, whole, meant⟩,
      fun ⟨named, whole, meant⟩ => ⟨named, whole, meant⟩⟩

/-- A line, and the key and the value in it if it has them. -/
inductive Line : Option (String × String) → List Char → Prop
  | pair {key value : String} {before between after : List Char} (isKey : IsKey key)
      (trimmed : Text.Trimmed value.toList) (apart : between ≠ [] ∨ value = "")
      (blank : ∀ c ∈ before ++ between ++ after, Text.IsBlank c) :
      Line (some (key, value)) (before ++ key.toList ++ between ++ value.toList ++ after)
  | comment {before rest : List Char} (blank : ∀ c ∈ before, Text.IsBlank c) :
      Line none (before ++ '#' :: rest)
  | blank {cs : List Char} (blank : ∀ c ∈ cs, Text.IsBlank c) : Line none cs

/-- A text of lines that say these pairs, one after another. -/
def Writes (pairs : List (String × String)) (text : String) : Prop :=
  ∃ said lines, said.reduceOption = pairs ∧ List.Forall₂ Line said lines ∧
    (∀ line ∈ lines, '\n' ∉ line) ∧ text = String.ofList (['\n'].intercalate lines)

/-- The last pair with this key has this value. -/
def LastSaid (pairs : List (String × String)) (key value : String) : Prop :=
  ∃ before after, pairs = before ++ (key, value) :: after ∧ ∀ p ∈ after, p.1 ≠ key

variable {pairs : List (String × String)} {text key value : String} {line : List Char}

theorem IsKey.toList_ne_nil (isKey : IsKey key) : key.toList ≠ [] :=
  mt String.toList_eq_nil_iff.mp isKey.named

theorem IsKey.trimmed (isKey : IsKey key) : Text.Trimmed key.toList :=
  ⟨fun c hc => isKey.whole c (List.mem_of_mem_head? hc),
    fun c hc => isKey.whole c (List.mem_of_getLast? hc)⟩

/-- What a line says that begins with a key, when the blanks at its ends are cut off. -/
theorem entry?_of_trim {rest cut : List Char} (isKey : IsKey key)
    (trim : Text.trim line = key.toList ++ rest)
    (split : Text.splitFirst (key.toList ++ rest) = (key.toList, cut)) :
    entry? line = some (key, String.ofList (Text.trim cut)) := by
  have head : (key.toList ++ rest).head? = key.toList.head? :=
    List.head?_append_of_ne_nil _ isKey.toList_ne_nil
  rw [← trim] at head split
  unfold entry?
  split
  case h_1 empty =>
    rw [empty] at trim
    exact absurd (List.append_eq_nil_iff.mp trim.symm).1 isKey.toList_ne_nil
  case h_2 hash =>
    rw [hash] at head
    exact absurd head.symm isKey.meant
  case h_3 =>
    rw [split]
    simp only [String.ofList_toList]

theorem entry?_key {before after : List Char} (isKey : IsKey key)
    (first : ∀ c ∈ before, Text.IsBlank c) (last : ∀ c ∈ after, Text.IsBlank c) :
    entry? (before ++ key.toList ++ after) = some (key, "") := by
  have trim : Text.trim (before ++ key.toList ++ after) = key.toList ++ [] := by
    rw [Text.trim_padded isKey.trimmed first last, List.append_nil]
  have split : Text.splitFirst (key.toList ++ []) = (key.toList, []) := by
    rw [List.append_nil, Text.splitFirst_of_whole isKey.whole]
  exact entry?_of_trim isKey trim split

theorem entry?_key_value {before between after : List Char} {c : Char} (isKey : IsKey key)
    (filled : value ≠ "") (trimmed : Text.Trimmed value.toList)
    (first : ∀ c ∈ before, Text.IsBlank c) (blank : Text.IsBlank c)
    (middle : ∀ c ∈ between, Text.IsBlank c) (last : ∀ c ∈ after, Text.IsBlank c) :
    entry? (before ++ key.toList ++ c :: between ++ value.toList ++ after) =
      some (key, value) := by
  have whole : Text.Trimmed (key.toList ++ c :: between ++ value.toList) := by
    constructor
    · rw [List.append_assoc, List.head?_append_of_ne_nil _ isKey.toList_ne_nil]
      exact isKey.trimmed.head
    · rw [List.getLast?_append_of_ne_nil _ (mt String.toList_eq_nil_iff.mp filled)]
      exact trimmed.last
  have trim : Text.trim (before ++ key.toList ++ c :: between ++ value.toList ++ after) =
      key.toList ++ c :: (between ++ value.toList) := by
    have padded := Text.trim_padded whole first last
    simpa only [List.append_assoc, List.cons_append] using padded
  have rest : Text.trim (between ++ value.toList ++ []) = value.toList :=
    Text.trim_padded trimmed middle (by simp)
  rw [List.append_nil] at rest
  rw [entry?_of_trim isKey trim (Text.splitFirst_of_blank isKey.whole blank), rest,
    String.ofList_toList]

theorem entry?_of_line {said : Option (String × String)} (written : Line said line) :
    entry? line = said := by
  cases written with
  | comment blank =>
    unfold entry?
    rw [Text.trim_cons blank (by decide)]
    rfl
  | blank blank =>
    unfold entry?
    rw [Text.trim_of_blank blank]
  | @pair key value before between after isKey trimmed apart blank =>
    simp only [List.forall_mem_append] at blank
    obtain ⟨⟨first, middle⟩, last⟩ := blank
    by_cases filled : value = ""
    · subst filled
      rw [String.toList_empty, List.append_nil, List.append_assoc]
      exact entry?_key isKey first (List.forall_mem_append.mpr ⟨middle, last⟩)
    · obtain ⟨c, between, rfl⟩ := List.exists_cons_of_ne_nil (apart.resolve_right filled)
      obtain ⟨blank, middle⟩ := List.forall_mem_cons.mp middle
      exact entry?_key_value isKey filled trimmed first blank middle last

/-! ## Texts -/

/-- Every line puts its pair in front of those of the lines above it. -/
theorem entries_foldl (lines : List (List Char)) (kv : KeyValue) :
    (lines.foldl addLine kv).entries = (lines.filterMap entry?).reverse ++ kv.entries := by
  induction lines generalizing kv with
  | nil => rfl
  | cons line lines ih =>
    rw [List.foldl_cons, ih, addLine]
    cases said : entry? line with
    | none => rw [List.filterMap_cons_none said]
    | some p =>
      rw [List.filterMap_cons_some said, List.reverse_cons, List.append_assoc]
      rfl

theorem entries_parse (text : String) :
    (parse text).entries = ((text.toList.splitOn '\n').filterMap entry?).reverse := by
  rw [parse, entries_foldl, List.append_nil]

theorem map_entry? {said : List (Option (String × String))} {lines : List (List Char)}
    (each : List.Forall₂ Line said lines) : lines.map entry? = said := by
  induction each with
  | nil => rfl
  | cons first _ ih => rw [List.map_cons, entry?_of_line first, ih]

theorem entries_of_writes (writes : Writes pairs text) : (parse text).entries = pairs.reverse := by
  obtain ⟨said, lines, rfl, each, unbroken, rfl⟩ := writes
  rw [entries_parse, String.toList_ofList]
  cases lines with
  | nil =>
    cases each
    rfl
  | cons first later =>
    rw [List.splitOn_intercalate _ unbroken (by simp), ← map_entry? each, List.reduceOption,
      List.filterMap_map]
    rfl

theorem raw?_eq_some_iff (writes : Writes pairs text) :
    (parse text).raw? key = some value ↔ LastSaid pairs key value := by
  rw [raw?, entries_of_writes writes, List.lookup_eq_some_iff]
  constructor
  · rintro ⟨later, earlier, reversed, others⟩
    refine ⟨earlier.reverse, later.reverse, ?_, ?_⟩
    · rw [← List.reverse_reverse pairs, reversed]
      simp
    · intro p hp
      exact (bne_iff_ne.mp (others p (List.mem_reverse.mp hp))).symm
  · rintro ⟨before, after, rfl, others⟩
    refine ⟨after.reverse, before.reverse, by simp, ?_⟩
    intro p hp
    exact bne_iff_ne.mpr (others p (List.mem_reverse.mp hp)).symm

theorem raw?_eq_none_iff (writes : Writes pairs text) :
    (parse text).raw? key = none ↔ ∀ p ∈ pairs, p.1 ≠ key := by
  rw [raw?, entries_of_writes writes, List.lookup_eq_none_iff]
  simp only [List.mem_reverse, bne_iff_ne, ne_comm]

theorem raw?_parse_append (first second key : String) :
    (parse (first ++ "\n" ++ second)).raw? key =
      ((parse second).raw? key).or ((parse first).raw? key) := by
  have split : (first ++ "\n" ++ second).toList.splitOn '\n' =
      first.toList.splitOn '\n' ++ second.toList.splitOn '\n' := by
    rw [String.toList_append, String.toList_append, List.append_assoc]
    exact List.splitOnP_append_cons _ _ (by decide)
  rw [raw?, entries_parse, split, List.filterMap_append, List.reverse_append, List.lookup_append,
    ← entries_parse, ← entries_parse]
  rfl

/-! ## Values -/

/-- What a flag may be set with, in small letters. -/
def flagWords : Bool → List String
  | true => ["1", "true", "yes", "on"]
  | false => ["0", "false", "no", "off"]

/-- What says that no index detaches. -/
def noIndexWords : List String := ["", "none", "off"]

/-- The value says at which index a debugger detaches, or that it never does. -/
def SaysIndex : Option Int32 → String → Prop
  | some n, value => Text.Decimal n.toInt value.toList
  | none, value => value ∈ noIndexWords

theorem flag?_eq_some_iff {cs : List Char} {flag : Bool} :
    flag? cs = some flag ↔ String.ofList (cs.map Char.toLower) ∈ flagWords flag := by
  have apart : ∀ word ∈ flagWords true, word ∉ flagWords false := by decide
  unfold flag?
  change (if _ ∈ flagWords true then some true
    else if _ ∈ flagWords false then some false else none) = some flag ↔ _
  split
  case isTrue yes => cases flag <;> simp [yes, apart]
  case isFalse notYes =>
    split
    case isTrue no => cases flag <;> simp [no, notYes]
    case isFalse notNo => cases flag <;> simp [notNo, notYes]

theorem read?_int32_eq_some_iff {cs : List Char} {n : Int32} :
    Value.read? cs = some n ↔ Text.Decimal n.toInt cs := by
  rw [← Text.signed?_eq_some_iff]
  change ((Text.signed? cs).filter fun n => (-2147483648 : Int) ≤ n ∧ n ≤ 2147483647).map
    Int32.ofInt = some n ↔ _
  constructor
  · intro read
    obtain ⟨m, filtered, rfl⟩ := Option.map_eq_some_iff.mp read
    obtain ⟨read, range⟩ := Option.filter_eq_some_iff.mp filtered
    obtain ⟨low, high⟩ := of_decide_eq_true range
    rw [read, Int32.toInt_ofInt_of_le low (by omega)]
  · intro read
    have low := n.le_toInt
    have high := n.toInt_lt
    have range : (-2147483648 : Int) ≤ n.toInt ∧ n.toInt ≤ 2147483647 := by omega
    rw [read, Option.filter_some, if_pos (decide_eq_true range), Option.map_some, Int32.ofInt_toInt]

/-! ## Fields -/

/-- The value is one with which the field with this name is set to what it is in the settings. -/
def Spelled (s : Settings) (name value : String) : Prop :=
  match name with
  | "die_on_error" => value.toLower ∈ flagWords s.dieOnError
  | "run_on_error" => value = s.runOnError
  | "search_dirs" => Text.Spaced (s.searchDirs.map String.toList) value.toList
  | "script_path_env" => value = s.pathVariable
  | "detach_sentinel_index" => SaysIndex s.detachIndex value
  | "log_prefix" => value = s.marker
  | _ => False

/-- The field with this name cannot be set to the value, whatever the settings. -/
def Malformed (name value : String) : Prop :=
  match name with
  | "die_on_error" => ∀ flag, value.toLower ∉ flagWords flag
  | "detach_sentinel_index" => ∀ index, ¬ SaysIndex index value
  | _ => False

/-- The last pairs spell the fields with these names. A pair for another field is malformed. -/
structure Takes (s : Settings) (names : List String) (pairs : List (String × String)) : Prop where
  spelled : ∀ name ∈ names, ∃ value, LastSaid pairs name value ∧ Spelled s name value
  malformed : ∀ name ∈ Settings.fieldNames, name ∉ names →
    ∀ value, LastSaid pairs name value → Malformed name value

variable {s : Settings} {kv : KeyValue} {names : List String} {name : String}

/-- What is looked up for a field of which the settings are to be taken or not. -/
inductive Heard (kv : KeyValue) (s : Settings) (names : List String) (name : String) : Prop
  | taken {value : String} (listed : name ∈ names) (said : kv.raw? name = some value)
      (trimmed : Text.Trimmed value.toList) (spelled : Spelled s name value)
  | malformed {value : String} (unlisted : name ∉ names) (said : kv.raw? name = some value)
      (trimmed : Text.Trimmed value.toList) (malformed : Malformed name value)
  | unsaid (unlisted : name ∉ names) (unsaid : kv.raw? name = none)

theorem trimmed_of_each {said : List (Option (String × String))} {lines : List (List Char)}
    (each : List.Forall₂ Line said lines) : ∀ p, some p ∈ said → Text.Trimmed p.2.toList := by
  induction each with
  | nil => nofun
  | cons first _ ih =>
    intro p hp
    rcases List.mem_cons.mp hp with rfl | later
    · cases first
      assumption
    · exact ih p later

theorem trimmed_of_lastSaid (writes : Writes pairs text) (last : LastSaid pairs key value) :
    Text.Trimmed value.toList := by
  obtain ⟨said, lines, rfl, each, _, _⟩ := writes
  obtain ⟨before, after, among, _⟩ := last
  have listed : (key, value) ∈ said.reduceOption := by simp [among]
  exact trimmed_of_each each (key, value) (List.reduceOption_mem_iff.mp listed)

theorem heard_of_takes (writes : Writes pairs text) (takes : Takes s names pairs)
    (known : name ∈ Settings.fieldNames) : Heard (parse text) s names name := by
  by_cases listed : name ∈ names
  · obtain ⟨value, last, spelled⟩ := takes.spelled name listed
    have said := (raw?_eq_some_iff writes).mpr last
    exact .taken listed said (trimmed_of_lastSaid writes last) spelled
  · cases said : (parse text).raw? name with
    | none => exact .unsaid listed said
    | some value =>
      have last := (raw?_eq_some_iff writes).mp said
      exact .malformed listed said (trimmed_of_lastSaid writes last)
        (takes.malformed name known listed value last)

theorem get_of_said {α : Type} [Value α] {default : α} (said : kv.raw? name = some value)
    (trimmed : Text.Trimmed value.toList) :
    kv.get name default = (Value.read? value.toList).getD default := by
  rw [get, said, Option.bind_some, Text.trim_eq_self trimmed]

theorem get_of_heard {α : Type} [Value α] {a default : α} (heard : Heard kv s names name)
    (reads : ∀ value, Spelled s name value → Value.read? value.toList = some a)
    (refuses : ∀ value, Malformed name value → (Value.read? value.toList : Option α) = none) :
    kv.get name default = if name ∈ names then a else default := by
  cases heard with
  | taken listed said trimmed spelled =>
    rw [get_of_said said trimmed, reads _ spelled, if_pos listed, Option.getD_some]
  | malformed unlisted said trimmed malformed =>
    rw [get_of_said said trimmed, refuses _ malformed, if_neg unlisted, Option.getD_none]
  | unsaid unlisted unsaid =>
    rw [get, unsaid, if_neg unlisted]
    rfl

theorem get_flag_of_heard {default : Bool} (heard : Heard kv s names "die_on_error") :
    kv.get "die_on_error" default =
      if "die_on_error" ∈ names then s.dieOnError else default := by
  have lower (value : String) : String.ofList (value.toList.map Char.toLower) = value.toLower := by
    rw [← String.toList_map, String.ofList_toList]
    rfl
  apply get_of_heard heard
  · intro value spelled
    have word : value.toLower ∈ flagWords s.dieOnError := spelled
    exact flag?_eq_some_iff.mpr (lower value ▸ word)
  · intro value malformed
    have noFlag : ∀ flag, value.toLower ∉ flagWords flag := malformed
    rw [Option.eq_none_iff_forall_ne_some]
    intro flag read
    exact noFlag flag (lower value ▸ flag?_eq_some_iff.mp read)

theorem searchDirs_of_heard {default : List Path} (heard : Heard kv s names "search_dirs") :
    kv.searchDirs default = if "search_dirs" ∈ names then s.searchDirs else default := by
  cases heard with
  | @taken value listed said _ spelled =>
    have spaced : Text.Spaced (s.searchDirs.map String.toList) value.toList := spelled
    rw [searchDirs, said, if_pos listed]
    dsimp only
    rw [Text.words_of_spaced spaced, List.map_map]
    simp
  | malformed _ _ _ malformed => exact malformed.elim
  | unsaid unlisted unsaid => rw [searchDirs, unsaid, if_neg unlisted]

theorem detachIndex_of_said {default : Option Int32}
    (said : kv.raw? "detach_sentinel_index" = some value) (trimmed : Text.Trimmed value.toList) :
    kv.detachIndex default = if value ∈ noIndexWords then none else
      (Value.read? value.toList : Option Int32).or default := by
  rw [detachIndex, said]
  dsimp only
  rw [Text.trim_eq_self trimmed, String.ofList_toList]
  rfl

theorem not_word_of_decimal {n : Int} (decimal : Text.Decimal n value.toList) :
    value ∉ noIndexWords := by
  have unread : ∀ word ∈ noIndexWords, Text.signed? word.toList = none := by decide
  intro word
  have read := Text.signed?_eq_some_iff.mpr decimal
  rw [unread value word] at read
  cases read

theorem detachIndex_of_heard {default : Option Int32}
    (heard : Heard kv s names "detach_sentinel_index") :
    kv.detachIndex default =
      if "detach_sentinel_index" ∈ names then s.detachIndex else default := by
  cases heard with
  | @taken value listed said trimmed spelled =>
    have told : SaysIndex s.detachIndex value := spelled
    rw [detachIndex_of_said said trimmed, if_pos listed]
    cases index : s.detachIndex with
    | some n =>
      rw [index] at told
      rw [if_neg (not_word_of_decimal told), read?_int32_eq_some_iff.mpr told, Option.some_or]
    | none =>
      rw [index] at told
      exact if_pos told
  | @malformed value unlisted said trimmed malformed =>
    have noIndex : ∀ index, ¬ SaysIndex index value := malformed
    have noWord : value ∉ noIndexWords := noIndex none
    have unread : (Value.read? value.toList : Option Int32) = none := by
      rw [Option.eq_none_iff_forall_ne_some]
      intro n read
      exact noIndex (some n) (read?_int32_eq_some_iff.mp read)
    rw [detachIndex_of_said said trimmed, if_neg noWord, unread, if_neg unlisted, Option.none_or]
  | unsaid unlisted unsaid => rw [detachIndex, unsaid, if_neg unlisted]

theorem get_string_of_heard {string default : String} (heard : Heard kv s names name)
    (spelled : ∀ value, Spelled s name value → value = string)
    (wellFormed : ∀ value, ¬ Malformed name value) :
    kv.get name default = if name ∈ names then string else default := by
  apply get_of_heard heard
  · intro value written
    have read : (Value.read? value.toList : Option String) = some value :=
      congrArg some String.ofList_toList
    rw [read, spelled value written]
  · exact fun value malformed => (wellFormed value malformed).elim

/-- The settings in a text are those in the fields that it spells. -/
theorem settings_of_takes (writes : Writes pairs text) (takes : Takes s names pairs) :
    (parse text).settings = s.only names := by
  have heard (name : String) (known : name ∈ Settings.fieldNames) :
      Heard (parse text) s names name := heard_of_takes writes takes known
  have command := heard "run_on_error" (by decide)
  have pathVariable := heard "script_path_env" (by decide)
  have marker := heard "log_prefix" (by decide)
  simp only [settings, Settings.only]
  rw [get_flag_of_heard (heard "die_on_error" (by decide)),
    get_string_of_heard command (fun _ spelled => spelled) fun _ => id,
    searchDirs_of_heard (heard "search_dirs" (by decide)),
    get_string_of_heard pathVariable (fun _ spelled => spelled) fun _ => id,
    detachIndex_of_heard (heard "detach_sentinel_index" (by decide)),
    get_string_of_heard marker (fun _ spelled => spelled) fun _ => id]

/-- **What is written in lines is read from them, and the last line with a key counts.** Looking up
a key in a text gives the value in the last of its lines, and nothing if it is in none. Of two
texts, one below the other, the second overrides the first. The settings in a text are those in the
fields that it spells, however it spells them. All other fields have their defaults, also those that
it spells badly. -/
theorem read_lines :
    (∀ (pairs : List (String × String)) (text key : String), Writes pairs text →
      (∀ value, (parse text).raw? key = some value ↔ LastSaid pairs key value) ∧
        ((parse text).raw? key = none ↔ ∀ p ∈ pairs, p.1 ≠ key)) ∧
      (∀ first second key : String, (parse (first ++ "\n" ++ second)).raw? key =
        ((parse second).raw? key).or ((parse first).raw? key)) ∧
      ∀ (s : Settings) (names : List String) (pairs : List (String × String)) (text : String),
        Writes pairs text → Takes s names pairs → (parse text).settings = s.only names := by
  refine ⟨?_, raw?_parse_append, fun s names pairs text => settings_of_takes⟩
  intro pairs text key writes
  exact ⟨fun value => raw?_eq_some_iff writes, raw?_eq_none_iff writes⟩

/-- The flag is spelled twice, the second time in other letters, and the index is out of range. -/
theorem read_lines_spelledTwice :
    let text := "# lobby\n\n \tdie_on_error  OFF\nsearch_dirs\u2003a  b/c \r\nlog_prefix\n" ++
      "detach_sentinel_index 2147483648\n  run_on_error notify --all\ndie_on_error yEs"
    let pairs := [("die_on_error", "OFF"), ("search_dirs", "a  b/c"), ("log_prefix", ""),
      ("detach_sentinel_index", "2147483648"), ("run_on_error", "notify --all"),
      ("die_on_error", "yEs")]
    let names := ["die_on_error", "search_dirs", "log_prefix", "run_on_error"]
    let s : Settings :=
      { dieOnError := true, runOnError := "notify --all", searchDirs := ["a", "b/c"], marker := "" }
    Writes pairs text ∧ Takes s names pairs ∧ (parse text).settings = s := by
  intro text pairs names s
  have pair (key value : String) (before between after : List Char) (fits : IsKey key ∧
      Text.Trimmed value.toList ∧ (between ≠ [] ∨ value = "") ∧
      (before ++ between ++ after).all (Text.IsBlank ·)) :
      Line (some (key, value)) (before ++ key.toList ++ between ++ value.toList ++ after) := by
    obtain ⟨isKey, trimmed, apart, blank⟩ := fits
    rw [List.all_eq_true] at blank
    exact .pair isKey trimmed apart fun c hc => of_decide_eq_true (blank c hc)
  have writes : Writes pairs text := by
    refine ⟨_, _, ?_, .cons (@Line.comment [] " lobby".toList nofun) <|
      .cons (@Line.blank [] nofun) <|
      .cons (pair "die_on_error" "OFF" [' ', '\t'] [' ', ' '] [] (by decide +kernel)) <|
      .cons (pair "search_dirs" "a  b/c" [] ['\u2003'] [' ', '\r'] (by decide +kernel)) <|
      .cons (pair "log_prefix" "" [] [] [] (by decide +kernel)) <|
      .cons (pair "detach_sentinel_index" "2147483648" [] [' '] [] (by decide +kernel)) <|
      .cons (pair "run_on_error" "notify --all" [' ', ' '] [' '] [] (by decide +kernel)) <|
      .cons (pair "die_on_error" "yEs" [] [' '] [] (by decide +kernel)) .nil, ?_, ?_⟩
    · rfl
    · decide +kernel
    · decide +kernel
  have spaced : Text.Spaced ["a".toList, "b/c".toList] "a  b/c".toList := by
    have last : Text.Spaced ["b/c".toList] "b/c".toList :=
      .last (by decide) (by simp [Text.IsBlank])
    exact @Text.Spaced.more "a".toList [' ', ' '] _ _ (by decide) (by simp [Text.IsBlank])
      (by decide) (by simp [Text.IsBlank]) last (by decide)
  have spelled : ∀ name ∈ names, ∃ value, LastSaid pairs name value ∧ Spelled s name value := by
    simp only [names, List.forall_mem_cons]
    refine ⟨⟨"yEs", ⟨pairs.take 5, [], rfl, nofun⟩, ?_⟩,
      ⟨"a  b/c", ⟨pairs.take 1, pairs.drop 2, rfl, by decide⟩, spaced⟩,
      ⟨"", ⟨pairs.take 2, pairs.drop 3, rfl, by decide⟩, rfl⟩,
      ⟨"notify --all", ⟨pairs.take 4, pairs.drop 5, rfl, by decide⟩, rfl⟩, nofun⟩
    change "yEs".toLower ∈ flagWords true
    decide +kernel
  have tooLarge (n : Int32) : ¬ Text.Decimal n.toInt "2147483648".toList := by
    have read : Text.signed? "2147483648".toList = some 2147483648 := by decide +kernel
    have high := n.toInt_lt
    rw [← Text.signed?_eq_some_iff, read, Option.some.injEq]
    omega
  have malformed : ∀ name ∈ Settings.fieldNames, name ∉ names →
      ∀ value, LastSaid pairs name value → Malformed name value := by
    rintro name - unlisted value ⟨before, after, among, -⟩
    have others : ∀ p ∈ pairs, p.1 ∉ names → p = ("detach_sentinel_index", "2147483648") := by
      decide +kernel
    obtain ⟨rfl, rfl⟩ := Prod.mk.inj (others (name, value) (by simp [among]) unlisted)
    intro index
    cases index with
    | none =>
      have noWord : "2147483648" ∉ noIndexWords := by decide
      exact noWord
    | some n => exact tooLarge n
  have takes : Takes s names pairs := ⟨spelled, malformed⟩
  exact ⟨writes, takes, read_lines.2.2 s names pairs text writes takes⟩

end KeyValue

end Postmortem
