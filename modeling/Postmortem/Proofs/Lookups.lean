import Mathlib.Data.List.Perm.Basic
import Mathlib.Data.List.TakeWhile
import Postmortem.Proofs.SymbolDocuments

/-!
# Lookups in symbol maps

A lookup walks a table of rows that was sorted when the map was made. What it finds is what a look
at every range and every row would find, in the order in which they were listed.

* `SymbolMap.Tightest` and `SymbolMap.Nearest`: what a lookup should find.
* `SymbolMap.row?_eq_some_iff`: a row is found where it is the nearest one, in whatever order rows
  were listed.
* `SymbolMap.lookups_in_listed`: what every map of some ranges and rows answers.
-/

namespace Postmortem

namespace FunctionRange

theorem narrowest_eq_none_iff {fs : List FunctionRange} : narrowest fs = none ↔ fs = [] := by
  cases fs with
  | nil => exact iff_of_true rfl rfl
  | cons f rest =>
    refine iff_of_false ?_ (List.cons_ne_nil f rest)
    rw [narrowest]
    split
    · split <;> exact Option.some_ne_none _
    · exact Option.some_ne_none _

/-- No range is narrower, and none that was listed before is as narrow. -/
theorem narrowest_spec {fs : List FunctionRange} {f : FunctionRange}
    (found : narrowest fs = some f) :
    (∀ g ∈ fs, f.width ≤ g.width) ∧ fs.find? (fun g => g.width = f.width) = some f := by
  induction fs generalizing f with
  | nil => cases found
  | cons g rest ih =>
    rw [narrowest] at found
    cases further : narrowest rest with
    | none =>
      rw [further] at found
      cases found
      rw [narrowest_eq_none_iff.mp further]
      simp
    | some h =>
      obtain ⟨least, first⟩ := ih further
      simp only [further] at found
      by_cases narrower : h.width < g.width
      · rw [if_pos narrower] at found
        cases found
        refine ⟨List.forall_mem_cons.mpr ⟨Nat.le_of_lt narrower, least⟩, ?_⟩
        rw [List.find?_cons_of_neg (by simpa using Nat.ne_of_gt narrower)]
        exact first
      · rw [if_neg narrower] at found
        cases found
        refine ⟨List.forall_mem_cons.mpr ⟨Nat.le_refl _, ?_⟩, by simp⟩
        intro k hk
        exact Nat.le_trans (Nat.le_of_not_lt narrower) (least k hk)

end FunctionRange

namespace LineRow

theorem perm_sorted (rows : List LineRow) : (sorted rows).Perm rows := List.mergeSort_perm ..

/-- Rows with one address keep their order. -/
theorem filter_sorted (rows : List LineRow) (a : Address) :
    (sorted rows).filter (·.address = a) = rows.filter (·.address = a) := by
  have alike : (rows.filter (·.address = a)).Pairwise
      fun r s => decide (r.address ≤ s.address) = true := by
    refine List.pairwise_of_forall_mem_list ?_
    intro r hr s hs
    have same : r.address = s.address := by
      rw [of_decide_eq_true (List.mem_filter.mp hr).2, of_decide_eq_true (List.mem_filter.mp hs).2]
    exact decide_eq_true (UInt32.le_of_eq same)
  have kept : (rows.filter (·.address = a)).Sublist (sorted rows) :=
    List.sublist_mergeSort address_trans address_total alike List.filter_sublist
  have kept' : (rows.filter (·.address = a)).Sublist
      ((sorted rows).filter (·.address = a)) := by
    have filtered := kept.filter (·.address = a)
    rwa [List.filter_filter, List.filter_congr (fun r _ => Bool.and_self _)] at filtered
  have count : ((sorted rows).filter (·.address = a)).length =
      (rows.filter (·.address = a)).length := ((perm_sorted rows).filter _).length_eq
  exact (kept'.eq_of_length count.symm).symm

theorem takeWhile_eq_filter {lines : List LineRow}
    (ascending : lines.Pairwise fun r s => r.address ≤ s.address) (a : Address) :
    lines.takeWhile (·.address ≤ a) = lines.filter (·.address ≤ a) := by
  induction lines with
  | nil => rfl
  | cons r lines ih =>
    obtain ⟨first, rest⟩ := List.pairwise_cons.mp ascending
    by_cases below : r.address ≤ a
    · rw [List.takeWhile_cons_of_pos (by simpa using below),
        List.filter_cons_of_pos (by simpa using below), ih rest]
    · have beyond : ∀ s ∈ r :: lines, ¬ s.address ≤ a := by
        rw [List.forall_mem_cons]
        exact ⟨below, fun s hs low => below (UInt32.le_trans (first s hs) low)⟩
      rw [List.takeWhile_cons_of_neg (by simpa using below)]
      exact (List.filter_eq_nil_iff.mpr (by simpa using beyond)).symm

end LineRow

namespace SymbolMap

/-- The range that was listed first among the narrowest around an address. -/
structure Tightest (functions : List FunctionRange) (a : Address) (f : FunctionRange) : Prop where
  covers : f.Covers a
  least : ∀ g ∈ functions, g.Covers a → f.width ≤ g.width
  first : functions.find? (fun g => g.Covers a ∧ g.width = f.width) = some f

/-- The row with the greatest address that is not above `a`, the last that was listed of those with
its address. -/
structure Nearest (rows : List LineRow) (a : Address) (r : LineRow) : Prop where
  below : r.address ≤ a
  greatest : ∀ s ∈ rows, s.address ≤ a → s.address ≤ r.address
  last : (rows.filter (·.address = r.address)).getLast? = some r

/-- The maps of these ranges and rows: the one that is made of them, and those that are read from a
document of them. -/
inductive Made (functions : List FunctionRange) (rows : List LineRow) : SymbolMap → Prop
  | listed : Made functions rows (.ofRows functions rows)
  | read {v : Json} {text : String} {m : SymbolMap} (lists : Lists functions rows v)
      (written : Json.Written v text) (ok : Document.read SymbolMap text = .ok m) :
      Made functions rows m

variable {functions : List FunctionRange} {rows rows' : List LineRow} {a : Address}

theorem Made.eq {m : SymbolMap} (made : Made functions rows m) : m = ofRows functions rows := by
  cases made with
  | listed => rfl
  | read lists written ok =>
    rw [read_of_lists written lists] at ok
    exact (Except.ok.inj ok).symm

/-! ## Ranges -/

theorem tightest_of_enclosing? {m : SymbolMap} {f : FunctionRange}
    (found : m.enclosing? a = some f) : Tightest m.functions a f := by
  obtain ⟨least, first⟩ := FunctionRange.narrowest_spec found
  rw [List.find?_filter] at first
  have listed := List.find?_some first
  simp only [decide_eq_true_eq] at listed
  refine ⟨listed.1, ?_, by simpa using first⟩
  intro g hg covers
  exact least g (List.mem_filter.mpr ⟨hg, decide_eq_true covers⟩)

theorem enclosing?_eq_none_iff {m : SymbolMap} :
    m.enclosing? a = none ↔ ∀ f ∈ m.functions, ¬ f.Covers a := by
  rw [enclosing?, FunctionRange.narrowest_eq_none_iff, List.filter_eq_nil_iff]
  simp

/-! ## Rows -/

theorem Nearest.mem {r : LineRow} (nearest : Nearest rows a r) : r ∈ rows :=
  List.mem_of_mem_filter (List.mem_of_getLast? nearest.last)

theorem Nearest.unique {r s : LineRow} (nearest : Nearest rows a r) (nearest' : Nearest rows a s) :
    r = s := by
  have same : r.address = s.address :=
    UInt32.le_antisymm (nearest'.greatest r nearest.mem nearest.below)
      (nearest.greatest s nearest'.mem nearest'.below)
  have last := nearest.last
  rw [same, nearest'.last] at last
  exact (Option.some.inj last).symm

/-- What is nearest depends on the order of rows with one address only. -/
theorem Nearest.of_alike {r : LineRow} (nearest : Nearest rows a r)
    (alike : ∀ b, rows.filter (·.address = b) = rows'.filter (·.address = b)) :
    Nearest rows' a r := by
  refine ⟨nearest.below, ?_, alike r.address ▸ nearest.last⟩
  intro s hs below
  have listed : s ∈ rows'.filter (·.address = s.address) := List.mem_filter.mpr ⟨hs, by simp⟩
  rw [← alike] at listed
  exact nearest.greatest s (List.mem_of_mem_filter listed) below

theorem row?_eq (a : Address) : (ofRows functions rows).row? a =
    ((LineRow.sorted rows).filter (·.address ≤ a)).getLast? := by
  rw [row?, LineRow.takeWhile_eq_filter (ofRows functions rows).ascending]
  rfl

theorem nearest_of_row? {r : LineRow} (found : (ofRows functions rows).row? a = some r) :
    Nearest rows a r := by
  rw [row?_eq] at found
  obtain ⟨front, split⟩ := List.getLast?_eq_some_iff.mp found
  have listed : r ∈ (LineRow.sorted rows).filter (·.address ≤ a) := List.mem_of_getLast? found
  have below : r.address ≤ a := of_decide_eq_true (List.mem_filter.mp listed).2
  refine ⟨below, ?_, ?_⟩
  · intro s hs low
    have ascending := (LineRow.pairwise_sorted rows).filter (·.address ≤ a)
    rw [split, List.pairwise_append] at ascending
    have found' : s ∈ front ++ [r] := by
      rw [← split]
      exact List.mem_filter.mpr ⟨(LineRow.perm_sorted rows).mem_iff.mpr hs, decide_eq_true low⟩
    rcases List.mem_append.mp found' with before | last
    · exact ascending.2.2 s before r (List.mem_singleton_self r)
    · rw [List.mem_singleton.mp last]
      exact UInt32.le_refl _
  · have among : (LineRow.sorted rows).filter (·.address = r.address) =
        ((LineRow.sorted rows).filter (·.address ≤ a)).filter (·.address = r.address) := by
      rw [List.filter_filter]
      apply List.filter_congr
      intro s _
      by_cases same : s.address = r.address <;> simp [same, below]
    rw [← LineRow.filter_sorted, among, split, List.filter_append,
      List.filter_cons_of_pos (by simp), List.filter_nil, List.getLast?_concat]

theorem row?_eq_none_iff :
    (ofRows functions rows).row? a = none ↔ ∀ r ∈ rows, a < r.address := by
  rw [row?_eq, List.getLast?_eq_none_iff, List.filter_eq_nil_iff]
  simp [(LineRow.perm_sorted rows).mem_iff]

theorem row?_eq_some_iff {r : LineRow} :
    (ofRows functions rows).row? a = some r ↔ Nearest rows a r := by
  refine ⟨nearest_of_row?, ?_⟩
  intro nearest
  cases found : (ofRows functions rows).row? a with
  | none =>
    have beyond := row?_eq_none_iff.mp found r nearest.mem
    exact absurd nearest.below (UInt32.not_le.mpr beyond)
  | some s => rw [nearest.unique (nearest_of_row? found)]

theorem row?_of_alike (alike : ∀ b, rows.filter (·.address = b) = rows'.filter (·.address = b))
    (a : Address) : (ofRows functions rows).row? a = (ofRows functions rows').row? a := by
  apply Option.ext
  intro r
  rw [row?_eq_some_iff, row?_eq_some_iff]
  exact ⟨fun nearest => nearest.of_alike alike,
    fun nearest => nearest.of_alike fun b => (alike b).symm⟩

/-- Wherever the rows are divided at an address, by halving the table or otherwise, the last one up
to there is found. -/
theorem row?_of_divided {m : SymbolMap} {k : Nat} (low : ∀ r ∈ m.lines.take k, r.address ≤ a)
    (high : ∀ r ∈ m.lines.drop k, a < r.address) : m.row? a = (m.lines.take k).getLast? := by
  have front : (m.lines.take k).takeWhile (·.address ≤ a) = m.lines.take k :=
    List.takeWhile_eq_self_iff.mpr (by simpa using low)
  have back : (m.lines.drop k).takeWhile (·.address ≤ a) = [] := by
    cases rest : m.lines.drop k with
    | nil => rfl
    | cons r rest' =>
      have above : ¬ r.address ≤ a := UInt32.not_le.mpr (high r (rest ▸ List.mem_cons_self))
      exact List.takeWhile_cons_of_neg (by simpa using above)
  rw [row?]
  conv_lhs => rw [← List.take_append_drop k m.lines]
  rw [List.takeWhile_append, front, if_pos rfl, back, List.append_nil]

/-- **A lookup finds what was listed.** Whatever ranges and rows a map has, and in whatever order:
the function around an address is the first of the narrowest around it, and its line is that of the
last row with the greatest address up to there. Where there is none, an address stands for itself
and has no line. Rows with different addresses may change places. -/
theorem lookups_in_listed (functions : List FunctionRange) (rows : List LineRow) (m : SymbolMap)
    (made : Made functions rows m) (a : Address) :
    ((m.table.function? a).isSome ↔ ∃ f ∈ functions, f.start ≤ a ∧ a < f.stop) ∧
      ((∃ f ∈ functions, f.start ≤ a ∧ a < f.stop) → ∃ f, Tightest functions a f ∧
        m.table.function? a = some f.name ∧ m.table.entry a = f.start ∧ f.start ≤ a) ∧
      ((∀ f ∈ functions, ¬ (f.start ≤ a ∧ a < f.stop)) → m.table.entry a = a) ∧
      (m.table.location? a = none ↔ ∀ r ∈ rows, a < r.address) ∧
      (¬ (∀ r ∈ rows, a < r.address) →
        ∃ r, Nearest rows a r ∧ m.table.location? a = some ⟨r.file, r.line⟩) ∧
      (∀ k, (∀ r ∈ m.lines.take k, r.address ≤ a) → (∀ r ∈ m.lines.drop k, a < r.address) →
        m.table.location? a = (m.lines.take k).getLast?.map fun r => ⟨r.file, r.line⟩) ∧
      ∀ rows' m', Made functions rows' m' →
        (∀ b, rows.filter (·.address = b) = rows'.filter (·.address = b)) →
        m'.table = m.table := by
  obtain rfl := made.eq
  refine ⟨?_, ?_, ?_, ?_, ?_, ?_, ?_⟩
  · have around := not_congr (enclosing?_eq_none_iff (m := ofRows functions rows) (a := a))
    rw [← ne_eq, Option.ne_none_iff_isSome] at around
    simp only [table, Option.isSome_map]
    rw [around]
    simp [ofRows, FunctionRange.Covers]
  · rintro ⟨g, hg, around⟩
    cases found : (ofRows functions rows).enclosing? a with
    | none => exact absurd around (enclosing?_eq_none_iff.mp found g hg)
    | some f =>
      have tightest : Tightest functions a f := tightest_of_enclosing? found
      exact ⟨f, tightest, by simp [table, found], by simp [table, found], tightest.covers.1⟩
  · intro apart
    have none := enclosing?_eq_none_iff (m := ofRows functions rows).mpr apart
    simp [table, none]
  · simp only [table, Option.map_eq_none_iff]
    exact row?_eq_none_iff
  · intro some
    cases found : (ofRows functions rows).row? a with
    | none => exact absurd (row?_eq_none_iff.mp found) some
    | some r => exact ⟨r, nearest_of_row? found, by simp [table, found, LineRow.location]⟩
  · intro k low high
    simp only [table, row?_of_divided low high]
    rfl
  · intro rows' m' made' alike
    obtain rfl := made'.eq
    have lines : (ofRows functions rows').row? = (ofRows functions rows).row? :=
      funext fun b => (row?_of_alike alike b).symm
    simp only [table, lines]
    rfl

/-- Two functions share the narrowest range around the address, and two rows the nearest address.
The map is read from a document in which one row is an object and the others are arrays. -/
theorem lookups_in_listed_overlapping :
    let functions : List FunctionRange :=
      [⟨"main", 0, 100⟩, ⟨"loop", 20, 40⟩, ⟨"tick", 20, 40⟩, ⟨"none", 30, 30⟩]
    let rows : List LineRow := [⟨40, "b.pwn", 2⟩, ⟨8, "a.pwn", 1⟩, ⟨8, "a.pwn", 3⟩]
    let v : Json := .record [("lines", .array [.array [.int 40, .text "b.pwn", .int 2],
        .record [("line", .int 1), ("file", .text "a.pwn"), ("address", .int 8)],
        .array [.int 8, .text "a.pwn", .int 3]]),
      ("functions", .array (functions.map fun f =>
        .array [.text f.name, .int f.start.toNat, .int f.stop.toNat]))]
    let m := ofRows functions rows
    Lists functions rows v ∧ Document.read SymbolMap v.write = .ok m ∧ Made functions rows m ∧
      m.table.function? 30 = some "loop" ∧ m.table.entry 30 = 20 ∧
      m.table.location? 30 = some ⟨"a.pwn", 3⟩ ∧ m.table.location? 7 = none := by
  intro functions rows v m
  have ranges := Json.ShowsList.array <| List.forall₂_map_right_iff.mpr <|
    List.forall₂_same.mpr fun (f : FunctionRange) (_ : f ∈ functions) =>
      show f.Shown (.array [.text f.name, .int f.start.toNat, .int f.stop.toNat]) from
        .array _ 0 rfl
  have lines : Json.ShowsList LineRow.Shown rows _ :=
    .array (.cons (.array [.int 40, .text "b.pwn", .int 2] 0 rfl)
      (.cons (.object [("line", .int 1), ("file", .text "a.pwn"), ("address", .int 8)]
        (by simp [List.lookup_cons]) (by simp))
      (.cons (.array [.int 8, .text "a.pwn", .int 3] 0 rfl) .nil)))
  have lists : Lists functions rows v :=
    ⟨_, _, ranges, lines, .object _ (by simp [List.lookup_cons]) (by simp)⟩
  have read : Document.read SymbolMap v.write = .ok m :=
    read_of_lists (Json.written_write v) lists
  have made : Made functions rows m := .read lists (Json.written_write v) read
  have nearest : Nearest rows 30 ⟨8, "a.pwn", 3⟩ := ⟨by decide, by decide, by decide⟩
  have tightest : Tightest functions 30 ⟨"loop", 20, 40⟩ := ⟨by decide, by decide, by decide⟩
  obtain ⟨_, _, _, _, found, _⟩ := lookups_in_listed functions rows m made 30
  obtain ⟨r, nearest', line⟩ := found (by decide)
  obtain ⟨_, _, _, missing, _⟩ := lookups_in_listed functions rows m made 7
  refine ⟨lists, read, made, by decide, by decide, ?_, missing.mpr (by decide)⟩
  rw [line, nearest'.unique nearest]

end SymbolMap

end Postmortem
