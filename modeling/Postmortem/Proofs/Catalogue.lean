import Postmortem.Fault
import Postmortem.Proofs.Text.Numerals
import Postmortem.Proofs.Text.Trimming

/-!
# The catalogue of faults

A status and the fault it names each tell what the other is, and so does the first line of a report.
The gaps of the catalogue lose nothing: what has no fault of its own keeps its status.

* `Fault.Catalogued`: the statuses with a fault of their own.
* `Fault.ofStatus?_cases`: what a status names.
* `Fault.Announces`: lines that begin like a report of this status.
* `Fault.status_identified`: what a status, its fault and the headline say of each other.
-/

namespace Postmortem.Fault

/-- The status has a fault of its own. -/
def Catalogued (c : Int32) : Prop := ∃ f : Fault, (∀ n, f ≠ unknown n) ∧ f.status = c

/-- The line begins like a report of a fault, with this number where the status stands. -/
def Announces (line : String) (n : Int) : Prop :=
  ∃ digits rest, line.toList = "Run time error ".toList ++ digits ++ ':' :: rest ∧
    Text.Decimal n digits

/-! ## Statuses -/

theorem ofStatus?_cases (c : Int32) :
    (c = 0 ∧ ofStatus? c = none) ∨
      (∃ f, (∀ n, f ≠ unknown n) ∧ f.status = c ∧ ofStatus? c = some f) ∨
      ((c.toInt < 0 ∨ c.toInt = 14 ∨ c.toInt = 15 ∨ 27 < c.toInt) ∧
        ofStatus? c = some (unknown c)) := by
  unfold ofStatus?
  split
  case h_1 zero => exact .inl ⟨Int32.toInt_inj.mp zero, rfl⟩
  case h_27 =>
    refine .inr (.inr ⟨?_, rfl⟩)
    grind
  all_goals
    rename_i value
    refine .inr (.inl ⟨_, ?_, ?_, rfl⟩)
    · exact nofun
    · exact Int32.toInt_inj.mp value.symm

variable {c d : Int32} {f g : Fault}

theorem status_range (named : ∀ n, f ≠ unknown n) :
    1 ≤ f.status.toInt ∧ f.status.toInt ≤ 13 ∨ 16 ≤ f.status.toInt ∧ f.status.toInt ≤ 27 := by
  cases f with
  | unknown n => exact absurd rfl (named n)
  | _ => decide

theorem catalogued_iff :
    Catalogued c ↔ 1 ≤ c.toInt ∧ c.toInt ≤ 13 ∨ 16 ≤ c.toInt ∧ c.toInt ≤ 27 := by
  constructor
  · rintro ⟨f, named, rfl⟩
    exact status_range named
  · intro range
    rcases ofStatus?_cases c with ⟨rfl, _⟩ | ⟨f, named, status, _⟩ | ⟨beyond, _⟩
    · exact absurd range (by decide)
    · exact ⟨f, named, status⟩
    · omega

theorem ofStatus?_eq_none_iff : ofStatus? c = none ↔ c = 0 := by
  constructor
  · intro nothing
    rcases ofStatus?_cases c with ⟨zero, _⟩ | ⟨f, _, _, some⟩ | ⟨_, some⟩
    · exact zero
    · exact absurd (nothing.symm.trans some) nofun
    · exact absurd (nothing.symm.trans some) nofun
  · rintro rfl
    rfl

theorem ofStatus?_of_ne_zero (nonzero : c ≠ 0) : ∃ f, ofStatus? c = some f ∧ f.status = c := by
  rcases ofStatus?_cases c with ⟨zero, _⟩ | ⟨f, _, status, some⟩ | ⟨_, some⟩
  · exact absurd zero nonzero
  · exact ⟨f, some, status⟩
  · exact ⟨_, some, rfl⟩

theorem status_of_ofStatus? (some : ofStatus? c = some f) : f.status = c := by
  have nonzero : c ≠ 0 := by
    intro zero
    exact absurd (some.symm.trans (ofStatus?_eq_none_iff.mpr zero)) nofun
  obtain ⟨g, same, status⟩ := ofStatus?_of_ne_zero nonzero
  cases some.symm.trans same
  exact status

theorem ofStatus?_status_of_named (named : ∀ n, f ≠ unknown n) :
    ofStatus? f.status = some f := by
  cases f with
  | unknown n => exact absurd rfl (named n)
  | _ => rfl

/-- A status is kept as unknown where it is no success and has no fault of its own. -/
theorem ofStatus?_eq_unknown_iff :
    ofStatus? c = some (unknown c) ↔ ¬ (c = 0 ∨ Catalogued c) := by
  rcases ofStatus?_cases c with ⟨zero, nothing⟩ | ⟨f, named, status, some⟩ | ⟨beyond, some⟩
  · exact iff_of_false (by simp [nothing]) fun kept => kept (.inl zero)
  · refine iff_of_false ?_ fun kept => kept (.inr ⟨f, named, status⟩)
    rw [some, Option.some.injEq]
    exact named c
  · refine iff_of_true some ?_
    rintro (rfl | catalogued)
    · exact absurd beyond (by decide)
    · have range := catalogued_iff.mp catalogued
      omega

theorem ofStatus?_status_iff :
    ofStatus? f.status = some f ↔ ¬ ∃ n, f = unknown n ∧ (n = 0 ∨ Catalogued n) := by
  by_cases unnamed : ∃ n, f = unknown n
  · obtain ⟨n, rfl⟩ := unnamed
    have kept : ofStatus? (unknown n).status = some (unknown n) ↔ ¬ (n = 0 ∨ Catalogued n) :=
      ofStatus?_eq_unknown_iff
    simpa using kept
  · refine iff_of_true (ofStatus?_status_of_named fun n same => unnamed ⟨n, same⟩) ?_
    rintro ⟨n, same, _⟩
    exact unnamed ⟨n, same⟩

/-! ## Headlines -/

theorem Announces.unique {line : String} {m n : Int} (announced : Announces line m)
    (announced' : Announces line n) : m = n := by
  obtain ⟨digits, rest, split, decimal⟩ := announced
  obtain ⟨digits', rest', split', decimal'⟩ := announced'
  have front {digits rest : List Char} {k : Int} (decimal : Text.Decimal k digits) :
      (digits ++ ':' :: rest).takeWhile (· ≠ ':') = digits := by
    rw [Text.takeWhile_ne_append decimal.colon_not_mem]
    simp
  rw [split, List.append_assoc, List.append_assoc, List.append_cancel_left_eq] at split'
  have same : digits = digits' := by
    rw [← front decimal, split', front decimal']
  rw [same] at decimal
  exact decimal.unique decimal'

theorem announces_headline (f : Fault) : Announces f.headline f.status.toInt := by
  have colon : ": \"".toList = ':' :: " \"".toList := by decide
  refine ⟨(toString f.status.toInt).toList, " \"".toList ++ f.text.toList ++ "\"".toList, ?_,
    Text.decimal_toString _⟩
  unfold headline
  simp only [String.toList_append, colon, List.append_assoc, List.cons_append]

theorem announces_headline_iff {n : Int} : Announces f.headline n ↔ n = f.status.toInt := by
  constructor
  · intro announced
    exact announced.unique f.announces_headline
  · rintro rfl
    exact f.announces_headline

theorem status_eq_of_headline (same : f.headline = g.headline) : f.status = g.status := by
  have announced := f.announces_headline
  rw [same] at announced
  exact Int32.toInt_inj.mp (announced.unique g.announces_headline)

/-- **A report identifies the status.** Zero alone is success. Every other status names a fault that
has this status, and a fault is named by its status unless it is an unknown one under a status that
is zero or catalogued. The number in a headline is the status, so two statuses never have the same
headline. -/
theorem status_identified :
    (∀ c : Int32, (ofStatus? c = none ↔ c = 0) ∧
      ((∃ value, Outcome.ofStatus c = .returned value) ↔ c = 0) ∧
      (c ≠ 0 → ∃ f, ofStatus? c = some f ∧ f.status = c ∧ Outcome.ofStatus c = .failed f)) ∧
    (∀ f : Fault, ofStatus? f.status = some f ↔
      ¬ ∃ n, f = unknown n ∧ (n = 0 ∨ Catalogued n)) ∧
    (∀ c : Int32, Catalogued c ↔
      1 ≤ c.toInt ∧ c.toInt ≤ 13 ∨ 16 ≤ c.toInt ∧ c.toInt ≤ 27) ∧
    (∀ (f : Fault) (n : Int), Announces f.headline n ↔ n = f.status.toInt) ∧
    ∀ (c d : Int32) (f g : Fault), ofStatus? c = some f → ofStatus? d = some g → c ≠ d →
      f.headline ≠ g.headline := by
  refine ⟨?_, fun _ => ofStatus?_status_iff, fun _ => catalogued_iff,
    fun _ _ => announces_headline_iff, ?_⟩
  · intro c
    have fails (nonzero : c ≠ 0) :
        ∃ f, ofStatus? c = some f ∧ f.status = c ∧ Outcome.ofStatus c = .failed f := by
      obtain ⟨f, some, status⟩ := ofStatus?_of_ne_zero nonzero
      exact ⟨f, some, status, by rw [Outcome.ofStatus, some]; rfl⟩
    refine ⟨ofStatus?_eq_none_iff, ?_, fails⟩
    constructor
    · rintro ⟨value, returned⟩
      by_contra nonzero
      obtain ⟨f, _, _, failed⟩ := fails nonzero
      exact absurd (returned.symm.trans failed) nofun
    · rintro rfl
      exact ⟨0, rfl⟩
  · intro c d f g named named' differ same
    rw [← status_of_ofStatus? named, ← status_of_ofStatus? named'] at differ
    exact differ (status_eq_of_headline same)

/-- The faults of the two gaps have one text, and their reports differ all the same. -/
theorem status_identified_gaps :
    ofStatus? 14 = some (unknown 14) ∧ ofStatus? 15 = some (unknown 15) ∧
      (unknown 14).text = (unknown 15).text ∧ (14 : Int32) ≠ 0 ∧ (14 : Int32) ≠ 15 ∧
      Outcome.ofStatus 14 = .failed (unknown 14) ∧
      (unknown 14).headline ≠ (unknown 15).headline := by
  obtain ⟨statuses, _, _, _, differ⟩ := status_identified
  have nonzero : (14 : Int32) ≠ 0 := by decide
  have other : (14 : Int32) ≠ 15 := by decide
  obtain ⟨f, named, _, failed⟩ := (statuses 14).2.2 nonzero
  cases named
  exact ⟨rfl, rfl, rfl, nonzero, other, failed, differ 14 15 _ _ rfl rfl other⟩

end Postmortem.Fault
