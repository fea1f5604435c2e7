import Mathlib.Data.List.TakeDrop
import Postmortem.Image

/-!
# Cells and the segments they lie in

A segment is cut out of an image as a whole, and a cell is read by adding up positions. Both see the
same bytes, whatever the header says: a cell is read exactly where its four bytes lie in the segment.

* `Cell.Written` and `Cell.LiesAt`: the bytes of a cell, and a cell at a place among others.
* `Image.code_toList`: the code is what lies between its offset and that of the data.
* `Image.wordCodeCell` and `Image.wordDataCell`: reading by positions that are words, with every sum
  checked. No image that a machine can hold tells it from reading by numbers.
* `Image.cells_in_segments`: where cells are read, which they are, and what writing one changes.
-/

namespace Postmortem

namespace Cell

/-- The number whose digits to the base 256 are these bytes, the lowest first. -/
def littleEndian : List UInt8 → Nat
  | [] => 0
  | b :: bytes => b.toNat + 256 * littleEndian bytes

/-- The bytes are a cell in two's complement, the lowest first. -/
structure Written (c : Cell) (bytes : List UInt8) : Prop where
  length : bytes.length = width
  value : c.toInt = if littleEndian bytes < 2147483648 then (littleEndian bytes : Int)
    else littleEndian bytes - 4294967296

/-- The cell is what is written from the place on. -/
def LiesAt (c : Cell) (bytes : List UInt8) (place : Nat) : Prop :=
  c.Written ((bytes.drop place).take width)

/-! ## Bytes of a cell -/

variable {c d : Cell} {bytes : List UInt8} {place n : Nat}

theorem toInt_word (small : n < 4294967296) :
    (UInt32.ofNat n).toInt32.toInt = if n < 2147483648 then (n : Int) else n - 4294967296 := by
  rw [UInt32.toInt32_ofNat', Int32.toInt_ofNat', Int.bmod_def]
  have size : Int32.size = 4294967296 := rfl
  rw [size]
  omega

theorem written_ofBytes (p q r s : UInt8) : (ofBytes p q r s).Written [p, q, r, s] := by
  have hp := p.toNat_lt
  have hq := q.toNat_lt
  have hr := r.toNat_lt
  have hs := s.toNat_lt
  exact ⟨rfl, toInt_word (by omega)⟩

theorem Written.unique (written : c.Written bytes) (written' : d.Written bytes) : c = d := by
  rw [← Int32.toInt_inj, written.value, written'.value]

theorem ofBytes_eq_iff {p q r s : UInt8} : ofBytes p q r s = c ↔ c.Written [p, q, r, s] := by
  constructor
  · rintro rfl
    exact written_ofBytes p q r s
  · intro written
    exact (written_ofBytes p q r s).unique written

theorem written_toBytes (c : Cell) : c.Written c.toBytes := by
  have small := c.toUInt32.toNat_lt
  apply ofBytes_eq_iff.mp
  simp only [ofBytes, Nat.toUInt8_eq, UInt8.toNat_ofNat']
  have value : c.toUInt32.toNat % 2 ^ 8 + 256 * (c.toUInt32.toNat / 256 % 2 ^ 8 +
      256 * (c.toUInt32.toNat / 65536 % 2 ^ 8 + 256 * (c.toUInt32.toNat / 16777216 % 2 ^ 8))) =
      c.toUInt32.toNat := by omega
  rw [value, UInt32.ofNat_toNat, Int32.toInt32_toUInt32]

theorem exists_liesAt_iff : (∃ c : Cell, c.LiesAt bytes place) ↔ place + width ≤ bytes.length := by
  have length : ((bytes.drop place).take width).length = min width (bytes.length - place) := by
    rw [List.length_take, List.length_drop]
  constructor
  · rintro ⟨c, written⟩
    have four := written.length
    have positive : 0 < width := by decide
    omega
  · intro room
    have four : ((bytes.drop place).take width).length = width := by omega
    match cut : (bytes.drop place).take width, four with
    | [p, q, r, s], _ => exact ⟨ofBytes p q r s, by rw [LiesAt, cut]; exact written_ofBytes p q r s⟩

/-- The bytes of a cell that lies among others are there. -/
theorem LiesAt.room {all : Array UInt8} (lies : c.LiesAt all.toList place) :
    place + width ≤ all.size :=
  exists_liesAt_iff.mp ⟨c, lies⟩

theorem liesAt_drop : c.LiesAt (bytes.drop n) place ↔ c.LiesAt bytes (n + place) := by
  rw [LiesAt, LiesAt, List.drop_drop]

theorem liesAt_take :
    c.LiesAt (bytes.take n) place ↔ place + width ≤ n ∧ c.LiesAt bytes place := by
  have cut (room : place + width ≤ n) :
      ((bytes.take n).drop place).take width = (bytes.drop place).take width := by
    rw [List.drop_take, List.take_take, Nat.min_eq_left (by omega)]
  constructor
  · intro lies
    have inside := exists_liesAt_iff.mp ⟨c, lies⟩
    rw [List.length_take] at inside
    have room : place + width ≤ n := by omega
    refine ⟨room, ?_⟩
    rwa [LiesAt, cut room] at lies
  · rintro ⟨room, lies⟩
    rwa [LiesAt, cut room]

end Cell

namespace Image

variable {i : Image} {a v : Cell} {place : Nat} {bytes : List UInt8}

theorem cellAt_eq_some_iff : i.cellAt place = some v ↔ v.LiesAt i.bytes.toList place := by
  have read (k : Nat) : i.bytes[place + k]? = (i.bytes.toList.drop place)[k]? := by
    rw [List.getElem?_drop, Array.getElem?_toList]
  have start : i.bytes[place]? = (i.bytes.toList.drop place)[0]? := read 0
  rw [cellAt, start, read, read, read, Cell.LiesAt]
  match i.bytes.toList.drop place with
  | [] => exact iff_of_false nofun fun written => nomatch written.length
  | [p] => exact iff_of_false nofun fun written => nomatch written.length
  | [p, q] => exact iff_of_false nofun fun written => nomatch written.length
  | [p, q, r] => exact iff_of_false nofun fun written => nomatch written.length
  | p :: q :: r :: s :: rest => exact Option.some_inj.trans Cell.ofBytes_eq_iff

theorem codeEnd_le (i : Image) : i.codeEnd ≤ i.bytes.size :=
  Nat.max_le.mpr ⟨Nat.min_le_right .., Nat.min_le_right ..⟩

theorem code_toList (i : Image) :
    i.code.toList = (i.bytes.toList.take i.header.data.toNat).drop i.header.code.toNat := by
  rw [code, Array.toList_extract, List.extract_eq_take_drop, List.drop_take]
  have stop : i.codeEnd = max i.codeStart (min i.header.data.toNat i.bytes.size) := rfl
  rcases Nat.le_total i.header.code.toNat i.bytes.size with inside | beyond
  · have start : i.codeStart = i.header.code.toNat := Nat.min_eq_left inside
    rw [start] at stop ⊢
    rw [stop, List.take_eq_take_iff, List.length_drop, Array.length_toList]
    omega
  · have start : i.codeStart = i.bytes.size := Nat.min_eq_right beyond
    rw [start, List.drop_eq_nil_of_le (by simp), List.drop_eq_nil_of_le (by simpa using beyond),
      List.take_nil, List.take_nil]

theorem codeCell_eq_some_iff :
    i.codeCell a = some v ↔ 0 ≤ a.toInt ∧ v.LiesAt i.code.toList a.toInt.toNat := by
  have room : a.toInt.toNat + Cell.width ≤ i.codeEnd - i.codeStart ↔
      i.codeStart + a.toInt.toNat + Cell.width ≤ i.codeEnd := by
    have positive : 0 < Cell.width := by decide
    omega
  rw [code, Array.toList_extract, List.extract_eq_take_drop, Cell.liesAt_take, Cell.liesAt_drop,
    room, codeCell, Option.ite_none_right_eq_some, cellAt_eq_some_iff, and_assoc]

theorem dataCell_eq_some_iff : i.dataCell a = some v ↔
    0 ≤ a.toInt ∧ v.LiesAt i.bytes.toList (i.header.data.toNat + a.toInt.toNat) := by
  rw [dataCell, Option.ite_none_right_eq_some, cellAt_eq_some_iff]

/-- Code is read in front of the data. -/
theorem codeCell_eq_some_iff_below : i.codeCell a = some v ↔
    0 ≤ a.toInt ∧ v.LiesAt (i.bytes.toList.take i.header.data.toNat)
      (i.header.code.toNat + a.toInt.toNat) := by
  rw [codeCell_eq_some_iff, code_toList, Cell.liesAt_drop]

theorem isSome_codeCell_iff :
    (i.codeCell a).isSome ↔ 0 ≤ a.toInt ∧ a.toInt + 4 ≤ i.code.size := by
  have size : i.code.toList.length = i.code.size := Array.length_toList
  have width : Cell.width = 4 := rfl
  simp only [Option.isSome_iff_exists, codeCell_eq_some_iff, exists_and_left,
    Cell.exists_liesAt_iff]
  omega

theorem isSome_dataCell_iff : (i.dataCell a).isSome ↔
    0 ≤ a.toInt ∧ i.header.data.toNat + a.toInt + 4 ≤ i.bytes.size := by
  have size : i.bytes.toList.length = i.bytes.size := Array.length_toList
  have width : Cell.width = 4 := rfl
  simp only [Option.isSome_iff_exists, dataCell_eq_some_iff, exists_and_left,
    Cell.exists_liesAt_iff]
  omega

/-! ## Writing -/

theorem length_take_bytes (i : Image) {n : Nat} (inside : n ≤ i.bytes.size) :
    (i.bytes.toList.take n).length = n :=
  List.length_take_of_le inside

/-- By induction on what is written: the first byte ends what lies in front of the others. -/
theorem toList_overlay (room : place + bytes.length ≤ i.bytes.size) :
    (i.overlay place bytes).bytes.toList =
      i.bytes.toList.take place ++ bytes ++ i.bytes.toList.drop (place + bytes.length) := by
  induction bytes generalizing i place with
  | nil => simp [overlay]
  | cons b bytes ih =>
    rw [List.length_cons] at room
    let next : Image := { i with bytes := i.bytes.setIfInBounds place b }
    have size : next.bytes.size = i.bytes.size := Array.size_setIfInBounds
    have later : i.overlay place (b :: bytes) = next.overlay (place + 1) bytes := rfl
    have front : (i.bytes.toList.take place ++ [b]).length = place + 1 := by
      rw [List.length_append, i.length_take_bytes (by omega)]
      rfl
    have split : next.bytes.toList =
        (i.bytes.toList.take place ++ [b]) ++ i.bytes.toList.drop (place + 1) := by
      rw [Array.toList_setIfInBounds, List.set_eq_take_append_cons_drop,
        if_pos (by rw [Array.length_toList]; omega), List.append_assoc, List.singleton_append]
    rw [later, ih (by omega), split, List.take_left' front, ← List.drop_drop,
      List.drop_left' front, List.drop_drop, List.append_assoc _ [b], List.singleton_append,
      List.length_cons, Nat.add_assoc, Nat.add_comm 1]

theorem take_overlay (room : place + bytes.length ≤ i.bytes.size) {n : Nat} (below : n ≤ place) :
    (i.overlay place bytes).bytes.toList.take n = i.bytes.toList.take n := by
  have length := i.length_take_bytes (n := place) (by omega)
  rw [toList_overlay room, List.append_assoc, List.take_append_of_le_length (by omega),
    List.take_take, Nat.min_eq_left below]

theorem liesAt_overlay (written : v.Written bytes) (room : place + Cell.width ≤ i.bytes.size) :
    v.LiesAt (i.overlay place bytes).bytes.toList place := by
  have length := i.length_take_bytes (n := place) (by omega)
  rw [← written.length] at room
  rw [Cell.LiesAt, toList_overlay room, List.append_assoc, List.drop_left' length,
    ← written.length, List.take_left]
  exact written

theorem codeCell_overlay (written : v.Written bytes) (readable : (i.codeCell a).isSome) :
    (i.overlay (i.header.code.toNat + a.toInt.toNat) bytes).codeCell a = some v := by
  obtain ⟨u, read⟩ := Option.isSome_iff_exists.mp readable
  obtain ⟨nonneg, lies⟩ := codeCell_eq_some_iff_below.mp read
  obtain ⟨below, lies⟩ := Cell.liesAt_take.mp lies
  exact codeCell_eq_some_iff_below.mpr
    ⟨nonneg, Cell.liesAt_take.mpr ⟨below, liesAt_overlay written lies.room⟩⟩

theorem dataCell_overlay (written : v.Written bytes) (readable : (i.dataCell a).isSome) :
    (i.overlay (i.header.data.toNat + a.toInt.toNat) bytes).dataCell a = some v := by
  obtain ⟨u, read⟩ := Option.isSome_iff_exists.mp readable
  obtain ⟨nonneg, lies⟩ := dataCell_eq_some_iff.mp read
  exact dataCell_eq_some_iff.mpr ⟨nonneg, liesAt_overlay written lies.room⟩

/-- What is written into the data is never read as code. -/
theorem codeCell_overlay_data (written : v.Written bytes) (readable : (i.dataCell a).isSome)
    (b : Cell) :
    (i.overlay (i.header.data.toNat + a.toInt.toNat) bytes).codeCell b = i.codeCell b := by
  obtain ⟨u, read⟩ := Option.isSome_iff_exists.mp readable
  have room := (dataCell_eq_some_iff.mp read).2.room
  rw [← written.length] at room
  apply Option.ext
  intro w
  rw [codeCell_eq_some_iff_below, codeCell_eq_some_iff_below]
  have same := take_overlay room (Nat.le_add_right i.header.data.toNat a.toInt.toNat)
  exact and_congr_right fun _ => iff_of_eq (congrArg (w.LiesAt · _) same)

/-! ## Positions as words -/

/-- The sum, if it is still a word. -/
def checkedSum (m n : UInt64) : Option UInt64 :=
  if m.toNat + n.toNat < UInt64.size then some (m + n) else none

/-- A cell as an offset. -/
def offset? (a : Cell) : Option UInt64 :=
  if 0 ≤ a.toInt then some (UInt64.ofNat a.toInt.toNat) else none

/-- Where the code starts. -/
def wordStart (i : Image) : UInt64 :=
  let length := UInt64.ofNat i.bytes.size
  if i.header.code < length then i.header.code else length

/-- Where the code ends. -/
def wordStop (i : Image) : UInt64 :=
  let length := UInt64.ofNat i.bytes.size
  if i.header.data < i.wordStart then i.wordStart
  else if i.header.data < length then i.header.data else length

def wordCell (i : Image) (position : UInt64) : Option Cell := do
  let stop ← checkedSum position 4
  if stop ≤ UInt64.ofNat i.bytes.size then i.cellAt position.toNat else none

/-- A cell of the code, by positions that are words and sums that are checked. -/
def wordCodeCell (i : Image) (a : Cell) : Option Cell := do
  let position ← checkedSum i.wordStart (← offset? a)
  let stop ← checkedSum position 4
  if i.wordStop < stop then none else i.wordCell position

def wordDataCell (i : Image) (a : Cell) : Option Cell := do
  let position ← checkedSum i.header.data (← offset? a)
  i.wordCell position

theorem checkedSum_eq_some_iff {m n sum : UInt64} :
    checkedSum m n = some sum ↔ sum.toNat = m.toNat + n.toNat := by
  have size : UInt64.size = 18446744073709551616 := rfl
  have bound := sum.toNat_lt_size
  rw [checkedSum, Option.ite_none_right_eq_some, Option.some.injEq, ← UInt64.toNat_inj,
    UInt64.toNat_add]
  omega

theorem exists_toNat_eq {k : Nat} (small : k < UInt64.size) : ∃ n : UInt64, n.toNat = k :=
  ⟨UInt64.ofNat k, UInt64.toNat_ofNat_of_lt small⟩

theorem offset?_eq_some_iff {k : UInt64} :
    offset? a = some k ↔ 0 ≤ a.toInt ∧ k.toNat = a.toInt.toNat := by
  have high := a.toInt_lt
  rw [offset?, Option.ite_none_right_eq_some, Option.some.injEq, ← UInt64.toNat_inj,
    UInt64.toNat_ofNat']
  omega

section

variable (small : i.bytes.size < UInt64.size)

include small

theorem toNat_length : (UInt64.ofNat i.bytes.size).toNat = i.bytes.size :=
  UInt64.toNat_ofNat_of_lt small

theorem toNat_wordStart : i.wordStart.toNat = i.codeStart := by
  have length := toNat_length small
  rw [wordStart, codeStart]
  simp only [UInt64.lt_iff_toNat_lt, length]
  split <;> omega

theorem toNat_wordStop : i.wordStop.toNat = i.codeEnd := by
  have length := toNat_length small
  have start := toNat_wordStart small
  have inside : i.codeStart ≤ i.bytes.size := Nat.min_le_right ..
  rw [wordStop, codeEnd]
  simp only [UInt64.lt_iff_toNat_lt, length, start]
  split
  · omega
  · split <;> omega

theorem wordCell_eq_some_iff {position : UInt64} :
    i.wordCell position = some v ↔ v.LiesAt i.bytes.toList position.toNat := by
  simp only [wordCell, Option.bind_eq_bind, Option.bind_eq_some_iff, checkedSum_eq_some_iff,
    Option.ite_none_right_eq_some, UInt64.le_iff_toNat_le, toNat_length small, cellAt_eq_some_iff]
  constructor
  · rintro ⟨stop, _, _, lies⟩
    exact lies
  · intro lies
    have room := lies.room
    have width : Cell.width = 4 := rfl
    have four : (4 : UInt64).toNat = 4 := rfl
    obtain ⟨stop, sum⟩ := exists_toNat_eq (k := position.toNat + 4) (by omega)
    exact ⟨stop, sum, by omega, lies⟩

theorem wordDataCell_eq (a : Cell) : i.wordDataCell a = i.dataCell a := by
  apply Option.ext
  intro v
  simp only [wordDataCell, Option.bind_eq_bind, Option.bind_eq_some_iff, checkedSum_eq_some_iff,
    offset?_eq_some_iff, wordCell_eq_some_iff small, dataCell_eq_some_iff]
  constructor
  · rintro ⟨k, ⟨nonneg, offset⟩, position, sum, lies⟩
    rw [sum, offset] at lies
    exact ⟨nonneg, lies⟩
  · rintro ⟨nonneg, lies⟩
    have room := lies.room
    obtain ⟨k, offset⟩ := exists_toNat_eq (k := a.toInt.toNat) (by omega)
    obtain ⟨position, sum⟩ := exists_toNat_eq (k := i.header.data.toNat + k.toNat) (by omega)
    exact ⟨k, ⟨nonneg, offset⟩, position, sum, by rwa [sum, offset]⟩

theorem wordCodeCell_eq (a : Cell) : i.wordCodeCell a = i.codeCell a := by
  apply Option.ext
  intro v
  have inside := i.codeEnd_le
  have four : (4 : UInt64).toNat = 4 := rfl
  have width : Cell.width = 4 := rfl
  simp only [wordCodeCell, Option.bind_eq_bind, Option.bind_eq_some_iff, checkedSum_eq_some_iff,
    offset?_eq_some_iff, Option.ite_none_left_eq_some, UInt64.not_lt, UInt64.le_iff_toNat_le,
    toNat_wordStart small, toNat_wordStop small, wordCell_eq_some_iff small, codeCell,
    Option.ite_none_right_eq_some, cellAt_eq_some_iff, and_assoc, four, width]
  constructor
  · rintro ⟨k, nonneg, offset, position, sum, stop, ends, below, lies⟩
    rw [sum, offset] at lies
    exact ⟨nonneg, by omega, lies⟩
  · rintro ⟨nonneg, below, lies⟩
    obtain ⟨k, offset⟩ := exists_toNat_eq (k := a.toInt.toNat) (by omega)
    obtain ⟨position, sum⟩ := exists_toNat_eq (k := i.codeStart + k.toNat) (by omega)
    obtain ⟨stop, ends⟩ := exists_toNat_eq (k := position.toNat + 4) (by omega)
    exact ⟨k, nonneg, offset, position, sum, stop, ends, by omega, by rwa [sum, offset]⟩

end

/-- **Cells are read from their segments.** The code lies in front of the data and behind its own
offset. A cell of it is read where its four bytes lie in it, and nowhere else; a cell of the data
where they lie in the image behind the offset of the data. What is written where a cell can be read
is what is read there, and nothing written into the data is ever read as code. Checked sums of words
give the same. -/
theorem cells_in_segments (i : Image) (a : Cell) :
    let code := i.header.code.toNat
    let data := i.header.data.toNat
    let k := a.toInt.toNat
    i.code.toList = (i.bytes.toList.take data).drop code ∧
      ((i.codeCell a).isSome ↔ 0 ≤ a.toInt ∧ a.toInt + 4 ≤ i.code.size) ∧
      (∀ v, i.codeCell a = some v → v.LiesAt i.code.toList k ∧
        v.LiesAt (i.bytes.toList.take data) (code + k)) ∧
      ((i.dataCell a).isSome ↔ 0 ≤ a.toInt ∧ data + a.toInt + 4 ≤ i.bytes.size) ∧
      (∀ v, i.dataCell a = some v → v.LiesAt i.bytes.toList (data + k)) ∧
      (∀ v : Cell, v.Written v.toBytes) ∧
      (∀ v bytes, Cell.Written v bytes →
        ((i.codeCell a).isSome → (i.overlay (code + k) bytes).codeCell a = some v) ∧
        ((i.dataCell a).isSome → (i.overlay (data + k) bytes).dataCell a = some v ∧
          ∀ b, (i.overlay (data + k) bytes).codeCell b = i.codeCell b)) ∧
      (i.bytes.size < UInt64.size →
        i.wordCodeCell a = i.codeCell a ∧ i.wordDataCell a = i.dataCell a) := by
  intro code data k
  refine ⟨i.code_toList, isSome_codeCell_iff, ?_, isSome_dataCell_iff, ?_, Cell.written_toBytes,
    ?_, fun small => ⟨wordCodeCell_eq small a, wordDataCell_eq small a⟩⟩
  · intro v read
    exact ⟨(codeCell_eq_some_iff.mp read).2, (codeCell_eq_some_iff_below.mp read).2⟩
  · intro v read
    exact (dataCell_eq_some_iff.mp read).2
  · intro v bytes written
    exact ⟨codeCell_overlay written, fun readable =>
      ⟨dataCell_overlay written readable, codeCell_overlay_data written readable⟩⟩

/-- The last cell of the code ends where the data starts. A cell behind an offset near the end of
the words is not read from the start of the image. -/
theorem cells_in_segments_lastCell :
    let i : Image := ⟨⟨1, 7⟩, #[9, 9, 9, 0xFE, 0xFF, 0xFF, 0xFF, 1, 2, 3, 4]⟩
    let far : Image := ⟨⟨0, 0xFFFFFFFFFFFFFFFC⟩, #[1, 2, 3, 4, 5, 6, 7, 8]⟩
    i.codeCell 2 = some (-2) ∧ Cell.LiesAt (-2) i.code.toList 2 ∧
      (i.dataCell 0).isSome ∧ Cell.Written (-9) (Cell.toBytes (-9)) ∧
      (i.overlay 7 (Cell.toBytes (-9))).dataCell 0 = some (-9) ∧
      (i.overlay 7 (Cell.toBytes (-9))).codeCell 2 = some (-2) ∧
      (i.codeCell 2).isSome ∧ (i.overlay 3 (Cell.toBytes (-9))).codeCell 2 = some (-9) ∧
      far.bytes.size < UInt64.size ∧ far.dataCell 4 = none ∧ far.wordDataCell 4 = none := by
  intro i far
  obtain ⟨_, _, placed, _, _, _, keptCode, _⟩ := cells_in_segments i 2
  obtain ⟨_, _, _, _, _, written, kept, _⟩ := cells_in_segments i 0
  obtain ⟨_, _, _, _, _, _, _, same⟩ := cells_in_segments far 4
  have read : i.codeCell 2 = some (-2) := by decide
  have readable : (i.dataCell 0).isSome := by decide
  have readableCode : (i.codeCell 2).isSome := by decide
  have small : far.bytes.size < UInt64.size := by decide
  have nothing : far.dataCell 4 = none := by decide
  obtain ⟨back, apart⟩ := (kept (-9) _ (written (-9))).2 readable
  have replaced := (keptCode (-9) _ (written (-9))).1 readableCode
  exact ⟨read, (placed _ read).1, readable, written (-9), back, (apart 2).trans read, readableCode,
    replaced, small, nothing, (same small).2.trans nothing⟩

end Image

end Postmortem
