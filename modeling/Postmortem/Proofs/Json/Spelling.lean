import Mathlib.Data.List.Chain
import Postmortem.Json.Token
import Postmortem.Proofs.Text.Numerals

/-!
# How JSON is spelled

The documents of a value by the grammar of JSON, with no machine that reads them in sight. A number
may have a fraction or an exponent, every character of a string may be escaped in more than one way,
and blanks may stand around every token.

* `Token.Spells`: the spellings of a token.
* `Written`: the documents of a value.
* `written_write`: what `Json.write` writes is one of them.
* `printable_write`: there is no control character in it.
-/

namespace Postmortem.Json

def IsBlank (c : Char) : Prop := c = ' ' ∨ c = '\t' ∨ c = '\n' ∨ c = '\r'

/-! ## Numbers -/

/-- The digit of the value `d`. -/
def IsDigit (c : Char) (d : Nat) : Prop := "0123456789".toList[d]? = some c

instance (c : Char) (d : Nat) : Decidable (IsDigit c d) := inferInstanceAs (Decidable (_ = _))

/-- The digits of a natural number, with no zero in front. -/
inductive Whole : Nat → List Char → Prop
  | digit {c : Char} {d : Nat} (h : IsDigit c d) : Whole d [c]
  | more {n : Nat} {cs : List Char} {c : Char} {d : Nat} (front : Whole n cs) (nonzero : n ≠ 0)
      (h : IsDigit c d) : Whole (10 * n + d) (cs ++ [c])

/-- One digit or more. -/
def Digits (cs : List Char) : Prop := cs ≠ [] ∧ ∀ c ∈ cs, ∃ d, IsDigit c d

def Fraction (cs : List Char) : Prop := ∃ ds, Digits ds ∧ cs = '.' :: ds

def Exponent (cs : List Char) : Prop :=
  ∃ e sign ds, (e = 'e' ∨ e = 'E') ∧ (sign = [] ∨ sign = ['+'] ∨ sign = ['-']) ∧ Digits ds ∧
    cs = e :: sign ++ ds

/-! ## Strings -/

/-- A hexadecimal digit of the value `d`, in either case. -/
def IsHexDigit (c : Char) (d : Nat) : Prop :=
  "0123456789abcdef".toList[d]? = some c ∨ "0123456789ABCDEF".toList[d]? = some c

instance (c : Char) (d : Nat) : Decidable (IsHexDigit c d) := inferInstanceAs (Decidable (_ ∨ _))

/-- The four digits of a unit of sixteen bits. -/
inductive CodeUnit : Nat → List Char → Prop
  | mk {a b c d : Char} {p q r s : Nat} (ha : IsHexDigit a p) (hb : IsHexDigit b q)
      (hc : IsHexDigit c r) (hd : IsHexDigit d s) :
      CodeUnit (16 * (16 * (16 * p + q) + r) + s) [a, b, c, d]

def Leading (u : Nat) : Prop := 0xD800 ≤ u ∧ u < 0xDC00

def Trailing (u : Nat) : Prop := 0xDC00 ≤ u ∧ u < 0xE000

/-- The letters that stand for a character behind a backslash. -/
def shortEscapes : List (Char × Char) :=
  [('"', '"'), ('\\', '\\'), ('/', '/'), ('b', '\x08'), ('f', '\x0c'), ('n', '\n'), ('r', '\r'),
    ('t', '\t')]

/-- What a string is made of. -/
inductive Piece where
  | char (c : Char)
  /-- Half of a surrogate pair, alone. -/
  | half (u : Nat)

namespace Piece

inductive Spells : Piece → List Char → Prop
  | plain {c : Char} (printable : 0x20 ≤ c.toNat) (notQuote : c ≠ '"') (notBackslash : c ≠ '\\') :
      Spells (.char c) [c]
  | short {e c : Char} (listed : (e, c) ∈ shortEscapes) : Spells (.char c) ['\\', e]
  | unit {c : Char} {ds : List Char} (digits : CodeUnit c.toNat ds) :
      Spells (.char c) ('\\' :: 'u' :: ds)
  /-- The two halves of a pair, for a character that needs more than sixteen bits. -/
  | pair {c : Char} {u v : Nat} {ds es : List Char} (first : CodeUnit u ds) (leading : Leading u)
      (second : CodeUnit v es) (trailing : Trailing v)
      (value : c.toNat = 0x10000 + (u - 0xD800) * 0x400 + (v - 0xDC00)) :
      Spells (.char c) ('\\' :: 'u' :: ds ++ '\\' :: 'u' :: es)
  | half {u : Nat} {ds : List Char} (digits : CodeUnit u ds) (surrogate : Leading u ∨ Trailing u) :
      Spells (.half u) ('\\' :: 'u' :: ds)

def Leads : Piece → Prop
  | char _ => False
  | half u => Leading u

def Trails : Piece → Prop
  | char _ => False
  | half u => Trailing u

def char? : Piece → Option Char
  | char c => some c
  | half _ => none

end Piece

/-- What stands between the quotes. -/
inductive Contents : List Piece → List Char → Prop
  | nil : Contents [] []
  | cons {p : Piece} {ps : List Piece} {cs rest : List Char} (spelled : p.Spells cs)
      (more : Contents ps rest) : Contents (p :: ps) (cs ++ rest)

/-- No two halves stand where they would be a pair. -/
def Apart (ps : List Piece) : Prop := ps.IsChain fun p q => ¬ (p.Leads ∧ q.Trails)

/-- The text of a string, if it is made of characters alone. -/
def textOf? (ps : List Piece) : Option String := (ps.mapM Piece.char?).map String.ofList

/-! ## Documents -/

inductive Token.Spells : Token → List Char → Prop
  | openArray : Spells .openArray ['[']
  | closeArray : Spells .closeArray [']']
  | openObject : Spells .openObject ['\x7b']
  | closeObject : Spells .closeObject ['\x7d']
  | comma : Spells .comma [',']
  | colon : Spells .colon [':']
  | null : Spells .null "null".toList
  | true : Spells (.bool true) "true".toList
  | false : Spells (.bool false) "false".toList
  | natural {n : Nat} {cs : List Char} (whole : Whole n cs) : Spells (.number (some n)) cs
  | negative {n : Nat} {cs : List Char} (whole : Whole n cs) (nonzero : n ≠ 0) :
      Spells (.number (some (-n))) ('-' :: cs)
  | negativeZero : Spells (.number none) ['-', '0']
  | fraction {sign cs fraction exponent : List Char} {n : Nat} (signed : sign = [] ∨ sign = ['-'])
      (whole : Whole n cs) (part : Fraction fraction) (power : exponent = [] ∨ Exponent exponent) :
      Spells (.number none) (sign ++ cs ++ fraction ++ exponent)
  | exponent {sign cs exponent : List Char} {n : Nat} (signed : sign = [] ∨ sign = ['-'])
      (whole : Whole n cs) (power : Exponent exponent) :
      Spells (.number none) (sign ++ cs ++ exponent)
  | string {ps : List Piece} {cs : List Char} (contents : Contents ps cs) (apart : Apart ps) :
      Spells (.string (textOf? ps)) ('"' :: cs ++ ['"'])

/-- Tokens with blanks around them. -/
inductive Laid : List Token → List Char → Prop
  | nil {bs : List Char} (blank : ∀ c ∈ bs, IsBlank c) : Laid [] bs
  | cons {t : Token} {ts : List Token} {bs cs rest : List Char} (blank : ∀ c ∈ bs, IsBlank c)
      (spelled : t.Spells cs) (more : Laid ts rest) : Laid (t :: ts) (bs ++ cs ++ rest)

/-- The text is a document of the value. -/
def Written (v : Json) (text : String) : Prop := Laid v.tokens text.toList

/-! ## What is written here -/

theorem isDigit_digitChar {d : Nat} (small : d < 10) : IsDigit d.digitChar d := by
  have all : ∀ d < 10, IsDigit d.digitChar d := by decide
  exact all d small

theorem whole_toDigits (n : Nat) : Whole n (Nat.toDigits 10 n) := by
  apply Text.toDigits_induction
  · intro d low
    exact .digit (isDigit_digitChar low)
  · intro n d cs nonzero low front
    exact front.more nonzero (isDigit_digitChar low)

theorem codeUnit_hex {n : Nat} (control : n < 0x20) : CodeUnit n (Text.hex 4 n).toList := by
  have digits : ∀ n < 0x20, (Text.hex 4 n).toList =
      ['0', '0', (n / 16).digitChar, (n % 16).digitChar] := by decide +kernel
  have low : ∀ d < 16, IsHexDigit d.digitChar d := by decide
  have unit := CodeUnit.mk (low 0 (by decide)) (low 0 (by decide)) (low (n / 16) (by omega))
    (low (n % 16) (by omega))
  have value : 16 * (16 * (16 * 0 + 0) + n / 16) + n % 16 = n := by omega
  rw [value] at unit
  rw [digits n control]
  exact unit

theorem spells_escaped (c : Char) : (Piece.char c).Spells (escaped c) := by
  unfold escaped
  repeat' split
  all_goals first
    | subst c
      exact .short (by decide)
    | skip
  · exact .unit (codeUnit_hex ‹_›)
  · exact .plain (Nat.le_of_not_lt ‹_›) ‹_› ‹_›

theorem contents_escaped (cs : List Char) :
    Contents (cs.map Piece.char) (cs.flatMap escaped) := by
  induction cs with
  | nil => exact .nil
  | cons c cs ih => exact .cons (spells_escaped c) ih

theorem apart_chars (cs : List Char) : Apart (cs.map Piece.char) := by
  have pairwise : (cs.map Piece.char).Pairwise fun p q => ¬ (p.Leads ∧ q.Trails) := by
    rw [List.pairwise_map]
    exact List.pairwise_of_forall fun _ _ ⟨leads, _⟩ => leads
  exact pairwise.isChain

theorem textOf?_chars (cs : List Char) : textOf? (cs.map Piece.char) = some (String.ofList cs) := by
  have chars : (cs.map Piece.char).mapM Piece.char? = some cs := by
    induction cs with
    | nil => rfl
    | cons c cs ih => simp [List.mapM_cons, Piece.char?, ih]
  rw [textOf?, chars, Option.map_some]

theorem spells_quoted (s : String) : (Token.string (some s)).Spells (quoted s) := by
  have spelled := Token.Spells.string (contents_escaped s.toList) (apart_chars s.toList)
  rwa [textOf?_chars, String.ofList_toList] at spelled

theorem spells_toString (n : Int) : (Token.number (some n)).Spells (toString n).toList := by
  cases n with
  | ofNat n =>
    rw [Text.toList_toString_ofNat]
    exact .natural (whole_toDigits n)
  | negSucc n =>
    rw [Text.toList_toString_negSucc]
    exact .negative (whole_toDigits (n + 1)) (Nat.succ_ne_zero n)

theorem spells_spelling (t : Token) : t.Spells t.spelling := by
  cases t with
  | openArray => exact .openArray
  | closeArray => exact .closeArray
  | openObject => exact .openObject
  | closeObject => exact .closeObject
  | comma => exact .comma
  | colon => exact .colon
  | null => exact .null
  | bool b =>
    cases b
    · exact .false
    · exact .true
  | number n =>
    cases n with
    | none => exact .negativeZero
    | some n => exact spells_toString n
  | string s =>
    cases s with
    | none =>
      have unit : CodeUnit 0xD800 ['d', '8', '0', '0'] :=
        .mk (p := 13) (q := 8) (r := 0) (s := 0) (by decide) (by decide) (by decide) (by decide)
      have half : Contents [.half 0xD800] ['\\', 'u', 'd', '8', '0', '0'] :=
        .cons (.half unit (.inl ⟨by decide, by decide⟩)) .nil
      exact .string half (.singleton _)
    | some s => exact spells_quoted s

theorem laid_spellings (ts : List Token) : Laid ts (ts.flatMap Token.spelling) := by
  have noBlank : ∀ c ∈ ([] : List Char), IsBlank c := nofun
  induction ts with
  | nil => exact .nil noBlank
  | cons t ts ih => exact .cons noBlank (spells_spelling t) ih

theorem written_write (v : Json) : Written v v.write := by
  rw [Written, write, String.toList_ofList]
  exact laid_spellings v.tokens

/-! ## No control characters -/

/-- There is no control character below the blank. -/
def Printable (cs : List Char) : Prop := ∀ c ∈ cs, 0x20 ≤ c.toNat

instance (cs : List Char) : Decidable (Printable cs) :=
  decidable_of_iff (cs.all fun c => 0x20 ≤ c.toNat) (by simp [Printable])

theorem Printable.append {cs ds : List Char} (first : Printable cs) (second : Printable ds) :
    Printable (cs ++ ds) :=
  List.forall_mem_append.mpr ⟨first, second⟩

theorem Printable.cons {c : Char} {cs : List Char} (first : 0x20 ≤ c.toNat)
    (more : Printable cs) : Printable (c :: cs) :=
  List.forall_mem_cons.mpr ⟨first, more⟩

theorem printable_digit {c : Char} {d : Nat} (h : IsDigit c d) : 0x20 ≤ c.toNat := by
  have all : Printable "0123456789".toList := by decide
  exact all c (List.mem_of_getElem? h)

theorem printable_hexDigit {c : Char} {d : Nat} (h : IsHexDigit c d) : 0x20 ≤ c.toNat := by
  have lower : Printable "0123456789abcdef".toList := by decide
  have upper : Printable "0123456789ABCDEF".toList := by decide
  rcases h with h | h
  · exact lower c (List.mem_of_getElem? h)
  · exact upper c (List.mem_of_getElem? h)

theorem printable_whole {n : Nat} {cs : List Char} (whole : Whole n cs) : Printable cs := by
  induction whole with
  | digit h => exact .cons (printable_digit h) nofun
  | more _ _ h ih => exact ih.append (.cons (printable_digit h) nofun)

theorem printable_digits {cs : List Char} (digits : Digits cs) : Printable cs := by
  intro c hc
  obtain ⟨d, h⟩ := digits.2 c hc
  exact printable_digit h

theorem printable_fraction {cs : List Char} (part : Fraction cs) : Printable cs := by
  obtain ⟨ds, digits, rfl⟩ := part
  exact .cons (by decide) (printable_digits digits)

theorem printable_exponent {cs : List Char} (power : Exponent cs) : Printable cs := by
  obtain ⟨e, sign, ds, letter, signed, digits, rfl⟩ := power
  have mark : 0x20 ≤ e.toNat := by rcases letter with rfl | rfl <;> decide
  have front : Printable sign := by
    rcases signed with rfl | rfl | rfl <;> decide
  exact (Printable.cons mark front).append (printable_digits digits)

theorem printable_codeUnit {u : Nat} {ds : List Char} (digits : CodeUnit u ds) :
    Printable ('\\' :: 'u' :: ds) := by
  obtain ⟨ha, hb, hc, hd⟩ := digits
  exact .cons (by decide) <| .cons (by decide) <| .cons (printable_hexDigit ha) <|
    .cons (printable_hexDigit hb) <| .cons (printable_hexDigit hc) <|
    .cons (printable_hexDigit hd) nofun

theorem printable_piece {p : Piece} {cs : List Char} (spelled : p.Spells cs) : Printable cs := by
  cases spelled with
  | plain printable => exact .cons printable nofun
  | short listed =>
    have letters : shortEscapes.all fun e => 0x20 ≤ e.1.toNat := by decide
    have letter := of_decide_eq_true (List.all_eq_true.mp letters _ listed)
    exact .cons (by decide) (.cons letter nofun)
  | unit digits => exact printable_codeUnit digits
  | pair first _ second => exact (printable_codeUnit first).append (printable_codeUnit second)
  | half digits => exact printable_codeUnit digits

theorem printable_contents {ps : List Piece} {cs : List Char} (contents : Contents ps cs) :
    Printable cs := by
  induction contents with
  | nil => exact nofun
  | cons spelled _ ih => exact (printable_piece spelled).append ih

theorem printable_sign {sign : List Char} (signed : sign = [] ∨ sign = ['-']) :
    Printable sign := by
  rcases signed with rfl | rfl <;> decide

/-- No spelling of a token has a control character. Between tokens there may be some. -/
theorem printable_token {t : Token} {cs : List Char} (spelled : t.Spells cs) : Printable cs := by
  cases spelled with
  | natural whole => exact printable_whole whole
  | negative whole => exact .cons (by decide) (printable_whole whole)
  | fraction signed whole part power =>
    have front := ((printable_sign signed).append (printable_whole whole)).append
      (printable_fraction part)
    rcases power with rfl | power
    · rw [List.append_nil]
      exact front
    · exact front.append (printable_exponent power)
  | exponent signed whole power =>
    exact ((printable_sign signed).append (printable_whole whole)).append
      (printable_exponent power)
  | string contents =>
    have quote : Printable ['"'] := by decide
    exact (quote.append (printable_contents contents)).append quote
  | _ => decide

theorem printable_write (v : Json) : Printable v.write.toList := by
  rw [write, String.toList_ofList]
  intro c hc
  obtain ⟨t, _, here⟩ := List.mem_flatMap.mp hc
  exact printable_token (spells_spelling t) c here

end Postmortem.Json
