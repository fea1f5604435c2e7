import Postmortem.Json.Lexer
import Postmortem.Proofs.Json.Spelling

/-!
# Every spelling is read

The lexer reads every spelling of a token as that token, whatever blanks stand around it. A number
ends where the next token begins, so two numbers must not follow each other.

* `Quoted.foldlM_contents`: what stands between the quotes, piece by piece.
* `Lexer.foldlM_spells`: one token.
* `lex_laid`: all tokens of a document.
-/

namespace Postmortem.Json

/-! ## Runs of a machine -/

section

variable {σ α : Type} {f : σ → α → Option σ} {s t : σ} {a : α} {as : List α}

theorem run_cons (taken : f s a = some t) (bs : List α) :
    (a :: bs).foldlM f s = bs.foldlM f t := by
  rw [List.foldlM_cons, taken]
  rfl

theorem run_append (ran : as.foldlM f s = some t) (bs : List α) :
    (as ++ bs).foldlM f s = bs.foldlM f t := by
  rw [List.foldlM_append, ran]
  rfl

end

/-! ## Digits -/

/-- What a test shows of every digit in a list of them holds of each. -/
theorem of_listed (test : Char → Nat → Bool) {digits : List Char}
    (all : ∀ d < digits.length, digits[d]?.all (test · d)) {c : Char} {d : Nat}
    (listed : digits[d]? = some c) : test c d := by
  have small : d < digits.length := (List.getElem?_eq_some_iff.mp listed).1
  have passed := all d small
  rwa [listed] at passed

theorem digit?_of_isDigit {c : Char} {d : Nat} (h : IsDigit c d) : Text.digit? c = some d := by
  have passed := of_listed (fun c d => Text.digit? c = some d) (by decide) h
  exact of_decide_eq_true passed

theorem hexDigit?_of_isHexDigit {c : Char} {d : Nat} (h : IsHexDigit c d) :
    Quoted.hexDigit? c = some d := by
  rcases h with lower | upper
  · have passed := of_listed (fun c d => Quoted.hexDigit? c = some d) (by decide) lower
    exact of_decide_eq_true passed
  · have passed := of_listed (fun c d => Quoted.hexDigit? c = some d) (by decide) upper
    exact of_decide_eq_true passed

def Token.isNumber : Token → Bool
  | number _ => true
  | _ => false

/-- No number follows another. -/
def Spaced (ts : List Token) : Prop := ts.IsChain fun t t' => ¬ (t.isNumber ∧ t'.isNumber)

/-! ## Strings -/

namespace Quoted

/-- The string with one more piece. -/
def add (q : Quoted) : Piece → Quoted
  | .char c => q.push c
  | .half u => q.pushUnit u

/-- Half of a surrogate pair stands alone, as far as the string goes. -/
def Broken (q : Quoted) : Prop := q.lone ∨ q.leading.isSome

instance (q : Quoted) : Decidable q.Broken := inferInstanceAs (Decidable (_ ∨ _))

variable {q : Quoted} {u : Nat} {c : Char}

theorem isLeading_iff : isLeading u ↔ Leading u := by simp [isLeading, Leading]

theorem isTrailing_iff : isTrailing u ↔ Trailing u := by simp [isTrailing, Trailing]

theorem not_trailing_of_leading (h : Leading u) : ¬ Trailing u := by
  unfold Leading at h
  unfold Trailing
  omega

/-- A character is no half of a pair. -/
theorem not_surrogate (c : Char) : ¬ Leading c.toNat ∧ ¬ Trailing c.toNat := by
  have valid : c.toNat < 0xD800 ∨ 0xDFFF < c.toNat ∧ c.toNat < 0x110000 := c.valid
  unfold Leading Trailing
  omega

theorem pushUnit_char (q : Quoted) (c : Char) : q.pushUnit c.toNat = q.push c := by
  obtain ⟨notLeading, notTrailing⟩ := not_surrogate c
  rw [pushUnit, if_neg (mt isTrailing_iff.mp notTrailing), if_neg (mt isLeading_iff.mp notLeading),
    Char.ofNat_toNat]

theorem pushUnit_leading (q : Quoted) (h : Leading u) :
    q.pushUnit u =
      { q with leading := some u, lone := q.lone || q.leading.isSome, escape := .outside } := by
  rw [pushUnit, if_neg (mt isTrailing_iff.mp (not_trailing_of_leading h)),
    if_pos (isLeading_iff.mpr h)]

theorem pushUnit_trailing (h : Trailing u) (alone : q.leading = none) :
    q.pushUnit u = { q with lone := true, escape := .outside } := by
  rw [pushUnit, if_pos (isTrailing_iff.mpr h), alone]

theorem pushUnit_pair {v : Nat} (hu : Leading u) (hv : Trailing v)
    (value : c.toNat = 0x10000 + (u - 0xD800) * 0x400 + (v - 0xDC00)) :
    (q.pushUnit u).pushUnit v = q.push c := by
  rw [pushUnit_leading q hu, pushUnit, if_pos (isTrailing_iff.mpr hv)]
  simp only [← value, Char.ofNat_toNat]
  rfl

theorem pushUnit_escape (q : Quoted) (e : Escape) (u : Nat) :
    { q with escape := e }.pushUnit u = q.pushUnit u := by
  unfold pushUnit
  rfl

end Quoted

namespace Lexer

variable {q : Quoted} {done : List Token}

theorem foldlM_codeUnit {u : Nat} {ds : List Char} (digits : CodeUnit u ds)
    (outside : q.escape = .outside) :
    ('\\' :: 'u' :: ds).foldlM Lexer.step ⟨.string q, done⟩ =
      some ⟨.string (q.pushUnit u), done⟩ := by
  obtain ⟨ha, hb, hc, hd⟩ := digits
  have va := hexDigit?_of_isHexDigit ha
  have vb := hexDigit?_of_isHexDigit hb
  have vc := hexDigit?_of_isHexDigit hc
  have vd := hexDigit?_of_isHexDigit hd
  -- Only the last digit adds the unit, so the escapes before it leave no trace.
  simp [Lexer.step, Quoted.step, Quoted.unescape, outside, va, vb, vc, vd, Quoted.pushUnit_escape]

theorem foldlM_piece {p : Piece} {cs : List Char} (spelled : p.Spells cs)
    (outside : q.escape = .outside) :
    cs.foldlM Lexer.step ⟨.string q, done⟩ = some ⟨.string (q.add p), done⟩ := by
  cases spelled with
  | plain printable notQuote notBackslash =>
    have shown := Nat.not_lt_of_le printable
    simp [Lexer.step, Quoted.step, outside, notQuote, notBackslash, shown, Quoted.add]
  | short listed =>
    simp only [shortEscapes, List.mem_cons, Prod.mk.injEq, List.not_mem_nil, or_false] at listed
    rcases listed with ⟨rfl, rfl⟩ | ⟨rfl, rfl⟩ | ⟨rfl, rfl⟩ | ⟨rfl, rfl⟩ | ⟨rfl, rfl⟩ |
      ⟨rfl, rfl⟩ | ⟨rfl, rfl⟩ | ⟨rfl, rfl⟩
    all_goals simp [Lexer.step, Quoted.step, Quoted.unescape, outside, Quoted.add, Quoted.push]
  | unit digits =>
    rw [foldlM_codeUnit digits outside, Quoted.pushUnit_char]
    rfl
  | @pair c u v ds es first leading second trailing value =>
    have between : (q.pushUnit u).escape = .outside := by
      rw [Quoted.pushUnit_leading q leading]
    have whole := Quoted.pushUnit_pair (q := q) leading trailing value
    rw [run_append (foldlM_codeUnit first outside), foldlM_codeUnit second between, whole]
    rfl
  | half digits surrogate => exact foldlM_codeUnit digits outside

end Lexer

namespace Quoted

variable {q : Quoted} {p : Piece} {ps : List Piece} {cs : List Char}

/-- What a piece makes of a string: a character is added, half of a pair breaks it. A trailing half
right after a leading one would be no piece of its own. -/
theorem add_spec (spelled : p.Spells cs) (alone : q.leading.isSome → ¬ p.Trails) :
    (q.add p).escape = .outside ∧ ((q.add p).leading.isSome ↔ p.Leads) ∧
      ((q.add p).Broken ↔ q.Broken ∨ p.char? = none) ∧
      (q.add p).chars = p.char?.toList ++ q.chars := by
  have ofChar (c : Char) : (q.push c).escape = .outside ∧ ((q.push c).leading.isSome ↔ False) ∧
      ((q.push c).Broken ↔ q.Broken ∨ some c = none) ∧ (q.push c).chars = [c] ++ q.chars := by
    simp [push, Broken]
  cases spelled with
  | plain | short | unit | pair => exact ofChar _
  | half digits surrogate =>
    rcases surrogate with leading | trailing
    · simp [add, pushUnit_leading q leading, Broken, Piece.Leads, Piece.char?, leading]
    · have single : q.leading = none := by
        simpa using mt alone (not_not_intro trailing)
      have notLeading := mt not_trailing_of_leading (not_not_intro trailing)
      simp [add, pushUnit_trailing trailing single, Broken, Piece.Leads, Piece.char?, single,
        notLeading]

/-- Of the pieces between the quotes, every one is added. By induction on them: two halves that
stand apart are not joined. -/
theorem foldlM_contents (contents : Contents ps cs) (apart : Apart ps)
    (outside : q.escape = .outside) (alone : ∀ p ∈ ps.head?, q.leading.isSome → ¬ p.Trails)
    (done : List Token) :
    ∃ r : Quoted, cs.foldlM Lexer.step ⟨.string q, done⟩ = some ⟨.string r, done⟩ ∧
      r.escape = .outside ∧
      r.text? = if q.Broken then none else
        (ps.mapM Piece.char?).map fun cs => String.ofList (q.chars.reverse ++ cs) := by
  induction contents generalizing q with
  | nil =>
    refine ⟨q, rfl, outside, ?_⟩
    simp [text?, Broken]
  | @cons p ps cs rest spelled more ih =>
    obtain ⟨after, leads, broken, chars⟩ := q.add_spec spelled (alone p rfl)
    -- A leading half may be the last piece so far: the next one must not complete it.
    have apartNext : ∀ p' ∈ ps.head?, (q.add p).leading.isSome → ¬ p'.Trails := by
      intro p' next leading
      cases ps with
      | nil => cases next
      | cons p'' ps =>
        cases next
        have joint := (List.isChain_cons_cons.mp apart).1
        exact fun trails => joint ⟨leads.mp leading, trails⟩
    obtain ⟨r, ran, closed, text⟩ := ih apart.tail after apartNext
    refine ⟨r, ?_, closed, ?_⟩
    · rw [run_append (Lexer.foldlM_piece spelled outside)]
      exact ran
    · rw [text, List.mapM_cons]
      cases whole : p.char? with
      | none =>
        have broke : (q.add p).Broken := broken.mpr (.inr whole)
        simp [broke]
      | some c =>
        have same : (q.add p).Broken ↔ q.Broken := by simp [broken, whole]
        simp only [same, chars, whole]
        cases ps.mapM Piece.char? <;> simp

end Quoted

/-! ## Numbers -/

namespace Numeral

variable {m : Numeral} {c : Char} {d : Nat} {cs : List Char}

/-- The stage of a number without a fraction or an exponent. -/
def stageOf (n : Nat) : Stage := if n = 0 then .zero else .whole

theorem step_stageOf {n : Nat} (nonzero : n ≠ 0) (negative : Bool) (h : IsDigit c d) :
    step ⟨stageOf n, negative, n⟩ c = some ⟨stageOf (10 * n + d), negative, 10 * n + d⟩ := by
  have digit := digit?_of_isDigit h
  have before : stageOf n = .whole := if_neg nonzero
  have after : stageOf (10 * n + d) = .whole := if_neg (by omega)
  simp [step, digit, before, after]

end Numeral

namespace Lexer

variable {m m' : Numeral} (done : List Token) {c : Char} {cs : List Char}

theorem step_numeral (h : m.step c = some m') :
    Lexer.step ⟨.numeral m, done⟩ c = some ⟨.numeral m', done⟩ := by
  simp [Lexer.step, h]

theorem begin_digit {d : Nat} (h : IsDigit c d) :
    begin done c = some ⟨.numeral ⟨Numeral.stageOf d, false, d⟩, done⟩ := by
  have passed := of_listed (fun c d =>
    Numeral.begin? c = some ⟨Numeral.stageOf d, false, d⟩ ∧
      c ∉ " \t\n\r[]\x7b\x7d,:\"ntf".toList) (by decide) h
  obtain ⟨begun, other⟩ := of_decide_eq_true passed
  unfold begin
  split
  all_goals first
    | exact absurd (by decide) other
    | simp [begun]

theorem step_minus {d : Nat} (h : IsDigit c d) :
    Lexer.step ⟨.numeral ⟨.minus, true, 0⟩, done⟩ c =
      some ⟨.numeral ⟨Numeral.stageOf d, true, d⟩, done⟩ := by
  apply step_numeral done
  simp [Numeral.step, digit?_of_isDigit h, Numeral.stageOf]

/-- A whole number is read where its first digit is. By induction on its digits, the last one
last. -/
theorem foldlM_whole {l : Lexer} {negative : Bool}
    (first : ∀ c d, IsDigit c d →
      l.step c = some ⟨.numeral ⟨Numeral.stageOf d, negative, d⟩, done⟩)
    {n : Nat} (whole : Whole n cs) :
    cs.foldlM Lexer.step l = some ⟨.numeral ⟨Numeral.stageOf n, negative, n⟩, done⟩ := by
  induction whole with
  | digit h => simp [first _ _ h]
  | more front nonzero h ih =>
    have last := step_numeral done (Numeral.step_stageOf nonzero negative h)
    rw [run_append ih, run_cons last]
    rfl

/-- A run of digits leads from one stage to another and stays there. -/
theorem foldlM_digits {stage : Stage}
    (first : ∀ c d, IsDigit c d → m.step c = some { m with stage := stage })
    (more : ∀ c d, IsDigit c d →
      { m with stage := stage }.step c = some { m with stage := stage })
    (digits : Digits cs) :
    cs.foldlM Lexer.step ⟨.numeral m, done⟩ = some ⟨.numeral { m with stage := stage }, done⟩ := by
  obtain ⟨nonempty, all⟩ := digits
  have rest (ds : List Char) (hds : ∀ c ∈ ds, ∃ d, IsDigit c d) :
      ds.foldlM Lexer.step ⟨.numeral { m with stage := stage }, done⟩ =
        some ⟨.numeral { m with stage := stage }, done⟩ := by
    induction ds with
    | nil => rfl
    | cons c ds ih =>
      obtain ⟨⟨d, h⟩, later⟩ := List.forall_mem_cons.mp hds
      rw [run_cons (step_numeral done (more c d h))]
      exact ih later
  cases cs with
  | nil => exact absurd rfl nonempty
  | cons c cs =>
    obtain ⟨⟨d, h⟩, later⟩ := List.forall_mem_cons.mp all
    rw [run_cons (step_numeral done (first c d h))]
    exact rest cs later

theorem foldlM_fraction (whole : m.stage = .zero ∨ m.stage = .whole) (part : Fraction cs) :
    cs.foldlM Lexer.step ⟨.numeral m, done⟩ =
      some ⟨.numeral { m with stage := .fraction }, done⟩ := by
  obtain ⟨ds, digits, rfl⟩ := part
  have point : m.step '.' = some { m with stage := .point } := by
    have none : Text.digit? '.' = none := by decide
    rcases whole with h | h <;> simp [Numeral.step, h, none]
  rw [run_cons (step_numeral done point)]
  exact foldlM_digits done (fun c d h => by simp [Numeral.step, digit?_of_isDigit h])
    (fun c d h => by simp [Numeral.step, digit?_of_isDigit h]) digits

theorem foldlM_exponent
    (before : m.stage = .zero ∨ m.stage = .whole ∨ m.stage = .fraction) (power : Exponent cs) :
    cs.foldlM Lexer.step ⟨.numeral m, done⟩ =
      some ⟨.numeral { m with stage := .exponent }, done⟩ := by
  obtain ⟨e, sign, ds, letter, signed, digits, rfl⟩ := power
  have mark : m.step e = some { m with stage := .power } := by
    have none : Text.digit? e = none := by rcases letter with rfl | rfl <;> decide
    rcases letter with rfl | rfl <;> rcases before with h | h | h <;> simp [Numeral.step, h, none]
  have digitsFrom (s : Stage) (hs : s = .power ∨ s = .powerSign) :
      ds.foldlM Lexer.step ⟨.numeral { m with stage := s }, done⟩ =
        some ⟨.numeral { m with stage := .exponent }, done⟩ := by
    refine foldlM_digits done ?_ ?_ digits
    · intro c d h
      rcases hs with rfl | rfl <;> simp [Numeral.step, digit?_of_isDigit h]
    · intro c d h
      simp [Numeral.step, digit?_of_isDigit h]
  rw [List.cons_append, run_cons (step_numeral done mark)]
  rcases signed with rfl | rfl | rfl
  · exact digitsFrom .power (.inl rfl)
  · exact digitsFrom .powerSign (.inr rfl)
  · exact digitsFrom .powerSign (.inr rfl)

/-! ## Tokens -/

/-- All tokens before this place are done, but for a number that may end here. -/
inductive Settled : Lexer → List Token → Prop
  | between (done : List Token) : Settled ⟨.between, done⟩ done
  | numeral {m : Numeral} {t : Token} (done : List Token) (ends : m.token? = some t) :
      Settled ⟨.numeral m, done⟩ (t :: done)

variable {done} in
theorem finish_of_settled {l : Lexer} (settled : l.Settled done) :
    l.finish = some done.reverse := by
  cases settled with
  | between => rfl
  | numeral done ends => simp [finish, ends]

theorem foldlM_sign {sign : List Char} (signed : sign = [] ∨ sign = ['-']) {n : Nat}
    (whole : Whole n cs) :
    (sign ++ cs).foldlM Lexer.step ⟨.between, done⟩ =
      some ⟨.numeral ⟨Numeral.stageOf n, decide (sign = ['-']), n⟩, done⟩ := by
  rcases signed with rfl | rfl
  · exact foldlM_whole done (fun _ _ => begin_digit done) whole
  · have minus : Lexer.step ⟨.between, done⟩ '-' = some ⟨.numeral ⟨.minus, true, 0⟩, done⟩ := rfl
    rw [List.singleton_append, run_cons minus]
    exact foldlM_whole done (fun _ _ => step_minus done) whole

theorem stage_whole (n : Nat) :
    Numeral.stageOf n = .zero ∨ Numeral.stageOf n = .whole := by
  unfold Numeral.stageOf
  split
  · exact .inl rfl
  · exact .inr rfl

/-- A number has been read once its spelling has, and it may end there. -/
theorem foldlM_number {n : Option Int} (spelled : (Token.number n).Spells cs) :
    ∃ m : Numeral, cs.foldlM Lexer.step ⟨.between, done⟩ = some ⟨.numeral m, done⟩ ∧
      m.token? = some (.number n) := by
  cases spelled with
  | @natural n cs whole =>
    have ran := foldlM_sign done (.inl rfl) whole
    refine ⟨_, ran, ?_⟩
    by_cases zero : n = 0
    · subst zero
      rfl
    · simp [Numeral.token?, Numeral.stageOf, zero]
  | @negative n cs whole nonzero =>
    have ran := foldlM_sign done (.inr rfl) whole
    refine ⟨_, ran, ?_⟩
    simp [Numeral.token?, Numeral.stageOf, nonzero]
  | negativeZero => exact ⟨⟨.zero, true, 0⟩, rfl, rfl⟩
  | @fraction sign cs part power n signed whole fraction exponent =>
    have ran := foldlM_sign done signed whole
    have further := foldlM_fraction done
      (m := ⟨Numeral.stageOf n, decide (sign = ['-']), n⟩) (stage_whole n) fraction
    rw [List.append_assoc, run_append ran, run_append further]
    rcases exponent with rfl | exponent
    · exact ⟨_, rfl, rfl⟩
    · exact ⟨_, foldlM_exponent done (.inr (.inr rfl)) exponent, rfl⟩
  | @exponent sign cs power n signed whole exponent =>
    have ran := foldlM_sign done signed whole
    have before : Numeral.stageOf n = .zero ∨ Numeral.stageOf n = .whole ∨
        Numeral.stageOf n = .fraction := (stage_whole n).imp_right .inl
    rw [run_append ran]
    exact ⟨_, foldlM_exponent done before exponent, rfl⟩

theorem foldlM_string {ps : List Piece} (contents : Contents ps cs) (apart : Apart ps) :
    ('"' :: cs ++ ['"']).foldlM Lexer.step ⟨.between, done⟩ =
      some ⟨.between, .string (textOf? ps) :: done⟩ := by
  have alone : ∀ p ∈ ps.head?, Quoted.opened.leading.isSome → ¬ p.Trails := nofun
  obtain ⟨q, ran, outside, text⟩ := Quoted.foldlM_contents contents apart rfl alone done
  have started : Lexer.step ⟨.between, done⟩ '"' = some ⟨.string .opened, done⟩ := rfl
  have whole : q.text? = textOf? ps := by
    rw [text]
    simp [Quoted.Broken, Quoted.opened, textOf?]
  have closed : Lexer.step ⟨.string q, done⟩ '"' =
      some ⟨.between, .string (textOf? ps) :: done⟩ := by
    simp [Lexer.step, outside, emit, whole]
  rw [List.cons_append, run_cons started, run_append ran, run_cons closed]
  rfl

/-- After its spelling a token is done, or it is a number that may end there. -/
theorem foldlM_spells {t : Token} (spelled : t.Spells cs) :
    ∃ l : Lexer, cs.foldlM Lexer.step ⟨.between, done⟩ = some l ∧ l.Settled (t :: done) ∧
      (l = ⟨.between, t :: done⟩ ∨ t.isNumber) := by
  have emitted (ran : cs.foldlM Lexer.step ⟨.between, done⟩ = some ⟨.between, t :: done⟩) :
      ∃ l : Lexer, cs.foldlM Lexer.step ⟨.between, done⟩ = some l ∧ l.Settled (t :: done) ∧
        (l = ⟨.between, t :: done⟩ ∨ t.isNumber) := ⟨_, ran, .between _, .inl rfl⟩
  cases t with
  | number n =>
    obtain ⟨m, ran, ends⟩ := foldlM_number done spelled
    exact ⟨_, ran, .numeral done ends, .inr rfl⟩
  | string s =>
    cases spelled with
    | string contents apart => exact emitted (foldlM_string done contents apart)
  | _ =>
    cases spelled
    all_goals exact emitted rfl

/-! ## Documents -/

variable {done} {l : Lexer}

/-- A character that is in no number ends one. -/
theorem step_of_settled (settled : l.Settled done) (notDigit : Text.digit? c = none)
    (notMark : c ∉ ".eE+-".toList) : l.step c = Lexer.step ⟨.between, done⟩ c := by
  cases settled with
  | between => rfl
  | @numeral m t done ends =>
    have foreign : m.step c = none := by
      simp only [String.reduceToList, List.mem_cons, List.not_mem_nil, or_false, not_or] at notMark
      unfold Numeral.step
      rw [notDigit]
      cases m.stage <;> simp [notMark]
    simp [Lexer.step, foreign, ends]

theorem foldlM_blanks {bs : List Char} (blank : ∀ c ∈ bs, IsBlank c) (settled : l.Settled done) :
    ∃ l' : Lexer, bs.foldlM Lexer.step l = some l' ∧ l'.Settled done ∧
      (l' = l ∨ l' = ⟨.between, done⟩) := by
  induction bs generalizing l with
  | nil => exact ⟨l, rfl, settled, .inl rfl⟩
  | cons c bs ih =>
    obtain ⟨here, later⟩ := List.forall_mem_cons.mp blank
    have passed : l.step c = some ⟨.between, done⟩ := by
      rcases here with rfl | rfl | rfl | rfl
      all_goals exact step_of_settled settled (by decide) (by decide)
    obtain ⟨l', ran, settled', same⟩ := ih later (.between done)
    refine ⟨l', ?_, settled', ?_⟩
    · rw [run_cons passed]
      exact ran
    · exact .inr (same.elim id id)

/-- A token other than a number may follow any other at once. -/
theorem foldlM_of_settled {t : Token} (spelled : t.Spells cs) (settled : l.Settled done)
    (apart : l = ⟨.between, done⟩ ∨ ¬ t.isNumber) :
    cs.foldlM Lexer.step l = cs.foldlM Lexer.step ⟨.between, done⟩ := by
  rcases apart with rfl | other
  · rfl
  · have head : ∃ c rest, cs = c :: rest ∧ Text.digit? c = none ∧ c ∉ ".eE+-".toList := by
      cases spelled with
      | natural | negative | negativeZero | fraction | exponent => exact absurd rfl other
      | _ => exact ⟨_, _, rfl, by decide, by decide⟩
    obtain ⟨c, rest, rfl, notDigit, notMark⟩ := head
    rw [List.foldlM_cons, List.foldlM_cons, step_of_settled settled notDigit notMark]

/-- By induction on the tokens. Only where a number has just been read does it matter what comes
next. -/
theorem foldlM_laid {ts : List Token} (laid : Laid ts cs) (spaced : Spaced ts)
    (settled : l.Settled done) (apart : ∀ t ∈ ts.head?, l = ⟨.between, done⟩ ∨ ¬ t.isNumber) :
    ∃ l' : Lexer, cs.foldlM Lexer.step l = some l' ∧ l'.Settled (ts.reverse ++ done) := by
  induction laid generalizing l done with
  | nil blank =>
    obtain ⟨l', ran, settled', _⟩ := foldlM_blanks blank settled
    exact ⟨l', ran, settled'⟩
  | @cons t ts bs cs rest blank spelled more ih =>
    obtain ⟨m, blanks, ready, same⟩ := foldlM_blanks blank settled
    -- A blank ends the number before it, so after one anything may come.
    have still : m = ⟨.between, done⟩ ∨ ¬ t.isNumber := by
      rcases same with rfl | between
      · exact apart t rfl
      · exact .inl between
    obtain ⟨m', token, next, kind⟩ := foldlM_spells done spelled
    have apartNext : ∀ t' ∈ ts.head?, m' = ⟨.between, t :: done⟩ ∨ ¬ t'.isNumber := by
      intro t' first
      rcases kind with between | number
      · exact .inl between
      · cases ts with
        | nil => cases first
        | cons t'' ts =>
          cases first
          have joint := (List.isChain_cons_cons.mp spaced).1
          exact .inr fun number' => joint ⟨number, number'⟩
    obtain ⟨l', ran, settled'⟩ := ih spaced.tail next apartNext
    refine ⟨l', ?_, ?_⟩
    · rw [← foldlM_of_settled spelled ready still] at token
      rw [List.append_assoc, run_append blanks, run_append token]
      exact ran
    · rwa [List.reverse_cons, List.append_assoc]

end Lexer

/-- The lexer gives the tokens that a document is a spelling of. -/
theorem lex_laid {ts : List Token} {cs : List Char} (laid : Laid ts cs) (spaced : Spaced ts) :
    lex cs = some ts := by
  obtain ⟨l, ran, settled⟩ := Lexer.foldlM_laid laid spaced (.between []) fun _ _ => .inl rfl
  have finished := Lexer.finish_of_settled settled
  rw [List.append_nil, List.reverse_reverse] at finished
  rw [lex, Lexer.start, ran]
  exact finished

end Postmortem.Json
