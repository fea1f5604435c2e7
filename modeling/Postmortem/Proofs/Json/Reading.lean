import Postmortem.Json.Reader
import Postmortem.Proofs.Json.Lexing

/-!
# Every document is read

The reader finds the value of every document, however deep it nests: the tokens of a value lead it
from where a value may begin to where that value is complete.

* `Reader.foldlM_tokens`: the tokens of one value.
* `read_of_written`: a document is read as the value that it is written for.
* `read_write`: what is written is read back.
-/

namespace Postmortem.Json

/-! ## The tokens of a value -/

namespace Reader

/-- No value begins with the bracket that closes an array. -/
theorem foldlM_firstItem (outer : List Open) (v : Json) :
    v.tokens.foldlM Reader.step (.firstItem outer) =
      v.tokens.foldlM Reader.step (.value (.array [] :: outer)) := by
  cases v <;> rfl

/-- A member is a key, a colon and a value. -/
theorem foldlM_member {older : List (Option String × Json)} {k : Option String} {outer : List Open}
    {v : Json} (first : Bool)
    (value : v.tokens.foldlM Reader.step (.value (.object older k :: outer)) =
      some (.after v (.object older k :: outer))) (ts : List Token) :
    (.string k :: .colon :: v.tokens ++ ts).foldlM Reader.step (.key first older outer) =
      ts.foldlM Reader.step (.after v (.object older k :: outer)) := by
  have key : Reader.step (.key first older outer) (.string k) = some (.colon older k outer) := by
    cases first <;> rfl
  have colon : Reader.step (.colon older k outer) .colon =
      some (.value (.object older k :: outer)) := rfl
  rw [List.cons_append, List.cons_append, run_cons key, run_cons colon, run_append value]

mutual

theorem foldlM_tokens (outer : List Open) (v : Json) :
    v.tokens.foldlM Reader.step (.value outer) = some (.after v outer) := by
  cases v with
  | null | bool | number | string => rfl
  | array items => exact foldlM_itemTokens outer items
  | object members => exact foldlM_memberTokens outer members

theorem foldlM_itemTokens (outer : List Open) (items : List Json) :
    (itemTokens items).foldlM Reader.step (.firstItem outer) =
      some (.after (.array items) outer) := by
  cases items with
  | nil => rfl
  | cons v items =>
    have first : v.tokens.foldlM Reader.step (.firstItem outer) =
        some (.after v (.array [] :: outer)) := by
      rw [foldlM_firstItem]
      exact foldlM_tokens _ v
    rw [itemTokens, run_append first]
    exact foldlM_moreItems outer [] v items

theorem foldlM_moreItems (outer : List Open) (older : List Json) (v : Json) (items : List Json) :
    (moreItems items).foldlM Reader.step (.after v (.array older :: outer)) =
      some (.after (.array ((v :: older).reverse ++ items)) outer) := by
  cases items with
  | nil =>
    rw [List.append_nil]
    rfl
  | cons w items =>
    have comma : Reader.step (.after v (.array older :: outer)) .comma =
        some (.value (.array (v :: older) :: outer)) := rfl
    have more := foldlM_moreItems outer (v :: older) w items
    rw [moreItems, List.cons_append, run_cons comma, run_append (foldlM_tokens _ w), more,
      List.reverse_cons, List.append_assoc]
    rfl

theorem foldlM_memberTokens (outer : List Open) (members : List (Option String × Json)) :
    (memberTokens members).foldlM Reader.step (.key true [] outer) =
      some (.after (.object members) outer) := by
  match members with
  | [] => rfl
  | (k, v) :: members =>
    rw [memberTokens, foldlM_member true (foldlM_tokens (.object [] k :: outer) v)]
    exact foldlM_moreMembers outer [] k v members

theorem foldlM_moreMembers (outer : List Open) (older : List (Option String × Json))
    (k : Option String) (v : Json) (members : List (Option String × Json)) :
    (moreMembers members).foldlM Reader.step (.after v (.object older k :: outer)) =
      some (.after (.object (((k, v) :: older).reverse ++ members)) outer) := by
  match members with
  | [] =>
    rw [List.append_nil]
    rfl
  | (k', v') :: members =>
    have comma : Reader.step (.after v (.object older k :: outer)) .comma =
        some (.key false ((k, v) :: older) outer) := rfl
    have more := foldlM_moreMembers outer ((k, v) :: older) k' v' members
    rw [moreMembers, List.cons_append, List.cons_append, List.cons_append, run_cons comma,
      ← List.cons_append, ← List.cons_append,
      foldlM_member false (foldlM_tokens (.object ((k, v) :: older) k' :: outer) v'), more,
      List.reverse_cons, List.append_assoc]
    rfl

end

end Reader

/-- The reader gives the value whose tokens it takes. -/
theorem ofTokens_tokens (v : Json) : ofTokens v.tokens = some v := by
  rw [ofTokens, Reader.foldlM_tokens]
  rfl

/-! ## No two numbers in a row -/

theorem spaced_cons {t : Token} {ts : List Token} (other : ¬ t.isNumber) (spaced : Spaced ts) :
    Spaced (t :: ts) :=
  List.isChain_cons.mpr ⟨fun _ _ ⟨counts, _⟩ => other counts, spaced⟩

/-- What comes after a value inside a container: the next one behind a comma, or the end. -/
theorem spaced_append {ts us : List Token} {u : Token} (before : Spaced ts) (other : ¬ u.isNumber)
    (behind : Spaced (u :: us)) : Spaced (ts ++ u :: us) := by
  refine List.IsChain.append before behind ?_
  rintro t _ _ ⟨⟩ ⟨_, counts⟩
  exact other counts

mutual

theorem spaced_tokens (v : Json) : Spaced v.tokens := by
  cases v with
  | null | bool | number | string => exact .singleton _
  | array items => exact spaced_cons Bool.false_ne_true (spaced_itemTokens items)
  | object members => exact spaced_cons Bool.false_ne_true (spaced_memberTokens members)

theorem spaced_itemTokens (items : List Json) : Spaced (itemTokens items) := by
  match items with
  | [] => exact .singleton _
  | [v] => exact spaced_append (spaced_tokens v) Bool.false_ne_true (.singleton _)
  | v :: w :: items =>
    have behind := spaced_itemTokens (w :: items)
    exact spaced_append (spaced_tokens v) Bool.false_ne_true
      (spaced_cons Bool.false_ne_true behind)

theorem spaced_memberTokens (members : List (Option String × Json)) :
    Spaced (memberTokens members) := by
  match members with
  | [] => exact .singleton _
  | [(k, v)] =>
    exact spaced_cons Bool.false_ne_true (spaced_cons Bool.false_ne_true
      (spaced_append (spaced_tokens v) Bool.false_ne_true (.singleton _)))
  | (k, v) :: m :: members =>
    have behind := spaced_memberTokens (m :: members)
    exact spaced_cons Bool.false_ne_true (spaced_cons Bool.false_ne_true
      (spaced_append (spaced_tokens v) Bool.false_ne_true
        (spaced_cons Bool.false_ne_true behind)))

end

/-! ## Documents -/

/-- **A document is read as the value it is written for**, whichever of its spellings it is. -/
theorem read_of_written {v : Json} {text : String} (written : Written v text) :
    read text = some v := by
  rw [read, lex_laid written (spaced_tokens v)]
  exact ofTokens_tokens v

/-- What is written is read back. -/
theorem read_write (v : Json) : read v.write = some v := read_of_written (written_write v)

end Postmortem.Json
