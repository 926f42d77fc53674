import LazyQuery.Datum.Text
import LazyQuery.Proofs.Text.Lines

/-! The line feeds in the texts of types and values. Numbers, points in time and whatever is quoted
have none; the names in a type, and a schema or a batch that is a value, bring their own. -/
namespace LazyQuery

namespace Text

section digits
variable (n k : Nat)

theorem not_mem_toDigits : '\n' ∉ Nat.toDigits 10 n :=
  fun h => absurd (Nat.isDigit_of_mem_toDigits (by decide) (by decide) h) (by decide)

@[simp] theorem count_toDigits : (Nat.toDigits 10 n).count '\n' = 0 :=
  List.count_eq_zero.mpr (not_mem_toDigits n)

@[simp] theorem count_take_toDigits : ((Nat.toDigits 10 n).take k).count '\n' = 0 :=
  List.count_eq_zero.mpr (mt List.mem_of_mem_take (not_mem_toDigits n))

@[simp] theorem count_drop_toDigits : ((Nat.toDigits 10 n).drop k).count '\n' = 0 :=
  List.count_eq_zero.mpr (mt List.mem_of_mem_drop (not_mem_toDigits n))

@[simp] theorem count_zeros : (List.replicate n '0').count '\n' = 0 :=
    by simp [List.count_replicate]

@[simp] theorem feeds_repr : feeds n.repr = 0 := by
  rw [feeds, Nat.toList_repr, count_toDigits]

@[simp] theorem feeds_intRepr (i : Int) : feeds i.repr = 0 := by
  cases i with
  | ofNat n => exact feeds_repr n
  | negSucc n =>
    rw [show (Int.negSucc n).repr = "-" ++ (n + 1).repr from rfl, feeds_append, feeds_repr]
    rfl

end digits

section quoting
variable {quote : Char}

theorem not_mem_hex (width n : Nat) : '\n' ∉ hex width n := by
  induction width generalizing n with
  | zero => exact List.not_mem_nil
  | succ w ih =>
    rw [hex, List.mem_append, List.mem_singleton, not_or]
    exact ⟨ih _, (Nat.digitChar_ne '\n' rfl).symm⟩

/-- What has a short escape is not written as it is, so that a line feed is not. -/
theorem not_mem_escapeShort? (hq : quote ≠ '\n') (c : Char) :
    (escapeShort? quote c = none ∧ c ≠ '\n') ∨ ∃ cs, escapeShort? quote c = some cs ∧
    '\n' ∉ cs := by
  unfold escapeShort?
  by_cases hc : c = '\n'
  · exact .inr ⟨['\\', 'n'], by simp [hc, hq.symm], by decide⟩
  · by_cases hself : (c = quote || c = '\\') = true
    · exact .inr ⟨['\\', c], if_pos hself, by simp [Ne.symm hc]⟩
    · rw [if_neg hself, if_neg hc]
      split
      · exact .inr ⟨_, rfl, by decide⟩
      · split
        · exact .inr ⟨_, rfl, by decide⟩
        · exact .inl ⟨rfl, hc⟩

theorem not_mem_escapeChar (hq : quote ≠ '\n') (c : Char) : '\n' ∉ escapeChar quote c := by
  unfold escapeChar
  obtain ⟨hn, hc⟩ | ⟨cs, hs, hcs⟩ := not_mem_escapeShort? hq c
  · rw [hn, Option.getD_none]
    split
    · simpa using Ne.symm hc
    · split
      · simp [not_mem_hex]
      · split <;> simp [not_mem_hex]
  · rwa [hs]

theorem not_mem_escapeByte (hq : quote ≠ '\n') (b : UInt8) : '\n' ∉ escapeByte quote b := by
  unfold escapeByte
  obtain ⟨hn, hc⟩ | ⟨cs, hs, hcs⟩ := not_mem_escapeShort? hq (Char.ofNat b.toNat)
  · rw [hn, Option.getD_none]
    split
    · simpa using Ne.symm hc
    · simp [not_mem_hex]
  · rwa [hs]

theorem quoteFor_ne (hasSingle hasDouble : Bool) : quoteFor hasSingle hasDouble ≠ '\n' := by
  unfold quoteFor
  split <;> decide

theorem not_mem_enclosed {α : Type} (hq : quote ≠ '\n') {escape : α → List Char}
    (h : ∀ x, '\n' ∉ escape x) (xs : List α) : '\n' ∉ quote :: xs.flatMap escape ++
      [quote] := by
  simp [hq.symm, h]

@[simp] theorem feeds_quoted (s : String) : feeds (quoted s) = 0 := by
  have hq : quoteFor (s.toList.contains '\'') (s.toList.contains '"') ≠ '\n' := quoteFor_ne _ _
  rw [quoted, feeds_ofList, List.count_eq_zero]
  exact not_mem_enclosed hq (not_mem_escapeChar hq) _

@[simp] theorem feeds_quotedBytes (bs : List UInt8) : feeds (quotedBytes bs) = 0 := by
  have hq : quoteFor (bs.contains 0x27) (bs.contains 0x22) ≠ '\n' := quoteFor_ne _ _
  rw [quotedBytes, feeds_ofList, List.count_eq_zero]
  exact List.not_mem_cons_of_ne_of_not_mem (by decide)
    (not_mem_enclosed hq (not_mem_escapeByte hq) _)

end quoting

section numbers
open Number

@[simp] theorem feeds_zeroes (n : Nat) : feeds (zeroes n) = 0 := by simp [zeroes]

theorem feeds_take {s : String} (h : feeds s = 0)
    (n : Nat) : feeds (String.ofList (s.toList.take n)) = 0 := by
  rw [feeds_ofList, List.count_eq_zero]
  exact mt List.mem_of_mem_take (feeds_eq_zero.mp h)

theorem feeds_exponent {l : Layout} (hp : feeds l.plus = 0) (e : Int) :
    feeds (l.exponent e) = 0 := by
  unfold Layout.exponent
  split <;> simp [hp]

theorem feeds_finite {l : Layout} (hp : feeds l.plus = 0) (he : feeds l.ending = 0) (d : Digits) :
    feeds (l.finite d) = 0 := by
  unfold Layout.finite
  dsimp only
  split
  · split
    · simp
    · split <;> simp [he]
  · split <;> simp [feeds_exponent hp, -List.drop_one]

theorem feeds_textOn {l : Layout} (hp : feeds l.plus = 0) (he : feeds l.ending = 0)
    (hi : feeds l.infinite = 0) (hu : feeds l.undefined = 0) (g : Grid) (x : Float) :
    feeds (l.textOn g x) = 0 := by
  unfold Layout.textOn
  split
  · split
    · exact hu
    · split <;> simp [hi]
  · rw [feeds_append]
    split <;> split <;> simp [he, feeds_finite hp he]

@[simp] theorem feeds_number (x : Float) : feeds (Number.text x) = 0 :=
  feeds_textOn rfl rfl rfl rfl .double x

end numbers

section values
open Datum Calendar

@[simp] theorem feeds_decimal (d : Decimal) : feeds d.text = 0 := by
  simp [Decimal.text, apply_ite feeds, apply_ite (List.count '\n')]

@[simp] theorem feeds_call (name : String) (arguments : List String) :
    feeds (call name arguments) = feeds name + feedsIn arguments := by
  simp [call]

theorem feeds_componentText (x : Float) : feeds (componentText x) = 0 := by
  unfold componentText
  dsimp only
  split
  · exact feeds_take (feeds_number x) _
  · exact feeds_number x

@[simp] theorem feeds_complexText (re im : Float) : feeds (complexText re im) = 0 := by
  simp [complexText, apply_ite feeds, feeds_componentText]

@[simp] theorem feedsIn_clockArguments (c : Clock) : feedsIn (clockArguments c) = 0 := by
  simp [clockArguments, apply_ite feedsIn]

@[simp] theorem feeds_spanText (t : Int) : feeds (spanText t) = 0 := by
  simp [spanText, apply_ite feedsIn]

theorem feeds_zoneText (offset : Int) : feeds (zoneText offset) = 0 := by
  simp [zoneText, apply_ite feeds]

@[simp] theorem feeds_momentText (m : Moment) : feeds (momentText m) = 0 := by
  unfold momentText
  cases m.offset <;> simp [feeds_zoneText]

@[simp] theorem feeds_dayText (days : Int) : feeds (dayText days) = 0 := by
  simp [dayText]

end values

end Text

open Text

mutual
/-- What the text of a type has in it as it is: names of members and of time zones. -/
def DataType.verbatim : DataType → List String
  | .leaf (.timestamp _ (some zone)) => [zone]
  | .leaf _ => []
  | .list f | .largeList f | .fixedList f _ => f.verbatim
  | .struct fs => membersVerbatim fs
  | .dictionary i v => v.verbatim ++ i.verbatim
  | .map k v => k.verbatim ++ v.verbatim

def Field.verbatim : Field → List String
  | ⟨name, type, _⟩ => name :: type.verbatim

def membersVerbatim : List Field → List String
  | [] => []
  | f :: fs => f.verbatim ++ membersVerbatim fs
end

theorem Leaf.feeds_text (k : Leaf) : feeds k.text = feedsIn (DataType.leaf k).verbatim := by
  cases k with
  | timestamp u zone =>
    cases zone <;> cases u <;> simp [Leaf.text, bracketed, TimeUnit.text, DataType.verbatim]
  | integer i => cases i <;> rfl
  | duration u | time32 u | time64 u => cases u <;> rfl
  | decimal128 p s | decimal256 p s => simp [Leaf.text, precisionText, DataType.verbatim]
  | fixedBinary n => simp [Leaf.text, bracketed, DataType.verbatim]
  | _ => rfl

-- The equations of the text of a type, by reduction: those of the mutual definition take too long
-- to make.
section equations
variable (f : Field) (fs : List Field) (t u : DataType) (n : Nat)

theorem DataType.text_list : (DataType.list f).text = "list<" ++ f.text ++ ">" := rfl

theorem DataType.text_largeList : (DataType.largeList f).text = "large_list<" ++ f.text ++ ">" :=
    rfl

theorem DataType.text_fixedList :
    (DataType.fixedList f n).text = bracketed ("fixed_size_list<" ++ f.text ++ ">") (toString n) :=
      rfl

theorem DataType.text_struct :
    (DataType.struct fs).text = "struct<" ++ ", ".intercalate (fs.map Field.text) ++ ">" := by
  rw [← fieldTexts_eq_map]
  rfl

theorem DataType.text_dictionary : (DataType.dictionary t u).text =
    "dictionary<values=" ++ u.text ++ ", indices=" ++ t.text ++ ", ordered=0>" := rfl

theorem DataType.text_map : (DataType.map t u).text = "map<" ++ t.text ++ ", " ++ u.text ++ ">" :=
    rfl

end equations

mutual
theorem DataType.feeds_text (t : DataType) : feeds t.text = feedsIn t.verbatim := by
  match t with
  | .leaf k => exact k.feeds_text
  | .list f => simp [DataType.text_list, DataType.verbatim, f.feeds_text]
  | .largeList f => simp [DataType.text_largeList, DataType.verbatim, f.feeds_text]
  | .fixedList f n => simp [DataType.text_fixedList, DataType.verbatim, bracketed, f.feeds_text]
  | .struct fs => simp [DataType.text_struct, DataType.verbatim, feedsIn_fieldTexts fs]
  | .dictionary i v =>
    simp [DataType.text_dictionary, DataType.verbatim, i.feeds_text, v.feeds_text]
  | .map k v => simp [DataType.text_map, DataType.verbatim, k.feeds_text, v.feeds_text]

theorem Field.feeds_text (f : Field) : feeds f.text = feedsIn f.verbatim := by
  match f with
  | ⟨name, type, nullable⟩ =>
    have htext : (Field.mk name type nullable).text =
      name ++ ": " ++ type.text ++ if nullable then "" else " not null" := rfl
    cases nullable <;> simp [htext, Field.verbatim, type.feeds_text]

theorem feedsIn_fieldTexts (fs : List Field) :
    feedsIn (fs.map Field.text) = feedsIn (membersVerbatim fs) := by
  match fs with
  | [] => rfl
  | f :: fs => simp [membersVerbatim, f.feeds_text, feedsIn_fieldTexts fs]
end

theorem DataType.feeds_fullText (t : DataType) : feeds t.fullText = feedsIn t.verbatim := by
  have hfamily : feeds t.family = 0 := by
    cases t with
    | leaf k => cases k <;> simp [DataType.family]
    | _ => simp [DataType.family]
  simp [DataType.fullText, hfamily, t.feeds_text]

namespace Datum

mutual
/-- What the exact form of a value has in it as it is: what types have, and all of a
schema or a batch. -/
def verbatim : Datum → List String
  | .list items => itemsVerbatim items
  | .record entries => entriesVerbatim entries
  | .type t => t.verbatim
  | .schema s => [s.text]
  | .batch b => ["pyarrow.RecordBatch\n" ++ b.schema.text]
  | _ => []

def itemsVerbatim : List Datum → List String
  | [] => []
  | d :: ds => d.verbatim ++ itemsVerbatim ds

def entriesVerbatim : List (Datum × Datum) → List String
  | [] => []
  | (k, v) :: es => k.verbatim ++ v.verbatim ++ entriesVerbatim es
end

theorem shown_list (inKey : Bool) (items : List Datum) :
    shown inKey (.list items) =
      if !inKey then "[" ++ ", ".intercalate (shownItems inKey items) ++ "]"
      else if items.length = 1 then "(" ++ ", ".intercalate (shownItems inKey items) ++ ",)"
      else "(" ++ ", ".intercalate (shownItems inKey items) ++ ")" := rfl

theorem shown_record (inKey : Bool) (entries : List (Datum × Datum)) :
    shown inKey (.record entries) = "\x7b" ++ ", ".intercalate (shownEntries entries) ++ "\x7d" :=
      rfl

mutual
theorem feeds_shown (inKey : Bool) (d : Datum) : feeds (d.shown inKey) = feedsIn d.verbatim := by
  match d with
  | .list items => simp [shown_list, verbatim, apply_ite feeds, feedsIn_shownItems inKey items]
  | .record entries => simp [shown_record, verbatim, feedsIn_shownEntries entries]
  | .type t => exact t.feeds_fullText
  | .schema s => exact (Nat.add_zero _).symm
  | .batch b => exact (Nat.add_zero _).symm
  | .null => exact feeds_of_not_mem (s := "None") (by decide)
  | .bool true => exact feeds_of_not_mem (s := "True") (by decide)
  | .bool false => exact feeds_of_not_mem (s := "False") (by decide)
  | .int i => exact feeds_intRepr i
  | .float x => exact feeds_number x
  | .complex re im => exact feeds_complexText re im
  | .decimal d =>
    have h : feeds (call "Decimal" ["'" ++ d.text ++ "'"]) = 0 := by simp
    exact h
  | .text s => exact feeds_quoted s
  | .bytes bs => exact feeds_quotedBytes bs
  | .date days => exact feeds_dayText days
  | .moment m => exact feeds_momentText m
  | .time t =>
    have h : feeds (call "datetime.time" (clockArguments (.ofMicros t))) = 0 := by simp
    exact h
  | .span t => exact feeds_spanText t

theorem feedsIn_shownItems (inKey : Bool) (ds : List Datum) :
    feedsIn (shownItems inKey ds) = feedsIn (itemsVerbatim ds) := by
  match ds with
  | [] => rfl
  | d :: ds =>
    have h : shownItems inKey (d :: ds) = shown inKey d :: shownItems inKey ds := rfl
    rw [h, itemsVerbatim, feedsIn_cons, feedsIn_append, feeds_shown inKey d,
      feedsIn_shownItems inKey ds]

theorem feedsIn_shownEntries (es : List (Datum × Datum)) :
    feedsIn (shownEntries es) = feedsIn (entriesVerbatim es) := by
  match es with
  | [] => rfl
  | (k, v) :: es =>
    have h : shownEntries ((k, v) :: es) = (shown true k ++ ": " ++ shown false v) :: shownEntries
        es := rfl
    simp [h, entriesVerbatim, feeds_shown true k, feeds_shown false v, feedsIn_shownEntries es,
      Nat.add_assoc]
end

end Datum
end LazyQuery
