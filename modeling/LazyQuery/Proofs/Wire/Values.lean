import LazyQuery.Wire.Reading
import LazyQuery.Proofs.Outcome

/-! Values in messages: which of them a message carries unchanged, and what
becomes of the others. -/
namespace LazyQuery
open Wire

/-- 64 bits hold the number, with a sign or without one. -/
def Wire.Held (i : Int) : Prop := -2 ^ 63 ≤ i ∧ i < 2 ^ 64

instance (i : Int) : Decidable (Wire.Held i) := inferInstanceAs (Decidable (_ ∧ _))

def Datum.delivered? (d : Datum) : Option Datum :=
  (itemOf d).toOption.bind fun i => (datumOf "" i).toOption

mutual
/-- Values of the kinds that messages have a form for. Whole numbers have at most 64 bits, and the
entries of a record have names of their own. -/
def Datum.Portable : Datum → Prop
  | .null | .bool _ | .float _ | .text _ | .bytes _ => True
  | .int i => Wire.Held i
  | .list ds => Datum.AllPortable ds
  | .record es => Datum.EntriesPortable es
  | _ => False

def Datum.AllPortable : List Datum → Prop
  | [] => True
  | d :: ds => d.Portable ∧ Datum.AllPortable ds

def Datum.EntriesPortable : List (Datum × Datum) → Prop
  | [] => True
  | (k, d) :: es => (∃ s, k = .text s) ∧ (∀ e ∈ es, e.1 ≠ k) ∧ d.Portable ∧
      Datum.EntriesPortable es
end

namespace Wire

section text

theorem toList_loop (bs : ByteArray) (i : Nat) (r : List UInt8) :
    ByteArray.toList.loop bs i r = r.reverse ++ bs.data.toList.drop i := by
  by_cases h : i < bs.size
  · have hd : bs.data.toList.drop i = bs.get! i :: bs.data.toList.drop (i + 1) := by
      rw [List.drop_eq_getElem_cons h]
      congr 1
      exact (getElem!_pos bs.data i h).symm
    rw [ByteArray.toList.loop, if_pos h, toList_loop bs (i + 1), hd]
    simp
  · rw [ByteArray.toList.loop, if_neg h, List.drop_of_length_le (Nat.not_lt.mp h), List.append_nil]
termination_by bs.size - i

theorem toList_eq (bs : ByteArray) : bs.toList = bs.data.toList := by
  rw [ByteArray.toList, toList_loop]
  rfl

theorem readUtf8_toUTF8 (s : String) : readUtf8 s.toUTF8.toList = .ok s := by
  have hb : (⟨s.toUTF8.toList.toArray⟩ : ByteArray) = s.toByteArray := by
    rw [toList_eq, Array.toArray_toList, String.toUTF8_eq_toByteArray]
  rw [readUtf8, hb, String.fromUTF8?, dif_pos s.isValidUTF8]
  rfl

theorem toUTF8_inj {s t : String} (h : s.toUTF8.toList = t.toUTF8.toList) : s = t := by
  have ht := readUtf8_toUTF8 t
  rw [← h, readUtf8_toUTF8 s] at ht
  exact Except.ok.inj ht

theorem intItem_ok {i : Int} (h : Held i) : intItem i = .ok (.int i) := by
  rw [intItem, if_pos (Bool.and_eq_true_iff.mpr ⟨decide_eq_true h.1, decide_eq_true h.2⟩)]

theorem named_iff {s t : String} : named s t.toUTF8.toList = true ↔ s = t := by
  rw [named, decide_eq_true_iff]
  constructor
  · exact toUTF8_inj
  · rintro rfl
    rfl

end text

section place

theorem toOption_within (p q : String) (seconds : Int) (nanos : Nat) :
    (readMoment.within p seconds nanos).toOption =
      (readMoment.within q seconds nanos).toOption := by
  unfold readMoment.within
  split
  · rfl
  split
  · rfl
  · rfl

theorem toOption_readMoment (p q : String) (bs : List UInt8) :
    (readMoment p bs).toOption = (readMoment q bs).toOption := by
  unfold readMoment
  dsimp only
  split
  · exact toOption_within p q _ _
  · exact toOption_within p q _ _
  · exact toOption_within p q _ _
  · rfl

theorem toOption_readExtension (p q : String) (code : Int) (bs : List UInt8) :
    (readExtension p code bs).toOption = (readExtension q code bs).toOption := by
  unfold readExtension
  split
  · exact toOption_readMoment p q bs
  split
  all_goals rfl

mutual
theorem toOption_datumOf (p q : String) (i : Item) :
    (datumOf p i).toOption = (datumOf q i).toOption := by
  cases i with
  | text bs => rfl
  | list is =>
    rw [datumOf, datumOf, Outcome.toOption_bind, Outcome.toOption_bind, toOption_dataOf p q 0 0 is]
  | map es =>
    rw [datumOf, datumOf, Outcome.toOption_bind, Outcome.toOption_bind, toOption_recordOf p q [] es]
  | extension code bs => exact toOption_readExtension p q code bs
  | _ => rfl

theorem toOption_dataOf (p q : String) (m n : Nat) (is : List Item) :
    (dataOf p m is).toOption = (dataOf q n is).toOption := by
  cases is with
  | nil => rfl
  | cons i is =>
    simp only [dataOf, Outcome.toOption_bind]
    rw [toOption_datumOf _ (q ++ "[" ++ toString n ++ "]") i,
      toOption_dataOf p q (m + 1) (n + 1) is]

theorem toOption_recordOf (p q : String) (found : List (Datum × Datum))
    (es : List (Item × Item)) :
    (recordOf p found es).toOption = (recordOf q found es).toOption := by
  match es with
  | [] => rfl
  | (k, v) :: es =>
    simp only [recordOf, Outcome.toOption_bind]
    rw [toOption_datumOf _ (q ++ "[...]") k, toOption_datumOf _ (q ++ "[...]") v]
    congr 1
    funext key
    congr 1
    funext value
    split
    · exact toOption_recordOf p q _ es
    · rfl
end

end place

section portable

theorem putEntry_append {key value : Datum} {found : List (Datum × Datum)}
    (h : ∀ e ∈ found, e.1.equal key = false) :
    putEntry key value found = found ++ [(key, value)] := by
  induction found with
  | nil => rfl
  | cons e found ih =>
    have he := h e (List.mem_cons_self ..)
    have hr := ih fun e he => h e (List.mem_cons_of_mem _ he)
    rw [putEntry, he, hr]
    rfl

mutual
theorem datumOf_portable {d : Datum} (h : d.Portable) :
    ∃ i, itemOf d = .ok i ∧ ∀ path, datumOf path i = .ok d := by
  cases d with
  | null => exact ⟨_, rfl, fun _ => rfl⟩
  | bool b => exact ⟨_, rfl, fun _ => rfl⟩
  | float x => exact ⟨_, rfl, fun _ => rfl⟩
  | bytes bs => exact ⟨_, rfl, fun _ => rfl⟩
  | int i =>
    refine ⟨.int i, ?_, fun _ => rfl⟩
    rw [itemOf, intItem_ok h]
  | text s =>
    refine ⟨textItem s, rfl, fun path => ?_⟩
    rw [textItem, datumOf, readUtf8_toUTF8]
    rfl
  | list ds =>
    obtain ⟨is, his, hr⟩ := dataOf_portable h
    refine ⟨.list is, ?_, fun path => ?_⟩
    · rw [itemOf, his]
      rfl
    · rw [datumOf, hr]
      rfl
  | record es =>
    obtain ⟨is, his, hr⟩ := recordOf_portable h
    refine ⟨.map is, ?_, fun path => ?_⟩
    · rw [itemOf, his]
      rfl
    · rw [datumOf, hr path [] (by simp)]
      rfl
  | complex | decimal | date | moment | time | span | type | schema | batch => exact h.elim

theorem dataOf_portable {ds : List Datum} (h : Datum.AllPortable ds) :
    ∃ is, itemsOf ds = .ok is ∧ ∀ path n, dataOf path n is = .ok ds := by
  cases ds with
  | nil => exact ⟨[], rfl, fun _ _ => rfl⟩
  | cons d ds =>
    obtain ⟨i, hi, hd⟩ := datumOf_portable h.1
    obtain ⟨is, his, hds⟩ := dataOf_portable h.2
    refine ⟨i :: is, ?_, fun path n => ?_⟩
    · rw [itemsOf, hi, his]
      rfl
    · rw [dataOf, hd, hds]
      rfl

theorem recordOf_portable {es : List (Datum × Datum)} (h : Datum.EntriesPortable es) :
    ∃ is, entriesOf es = .ok is ∧ ∀ path found,
      (∀ e ∈ found, (∃ s, e.1 = .text s) ∧ ∀ f ∈ es, f.1 ≠ e.1) →
        recordOf path found is = .ok (found ++ es) := by
  match es with
  | [] =>
    refine ⟨[], rfl, fun path found _ => ?_⟩
    rw [recordOf, List.append_nil]
  | (k, d) :: es =>
    obtain ⟨⟨s, rfl⟩, hnew, hd, hes⟩ := h
    obtain ⟨i, hi, hdi⟩ := datumOf_portable hd
    obtain ⟨is, his, hr⟩ := recordOf_portable hes
    refine ⟨(textItem s, i) :: is, ?_, fun path found hf => ?_⟩
    · rw [entriesOf, itemOf, hi, his]
      rfl
    have hk : datumOf (path ++ "[...]") (textItem s) = .ok (.text s) := by
      rw [textItem, datumOf, readUtf8_toUTF8]
      rfl
    have hp : putEntry (.text s) d found = found ++ [(.text s, d)] := by
      apply putEntry_append
      intro e he
      obtain ⟨⟨t, ht⟩, hne⟩ := hf e he
      have hst := hne _ (List.mem_cons_self ..)
      rw [ht] at hst ⊢
      have hts : t ≠ s := fun h => hst (by rw [h])
      simp [Datum.equal, hts]
    have hnext := hr path (found ++ [(.text s, d)]) fun e he => by
      rcases List.mem_append.mp he with he | he
      · exact ⟨(hf e he).1, fun f hf' => (hf e he).2 f (List.mem_cons_of_mem _ hf')⟩
      · obtain rfl := List.mem_singleton.mp he
        exact ⟨⟨s, rfl⟩, hnew⟩
    have hkey : (Datum.text s).isKey = true := rfl
    rw [recordOf, hk, Outcome.ok_bind, hdi, Outcome.ok_bind, if_pos hkey, hp, hnext,
      List.append_assoc]
    rfl
end

theorem delivered?_portable {d : Datum} (h : d.Portable) : d.delivered? = some d := by
  obtain ⟨i, hi, hd⟩ := datumOf_portable h
  rw [Datum.delivered?, hi, Outcome.toOption_ok, Option.bind_some, hd, Outcome.toOption_ok]

end portable

end Wire
end LazyQuery
