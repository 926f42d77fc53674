import LazyQuery.Proofs.Wire.Bounds

/-! Values that were read from a message. Whatever form they were read from, there is room for them
in a message, and one carries them unchanged: of a repeated key the first spelling and the last
value are left, and a point in time has lost what is less than a microsecond. -/
namespace LazyQuery
open Wire

def Datum.Carried (d : Datum) : Prop :=
  ∃ i, itemOf d = .ok i ∧ i.fits = true ∧ ∀ path, datumOf path i = .ok d

namespace Wire

section text
variable {bs : List UInt8} {s : String}

theorem toUTF8_of_readUtf8 (h : readUtf8 bs = .ok s) : s.toUTF8.toList = bs := by
  rw [readUtf8, String.fromUTF8?] at h
  split at h
  · rename_i t ht
    cases h
    split at ht
    · cases ht
      rw [toList_eq, String.toUTF8_eq_toByteArray]
      rfl
    · cases ht
  · cases h

theorem textItem_of_readUtf8 (h : readUtf8 bs = .ok s) : textItem s = .text bs := by
  rw [textItem, toUTF8_of_readUtf8 h]

end text

section moment

theorem ofBigEndian_append (as bs : List UInt8) :
    ofBigEndian (as ++ bs) = ofBigEndian as * 256 ^ bs.length + ofBigEndian bs := by
  rw [ofBigEndian, List.foldl_append, foldl_digits]
  rfl

section
variable (path : String) {bs : List UInt8}

theorem readMoment_four (h : bs.length = 4) :
    readMoment path bs = readMoment.within path (ofBigEndian bs) 0 := by
  simp only [readMoment, h]

theorem readMoment_eight (h : bs.length = 8) : readMoment path bs =
    readMoment.within path (ofBigEndian bs % 2 ^ 34 : Nat) (ofBigEndian bs / 2 ^ 34) := by
  simp only [readMoment, h]
  rfl

theorem readMoment_twelve (h : bs.length = 12) : readMoment path bs =
    readMoment.within path (signed 8 (ofBigEndian bs % 2 ^ 64)) (ofBigEndian bs / 2 ^ 64) := by
  simp only [readMoment, h]

theorem within_micros {w : Int} (low : -62135596800 * 1000000 ≤ w)
    (high : w < 253402300800 * 1000000) :
    readMoment.within path (w / 1000000) ((w % 1000000).toNat * 1000) =
      .ok (.moment ⟨w, some 0⟩) := by
  rw [readMoment.within, if_neg (by omega), if_neg (by simp; omega)]
  congr 3
  omega

end

theorem readMoment_forms (path : String) (seconds : Int) (nanos : Nat) (low : -2 ^ 63 ≤ seconds)
    (high : seconds < 2 ^ 63) (hn : nanos < 2 ^ 30) :
    (nanos = 0 → 0 ≤ seconds → seconds < 2 ^ 32 →
      readMoment path (bigEndian 4 seconds.toNat) = readMoment.within path seconds nanos) ∧
    (0 ≤ seconds → seconds < 2 ^ 34 →
      readMoment path (bigEndian 8 (nanos * 2 ^ 34 + seconds.toNat)) =
        readMoment.within path seconds nanos) ∧
    readMoment path (bigEndian 4 nanos ++ bigEndian 8 (seconds % 2 ^ 64).toNat) =
      readMoment.within path seconds nanos := by
  refine ⟨?_, ?_, ?_⟩
  · rintro rfl h0 h32
    rw [readMoment_four path (bigEndian_length ..), ofBigEndian_bigEndian]
    congr 1
    omega
  · intro h0 h34
    rw [readMoment_eight path (bigEndian_length ..), ofBigEndian_bigEndian]
    congr 1
    · omega
    · omega
  · have hlen : (bigEndian 4 nanos ++ bigEndian 8 (seconds % 2 ^ 64).toNat).length = 12 := by
      simp [bigEndian_length]
    have hsigned := signed_mod 8 seconds (Nat.le_refl 8) (by omega) (by omega)
    rw [readMoment_twelve path hlen, ofBigEndian_append, bigEndian_length, ofBigEndian_bigEndian,
      ofBigEndian_bigEndian]
    have hlow : ((nanos % 256 ^ 4) * 256 ^ 8 + (seconds % 2 ^ 64).toNat % 256 ^ 8) % 2 ^ 64 =
        (seconds % 2 ^ 64).toNat % 256 ^ 8 := by omega
    have hhigh : ((nanos % 256 ^ 4) * 256 ^ 8 + (seconds % 2 ^ 64).toNat % 256 ^ 8) / 2 ^ 64 =
        nanos := by omega
    rw [hlow, hhigh, hsigned]

/-- A point in time that is counted in microseconds is read from the shortest form that holds it. -/
theorem readMoment_momentPayload {w : Int} (path : String) (low : -62135596800 * 1000000 ≤ w)
    (high : w < 253402300800 * 1000000) :
    readMoment path (momentPayload w) = .ok (.moment ⟨w, some 0⟩) := by
  obtain ⟨hfour, height, htwelve⟩ := readMoment_forms path (w / 1000000)
    ((w % 1000000).toNat * 1000) (by omega) (by omega) (by omega)
  rw [← within_micros path low high]
  unfold momentPayload
  dsimp only
  split
  · rename_i h
    simp only [Bool.and_eq_true, decide_eq_true_eq] at h
    exact hfour h.1.1 h.1.2 h.2
  split
  · rename_i h
    simp only [Bool.and_eq_true, decide_eq_true_eq] at h
    exact height h.1 h.2
  · exact htwelve

theorem length_momentPayload_le (w : Int) : (momentPayload w).length ≤ 12 := by
  unfold momentPayload
  dsimp only
  split
  · simp [bigEndian_length]
  split <;> simp [bigEndian_length]

theorem moment_of_within {path : String} {seconds : Int} {nanos : Nat} {d : Datum}
    (h : readMoment.within path seconds nanos = .ok d) :
    ∃ w : Int, -62135596800 * 1000000 ≤ w ∧ w < 253402300800 * 1000000 ∧
    d = .moment ⟨w, some 0⟩ := by
  rw [readMoment.within] at h
  split at h
  · cases h
  split at h
  · cases h
  · rename_i hn hs
    cases h
    simp only [Bool.or_eq_true, decide_eq_true_eq, not_or, Int.not_lt] at hs
    exact ⟨_, by omega, by omega, rfl⟩

theorem moment_of_readMoment {path : String} {bs : List UInt8} {d : Datum}
    (h : readMoment path bs = .ok d) :
    ∃ w : Int, -62135596800 * 1000000 ≤ w ∧ w < 253402300800 * 1000000 ∧
    d = .moment ⟨w, some 0⟩ := by
  unfold readMoment at h
  dsimp only at h
  split at h
  · exact moment_of_within h
  · exact moment_of_within h
  · exact moment_of_within h
  · cases h

theorem carried_of_readExtension {path : String} {code : Int} {bs : List UInt8} {d : Datum}
    (h : readExtension path code bs = .ok d) : d.Carried := by
  rw [readExtension] at h
  split at h
  · obtain ⟨w, low, high, rfl⟩ := moment_of_readMoment h
    have hw : (⟨w, some 0⟩ : Calendar.Moment).universal = w := Int.sub_zero w
    refine ⟨.extension momentCode (momentPayload w), ?_, ?_, fun path => ?_⟩
    · rw [itemOf, momentItem, hw]
    · have hl : (momentPayload w).length < sizeLimit :=
        Nat.lt_of_le_of_lt (length_momentPayload_le w) (by decide)
      exact Bool.and_eq_true_iff.mpr ⟨rfl, decide_eq_true hl⟩
    · rw [datumOf, readExtension, if_pos rfl]
      exact readMoment_momentPayload path low high
  split at h <;> cases h

end moment

section values

theorem carried_text {bs : List UInt8} {s : String} (h : readUtf8 bs = .ok s)
    (hf : (Item.text bs).fits = true) : (Datum.text s).Carried := by
  refine ⟨.text bs, ?_, hf, fun path => ?_⟩
  · rw [itemOf, textItem_of_readUtf8 h]
  · rw [datumOf, h]
    rfl

theorem carried_int {i : Int} (hf : (Item.int i).fits = true) : (Datum.int i).Carried := by
  have hi : intItem i = .ok (.int i) := if_pos hf
  exact ⟨.int i, by rw [itemOf, hi], hf, fun _ => rfl⟩

theorem carried_list {ds : List Datum} {n : Nat} (hl : ds.length ≤ n) (hn : n < sizeLimit)
    (h : ∀ d ∈ ds, d.Carried) : (Datum.list ds).Carried := by
  have hitems : ∃ is, itemsOf ds = .ok is ∧ is.length = ds.length ∧ allFit is = true ∧
      ∀ path k, dataOf path k is = .ok ds := by
    clear hl
    induction ds with
    | nil => exact ⟨[], rfl, rfl, rfl, fun _ _ => rfl⟩
    | cons d ds ih =>
      obtain ⟨i, hi, hf, hd⟩ := h d (List.mem_cons_self ..)
      obtain ⟨is, his, hlen, hfs, hds⟩ := ih fun d hd => h d (List.mem_cons_of_mem _ hd)
      refine ⟨i :: is, ?_, ?_, Bool.and_eq_true_iff.mpr ⟨hf, hfs⟩, fun path k => ?_⟩
      · rw [itemsOf, hi, his]
        rfl
      · rw [List.length_cons, List.length_cons, hlen]
      · rw [dataOf, hd, hds]
        rfl
  obtain ⟨is, his, hlen, hfs, hds⟩ := hitems
  refine ⟨.list is, ?_, ?_, fun path => ?_⟩
  · rw [itemOf, his]
    rfl
  · exact Bool.and_eq_true_iff.mpr ⟨decide_eq_true (by omega), hfs⟩
  · rw [datumOf, hds]
    rfl

end values
end Wire

/-- The entries of a record: their keys can be keys and differ from one another, and a message
carries all of them. -/
structure Datum.Entries (es : List (Datum × Datum)) : Prop where
  carried : ∀ e ∈ es, e.1.Carried ∧ e.2.Carried
  keys : ∀ e ∈ es, e.1.isKey = true
  apart : es.Pairwise fun e f => e.1.equal f.1 = false

namespace Wire
section records
variable {key value : Datum} {es found : List (Datum × Datum)}

theorem length_putEntry_le (key value : Datum) (found : List (Datum × Datum)) :
    (putEntry key value found).length ≤ found.length + 1 := by
  induction found with
  | nil => exact Nat.le_refl 1
  | cons e found ih =>
    rw [putEntry]
    split
    · exact Nat.le_succ _
    · exact Nat.succ_le_succ ih

theorem mem_putEntry {e : Datum × Datum} (h : e ∈ putEntry key value found) :
    e ∈ found ∨ e.2 = value ∧ (e.1 = key ∨ ∃ f ∈ found, e.1 = f.1) := by
  induction found with
  | nil =>
    obtain rfl := List.mem_singleton.mp h
    exact .inr ⟨rfl, .inl rfl⟩
  | cons f found ih =>
    rw [putEntry] at h
    split at h
    · rcases List.mem_cons.mp h with rfl | h
      · exact .inr ⟨rfl, .inr ⟨f, List.mem_cons_self .., rfl⟩⟩
      · exact .inl (List.mem_cons_of_mem _ h)
    · rcases List.mem_cons.mp h with rfl | h
      · exact .inl (List.mem_cons_self ..)
      · rcases ih h with h | ⟨hv, h | ⟨f', hf', h⟩⟩
        · exact .inl (List.mem_cons_of_mem _ h)
        · exact .inr ⟨hv, .inl h⟩
        · exact .inr ⟨hv, .inr ⟨f', List.mem_cons_of_mem _ hf', h⟩⟩

theorem pairwise_putEntry (h : found.Pairwise fun e f => e.1.equal f.1 = false) :
    (putEntry key value found).Pairwise fun e f => e.1.equal f.1 = false := by
  induction found with
  | nil => exact List.pairwise_singleton ..
  | cons e found ih =>
    obtain ⟨he, hr⟩ := List.pairwise_cons.mp h
    rw [putEntry]
    split
    · exact List.pairwise_cons.mpr ⟨he, hr⟩
    · rename_i hne
      refine List.pairwise_cons.mpr ⟨fun f hf => ?_, ih hr⟩
      rcases mem_putEntry hf with hf | ⟨-, hk | ⟨f', hf', hk⟩⟩
      · exact he f hf
      · rw [hk, Bool.eq_false_iff]
        exact hne
      · rw [hk]
        exact he f' hf'

theorem entries_putEntry (h : Datum.Entries found) (hk : key.Carried) (hkey : key.isKey = true)
    (hv : value.Carried) : Datum.Entries (putEntry key value found) where
  carried e he := by
    rcases mem_putEntry he with he | ⟨hev, hek | ⟨f, hf, hek⟩⟩
    · exact h.carried e he
    · rw [hev, hek]
      exact ⟨hk, hv⟩
    · rw [hev, hek]
      exact ⟨(h.carried f hf).1, hv⟩
  keys e he := by
    rcases mem_putEntry he with he | ⟨-, hek | ⟨f, hf, hek⟩⟩
    · exact h.keys e he
    · rw [hek]
      exact hkey
    · rw [hek]
      exact h.keys f hf
  apart := pairwise_putEntry h.apart

theorem recordOf_entries (h : Datum.Entries es) :
    ∃ is, entriesOf es = .ok is ∧ is.length = es.length ∧ entriesFit is = true ∧
      ∀ path found, (∀ e ∈ found, ∀ f ∈ es, e.1.equal f.1 = false) →
        recordOf path found is = .ok (found ++ es) := by
  induction es with
  | nil =>
    refine ⟨[], rfl, rfl, rfl, fun path found _ => ?_⟩
    rw [recordOf, List.append_nil]
  | cons e es ih =>
    obtain ⟨hnew, hapart⟩ := List.pairwise_cons.mp h.apart
    obtain ⟨is, his, hlen, hfs, hr⟩ := ih
      { carried := fun e he => h.carried e (List.mem_cons_of_mem _ he)
        keys := fun e he => h.keys e (List.mem_cons_of_mem _ he)
        apart := hapart }
    obtain ⟨⟨k, hk, hkf, hdk⟩, v, hv, hvf, hdv⟩ := h.carried e (List.mem_cons_self ..)
    have hkey := h.keys e (List.mem_cons_self ..)
    refine ⟨(k, v) :: is, ?_, ?_, ?_, fun path found hfound => ?_⟩
    · rw [entriesOf, hk, hv, his]
      rfl
    · rw [List.length_cons, List.length_cons, hlen]
    · exact Bool.and_eq_true_iff.mpr ⟨Bool.and_eq_true_iff.mpr ⟨hkf, hvf⟩, hfs⟩
    · have hput : putEntry e.1 e.2 found = found ++ [e] :=
        putEntry_append fun f hf => hfound f hf e (List.mem_cons_self ..)
      have hnext := hr path (found ++ [e]) fun f hf g hg => by
        rcases List.mem_append.mp hf with hf | hf
        · exact hfound f hf g (List.mem_cons_of_mem _ hg)
        · rw [List.mem_singleton.mp hf]
          exact hnew g hg
      rw [recordOf, hdk, Outcome.ok_bind, hdv, Outcome.ok_bind, if_pos hkey, hput, hnext,
        List.append_assoc]
      rfl

theorem carried_record {n : Nat} (hl : es.length ≤ n) (hn : n < sizeLimit)
    (h : Datum.Entries es) :
    (Datum.record es).Carried := by
  obtain ⟨is, his, hlen, hfs, hr⟩ := recordOf_entries h
  refine ⟨.map is, ?_, ?_, fun path => ?_⟩
  · rw [itemOf, his]
    rfl
  · exact Bool.and_eq_true_iff.mpr ⟨decide_eq_true (by omega), hfs⟩
  · rw [datumOf, hr path [] nofun]
    rfl

end records

mutual
theorem carried_of_datumOf {path : String} {i : Item} {d : Datum} (h : datumOf path i = .ok d)
    (hf : i.fits = true) : d.Carried := by
  cases i with
  | null =>
    cases h
    exact ⟨.null, rfl, rfl, fun _ => rfl⟩
  | bool b =>
    cases h
    exact ⟨.bool b, rfl, rfl, fun _ => rfl⟩
  | int i =>
    cases h
    exact carried_int hf
  | float x =>
    cases h
    exact ⟨.float x, rfl, rfl, fun _ => rfl⟩
  | text bs =>
    obtain ⟨s, hs, h⟩ := Outcome.bind_eq_ok.mp h
    cases h
    exact carried_text hs hf
  | bytes bs =>
    cases h
    exact ⟨.bytes bs, rfl, hf, fun _ => rfl⟩
  | list is =>
    obtain ⟨hn, hfs⟩ := Bool.and_eq_true_iff.mp hf
    obtain ⟨ds, hds, h⟩ := Outcome.bind_eq_ok.mp h
    cases h
    obtain ⟨hl, hc⟩ := carried_of_dataOf hds hfs
    exact carried_list (Nat.le_of_eq hl) (of_decide_eq_true hn) hc
  | map es =>
    obtain ⟨hn, hfs⟩ := Bool.and_eq_true_iff.mp hf
    obtain ⟨fs, hfs', h⟩ := Outcome.bind_eq_ok.mp h
    cases h
    obtain ⟨hl, he⟩ := entries_of_recordOf hfs' hfs ⟨nofun, nofun, .nil⟩
    exact carried_record (by simpa using hl) (of_decide_eq_true hn) he
  | extension code bs => exact carried_of_readExtension h
  | schema s =>
    cases h
    exact ⟨.schema s, rfl, rfl, fun _ => rfl⟩
  | type t =>
    cases h
    exact ⟨.type t, rfl, rfl, fun _ => rfl⟩
  | batch b =>
    cases h
    exact ⟨.batch b, rfl, rfl, fun _ => rfl⟩
  | broken => cases h

theorem carried_of_dataOf {path : String} {k : Nat} {is : List Item} {ds : List Datum}
    (h : dataOf path k is = .ok ds) (hf : allFit is = true) :
    ds.length = is.length ∧ ∀ d ∈ ds, d.Carried := by
  cases is with
  | nil =>
    cases h
    exact ⟨rfl, nofun⟩
  | cons i is =>
    obtain ⟨hi, his⟩ := Bool.and_eq_true_iff.mp hf
    obtain ⟨d, hd, h⟩ := Outcome.bind_eq_ok.mp h
    obtain ⟨ds, hds, h⟩ := Outcome.bind_eq_ok.mp h
    cases h
    obtain ⟨hl, hc⟩ := carried_of_dataOf hds his
    exact ⟨by rw [List.length_cons, List.length_cons, hl],
      List.forall_mem_cons.mpr ⟨carried_of_datumOf hd hi, hc⟩⟩

theorem entries_of_recordOf {path : String} {es : List (Item × Item)}
    {found fs : List (Datum × Datum)} (h : recordOf path found es = .ok fs)
    (hf : entriesFit es = true) (hfound : Datum.Entries found) :
    fs.length ≤ found.length + es.length ∧ Datum.Entries fs := by
  match es with
  | [] =>
    cases h
    exact ⟨Nat.le_refl _, hfound⟩
  | (k, v) :: es =>
    obtain ⟨hkv, hes⟩ := Bool.and_eq_true_iff.mp hf
    obtain ⟨hk, hv⟩ := Bool.and_eq_true_iff.mp hkv
    obtain ⟨key, hkey, h⟩ := Outcome.bind_eq_ok.mp h
    obtain ⟨value, hvalue, h⟩ := Outcome.bind_eq_ok.mp h
    split at h
    · rename_i hiskey
      have hput := entries_putEntry hfound (carried_of_datumOf hkey hk) hiskey
        (carried_of_datumOf hvalue hv)
      obtain ⟨hl, he⟩ := entries_of_recordOf h hes hput
      have hle := length_putEntry_le key value found
      exact ⟨by rw [List.length_cons]; omega, he⟩
    · cases h
end

end Wire
end LazyQuery
