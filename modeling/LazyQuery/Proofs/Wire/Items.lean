import LazyQuery.Proofs.Wire.Bytes

/-! Reading an item that was written gives the item back, and what follows it is left. -/
namespace LazyQuery.Wire

theorem formOf_small {n : Nat} (h : n < 128) : formOf (UInt8.ofNat n) = .whole (.int n) := by
  have hn : (UInt8.ofNat n).toNat = n := by rw [UInt8.toNat_ofNat']; omega
  simp [formOf, hn, h]

theorem formOf_map {n : Nat} (h : n < 16) : formOf (UInt8.ofNat (0x80 + n)) = .map n := by
  have hn : (UInt8.ofNat (0x80 + n)).toNat = 0x80 + n := by rw [UInt8.toNat_ofNat']; omega
  rw [formOf, hn, if_neg (by omega), if_pos (by omega), Nat.add_sub_cancel_left]

theorem formOf_list {n : Nat} (h : n < 16) : formOf (UInt8.ofNat (0x90 + n)) = .list n := by
  have hn : (UInt8.ofNat (0x90 + n)).toNat = 0x90 + n := by rw [UInt8.toNat_ofNat']; omega
  rw [formOf, hn, if_neg (by omega), if_neg (by omega), if_pos (by omega), Nat.add_sub_cancel_left]

theorem formOf_text {n : Nat} (h : n < 32) : formOf (UInt8.ofNat (0xa0 + n)) = .text n := by
  have hn : (UInt8.ofNat (0xa0 + n)).toNat = 0xa0 + n := by rw [UInt8.toNat_ofNat']; omega
  rw [formOf, hn, if_neg (by omega), if_neg (by omega), if_neg (by omega), if_pos (by omega),
    Nat.add_sub_cancel_left]

theorem formOf_negative {i : Int} (low : -32 ≤ i) (high : i < 0) :
    formOf (UInt8.ofNat (i % 2 ^ 64).toNat) = .whole (.int i) := by
  have hn : (UInt8.ofNat (i % 2 ^ 64).toNat).toNat = (i + 256).toNat := by
    rw [UInt8.toNat_ofNat']
    omega
  rw [formOf, hn, if_neg (by omega), if_neg (by omega), if_neg (by omega), if_neg (by omega),
    if_pos (by omega)]
  congr 2
  omega

section numbers
variable {mark : UInt8} {w n fuel : Nat} {ts : List Token}

theorem decodeItem_unsigned (hf : formOf mark = .unsigned w) (hn : n < 256 ^ w) :
    decodeItem (fuel + 1) (tokens (mark :: bigEndian w n) ++ ts) = (.int n, ts) := by
  rw [tokens_cons, List.cons_append, decodeItem]
  simp only [hf, sizedNumber_bigEndian, Nat.mod_eq_of_lt hn]

theorem decodeItem_signed {i : Int} (hf : formOf mark = .signed w) (hw : w ≤ 8)
    (low : -(256 ^ w : Int) ≤ 2 * i) (high : 2 * i < 256 ^ w) :
    decodeItem (fuel + 1) (tokens (mark :: bigEndian w (i % 2 ^ 64).toNat) ++ ts) =
      (.int i, ts) := by
  rw [tokens_cons, List.cons_append, decodeItem]
  simp only [hf, sizedNumber_bigEndian, signed_mod w i hw low high]

theorem decodeItem_nonneg (h : n < 2 ^ 64) :
    decodeItem (fuel + 1) (tokens (encodeInt n) ++ ts) = (.int n, ts) := by
  rw [encodeInt, if_pos (by omega), Int.toNat_natCast]
  dsimp only
  split
  · rename_i h1
    rw [tokens_cons, List.cons_append, decodeItem]
    simp only [formOf_small h1]
    rfl
  split
  · exact decodeItem_unsigned rfl (by omega)
  split
  · exact decodeItem_unsigned rfl (by omega)
  split
  · exact decodeItem_unsigned rfl (by omega)
  · exact decodeItem_unsigned rfl (by omega)

theorem decodeItem_negative {i : Int} (low : -2 ^ 63 ≤ i) (high : i < 0) :
    decodeItem (fuel + 1) (tokens (encodeInt i) ++ ts) = (.int i, ts) := by
  rw [encodeInt, if_neg (by omega)]
  dsimp only
  split
  · rename_i h1
    rw [tokens_cons, List.cons_append, decodeItem]
    simp only [formOf_negative h1 high]
    rfl
  split
  · exact decodeItem_signed rfl (by omega) (by omega) (by omega)
  split
  · exact decodeItem_signed rfl (by omega) (by omega) (by omega)
  split
  · exact decodeItem_signed rfl (by omega) (by omega) (by omega)
  · exact decodeItem_signed rfl (by omega) (by omega) (by omega)

theorem decodeItem_int {i : Int} (low : -2 ^ 63 ≤ i) (high : i < 2 ^ 64) :
    decodeItem (fuel + 1) (tokens (encodeInt i) ++ ts) = (.int i, ts) := by
  cases i with
  | ofNat n => exact decodeItem_nonneg (by simp only [Int.ofNat_eq_natCast] at high; omega)
  | negSucc n => exact decodeItem_negative low (by omega)

theorem decodeItem_float (x : Float) :
    decodeItem (fuel + 1) (tokens (0xcb :: bigEndian 8 x.toBits.toNat) ++ ts) = (.float x, ts) := by
  have hf : formOf 0xcb = .double := rfl
  have hn := x.toBits.toNat_lt
  rw [tokens_cons, List.cons_append, decodeItem]
  simp only [hf, sizedNumber_bigEndian]
  rw [Nat.mod_eq_of_lt (by omega), UInt64.ofNat_toNat, Float.ofBits_toBits]

end numbers

section strings
variable (f : List UInt8 → Item) (bs : List UInt8) {w : Nat} (ts : List Token)

theorem sizedBytes_tokens : sizedBytes f (some (bs.length, tokens bs ++ ts)) = (f bs, ts) := by
  simp [sizedBytes, takeBytes_tokens]

theorem sizedBytes_sized (h : bs.length < 256 ^ w) :
    sizedBytes f (takeSize w (tokens (bigEndian w bs.length) ++ (tokens bs ++ ts))) =
      (f bs, ts) := by
  rw [takeSize_bigEndian, Nat.mod_eq_of_lt h, sizedBytes_tokens f bs ts]

end strings

/-- Marks that announce one kind of item, each with the width of its number; the
widest has four bytes. -/
structure Announce (marks : List (Nat × UInt8)) (form : Nat → Form) : Prop where
  read : ∀ m ∈ marks, formOf m.2 = form m.1
  widest : ∃ m ∈ marks, m.1 = 4

theorem announce_text : Announce [(1, 0xd9), (2, 0xda), (4, 0xdb)] .textSized where
  read := by simp only [List.forall_mem_cons]; exact ⟨rfl, rfl, rfl, nofun⟩
  widest := ⟨(4, 0xdb), by simp, rfl⟩

theorem announce_bytes : Announce [(1, 0xc4), (2, 0xc5), (4, 0xc6)] .bytesSized where
  read := by simp only [List.forall_mem_cons]; exact ⟨rfl, rfl, rfl, nofun⟩
  widest := ⟨(4, 0xc6), by simp, rfl⟩

theorem announce_list : Announce [(2, 0xdc), (4, 0xdd)] .listSized where
  read := by simp only [List.forall_mem_cons]; exact ⟨rfl, rfl, nofun⟩
  widest := ⟨(4, 0xdd), by simp, rfl⟩

theorem announce_map : Announce [(2, 0xde), (4, 0xdf)] .mapSized where
  read := by simp only [List.forall_mem_cons]; exact ⟨rfl, rfl, nofun⟩
  widest := ⟨(4, 0xdf), by simp, rfl⟩

theorem announce_extension : Announce [(1, 0xc7), (2, 0xc8), (4, 0xc9)] .extensionSized where
  read := by simp only [List.forall_mem_cons]; exact ⟨rfl, rfl, rfl, nofun⟩
  widest := ⟨(4, 0xc9), by simp, rfl⟩

section sizes
variable {marks : List (Nat × UInt8)} {form : Nat → Form} {limit n : Nat}

theorem Announce.encodeSize_eq (ha : Announce marks form) (few : Nat) (hl : limit ≤ n)
    (h : n < 2 ^ 32) :
    ∃ w mark, formOf mark = form w ∧ n < 256 ^ w ∧
      encodeSize few limit marks n = mark :: bigEndian w n := by
  rw [encodeSize, if_neg (by omega)]
  cases hf : marks.find? fun m => n < 256 ^ m.1 with
  | none =>
    obtain ⟨m, hm, hw⟩ := ha.widest
    have hlast := List.find?_eq_none.mp hf m hm
    simp only [hw, decide_eq_true_eq] at hlast
    omega
  | some m =>
    obtain ⟨w, mark⟩ := m
    exact ⟨w, mark, ha.read _ (List.mem_of_find?_eq_some hf),
      by simpa using List.find?_some hf, rfl⟩

theorem Announce.encodeSize_ne_nil (ha : Announce marks form) (few limit : Nat) (h : n < 2 ^ 32) :
    encodeSize few limit marks n ≠ [] := by
  by_cases hl : n < limit
  · simp [encodeSize, hl]
  · obtain ⟨w, mark, -, -, he⟩ := ha.encodeSize_eq few (Nat.not_lt.mp hl) h
    simp [he]

end sizes

section sized
variable {bs : List UInt8} {n fuel : Nat} {ts : List Token}

theorem decodeItem_text (h : bs.length < 2 ^ 32) :
    decodeItem (fuel + 1) (tokens (textSize bs.length ++ bs) ++ ts) = (.text bs, ts) := by
  rw [tokens_append, List.append_assoc]
  by_cases hl : bs.length < 32
  · rw [textSize, encodeSize, if_pos hl, tokens_cons, List.cons_append, decodeItem]
    simp only [formOf_text hl]
    exact sizedBytes_tokens _ bs ts
  · obtain ⟨w, mark, hf, hw, he⟩ := announce_text.encodeSize_eq 0xa0 (Nat.not_lt.mp hl) h
    rw [textSize, he, tokens_cons, List.cons_append, decodeItem]
    simp only [hf]
    exact sizedBytes_sized _ bs ts hw

theorem decodeItem_bytes (h : bs.length < 2 ^ 32) :
    decodeItem (fuel + 1) (tokens (bytesSize bs.length ++ bs) ++ ts) = (.bytes bs, ts) := by
  obtain ⟨w, mark, hf, hw, he⟩ := announce_bytes.encodeSize_eq 0 (Nat.zero_le _) h
  rw [tokens_append, List.append_assoc, bytesSize, he, tokens_cons, List.cons_append, decodeItem]
  simp only [hf]
  exact sizedBytes_sized _ bs ts hw

theorem decodeItem_list (h : n < 2 ^ 32) :
    decodeItem (fuel + 1) (tokens (listSize n) ++ ts) =
      (.list (decodeItems fuel n ts).1, (decodeItems fuel n ts).2) := by
  by_cases hl : n < 16
  · rw [listSize, encodeSize, if_pos hl, tokens_cons, List.cons_append, decodeItem]
    simp only [formOf_list hl]
    rfl
  · obtain ⟨w, mark, hf, hw, he⟩ := announce_list.encodeSize_eq 0x90 (Nat.not_lt.mp hl) h
    rw [listSize, he, tokens_cons, List.cons_append, decodeItem]
    simp only [hf, takeSize_bigEndian, Nat.mod_eq_of_lt hw]

theorem decodeItem_map (h : n < 2 ^ 32) :
    decodeItem (fuel + 1) (tokens (mapSize n) ++ ts) =
      (.map (decodeEntries fuel n ts).1, (decodeEntries fuel n ts).2) := by
  by_cases hl : n < 16
  · rw [mapSize, encodeSize, if_pos hl, tokens_cons, List.cons_append, decodeItem]
    simp only [formOf_map hl]
    rfl
  · obtain ⟨w, mark, hf, hw, he⟩ := announce_map.encodeSize_eq 0x80 (Nat.not_lt.mp hl) h
    rw [mapSize, he, tokens_cons, List.cons_append, decodeItem]
    simp only [hf, takeSize_bigEndian, Nat.mod_eq_of_lt hw]

theorem extensionBytes_tokens (bs : List UInt8) (ts : List Token) {code : Int} (low : -128 ≤ code)
    (high : code < 128) :
    extensionBytes (some (bs.length, tokens (UInt8.ofNat (code % 256).toNat :: bs) ++ ts)) =
      (.extension code bs, ts) := by
  have hc : signed 1 (UInt8.ofNat (code % 256).toNat).toNat = code := by
    rw [UInt8.toNat_ofNat', signed, Int.natCast_emod, Int.toNat_of_nonneg (by omega),
      show ((2 ^ 8 : Nat) : Int) = 256 from rfl, Int.emod_emod]
    change (code % (256 : Nat)).bmod 256 = code
    rw [Int.emod_bmod]
    apply Int.bmod_eq_of_le_mul_two <;> omega
  rw [extensionBytes]
  refine (sizedBytes_tokens _ (UInt8.ofNat (code % 256).toNat :: bs) ts).trans ?_
  dsimp only
  rw [hc]

theorem decodeItem_extension {code : Int} (low : -128 ≤ code) (high : code < 128)
    (h : bs.length < 2 ^ 32) :
    decodeItem (fuel + 1)
      (tokens (extensionSize bs.length ++ UInt8.ofNat (code % 256).toNat :: bs) ++ ts) =
      (.extension code bs, ts) := by
  have hb := extensionBytes_tokens bs ts low high
  rw [tokens_append, List.append_assoc]
  unfold extensionSize
  split
  case h_6 =>
    obtain ⟨w, mark, hf, hw, he⟩ := announce_extension.encodeSize_eq 0 (Nat.zero_le _) h
    rw [he, tokens_cons, List.cons_append, decodeItem]
    simp only [hf, takeSize_bigEndian, Nat.mod_eq_of_lt hw]
    exact hb
  -- sizes that have marks of their own, so that no number follows
  all_goals
    rename_i hn
    rw [hn] at hb
    exact hb

end sized

theorem listSize_ne_nil {n : Nat} (h : n < 2 ^ 32) : listSize n ≠ [] :=
  announce_list.encodeSize_ne_nil 0x90 16 h

theorem mapSize_ne_nil {n : Nat} (h : n < 2 ^ 32) : mapSize n ≠ [] :=
  announce_map.encodeSize_ne_nil 0x80 16 h

theorem encodeInt_ne_nil (i : Int) : encodeInt i ≠ [] := by
  unfold encodeInt
  dsimp only
  repeat' split
  all_goals simp

theorem encode_ne_nil {i : Item} (h : i.fits = true) : i.encode ≠ [] := by
  cases i with
  | broken => simp [Item.fits] at h
  | int i => simpa [Item.encode, tokens] using encodeInt_ne_nil i
  | text bs =>
    have hs := announce_text.encodeSize_ne_nil 0xa0 32 (of_decide_eq_true h)
    simp [Item.encode, tokens, textSize, hs]
  | bytes bs =>
    have hs := announce_bytes.encodeSize_ne_nil 0 0 (of_decide_eq_true h)
    simp [Item.encode, tokens, bytesSize, hs]
  | list items =>
    have hs := listSize_ne_nil (of_decide_eq_true (Bool.and_eq_true_iff.mp h).1)
    simp [Item.encode, tokens, hs]
  | map entries =>
    have hs := mapSize_ne_nil (of_decide_eq_true (Bool.and_eq_true_iff.mp h).1)
    simp [Item.encode, tokens, hs]
  | extension code bs => simp [Item.encode, tokens]
  | _ => simp [Item.encode, tokens]

theorem decodeItems_succ {fuel n : Nat} {ts : List Token} (h : ts ≠ []) :
    decodeItems (fuel + 1) (n + 1) ts =
      let (item, ts) := decodeItem fuel ts
      let (items, ts) := decodeItems fuel n ts
      (item :: items, ts) := by
  cases ts with
  | nil => exact absurd rfl h
  | cons t ts =>
    rw [decodeItems]
    simp

theorem decodeEntries_succ {fuel n : Nat} {ts : List Token} (h : ts ≠ []) :
    decodeEntries (fuel + 1) (n + 1) ts =
      let (key, ts) := decodeItem fuel ts
      let (value, ts) := decodeItem fuel ts
      let (entries, ts) := decodeEntries fuel n ts
      ((key, value) :: entries, ts) := by
  cases ts with
  | nil => exact absurd rfl h
  | cons t ts =>
    rw [decodeEntries]
    simp

mutual
/-- Whatever follows an item, reading its message gives the item and stops there. Each token allows
reading two levels deeper: one for the list it stands in and one for itself. -/
theorem decodeItem_encode {i : Item} (fuel : Nat) (ts : List Token) (h : i.fits = true)
    (hf : 2 * i.encode.length ≤ fuel) : decodeItem fuel (i.encode ++ ts) = (i, ts) := by
  have hpos := List.length_pos_iff.mpr (encode_ne_nil h)
  obtain ⟨fuel, rfl⟩ : ∃ n, fuel = n + 1 := ⟨fuel - 1, by omega⟩
  cases i with
  | null => rfl
  | bool b => cases b <;> rfl
  | int i =>
    simp only [Item.fits, Bool.and_eq_true, decide_eq_true_eq] at h
    exact decodeItem_int h.1 h.2
  | float x => exact decodeItem_float x
  | text bs => exact decodeItem_text (of_decide_eq_true h)
  | bytes bs => exact decodeItem_bytes (of_decide_eq_true h)
  | list items =>
    simp only [Item.fits, Bool.and_eq_true, decide_eq_true_eq] at h
    have hs := List.length_pos_iff.mpr (listSize_ne_nil h.1)
    simp only [Item.encode, List.length_append, tokens, List.length_map] at hf
    have hd := decodeItems_encode fuel ts h.2 (by omega)
    rw [Item.encode, List.append_assoc, decodeItem_list h.1, hd]
  | map entries =>
    simp only [Item.fits, Bool.and_eq_true, decide_eq_true_eq] at h
    have hs := List.length_pos_iff.mpr (mapSize_ne_nil h.1)
    simp only [Item.encode, List.length_append, tokens, List.length_map] at hf
    have hd := decodeEntries_encode fuel ts h.2 (by omega)
    rw [Item.encode, List.append_assoc, decodeItem_map h.1, hd]
  | extension code bs =>
    simp only [Item.fits, Bool.and_eq_true, decide_eq_true_eq] at h
    exact decodeItem_extension h.1.1 h.1.2 h.2
  | schema s => rfl
  | type t => rfl
  | batch b => rfl
  | broken => simp [Item.fits] at h

theorem decodeItems_encode {is : List Item} (fuel : Nat) (ts : List Token) (h : allFit is = true)
    (hf : 2 * (encodeItems is).length + 1 ≤ fuel) :
    decodeItems fuel is.length (encodeItems is ++ ts) = (is, ts) := by
  obtain ⟨fuel, rfl⟩ : ∃ n, fuel = n + 1 := ⟨fuel - 1, by omega⟩
  cases is with
  | nil => rw [List.length_nil, decodeItems]; rfl
  | cons i is =>
    simp only [allFit, Bool.and_eq_true] at h
    have hne := encode_ne_nil h.1
    have hpos := List.length_pos_iff.mpr hne
    simp only [encodeItems, List.length_append] at hf
    have hi := decodeItem_encode fuel (encodeItems is ++ ts) h.1 (by omega)
    have his := decodeItems_encode fuel ts h.2 (by omega)
    rw [List.length_cons, encodeItems, List.append_assoc, decodeItems_succ (by simp [hne]), hi]
    dsimp only
    rw [his]

theorem decodeEntries_encode {es : List (Item × Item)} (fuel : Nat) (ts : List Token)
    (h : entriesFit es = true) (hf : 2 * (encodeEntries es).length + 1 ≤ fuel) :
    decodeEntries fuel es.length (encodeEntries es ++ ts) = (es, ts) := by
  obtain ⟨fuel, rfl⟩ : ∃ n, fuel = n + 1 := ⟨fuel - 1, by omega⟩
  match es with
  | [] => rw [List.length_nil, decodeEntries]; rfl
  | (k, v) :: es =>
    simp only [entriesFit, Bool.and_eq_true] at h
    have hne := encode_ne_nil h.1.1
    have hpos := List.length_pos_iff.mpr hne
    simp only [encodeEntries, List.length_append] at hf
    have hk := decodeItem_encode fuel (v.encode ++ (encodeEntries es ++ ts)) h.1.1
      (by omega)
    have hv := decodeItem_encode fuel (encodeEntries es ++ ts) h.1.2 (by omega)
    have hes := decodeEntries_encode fuel ts h.2 (by omega)
    rw [List.length_cons, encodeEntries, List.append_assoc, List.append_assoc,
      decodeEntries_succ (by simp [hne]), hk]
    dsimp only
    rw [hv]
    dsimp only
    rw [hes]
end

theorem decode_encode {i : Item} (h : i.fits = true) : decode i.encode = (i, []) := by
  have hd := decodeItem_encode (2 * i.encode.length + 1) [] h (by omega)
  rw [List.append_nil] at hd
  exact hd

end LazyQuery.Wire
