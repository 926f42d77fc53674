import LazyQuery.Proofs.Wire.Items
import LazyQuery.Proofs.Wire.Values

/-! What messages can hold. Whatever has been read whole from a message has room in one: its numbers
have 64 bits, and the parts of texts, lists and maps were counted in at most four bytes. -/
namespace LazyQuery.Wire

theorem ofBigEndian_lt (bs : List UInt8) : ofBigEndian bs < 256 ^ bs.length := by
  induction bs with
  | nil => decide
  | cons b bs ih =>
    have hb : b.toNat ≤ 255 := Nat.le_of_lt_succ b.toNat_lt
    have hmul := Nat.mul_le_mul_right (256 ^ bs.length) hb
    rw [ofBigEndian_cons, List.length_cons, Nat.pow_succ]
    omega

theorem length_takeBytes {n : Nat} {ts rest : List Token} {bs : List UInt8}
    (h : takeBytes n ts = some (bs, rest)) : bs.length = n := by
  induction n generalizing ts bs with
  | zero =>
    cases h
    rfl
  | succ n ih =>
    cases ts with
    | nil => cases h
    | cons t ts =>
      cases t with
      | byte b =>
        obtain ⟨⟨cs, rest'⟩, hc, he⟩ := Option.map_eq_some_iff.mp h
        cases he
        rw [List.length_cons, ih hc]
      | schema | type | batch => cases h

theorem takeSize_lt {w n : Nat} {ts rest : List Token} (h : takeSize w ts = some (n, rest)) :
    n < 256 ^ w := by
  obtain ⟨⟨bs, rest'⟩, hb, he⟩ := Option.map_eq_some_iff.mp h
  cases he
  rw [← length_takeBytes hb]
  exact ofBigEndian_lt bs

/-- A number of so many bytes with a sign is less than half the numbers of that many bytes away from
zero. -/
theorem signed_bounds {w : Nat} (n : Nat) (hw : 1 ≤ w) :
    -(256 ^ w : Int) ≤ 2 * signed w n ∧ 2 * signed w n < 256 ^ w := by
  have hpos : 0 < 256 ^ w := Nat.pow_pos (by decide)
  have hlow := Int.le_bmod (x := (n : Int)) hpos
  have hhigh := Int.bmod_lt (x := (n : Int)) hpos
  have hc : ((256 ^ w : Nat) : Int) = 256 ^ w := by push_cast; rfl
  have heven : (2 : Int) ∣ 256 ^ w := Dvd.dvd.trans (by decide) (dvd_pow_self 256 (by omega))
  rw [signed]
  rw [hc] at hlow hhigh
  omega

/-- The item of a form has room, or what the form announces is counted in few enough bytes. -/
def Form.Small : Form → Prop
  | .whole i => i.fits = true
  | .unsigned w => w ≤ 8
  | .signed w => 1 ≤ w ∧ w ≤ 8
  | .text n | .list n | .map n | .extension n => n < sizeLimit
  | .textSized w | .bytesSized w | .listSized w | .mapSized w | .extensionSized w => w ≤ 4
  | .single | .double | .unknown => True

theorem small_formOf (b : UInt8) : (formOf b).Small := by
  have hb := b.toNat_lt
  unfold formOf
  dsimp only
  split
  · simp only [Form.Small, Item.fits, Bool.and_eq_true, decide_eq_true_eq]
    omega
  split
  · simp only [Form.Small, sizeLimit]
    omega
  split
  · simp only [Form.Small, sizeLimit]
    omega
  split
  · simp only [Form.Small, sizeLimit]
    omega
  split
  · simp only [Form.Small, Item.fits, Bool.and_eq_true, decide_eq_true_eq]
    omega
  split <;> simp [Form.Small, Item.fits, sizeLimit]

def Item.Sound (i : Item) : Prop := i.isComplete = true → i.fits = true

theorem sound_brokenOff : brokenOff.1.Sound := nofun

section sized
variable {w : Nat} {ts : List Token}

theorem sound_sizedNumber {f : Nat → Item} (h : ∀ n, n < 256 ^ w → (f n).Sound) :
    (sizedNumber f w ts).1.Sound := by
  unfold sizedNumber
  split
  · rename_i n rest hn
    exact h n (takeSize_lt hn)
  · exact sound_brokenOff

theorem sound_sizedBytes {f : List UInt8 → Item} {size : Option (Nat × List Token)} (limit : Nat)
    (hs : ∀ n rest, size = some (n, rest) → n < limit)
    (h : ∀ bs, bs.length < limit → (f bs).Sound) :
    (sizedBytes f size).1.Sound := by
  unfold sizedBytes
  split
  · rename_i bs rest hb
    obtain ⟨⟨n, ts⟩, hn, hb⟩ := Option.bind_eq_some_iff.mp hb
    exact h bs (length_takeBytes hb ▸ hs n ts hn)
  · exact sound_brokenOff

theorem takeSize_lt_sizeLimit (hw : w ≤ 4) (n : Nat) (rest : List Token)
    (h : takeSize w ts = some (n, rest)) : n < sizeLimit :=
  Nat.lt_of_lt_of_le (takeSize_lt h) (Nat.pow_le_pow_right (by decide : 0 < 256) hw)

theorem sound_text (bs : List UInt8) (h : bs.length < sizeLimit) : (Item.text bs).Sound :=
  fun _ => decide_eq_true h

theorem sound_bytes (bs : List UInt8) (h : bs.length < sizeLimit) : (Item.bytes bs).Sound :=
  fun _ => decide_eq_true h

theorem sound_extensionBytes {size : Option (Nat × List Token)}
    (hs : ∀ n rest, size = some (n, rest) → n < sizeLimit) : (extensionBytes size).1.Sound := by
  refine sound_sizedBytes (sizeLimit + 1) ?_ ?_
  · intro n rest h
    obtain ⟨⟨m, rest'⟩, hm, he⟩ := Option.map_eq_some_iff.mp h
    cases he
    exact Nat.succ_lt_succ (hs m _ hm)
  · intro bs hbs
    cases bs with
    | nil => nofun
    | cons c payload =>
      intro _
      obtain ⟨hlow, hhigh⟩ := signed_bounds c.toNat (Nat.le_refl 1)
      simp only [List.length_cons] at hbs
      simp only [Item.fits, Bool.and_eq_true, decide_eq_true_eq]
      omega

end sized

section parts
variable {n : Nat}

theorem sound_list {is : List Item}
    (h : is.length ≤ n ∧ (allComplete is = true → allFit is = true)) (hn : n < sizeLimit) :
    (Item.list is).Sound :=
  fun hc => Bool.and_eq_true_iff.mpr ⟨decide_eq_true (Nat.lt_of_le_of_lt h.1 hn), h.2 hc⟩

theorem sound_map {es : List (Item × Item)}
    (h : es.length ≤ n ∧ (entriesComplete es = true → entriesFit es = true))
    (hn : n < sizeLimit) :
    (Item.map es).Sound :=
  fun hc => Bool.and_eq_true_iff.mpr ⟨decide_eq_true (Nat.lt_of_le_of_lt h.1 hn), h.2 hc⟩

end parts

section numbers
variable {w : Nat}

theorem fits_unsigned (hw : w ≤ 8) {n : Nat} (hn : n < 256 ^ w) : (Item.int n).fits = true := by
  have hle : 256 ^ w ≤ 256 ^ 8 := Nat.pow_le_pow_right (by decide) hw
  simp only [Item.fits, Bool.and_eq_true, decide_eq_true_eq]
  omega

theorem fits_signed (hw : 1 ≤ w) (hw' : w ≤ 8) (n : Nat) :
    (Item.int (signed w n)).fits = true := by
  obtain ⟨hlow, hhigh⟩ := signed_bounds n hw
  have hle : (256 : Int) ^ w ≤ 256 ^ 8 := by exact_mod_cast Nat.pow_le_pow_right (by decide) hw'
  simp only [Item.fits, Bool.and_eq_true, decide_eq_true_eq]
  omega

end numbers

mutual
theorem sound_decodeItem (fuel : Nat) (ts : List Token) : (decodeItem fuel ts).1.Sound := by
  cases fuel with
  | zero => exact sound_brokenOff
  | succ fuel =>
    cases ts with
    | nil => exact sound_brokenOff
    | cons t ts =>
      cases t with
      | schema s => exact fun _ => rfl
      | type t => exact fun _ => rfl
      | batch b => exact fun _ => rfl
      | byte b =>
        have hb := small_formOf b
        have hone (n m : Nat) (rest : List Token) (hn : n < sizeLimit)
            (h : some (n, ts) = some (m, rest)) : m < sizeLimit := by
          cases h
          exact hn
        rw [decodeItem]
        cases hf : formOf b with
        | whole item =>
          rw [hf] at hb
          exact fun _ => hb
        | unsigned w =>
          rw [hf] at hb
          exact sound_sizedNumber fun n hn _ => fits_unsigned hb hn
        | signed w =>
          rw [hf] at hb
          exact sound_sizedNumber fun n _ _ => fits_signed hb.1 hb.2 n
        | single => exact sound_sizedNumber fun _ _ _ => rfl
        | double => exact sound_sizedNumber fun _ _ _ => rfl
        | text n =>
          rw [hf] at hb
          exact sound_sizedBytes sizeLimit (fun m rest => hone n m rest hb) sound_text
        | textSized w =>
          rw [hf] at hb
          exact sound_sizedBytes sizeLimit (takeSize_lt_sizeLimit hb) sound_text
        | bytesSized w =>
          rw [hf] at hb
          exact sound_sizedBytes sizeLimit (takeSize_lt_sizeLimit hb) sound_bytes
        | extension n =>
          rw [hf] at hb
          exact sound_extensionBytes fun m rest => hone n m rest hb
        | extensionSized w =>
          rw [hf] at hb
          exact sound_extensionBytes (takeSize_lt_sizeLimit hb)
        | list n =>
          rw [hf] at hb
          exact sound_list (sound_decodeItems fuel n ts) hb
        | listSized w =>
          rw [hf] at hb
          cases hs : takeSize w ts with
          | none =>
            simp only [hs]
            exact sound_brokenOff
          | some size =>
            simp only [hs]
            exact sound_list (sound_decodeItems fuel size.1 size.2)
              (takeSize_lt_sizeLimit hb _ _ hs)
        | map n =>
          rw [hf] at hb
          exact sound_map (sound_decodeEntries fuel n ts) hb
        | mapSized w =>
          rw [hf] at hb
          cases hs : takeSize w ts with
          | none =>
            simp only [hs]
            exact sound_brokenOff
          | some size =>
            simp only [hs]
            exact sound_map (sound_decodeEntries fuel size.1 size.2)
              (takeSize_lt_sizeLimit hb _ _ hs)
        | unknown => exact sound_brokenOff

/-- No more items are read than were announced, and those that were read whole have room. -/
theorem sound_decodeItems (fuel n : Nat) (ts : List Token) :
    (decodeItems fuel n ts).1.length ≤ n ∧
      (allComplete (decodeItems fuel n ts).1 = true →
        allFit (decodeItems fuel n ts).1 = true) := by
  cases n with
  | zero =>
    rw [decodeItems]
    exact ⟨Nat.le_refl 0, fun _ => rfl⟩
  | succ n =>
    cases fuel with
    | zero =>
      rw [decodeItems]
      exact ⟨Nat.succ_le_succ (Nat.zero_le n), nofun⟩
    | succ fuel =>
      by_cases hts : ts = []
      · subst hts
        rw [decodeItems]
        exact ⟨Nat.succ_le_succ (Nat.zero_le n), nofun⟩
      · have hi := sound_decodeItem fuel ts
        have his := sound_decodeItems fuel n (decodeItem fuel ts).2
        rw [decodeItems_succ hts]
        refine ⟨Nat.succ_le_succ his.1, fun hc => ?_⟩
        obtain ⟨hc, hcs⟩ := Bool.and_eq_true_iff.mp hc
        exact Bool.and_eq_true_iff.mpr ⟨hi hc, his.2 hcs⟩

theorem sound_decodeEntries (fuel n : Nat) (ts : List Token) :
    (decodeEntries fuel n ts).1.length ≤ n ∧
      (entriesComplete (decodeEntries fuel n ts).1 = true →
        entriesFit (decodeEntries fuel n ts).1 = true) := by
  cases n with
  | zero =>
    rw [decodeEntries]
    exact ⟨Nat.le_refl 0, fun _ => rfl⟩
  | succ n =>
    cases fuel with
    | zero =>
      rw [decodeEntries]
      exact ⟨Nat.succ_le_succ (Nat.zero_le n), nofun⟩
    | succ fuel =>
      by_cases hts : ts = []
      · subst hts
        rw [decodeEntries]
        exact ⟨Nat.succ_le_succ (Nat.zero_le n), nofun⟩
      · have hk := sound_decodeItem fuel ts
        have hv := sound_decodeItem fuel (decodeItem fuel ts).2
        have hes := sound_decodeEntries fuel n (decodeItem fuel (decodeItem fuel ts).2).2
        rw [decodeEntries_succ hts]
        refine ⟨Nat.succ_le_succ hes.1, fun hc => ?_⟩
        obtain ⟨hc, hcs⟩ := Bool.and_eq_true_iff.mp hc
        obtain ⟨hck, hcv⟩ := Bool.and_eq_true_iff.mp hc
        exact Bool.and_eq_true_iff.mpr
          ⟨Bool.and_eq_true_iff.mpr ⟨hk hck, hv hcv⟩, hes.2 hcs⟩
end

section complete
variable {path : String} {i : Item}

mutual
theorem isComplete_of_datumOf {path : String} {i : Item} {d : Datum} (h : datumOf path i = .ok d) :
    i.isComplete = true := by
  cases i with
  | broken => cases h
  | list is =>
    obtain ⟨ds, hds, -⟩ := Outcome.bind_eq_ok.mp h
    exact allComplete_of_dataOf hds
  | map es =>
    obtain ⟨fs, hfs, -⟩ := Outcome.bind_eq_ok.mp h
    exact entriesComplete_of_recordOf hfs
  | _ => rfl

theorem allComplete_of_dataOf {path : String} {k : Nat} {is : List Item} {ds : List Datum}
    (h : dataOf path k is = .ok ds) : allComplete is = true := by
  cases is with
  | nil => rfl
  | cons i is =>
    obtain ⟨d, hd, h⟩ := Outcome.bind_eq_ok.mp h
    obtain ⟨ds, hds, -⟩ := Outcome.bind_eq_ok.mp h
    exact Bool.and_eq_true_iff.mpr ⟨isComplete_of_datumOf hd, allComplete_of_dataOf hds⟩

theorem entriesComplete_of_recordOf {path : String} {es : List (Item × Item)}
    {found fs : List (Datum × Datum)} (h : recordOf path found es = .ok fs) :
    entriesComplete es = true := by
  match es with
  | [] => rfl
  | (k, v) :: es =>
    obtain ⟨key, hk, h⟩ := Outcome.bind_eq_ok.mp h
    obtain ⟨value, hv, h⟩ := Outcome.bind_eq_ok.mp h
    have hkv := Bool.and_eq_true_iff.mpr ⟨isComplete_of_datumOf hk, isComplete_of_datumOf hv⟩
    split at h
    · exact Bool.and_eq_true_iff.mpr ⟨hkv, entriesComplete_of_recordOf h⟩
    · cases h
end

theorem isComplete_of_pass {u : Unit} (h : pass i = .ok u) : i.isComplete = true := by
  unfold pass at h
  split at h
  · assumption
  · cases h

theorem isComplete_of_readKey {key : List UInt8} (h : readKey path i = .ok key) :
    i.isComplete = true := by
  cases i with
  | text bs => rfl
  | _ => cases h

theorem isComplete_of_checkTag {n : NodeShape} {u : Unit} (h : checkTag n path i = .ok u) :
    i.isComplete = true := by
  obtain ⟨kind, hk, -⟩ := Outcome.bind_eq_ok.mp h
  cases i with
  | text bs => rfl
  | _ => cases hk

theorem isComplete_of_readPlain {shape : Shape} {slot : Slot}
    (h : readPlain shape path i = .ok slot) :
    i.isComplete = true := by
  cases shape with
  | any | schema | type | batch =>
    rw [readPlain] at h
    obtain ⟨d, hd, -⟩ := Outcome.bind_eq_ok.mp h
    exact isComplete_of_datumOf hd
  | text | int | bool | node | list | listOrNull =>
    cases i with
    | broken | list | map => cases h
    | _ => rfl

theorem readSlot_map {shape : Shape} (es : List (Item × Item)) (h : ∀ c, shape ≠ .node c) :
    readSlot shape path (.map es) = readPlain shape path (.map es) := by
  rw [readSlot]
  exact h

theorem readSlot_list {shape : Shape} (is : List Item) (h : ∀ m, shape ≠ .list m)
    (h' : ∀ m, shape ≠ .listOrNull m) :
    readSlot shape path (.list is) = readPlain shape path (.list is) := by
  rw [readSlot]
  · exact h
  · exact h'

theorem readSlot_plain {shape : Shape} (hm : ∀ es, i ≠ .map es) (hl : ∀ is, i ≠ .list is) :
    readSlot shape path i = readPlain shape path i := by
  rw [readSlot]
  · exact hm
  · exact hl

mutual
/-- A node is read only of an item that is there: even of members that nobody asks for. -/
theorem isComplete_of_readSlot {shape : Shape} {path : String} {i : Item} {slot : Slot}
    (h : readSlot shape path i = .ok slot) : i.isComplete = true := by
  cases i with
  | map es =>
    cases shape with
    | node c =>
      rw [readSlot] at h
      obtain ⟨n, -, h⟩ := Outcome.bind_eq_ok.mp h
      obtain ⟨found, hf, -⟩ := Outcome.bind_eq_ok.mp h
      exact entriesComplete_of_readMembers hf
    | _ =>
      rw [readSlot_map es (by nofun)] at h
      exact isComplete_of_readPlain h
  | list is =>
    cases shape with
    | list member | listOrNull member =>
      rw [readSlot] at h
      obtain ⟨slots, hs, -⟩ := Outcome.bind_eq_ok.mp h
      exact allComplete_of_readSlots hs
    | _ =>
      rw [readSlot_list is (by nofun) (by nofun)] at h
      exact isComplete_of_readPlain h
  | _ =>
    rw [readSlot_plain (by nofun) (by nofun)] at h
    exact isComplete_of_readPlain h

theorem allComplete_of_readSlots {shape : Shape} {path : String} {k : Nat} {is : List Item}
    {slots : List Slot} (h : readSlots shape path k is = .ok slots) : allComplete is = true := by
  cases is with
  | nil => rfl
  | cons i is =>
    obtain ⟨slot, hs, h⟩ := Outcome.bind_eq_ok.mp h
    obtain ⟨slots, hss, -⟩ := Outcome.bind_eq_ok.mp h
    exact Bool.and_eq_true_iff.mpr ⟨isComplete_of_readSlot hs, allComplete_of_readSlots hss⟩

theorem entriesComplete_of_readMembers {n : NodeShape} {path : String} {found found' : Slots}
    {es : List (Item × Item)} (h : readMembers n path found es = .ok found') :
    entriesComplete es = true := by
  match es with
  | [] => rfl
  | (k, v) :: es =>
    rw [readMembers] at h
    obtain ⟨key, hk, h⟩ := Outcome.bind_eq_ok.mp h
    have hk := isComplete_of_readKey hk
    have hrest (hv : v.isComplete = true) (hes : entriesComplete es = true) :
        entriesComplete ((k, v) :: es) = true :=
      Bool.and_eq_true_iff.mpr ⟨Bool.and_eq_true_iff.mpr ⟨hk, hv⟩, hes⟩
    split at h
    · obtain ⟨_, hv, h⟩ := Outcome.bind_eq_ok.mp h
      exact hrest (isComplete_of_checkTag hv) (entriesComplete_of_readMembers h)
    split at h
    · obtain ⟨_, hv, h⟩ := Outcome.bind_eq_ok.mp h
      exact hrest (isComplete_of_readSlot hv) (entriesComplete_of_readMembers h)
    · obtain ⟨_, hv, h⟩ := Outcome.bind_eq_ok.mp h
      exact hrest (isComplete_of_pass hv) (entriesComplete_of_readMembers h)
end

theorem fits_of_readSlot_decode {shape : Shape} {ts : List Token} {slot : Slot}
    (h : readSlot shape path (decode ts).1 = .ok slot) : (decode ts).1.fits = true :=
  sound_decodeItem _ ts (isComplete_of_readSlot h)

end complete

end LazyQuery.Wire
