import LazyQuery.Wire.Item
import Mathlib

/-! Numbers, sizes and byte strings in messages. Each is read back from its bytes, whatever follows
them, and reading stops exactly where they end. -/
namespace LazyQuery.Wire

theorem bigEndian_succ (w n : Nat) :
    bigEndian (w + 1) n = UInt8.ofNat (n / 256 ^ w) :: bigEndian w n := by
  simp [bigEndian, List.range_succ]

theorem bigEndian_length (w n : Nat) : (bigEndian w n).length = w := by
  simp [bigEndian]

theorem foldl_digits (bs : List UInt8) (n : Nat) :
    bs.foldl (fun n b => 256 * n + b.toNat) n = n * 256 ^ bs.length + ofBigEndian bs := by
  induction bs generalizing n with
  | nil => simp [ofBigEndian]
  | cons b bs ih =>
    have hn := ih (256 * n + b.toNat)
    have hz := ih b.toNat
    simp only [List.foldl_cons, List.length_cons, ofBigEndian, Nat.mul_zero,
      Nat.zero_add] at hn hz ⊢
    rw [hn, hz, Nat.add_mul, Nat.pow_succ]
    ring_nf

theorem ofBigEndian_cons (b : UInt8) (bs : List UInt8) :
    ofBigEndian (b :: bs) = b.toNat * 256 ^ bs.length + ofBigEndian bs := by
  rw [ofBigEndian, List.foldl_cons, foldl_digits]
  simp

theorem ofBigEndian_bigEndian (w n : Nat) : ofBigEndian (bigEndian w n) = n % 256 ^ w := by
  induction w with
  | zero => simp [bigEndian, ofBigEndian, Nat.mod_one]
  | succ w ih =>
    rw [bigEndian_succ, ofBigEndian_cons, ih, bigEndian_length, Nat.mod_pow_succ,
      UInt8.toNat_ofNat']
    rw [Nat.add_comm, Nat.mul_comm]

theorem tokens_append (as bs : List UInt8) : tokens (as ++ bs) = tokens as ++ tokens bs := by
  simp [tokens]

theorem tokens_cons (b : UInt8) (bs : List UInt8) : tokens (b :: bs) = .byte b :: tokens bs := rfl

theorem takeBytes_tokens (bs : List UInt8) (ts : List Token) :
    takeBytes bs.length (tokens bs ++ ts) = some (bs, ts) := by
  induction bs with
  | nil => simp [takeBytes, tokens]
  | cons b bs ih => simp [tokens_cons, takeBytes, ih]

theorem takeSize_bigEndian (w n : Nat) (ts : List Token) :
    takeSize w (tokens (bigEndian w n) ++ ts) = some (n % 256 ^ w, ts) := by
  have h := takeBytes_tokens (bigEndian w n) ts
  rw [bigEndian_length] at h
  simp only [takeSize, h, Option.map_some, ofBigEndian_bigEndian]

theorem sizedNumber_bigEndian (f : Nat → Item) (w n : Nat) (ts : List Token) :
    sizedNumber f w (tokens (bigEndian w n) ++ ts) = (f (n % 256 ^ w), ts) := by
  rw [sizedNumber, takeSize_bigEndian]

/-- A whole number is congruent to its lowest digits, of which the size of its type is enough. -/
theorem signed_mod (w : Nat) (i : Int) (hw : w ≤ 8) (low : -(256 ^ w : Int) ≤ 2 * i)
    (high : 2 * i < 256 ^ w) : signed w ((i % 2 ^ 64).toNat % 256 ^ w) = i := by
  -- the modulus of the type divides 2 ^ 64, so that writing loses nothing reading needs
  have hdvd : ((256 ^ w : Nat) : Int) ∣ 2 ^ 64 := by
    have h : (256 : Int) ^ 8 = 2 ^ 64 := by norm_num
    rw [← h]
    exact_mod_cast Nat.pow_dvd_pow 256 hw
  have hpos : 0 ≤ i % 2 ^ 64 := Int.emod_nonneg _ (by norm_num)
  rw [signed, Int.natCast_emod, Int.toNat_of_nonneg hpos, Int.emod_emod_of_dvd _ hdvd,
    Int.emod_bmod]
  have hc : ((256 ^ w : Nat) : Int) = 256 ^ w := by push_cast; rfl
  apply Int.bmod_eq_of_le_mul_two <;> omega

end LazyQuery.Wire
