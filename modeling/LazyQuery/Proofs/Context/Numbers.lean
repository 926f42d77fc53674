import LazyQuery.Proofs.Context.Faults
import Mathlib.Data.List.TakeWhile
import Mathlib.Data.Nat.Digits.Lemmas
import Mathlib.Tactic.Ring

/-! Numbers in settings and ports. Both are read from the same texts: digits of any scripts between
blanks, which denote their value in base ten. -/
namespace LazyQuery

namespace Text

/-- Blanks, then decimal digits of any scripts, then blanks; the digits denote the
number in base ten. -/
def Writes (cs : List Char) (n : Nat) : Prop :=
  ∃ before digits after values, cs = before ++ digits ++ after ∧
    (∀ c ∈ before ++ after, isBlank c = true) ∧ digits ≠ [] ∧
    List.Forall₂ (fun c v => digitValue? c = some v) digits values ∧
    n = Nat.ofDigits 10 values.reverse

section digits
variable {c : Char} {v : Nat}

theorem digitValue?_eq_some (h : digitValue? c = some v) :
    ∃ z ∈ zeros, c.toNat = z + v ∧ v < 10 := by
  obtain ⟨z, hz, rfl⟩ := Option.map_eq_some_iff.mp h
  have hr := List.find?_some hz
  simp only [Bool.and_eq_true, decide_eq_true_eq] at hr
  exact ⟨z, List.mem_of_find?_eq_some hz, by omega, by omega⟩

theorem blankRuns_apart : ∀ z ∈ zeros, ∀ r ∈ blankRuns, z + 10 ≤ r.1 ∨ r.2 < z := by
    decide

theorem isBlank_of_isDigit (h : isDigit c = true) : isBlank c = false := by
  obtain ⟨v, hv⟩ := Option.isSome_iff_exists.mp h
  obtain ⟨z, hz, hc, hlt⟩ := digitValue?_eq_some hv
  rw [isBlank, within, Bool.eq_false_iff]
  intro hany
  obtain ⟨r, hr, hin⟩ := List.any_eq_true.mp hany
  simp only [Bool.and_eq_true, decide_eq_true_eq] at hin
  rcases blankRuns_apart z hz r hr with ha | ha <;> omega

theorem digitValue?_of_isDigit (h : c.isDigit = true) : digitValue? c = some (c.toNat - 48) := by
  simp only [Char.isDigit, Bool.and_eq_true, decide_eq_true_eq] at h
  have hlow : 48 ≤ c.toNat := h.1
  have hhigh : c.toNat ≤ 57 := h.2
  rw [digitValue?, zeros, List.find?_cons_of_pos (by simp; omega)]
  rfl

end digits

section strip
variable {before digits after : List Char}

theorem dropWhile_isBlank_digits (hd : ∀ c ∈ digits, isDigit c = true) (rest : List Char)
    (hne : digits ≠ []) : (digits ++ rest).dropWhile isBlank = digits ++ rest := by
  obtain ⟨d, ds, rfl⟩ := List.exists_cons_of_ne_nil hne
  exact List.dropWhile_cons_of_neg (by simp [isBlank_of_isDigit (hd d (List.mem_cons_self ..))])

theorem strip_surrounded (hb : ∀ c ∈ before ++ after, isBlank c = true) (hne : digits ≠ [])
    (hd : ∀ c ∈ digits, isDigit c = true) : strip (before ++ digits ++ after) = digits := by
  have hbefore : ∀ c ∈ before, isBlank c = true := fun c hc => hb c (List.mem_append_left _ hc)
  have hafter : ∀ c ∈ after.reverse, isBlank c = true :=
    fun c hc => hb c (List.mem_append_right _ (List.mem_reverse.mp hc))
  have hrev : ∀ c ∈ digits.reverse, isDigit c = true :=
    fun c hc => hd c (List.mem_reverse.mp hc)
  have hend := dropWhile_isBlank_digits hrev [] (by simpa using hne)
  rw [List.append_nil] at hend
  rw [strip, List.append_assoc, List.dropWhile_append_of_pos hbefore,
    dropWhile_isBlank_digits hd after hne, List.reverse_append, List.dropWhile_append_of_pos hafter,
    hend, List.reverse_reverse]

theorem exists_surrounded (cs : List Char) :
    ∃ before after, cs = before ++ strip cs ++ after ∧
    ∀ c ∈ before ++ after, isBlank c = true := by
  refine ⟨cs.takeWhile isBlank, ((cs.dropWhile isBlank).reverse.takeWhile isBlank).reverse, ?_,
    ?_⟩
  · rw [strip, List.append_assoc, ← List.reverse_append, List.takeWhile_append_dropWhile,
      List.reverse_reverse, List.takeWhile_append_dropWhile]
  · intro c hc
    rcases List.mem_append.mp hc with hc | hc
    · exact List.mem_takeWhile_imp hc
    · exact List.mem_takeWhile_imp (List.mem_reverse.mp hc)

end strip

section denote
variable {digits : List Char} {values : List Nat}

theorem denote_eq_ofDigits (h : List.Forall₂ (fun c v => digitValue? c = some v) digits values) :
    denote digits = Nat.ofDigits 10 values.reverse := by
  -- the number read so far moves one place to the left with every digit that follows
  have hfold : ∀ n, digits.foldl (fun n c => 10 * n + (digitValue? c).getD 0) n =
      n * 10 ^ values.length + Nat.ofDigits 10 values.reverse := by
    induction h with
    | nil => simp
    | cons hv _ ih =>
      intro n
      rw [List.foldl_cons, ih, hv, Option.getD_some, List.length_cons, Nat.ofDigits_reverse_cons,
        Nat.pow_succ]
      ring
  have hzero := hfold 0
  rwa [Nat.zero_mul, Nat.zero_add] at hzero

theorem exists_values (hd : ∀ c ∈ digits, isDigit c = true) :
    ∃ values, List.Forall₂ (fun c v => digitValue? c = some v) digits values := by
  induction digits with
  | nil => exact ⟨[], .nil⟩
  | cons c cs ih =>
    obtain ⟨v, hv⟩ := Option.isSome_iff_exists.mp (hd c (List.mem_cons_self ..))
    obtain ⟨vs, hvs⟩ := ih fun c hc => hd c (List.mem_cons_of_mem _ hc)
    exact ⟨v :: vs, .cons hv hvs⟩

end denote

theorem isNumeral_iff {cs : List Char} :
    isNumeral cs = true ↔ cs ≠ [] ∧ ∀ c ∈ cs, isDigit c = true := by
  simp [isNumeral]

theorem spells_iff_writes {t : String} {n : Nat} : Spells t n ↔ Writes t.toList n := by
  constructor
  · rintro ⟨hn, rfl⟩
    obtain ⟨hne, hd⟩ := isNumeral_iff.mp hn
    obtain ⟨before, after, ht, hb⟩ := exists_surrounded t.toList
    obtain ⟨values, hv⟩ := exists_values hd
    exact ⟨before, _, after, values, ht, hb, hne, hv, denote_eq_ofDigits hv⟩
  · rintro ⟨before, digits, after, values, ht, hb, hne, hv, rfl⟩
    have hd : ∀ c ∈ digits, isDigit c = true := by
      intro c hc
      obtain ⟨v, -, hcv⟩ := Outcome.exists_of_forall₂ hv hc
      exact Option.isSome_iff_exists.mpr ⟨v, hcv⟩
    have hs : strip t.toList = digits := by rw [ht, strip_surrounded hb hne hd]
    rw [Spells, Numeral, hs]
    exact ⟨isNumeral_iff.mpr ⟨hne, hd⟩, denote_eq_ofDigits hv⟩

theorem length_strip_le (cs : List Char) : (strip cs).length ≤ cs.length := by
  obtain ⟨before, after, hcs, -⟩ := exists_surrounded cs
  have hl := congrArg List.length hcs
  simp only [List.length_append] at hl
  omega

theorem not_overlong_of_length_le {t : String} (h : t.toList.length ≤ Number.digitLimit) :
    ¬ Overlong t :=
  fun ho => absurd (length_strip_le t.toList) (by have := ho.2; omega)

section writes
variable {cs : List Char} {m n : Nat}

theorem Writes.unique (h : Writes cs m) (h' : Writes cs n) : m = n := by
  rw [← String.toList_ofList (l := cs)] at h h'
  exact (spells_iff_writes.mpr h).unique (spells_iff_writes.mpr h')

theorem writes_toDigits (n : Nat) : Writes (Nat.toDigits 10 n) n := by
  have hd : ∀ c ∈ Nat.toDigits 10 n, digitValue? c = some (c.toNat - 48) := fun c hc =>
    digitValue?_of_isDigit (Nat.isDigit_of_mem_toDigits (by decide) (by decide) hc)
  have hv : List.Forall₂ (fun c v => digitValue? c = some v) (Nat.toDigits 10 n)
      ((Nat.toDigits 10 n).map fun c => c.toNat - 48) := by
    rw [List.forall₂_map_right_iff, List.forall₂_same]
    exact hd
  refine ⟨[], _, [], _, by simp, by simp, Nat.toDigits_ne_nil, hv, ?_⟩
  rw [← denote_eq_ofDigits hv, denote]
  calc n = Nat.ofDigitChars 10 (Nat.toDigits 10 n) 0 := Nat.ofDigitChars_ten_toDigits.symm
    _ = _ := by
      rw [Nat.ofDigitChars]
      refine List.foldl_ext _ _ 0 fun k c hc => ?_
      rw [hd c hc]
      rfl

theorem not_writes_of_sign (n : Nat) : ¬ Writes ('-' :: cs) n := by
  rintro ⟨before, digits, after, values, hcs, hb, hne, hv, -⟩
  obtain ⟨d, ds, rfl⟩ := List.exists_cons_of_ne_nil hne
  cases before with
  | nil =>
    rw [List.nil_append, List.cons_append, List.cons.injEq] at hcs
    obtain ⟨v, -, hd⟩ := Outcome.exists_of_forall₂ hv (List.mem_cons_self ..)
    have hnone : digitValue? '-' = none := by decide
    rw [hcs.1, hd] at hnone
    cases hnone
  | cons b bs =>
    rw [List.cons_append, List.cons_append, List.cons.injEq] at hcs
    have hblank := hb b (List.mem_append_left _ (List.mem_cons_self ..))
    rw [← hcs.1] at hblank
    exact absurd hblank (by decide)

end writes
end Text

namespace Settings
open Text
variable {s : Settings} {key t : String}

/-- The text in effect for a key: that of its override, or where it has none that of its default. -/
def Has (s : Settings) (key t : String) : Prop :=
  s.overrides.get? key = some (.text t) ∨
    s.overrides.get? key = none ∧ ∃ e, s.catalog.find? (·.1 = key) = some e ∧
    e.2.default = .text t

/-- Nothing is in effect for a key. -/
def Lacks (s : Settings) (key : String) : Prop :=
  s.overrides.get? key = none ∧ ∀ e, s.catalog.find? (·.1 = key) = some e →
  e.2.default = .null

theorem get_of_has (h : s.Has key t) : s.get key = .text t := by
  rw [get]
  obtain h | ⟨hnone, e, he, hd⟩ := h
  · rw [h]
  · rw [hnone, he]
    exact hd

theorem get_of_lacks (h : s.Lacks key) : s.get key = .null := by
  rw [get, h.1]
  cases he : s.catalog.find? (·.1 = key) with
  | none => rfl
  | some e => exact h.2 e he

/-- A text in effect is read as the number that it writes, or refused where it writes none. -/
theorem getCount?_cases (h : s.Has key t) (hl : ¬ Overlong t) :
    (∃ n, Writes t.toList n ∧ s.getCount? key = .ok (some n)) ∨
      (∀ n, ¬ Writes t.toList n) ∧
        s.getCount? key = .error (.configuration (.notANumber key (.text t))) := by
  rw [getCount?, get_of_has h]
  dsimp only
  obtain ⟨n, hn, hr⟩ | ⟨hn, hr⟩ := readCount_cases hl
  · exact .inl ⟨n, spells_iff_writes.mp hn, by rw [hr]; rfl⟩
  · exact .inr ⟨fun n h => hn n (spells_iff_writes.mpr h), by rw [hr]; rfl⟩

theorem getCount?_eq_ok_iff (h : s.Has key t) (hl : ¬ Overlong t) {n : Nat} :
    s.getCount? key = .ok (some n) ↔ Writes t.toList n := by
  obtain ⟨m, hm, hr⟩ | ⟨hm, hr⟩ := getCount?_cases h hl
  · rw [hr]
    constructor
    · intro h
      cases h
      exact hm
    · intro h
      rw [hm.unique h]
  · rw [hr]
    exact ⟨nofun, fun h => absurd h (hm n)⟩

theorem getCount?_eq_error (h : s.Has key t) (hl : ¬ Overlong t)
    (hn : ∀ n, ¬ Writes t.toList n) :
    s.getCount? key = .error (.configuration (.notANumber key (.text t))) := by
  obtain ⟨n, hw, -⟩ | ⟨-, hr⟩ := getCount?_cases h hl
  · exact absurd hw (hn n)
  · exact hr

theorem batchSize_of_lacks (h : s.Lacks batchSizeKey) :
    s.batchSize = .error (.configuration (.notPositive batchSizeKey none)) := by
  rw [batchSize, getCount?, get_of_lacks h]
  rfl

end Settings

section ports
open Text
variable {v : Datum} {t source : String} {n : Nat}

theorem readPort_eq_ok_iff (hv : v.plain = t) (hl : ¬ Overlong t) :
    readPort v source = .ok n ↔ Writes t.toList n ∧ n ≤ 65535 := by
  rw [← spells_iff_writes]
  obtain ⟨m, hle, hs, hr⟩ | ⟨hs, hr⟩ := readPort_cases hv hl source
  · rw [hr]
    constructor
    · intro h
      cases h
      exact ⟨hs, hle⟩
    · rintro ⟨hs', -⟩
      rw [hs.unique hs']
  · rw [hr]
    exact ⟨nofun, fun ⟨hs', hle⟩ => absurd hs' (hs n hle)⟩

theorem readPort_eq_error (hv : v.plain = t) (hl : ¬ Overlong t)
    (h : ∀ n, Writes t.toList n → 65535 < n) :
    readPort v source = .error (.configuration (.badPort source v)) := by
  obtain ⟨m, hle, hs, -⟩ | ⟨-, hr⟩ := readPort_cases hv hl source
  · exact absurd (h m (spells_iff_writes.mp hs)) (Nat.not_lt.mpr hle)
  · exact hr

theorem writes_int_iff {p : Int} {n : Nat} : Writes (toString p).toList n ↔ p = n := by
  cases p with
  | ofNat m =>
    have ht : (toString (Int.ofNat m)).toList = Nat.toDigits 10 m := Nat.toList_repr ..
    rw [ht]
    constructor
    · intro h
      rw [(writes_toDigits m).unique h]
      rfl
    · intro h
      rw [← Int.ofNat.inj h]
      exact writes_toDigits m
  | negSucc m =>
    have ht : (toString (Int.negSucc m)).toList = '-' :: (Nat.repr (m + 1)).toList := by
      rw [show toString (Int.negSucc m) = "-" ++ Nat.repr (m + 1) from rfl, String.toList_append]
      rfl
    rw [ht]
    exact ⟨fun h => absurd h (not_writes_of_sign n), nofun⟩

theorem not_overlong_int {p : Int} (hp : p.natAbs < 10 ^ Number.digitLimit) :
    ¬ Overlong (toString p) := by
  rintro ⟨hn, hlong⟩
  obtain ⟨n, hw⟩ : ∃ n, Writes (toString p).toList n :=
    ⟨_, spells_iff_writes.mp ⟨hn, rfl⟩⟩
  obtain rfl := writes_int_iff.mp hw
  have ht : (toString (n : Int)).toList = Nat.toDigits 10 n := Nat.toList_repr ..
  have hdigits : (Nat.toDigits 10 n).length ≤ Number.digitLimit := by
    rw [Nat.length_toDigits_le_iff (by decide) (by decide)]
    exact hp
  rw [ht] at hlong
  exact absurd (length_strip_le (Nat.toDigits 10 n)) (by omega)

end ports

namespace Settings
open Text
variable {s : Settings} {t : String}

theorem batchSize_eq_ok_iff (h : s.Has batchSizeKey t) (hl : ¬ Overlong t) {n : Nat} :
    s.batchSize = .ok n ↔ 0 < n ∧ Writes t.toList n := by
  rw [← spells_iff_writes]
  obtain ⟨m, hpos, hs, hr⟩ | ⟨hs, g, hr⟩ := batchSize_cases (get_of_has h) hl
  · rw [hr]
    constructor
    · intro h
      cases h
      exact ⟨hpos, hs⟩
    · rintro ⟨-, hs'⟩
      rw [hs.unique hs']
  · rw [hr]
    exact ⟨nofun, fun ⟨hpos, hs'⟩ => absurd hs' (hs n hpos)⟩

theorem batchSize_eq_error_iff (h : s.Has batchSizeKey t) (hl : ¬ Overlong t) :
    (∃ g, s.batchSize = .error (.configuration g)) ↔
      (∀ n, ¬ Writes t.toList n) ∨ Writes t.toList 0 := by
  constructor
  · rintro ⟨g, hg⟩
    by_cases hw : ∃ n, Writes t.toList n
    · obtain ⟨n, hn⟩ := hw
      rcases Nat.eq_zero_or_pos n with rfl | hpos
      · exact .inr hn
      · cases hg.symm.trans ((batchSize_eq_ok_iff h hl).mpr ⟨hpos, hn⟩)
    · exact .inl (not_exists.mp hw)
  · intro hw
    obtain ⟨n, hpos, hs, -⟩ | ⟨-, hg⟩ := batchSize_cases (get_of_has h) hl
    · have hn := spells_iff_writes.mp hs
      obtain hw | hzero := hw
      · exact absurd hn (hw n)
      · exact absurd (hn.unique hzero) (Nat.ne_of_gt hpos)
    · exact hg

end Settings

namespace Context
open Text

/-- A context at a port that is a whole number keeps that number, which is a number of a port. -/
theorem atHost_cases (host : Datum) (settings : Assignments) (client : Client) {p : Int}
    (hp : p.natAbs < 10 ^ Number.digitLimit) :
    (0 ≤ p ∧ p ≤ 65535 ∧
        atHost host (.int p) settings client = .ok (.remote host p.toNat settings client)) ∨
      ¬ (0 ≤ p ∧ p ≤ 65535) ∧
        atHost host (.int p) settings client =
          .error (.configuration (.badPort "port" (.int p))) := by
  have hplain : (Datum.int p).plain = toString p := rfl
  have hl := not_overlong_int hp
  by_cases hrange : 0 ≤ p ∧ p ≤ 65535
  · refine .inl ⟨hrange.1, hrange.2, ?_⟩
    have hwrites : Writes (toString p).toList p.toNat :=
      writes_int_iff.mpr (Int.toNat_of_nonneg hrange.1).symm
    have hport : readPort (.int p) "port" = .ok p.toNat :=
      (readPort_eq_ok_iff hplain hl).mpr ⟨hwrites, by omega⟩
    rw [atHost, hport, Outcome.ok_bind]
  · refine .inr ⟨hrange, ?_⟩
    have hport : readPort (.int p) "port" = .error (.configuration (.badPort "port" (.int p))) := by
      refine readPort_eq_error hplain hl fun n hn => ?_
      have := writes_int_iff.mp hn
      omega
    rw [atHost, hport, Outcome.error_bind]

end Context

open Text in
/-- A setting and a port are read from the same texts, those that write a number, and as the number
written; a port must not be above 65535, a batch size not zero, and a context at a host is given its
port as a whole number. All that is refused is refused as a configuration. -/
theorem numbers_read :
    (∀ (s : Settings) (key t source : String), s.Has key t →
      t.toList.length ≤ Number.digitLimit →
      (∀ n, s.getCount? key = .ok (some n) ↔ Writes t.toList n) ∧
      ((∀ n, ¬ Writes t.toList n) →
        s.getCount? key = .error (.configuration (.notANumber key (.text t)))) ∧
      (∀ n, readPort (.text t) source = .ok n ↔ Writes t.toList n ∧ n ≤ 65535) ∧
      ((∀ n, Writes t.toList n → 65535 < n) →
        readPort (.text t) source = .error (.configuration (.badPort source (.text t)))) ∧
      ∀ m n, s.getCount? key = .ok (some m) → readPort (.text t) source = .ok n → m = n) ∧
    (∀ (s : Settings) n, s.batchSize = .ok n → 0 < n) ∧
    (∀ s : Settings, s.Lacks batchSizeKey →
      ∃ g, s.batchSize = .error (.configuration g)) ∧
    (∀ (s : Settings) t, s.Has batchSizeKey t → t.toList.length ≤ Number.digitLimit →
      (∀ n, s.batchSize = .ok n ↔ 0 < n ∧ Writes t.toList n) ∧
      ((∃ g, s.batchSize = .error (.configuration g)) ↔
        (∀ n, ¬ Writes t.toList n) ∨ Writes t.toList 0)) ∧
    ∀ (host : Datum) (p : Int) (settings : Assignments) (client : Client),
      p.natAbs < 10 ^ Number.digitLimit →
      (∀ c, Context.atHost host (.int p) settings client = .ok c ↔
        0 ≤ p ∧ p ≤ 65535 ∧ c = .remote host p.toNat settings client) ∧
      (¬ (0 ≤ p ∧ p ≤ 65535) →
        ∃ g, Context.atHost host (.int p) settings client = .error (.configuration g)) := by
  refine ⟨fun s key t source ht hlen => ?_, fun s n => Settings.batchSize_pos,
    fun s hs => ⟨_, Settings.batchSize_of_lacks hs⟩, fun s t ht hlen => ?_,
    fun host p settings client hp => ?_⟩
  · have hl := not_overlong_of_length_le hlen
    have hcount : ∀ n, s.getCount? key = .ok (some n) ↔ Writes t.toList n :=
      fun n => Settings.getCount?_eq_ok_iff ht hl
    have hport : ∀ n, readPort (.text t) source = .ok n ↔ Writes t.toList n ∧ n ≤ 65535 :=
      fun n => readPort_eq_ok_iff rfl hl
    refine ⟨hcount, Settings.getCount?_eq_error ht hl, hport, readPort_eq_error rfl hl, ?_⟩
    exact fun m n hm hn => ((hcount m).mp hm).unique ((hport n).mp hn).1
  · have hl := not_overlong_of_length_le hlen
    exact ⟨fun n => Settings.batchSize_eq_ok_iff ht hl, Settings.batchSize_eq_error_iff ht hl⟩
  · obtain ⟨hlow, hhigh, hr⟩ | ⟨hrange, hr⟩ := Context.atHost_cases host settings client hp
    · rw [hr]
      refine ⟨fun c => ⟨?_, ?_⟩, fun hn => absurd ⟨hlow, hhigh⟩ hn⟩
      · intro h
        cases h
        exact ⟨hlow, hhigh, rfl⟩
      · rintro ⟨-, -, rfl⟩
        rfl
    · rw [hr]
      exact ⟨fun c => ⟨nofun, fun ⟨hlow, hhigh, _⟩ => absurd ⟨hlow, hhigh⟩ hrange⟩,
        fun _ => ⟨_, rfl⟩⟩

open Text in
/-- Digits of four scripts after a tab and before an ideographic space are one number, for a setting
as for a port; and the first number above the range of ports is refused. -/
theorem numbers_read_mixed :
    Settings.getCount? ⟨[("n", .text "\t0٤२7\u3000")], []⟩ "n" = .ok (some 427) ∧
      readPort (.text "\t0٤२7\u3000") "port" = .ok 427 ∧
      ∃ g, Context.atHost (.text "localhost") (.int 65536) [] ⟨fun _ _ _ => pure []⟩ =
        .error (.configuration g) := by
  obtain ⟨hread, -, -, -, hplace⟩ := numbers_read
  have hblank : ∀ c ∈ ['\t', '\u3000'], isBlank c = true := List.all_eq_true.mp (by decide)
  have hw : Writes "\t0٤२7\u3000".toList 427 :=
    ⟨['\t'], ['0', '٤', '२', '7'], ['\u3000'], [0, 4, 2, 7], by decide, hblank, by decide,
      by decide, by decide⟩
  have hfive : 5 ≤ Number.digitLimit := by
    rw [Number.digitLimit]
    omega
  have hp : (65536 : Int).natAbs < 10 ^ Number.digitLimit :=
    calc (65536 : Int).natAbs < 10 ^ 5 := by decide
      _ ≤ 10 ^ Number.digitLimit := Nat.pow_le_pow_right (by decide) hfive
  obtain ⟨hcount, -, hport, -⟩ := hread ⟨[("n", .text "\t0٤२7\u3000")], []⟩ "n"
    "\t0٤२7\u3000" "port" (.inl rfl) (by decide)
  exact ⟨(hcount 427).mpr hw, (hport 427).mpr ⟨hw, by decide⟩,
    (hplace (.text "localhost") 65536 [] ⟨fun _ _ _ => pure []⟩ hp).2 (by decide)⟩

end LazyQuery
