/-! Quotients rounded to the nearest whole number, a half going to the even neighbour, and the
binary numbers of limited precision that lie nearest to a quotient. -/
namespace LazyQuery.Number

-- A power of a whole number is the core library's, whatever else a module imports.
attribute [instance (high), default_instance 20000] instPowNat

/-- The whole number nearest to `num / den`; a half goes to the even neighbour. -/
def roundHalfEven (num den : Nat) : Nat :=
  let q := num / den
  let r := 2 * (num % den)
  if r < den then q else if den < r then q + 1 else q + q % 2

theorem roundHalfEven_within (num : Nat) {den : Nat} (h : 0 < den) :
    2 * (roundHalfEven num den * den) ≤ 2 * num + den ∧
      2 * num ≤ 2 * (roundHalfEven num den * den) + den := by
  have hd : num / den * den + num % den = num := by rw [Nat.mul_comm]; exact Nat.div_add_mod num den
  have hr := Nat.mod_lt num h
  unfold roundHalfEven
  dsimp only
  split
  · omega
  · split
    · rw [Nat.add_mul]; omega
    · rcases Nat.mod_two_eq_zero_or_one (num / den) with hp | hp <;> rw [hp, Nat.add_mul] <;> omega

/-- The numbers `m * 2 ^ e` with at most `precision` bits in `m` and `lowest ≤ e`. -/
structure Grid where
  precision : Nat
  lowest : Int

def Grid.double : Grid := ⟨53, -1074⟩
def Grid.single : Grid := ⟨24, -149⟩
def Grid.half : Grid := ⟨11, -24⟩

/-- `num * 2 ^ (-e) / den`, rounded. -/
def scaled (num den : Nat) (e : Int) : Nat :=
  roundHalfEven (num * 2 ^ (-e).toNat) (den * 2 ^ e.toNat)

/-- The number of the grid nearest to `num / den`, as its whole part and exponent. -/
def Grid.nearest (g : Grid) (num den : Nat) : Nat × Int :=
  let guess : Int := (num.log2 : Int) - den.log2 - g.precision
  let fits := num * 2 ^ (-guess).toNat < den * 2 ^ guess.toNat * 2 ^ g.precision
  let e := max g.lowest (if fits then guess else guess + 1)
  (scaled num den e, e)

end LazyQuery.Number
