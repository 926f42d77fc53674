import LazyQuery.Proofs.Engine.Denotation
import LazyQuery.Proofs.Engine.Evenness
import LazyQuery.Proofs.Engine.KeyEquality

/-! Groups of rows. The keys of a grouping are those that differ, each where it appears first, and
the rows of a group are those of its key. A formula whose every column lies under an aggregate has
for each group the value that it has over the rows of that group alone, but for one thing: a lone
value is divided as a cell by a cell, and several are not. -/
namespace LazyQuery.Engine

section keys
variable {keys : List (List Cell)} {k d : List Cell} {g : Nat}

theorem distinctKeys_cons (k : List Cell) (keys : List (List Cell)) :
    distinctKeys (k :: keys) = k :: distinctKeys (keys.filter fun l => !sameKey l k) := by
  rw [distinctKeys, List.eraseDupsBy_cons, distinctKeys]
  congr 2
  apply List.filter_congr
  intro l _
  cases sameKey l k <;> rfl

/-- What holds of a key before others if it holds of those others that differ from it
holds of all keys. -/
theorem keys_induction {P : List (List Cell) → Prop} (nil : P [])
    (cons : ∀ k keys, P (keys.filter fun l => !sameKey l k) → P (k :: keys)) :
    (keys : List (List Cell)) → P keys
  | [] => nil
  | k :: keys => cons k keys (keys_induction nil cons _)
  termination_by keys => keys.length
  decreasing_by exact Nat.lt_succ_of_le (List.length_filter_le ..)

/-- Keys that differ among given ones, each where it appears first. -/
structure Firsts (keys firsts : List (List Cell)) : Prop where
  sublist : firsts.Sublist keys
  distinct : firsts.Pairwise fun k l => sameKey k l = false
  complete : ∀ k ∈ keys, ∃ d ∈ firsts, sameKey k d = true
  first : ∀ d ∈ firsts, keys.find? (sameKey d) = some d

theorem find?_filter_sameKey (hd : sameKey d k = false) :
    (keys.filter fun l => !sameKey l k).find? (sameKey d) = keys.find? (sameKey d) := by
  rw [List.find?_filter]
  congr 1
  funext l
  rw [Bool.eq_iff_iff, decide_eq_true_eq]
  refine and_iff_right_of_imp fun hl => ?_
  rw [← sameKey_congr hl, hd]
  rfl

theorem firsts_distinctKeys (keys : List (List Cell)) : Firsts keys (distinctKeys keys) := by
  induction keys using keys_induction with
  | nil => exact ⟨.slnil, .nil, nofun, nofun⟩
  | cons l keys ih =>
    have hdiffers : ∀ d ∈ distinctKeys (keys.filter fun k => !sameKey k l),
        sameKey d l = false := by
      intro d hd
      simpa using List.of_mem_filter (ih.sublist.mem hd)
    rw [distinctKeys_cons]
    refine ⟨(ih.sublist.trans List.filter_sublist).cons_cons l, ?_, ?_, ?_⟩
    · exact List.pairwise_cons.mpr ⟨fun d hd => by rw [sameKey_comm,
        hdiffers d hd], ih.distinct⟩
    · intro k hk
      cases hs : sameKey k l with
      | true => exact ⟨l, List.mem_cons_self .., hs⟩
      | false =>
        have hne : k ≠ l := by
          rintro rfl
          rw [sameKey_self] at hs
          cases hs
        have hm : k ∈ keys.filter fun k => !sameKey k l := by
          rw [List.mem_filter, hs]
          exact ⟨(List.mem_cons.mp hk).resolve_left hne, rfl⟩
        obtain ⟨d, hd, hkd⟩ := ih.complete k hm
        exact ⟨d, List.mem_cons_of_mem _ hd, hkd⟩
    · intro d hd
      rcases List.mem_cons.mp hd with rfl | hd
      · rw [List.find?_cons, sameKey_self]
      · rw [List.find?_cons, hdiffers d hd]
        exact (find?_filter_sameKey (hdiffers d hd)).symm.trans (ih.first d hd)

theorem findIdx_distinctKeys (hd : (distinctKeys keys)[g]? = some d) :
    (distinctKeys keys).findIdx (sameKey k) = g ↔ sameKey d k = true := by
  obtain ⟨hg, rfl⟩ := List.getElem?_eq_some_iff.mp hd
  rw [List.findIdx_eq hg, sameKey_comm]
  refine and_iff_left_of_imp fun hk j hj => ?_
  have hne := List.pairwise_iff_getElem.mp (firsts_distinctKeys keys).distinct j g (by omega) hg hj
  rw [sameKey_comm] at hk
  rw [sameKey_congr hk, sameKey_comm, hne]

/-- What stands at the rows of a key. -/
def membersOf {α : Type} (keys : List (List Cell)) (key : List Cell) (xs : List α) : List α :=
  ((xs.zip keys).filter fun e => sameKey key e.2).map (·.1)

theorem membersOf_ne_nil {α : Type} {xs : List α} (hk : k ∈ keys)
    (hx : keys.length ≤ xs.length) :
    membersOf keys k xs ≠ [] := by
  obtain ⟨i, hi, rfl⟩ := List.getElem_of_mem hk
  have hz : i < (xs.zip keys).length := by
    rw [List.length_zip]
    omega
  have hmem : (xs.zip keys)[i] ∈ (xs.zip keys).filter fun e => sameKey keys[i] e.2 := by
    refine List.mem_filter.mpr ⟨List.getElem_mem hz, ?_⟩
    rw [List.getElem_zip]
    exact sameKey_self keys[i]
  exact List.ne_nil_of_mem (List.mem_map_of_mem hmem)

theorem gather_ofKeys {α : Type} (hd : (distinctKeys keys)[g]? = some d) (xs : List α) :
    (Partition.ofKeys keys).gather g xs = membersOf keys d xs := by
  rw [Partition.gather, Partition.ofKeys, List.zip_map_right, List.filter_map, List.map_map,
    membersOf]
  congr 1
  apply List.filter_congr
  intro e _
  rw [Bool.eq_iff_iff, ← findIdx_distinctKeys hd]
  exact decide_eq_true_iff

end keys

section gathering
variable {α β γ : Type} (p : Partition) (g : Nat)

theorem gather_cons (o n : Nat) (owner : List Nat) (x : α) (xs : List α) :
    Partition.gather ⟨o :: owner, n⟩ g (x :: xs) =
      if o = g then x :: Partition.gather ⟨owner, n⟩ g xs else Partition.gather ⟨owner,
        n⟩ g xs := by
  by_cases h : o = g <;> simp [Partition.gather, h]

theorem gather_map (f : α → β) (xs : List α) : p.gather g (xs.map f) =
    (p.gather g xs).map f := by
  simp only [Partition.gather, List.zip_map_left, List.filter_map, List.map_map]
  rfl

theorem gather_zipWith (f : α → β → γ) {xs : List α} {ys : List β}
    (h : xs.length = p.owner.length) (h' : ys.length = p.owner.length) :
    p.gather g (List.zipWith f xs ys) = List.zipWith f (p.gather g xs) (p.gather g ys) := by
  obtain ⟨owner, n⟩ := p
  induction owner generalizing xs ys with
  | nil =>
    obtain rfl := List.length_eq_zero_iff.mp h
    rfl
  | cons o owner ih =>
    obtain ⟨x, xs, rfl⟩ := List.exists_cons_of_length_eq_add_one h
    obtain ⟨y, ys, rfl⟩ := List.exists_cons_of_length_eq_add_one h'
    have ih := @ih xs ys (by simpa using h) (by simpa using h')
    rw [List.zipWith_cons_cons, gather_cons, gather_cons, gather_cons, ih]
    split <;> rfl

theorem length_gather {xs : List α} (h : xs.length = p.owner.length) :
    (p.gather g xs).length = p.owner.count g := by
  obtain ⟨owner, n⟩ := p
  induction owner generalizing xs with
  | nil =>
    obtain rfl := List.length_eq_zero_iff.mp h
    rfl
  | cons o owner ih =>
    obtain ⟨x, xs, rfl⟩ := List.exists_cons_of_length_eq_add_one h
    have ih := @ih xs (by simpa using h)
    dsimp only at ih ⊢
    rw [gather_cons, List.count_cons]
    split
    · rename_i ho
      rw [List.length_cons, ih]
      simp [ho]
    · rename_i ho
      simp [ih, ho]

theorem gather_spread {cs : List Deferred} {c : Deferred} (hc : cs[g]? = some c) :
    p.gather g (p.spread cs) = List.replicate (p.owner.count g) c := by
  obtain ⟨owner, n⟩ := p
  induction owner with
  | nil => rfl
  | cons o owner ih =>
    rw [Partition.spread, List.map_cons, gather_cons, List.count_cons]
    rw [Partition.spread] at ih
    dsimp only at ih ⊢
    rw [ih]
    split
    · rename_i ho
      subst ho
      simp [hc, List.replicate_succ]
    · rename_i ho
      simp [ho]

end gathering

/-- How a value goes over the rows of a table in groups: one for everything, one for each group, or
one for each row. -/
inductive Scope
  | all | group | row
deriving DecidableEq

def Scope.meet : Scope → Scope → Scope
  | .row, _ | _, .row => .row
  | .group, _ | _, .group => .group
  | .all, .all => .all

namespace Formula

def scope : Formula → Scope
  | .column _ => .row
  | .constant _ => .all
  | .cast _ _ f | .negate _ f | .isNull f | .isNotNull f => f.scope
  | .combine _ l r => l.scope.meet r.scope
  | .reduce _ _ f => if f.scope = .all then .all else .group

/-- Every aggregate exists without groups as well. -/
def isReducible : Formula → Bool
  | .column _ | .constant _ => true
  | .cast _ _ f | .negate _ f | .isNull f | .isNotNull f => f.isReducible
  | .combine _ l r => l.isReducible && r.isReducible
  | .reduce r t f => reducible false r t && f.isReducible

end Formula

/-- Values of these scopes are divided by one another in the same way in groups and in one of them:
the values at rows by one value where `rows` says so, and those of groups by one value where
`groups` says so. -/
def Kernel.dividesAlike (rows groups : Bool) (k : Kernel) : Scope → Scope → Bool
  | .row, .all => rows || !k.divides
  | .group, .all => groups || !k.divides
  | .row, .group => !k.divides
  | _, _ => true

def Formula.dividesAlike (rows groups : Bool) : Formula → Bool
  | .column _ | .constant _ => true
  | .cast _ _ f | .negate _ f | .isNull f | .isNotNull f | .reduce _ _ f =>
      f.dividesAlike rows groups
  | .combine k l r =>
    l.dividesAlike rows groups && r.dividesAlike rows groups && k.dividesAlike rows groups l.scope
      r.scope

def Extent.scope : Extent → Scope
  | .one _ => .all
  | .groups _ => .group
  | .rows _ => .row

section evaluation
variable {p : Partition} {g : Nat} {a a' b b' : Extent} {columns : List (List Deferred)}

theorem Extent.scope_map (f : Cell → Deferred) (e : Extent) : (e.map f).scope = e.scope := by
  cases e <;> rfl

theorem Extent.scope_combine (k : Kernel) (a b : Extent) :
    (a.combine p k b).scope = a.scope.meet b.scope := by
  cases a <;> cases b <;> rfl

theorem Extent.scope_reduce (r : Reduction) (t : ColumnType) (e : Extent) :
    (e.reduce (some p) r t).scope = if e.scope = .all then .all else .group := by
  cases e <;> rfl

theorem scope_eval {f : Formula} {e : Extent} (h : f.eval (some p) columns = .ok e) :
    e.scope = f.scope := by
  induction f generalizing e with
  | column i =>
    rw [Formula.eval] at h
    split at h
    · cases h
      rfl
    · cases h
  | constant c =>
    cases h
    rfl
  | combine k l r ihl ihr =>
    obtain ⟨x, hx, h⟩ := Outcome.bind_eq_ok.mp h
    obtain ⟨y, hy, h⟩ := Outcome.bind_eq_ok.mp h
    cases h
    rw [Extent.scope_combine, ihl hx, ihr hy]
    rfl
  | reduce r t f ih =>
    obtain ⟨x, hx, h⟩ := Outcome.bind_eq_ok.mp h
    split at h
    · cases h
      rw [Extent.scope_reduce, ih hx]
      rfl
    · cases h
  | cast s t f ih =>
    obtain ⟨x, hx, h⟩ := Outcome.bind_eq_ok.mp h
    cases h
    exact (Extent.scope_map ..).trans (ih hx)
  | negate t f ih =>
    obtain ⟨x, hx, h⟩ := Outcome.bind_eq_ok.mp h
    cases h
    exact (Extent.scope_map ..).trans (ih hx)
  | isNull f ih =>
    obtain ⟨x, hx, h⟩ := Outcome.bind_eq_ok.mp h
    cases h
    exact (Extent.scope_map ..).trans (ih hx)
  | isNotNull f ih =>
    obtain ⟨x, hx, h⟩ := Outcome.bind_eq_ok.mp h
    cases h
    exact (Extent.scope_map ..).trans (ih hx)

/-- The values over rows in groups, and those over the rows of one group alone. -/
inductive Extent.AtGroup (p : Partition) (g : Nat) : Extent → Extent → Prop
  | one (c : Deferred) : AtGroup p g (.one c) (.one c)
  | rows {cs : List Deferred} : cs.length = p.owner.length →
      AtGroup p g (.rows cs) (.rows (p.gather g cs))
  | groups {cs : List Deferred} {c : Deferred} : cs.length = p.count → cs[g]? = some c →
    AtGroup p g (.groups cs) (.one c)

namespace Extent.AtGroup

theorem map (f : Cell → Deferred) (h : a.AtGroup p g a') : (a.map f).AtGroup p g (a'.map f) := by
  cases h with
  | one c => exact .one _
  | rows hlen =>
    rw [Extent.map, Extent.map, ← gather_map]
    exact .rows ((List.length_map _).trans hlen)
  | groups hlen hc =>
    exact .groups ((List.length_map _).trans hlen) (by rw [List.getElem?_map, hc]; rfl)

theorem reduce (hg : g < p.count) (r : Reduction) (t : ColumnType) (h : a.AtGroup p g a') :
    (a.reduce (some p) r t).AtGroup p g (a'.reduce none r t) := by
  cases h with
  | one c => exact .one _
  | rows hlen => exact .groups (by simp [Partition.split]) (by simp [Partition.split, hg])
  | groups hlen hc =>
    exact .groups ((List.length_map _).trans hlen) (by rw [List.getElem?_map, hc]; rfl)

end Extent.AtGroup

theorem applyScalar_eq {k : Kernel} (hk : k.divides = false) : applyScalar k = applyKernel k := by
  funext x y
  simp only [applyScalar, applyKernel, Kernel.applyScalar_eq hk]

theorem againstOne_eq {k : Kernel} (hk : k.divides = false) (xs : List Deferred) (y : Deferred) :
    againstOne k xs y = xs.map fun x => applyKernel k x y := by
  have h := againstOne_map k xs id y
  rw [List.map_id] at h
  rw [h, applyScalar_eq hk]
  simp

theorem length_spread (p : Partition) (cs : List Deferred) :
    (p.spread cs).length = p.owner.length :=
  List.length_map _

theorem gather_spread_eq {xs cs : List Deferred} {c : Deferred} (hx : xs.length = p.owner.length)
    (hc : cs[g]? = some c) : p.gather g (p.spread cs) = (p.gather g xs).map fun _ => c := by
  rw [gather_spread p g hc, List.map_const', length_gather p g hx]

/-- A kernel takes values in groups to values in groups, and those of one group to those of that
group, unless it divides in one way over all rows and in another over those of the group. -/
theorem Extent.AtGroup.combine {rows groups : Bool} {k : Kernel}
    (hrows : rows = true → (p.owner.length = 1 ↔ p.owner.count g = 1))
    (hgroups : groups = true → p.count = 1)
    (hk : k.dividesAlike rows groups a.scope b.scope = true)
    (ha : a.AtGroup p g a') (hb : b.AtGroup p g b') (q : Partition) :
    (a.combine p k b).AtGroup p g (a'.combine q k b') := by
  cases ha with
  | one x =>
    cases hb with
    | one y => exact .one _
    | rows hy =>
      rw [Extent.combine, Extent.combine, ← gather_map]
      exact .rows ((List.length_map _).trans hy)
    | groups hy hc =>
      exact .groups ((List.length_map _).trans hy) (by rw [List.getElem?_map, hc]; rfl)
  | rows hx =>
    rename_i xs
    cases hb with
    | one y =>
      have hagainst : againstOne k (p.gather g xs) y = p.gather g (againstOne k xs y) := by
        cases hd : k.divides with
        | false => rw [againstOne_eq hd, againstOne_eq hd, gather_map]
        | true =>
          have hr : rows = true := by simpa [Kernel.dividesAlike, Extent.scope, hd] using hk
          have hlone : ((p.gather g xs).length == 1) = (xs.length == 1) := by
            rw [length_gather p g hx, hx, Bool.eq_iff_iff, beq_iff_eq, beq_iff_eq, hrows hr]
          have hl := againstOne_map k (p.gather g xs) id y
          have hr := againstOne_map k xs id y
          rw [List.map_id] at hl hr
          rw [hl, hr, gather_map, hlone]
      rw [Extent.combine, Extent.combine, hagainst]
      exact .rows ((length_againstOne ..).trans hx)
    | rows hy =>
      rw [Extent.combine, Extent.combine, ← gather_zipWith p g _ hx hy]
      exact .rows (by rw [List.length_zipWith, hx, hy, Nat.min_self])
    | @groups ys c hy hc =>
      have hd : k.divides = false := by simpa [Kernel.dividesAlike, Extent.scope] using hk
      have hs := length_spread p ys
      have hagainst : againstOne k (p.gather g xs) c =
          p.gather g (xs.zipWith (applyKernel k) (p.spread ys)) := by
        rw [gather_zipWith p g _ hx hs, gather_spread_eq hx hc, againstOne_eq hd,
          List.zipWith_map_right, List.zipWith_self]
      rw [Extent.combine, Extent.combine, hagainst]
      exact .rows (by rw [List.length_zipWith, hx, hs, Nat.min_self])
  | @groups xs x hx hxc =>
    cases hb with
    | one y =>
      refine .groups ((length_againstOne ..).trans hx) ?_
      cases hd : k.divides with
      | false =>
        rw [againstOne_eq hd, List.getElem?_map, hxc]
        rfl
      | true =>
        have hone : groups = true := by simpa [Kernel.dividesAlike, Extent.scope, hd] using hk
        obtain ⟨z, rfl⟩ := List.length_eq_one_iff.mp (hx.trans (hgroups hone))
        obtain ⟨hlt, rfl⟩ := List.getElem?_eq_some_iff.mp hxc
        obtain rfl : g = 0 := Nat.lt_one_iff.mp hlt
        rfl
    | rows hy =>
      rename_i ys
      have hs := length_spread p xs
      have hmap : (p.gather g ys).map (applyKernel k x) =
          p.gather g ((p.spread xs).zipWith (applyKernel k) ys) := by
        rw [gather_zipWith p g _ hs hy, gather_spread_eq hy hxc, List.zipWith_map_left,
          List.zipWith_self]
      rw [Extent.combine, Extent.combine, hmap]
      exact .rows (by rw [List.length_zipWith, hs, hy, Nat.min_self])
    | groups hy hyc =>
      refine .groups (by rw [List.length_zipWith, hx, hy, Nat.min_self]) ?_
      rw [List.getElem?_zipWith, hxc, hyc]

/-- Over the rows of one group a formula has the value that it has for the group. -/
theorem eval_atGroup {rows groups : Bool}
    (hrows : rows = true → (p.owner.length = 1 ↔ p.owner.count g = 1))
    (hgroups : groups = true → p.count = 1) (hg : g < p.count)
    (hc : ∀ c ∈ columns, c.length = p.owner.length) {f : Formula}
    (hd : f.dividesAlike rows groups = true)
    (hr : f.isReducible = true) {e : Extent} (he : f.eval (some p) columns = .ok e) :
    ∃ e', f.eval none (columns.map (p.gather g)) = .ok e' ∧ e.AtGroup p g e' := by
  induction f generalizing e with
  | column i =>
    rw [Formula.eval] at he
    split at he
    · rename_i cs hcs
      cases he
      refine ⟨.rows (p.gather g cs), ?_, .rows (hc cs (List.mem_of_getElem? hcs))⟩
      rw [Formula.eval, List.getElem?_map, hcs]
      rfl
    · cases he
  | constant c =>
    cases he
    exact ⟨_, rfl, .one _⟩
  | combine k l r ihl ihr =>
    obtain ⟨x, hx, he⟩ := Outcome.bind_eq_ok.mp he
    obtain ⟨y, hy, he⟩ := Outcome.bind_eq_ok.mp he
    cases he
    simp only [Formula.dividesAlike, Bool.and_eq_true] at hd
    have hr := (Bool.and_eq_true _ _).mp hr
    obtain ⟨x', hx', hxx⟩ := ihl hd.1.1 hr.1 hx
    obtain ⟨y', hy', hyy⟩ := ihr hd.1.2 hr.2 hy
    have hk := hd.2
    rw [← scope_eval hx, ← scope_eval hy] at hk
    refine ⟨_, ?_, hxx.combine hrows hgroups hk hyy ⟨[], 0⟩⟩
    rw [Formula.eval, hx', hy']
    rfl
  | reduce r t f ih =>
    obtain ⟨x, hx, he⟩ := Outcome.bind_eq_ok.mp he
    have hr := (Bool.and_eq_true _ _).mp hr
    obtain ⟨x', hx', hxx⟩ := ih hd hr.2 hx
    split at he
    · cases he
      refine ⟨_, ?_, hxx.reduce hg r t⟩
      rw [Formula.eval, hx', Outcome.ok_bind]
      exact if_pos hr.1
    · cases he
  | cast s t f ih =>
    obtain ⟨x, hx, he⟩ := Outcome.bind_eq_ok.mp he
    cases he
    obtain ⟨x', hx', hxx⟩ := ih hd hr hx
    exact ⟨_, by rw [Formula.eval, hx']; rfl, hxx.map _⟩
  | negate t f ih =>
    obtain ⟨x, hx, he⟩ := Outcome.bind_eq_ok.mp he
    cases he
    obtain ⟨x', hx', hxx⟩ := ih hd hr hx
    exact ⟨_, by rw [Formula.eval, hx']; rfl, hxx.map _⟩
  | isNull f ih =>
    obtain ⟨x, hx, he⟩ := Outcome.bind_eq_ok.mp he
    cases he
    obtain ⟨x', hx', hxx⟩ := ih hd hr hx
    exact ⟨_, by rw [Formula.eval, hx']; rfl, hxx.map _⟩
  | isNotNull f ih =>
    obtain ⟨x, hx, he⟩ := Outcome.bind_eq_ok.mp he
    cases he
    obtain ⟨x', hx', hxx⟩ := ih hd hr hx
    exact ⟨_, by rw [Formula.eval, hx']; rfl, hxx.map _⟩

end evaluation
end LazyQuery.Engine
