import LazyQuery.DataType.Text

/-! The lines of a text, as line feeds divide it. A text has one more line than it has line
feeds, so that texts put together line by line make as many lines as they are exactly if none of
them has a line feed. -/
namespace LazyQuery.Text

def feeds (s : String) : Nat := s.toList.count '\n'

/-- How many line feeds texts have together. -/
def feedsIn : List String → Nat
  | [] => 0
  | x :: xs => feeds x + feedsIn xs

/-- What stands between the line feeds of a text. -/
def lines (s : String) : List String := (s.toList.splitOn '\n').map String.ofList

variable {s : String} {xs : List String}

@[simp] theorem feeds_append (s t : String) : feeds (s ++ t) = feeds s + feeds t := by
  rw [feeds, String.toList_append, List.count_append]
  rfl

@[simp] theorem feeds_ofList (cs : List Char) : feeds (String.ofList cs) = cs.count '\n' := by
  rw [feeds, String.toList_ofList]

@[simp] theorem feeds_of_not_mem (h : '\n' ∉ s.toList) : feeds s = 0 := List.count_eq_zero.mpr h

theorem feeds_eq_zero : feeds s = 0 ↔ '\n' ∉ s.toList := List.count_eq_zero

@[simp] theorem feedsIn_nil : feedsIn [] = 0 := rfl

@[simp] theorem feedsIn_cons (s : String) (xs : List String) : feedsIn (s :: xs) =
    feeds s + feedsIn xs := rfl

@[simp] theorem feedsIn_append (xs ys : List String) : feedsIn (xs ++ ys) =
    feedsIn xs + feedsIn ys := by
  induction xs with
  | nil => exact (Nat.zero_add _).symm
  | cons x xs ih => rw [List.cons_append, feedsIn_cons, feedsIn_cons, ih, Nat.add_assoc]

theorem feedsIn_eq_zero : feedsIn xs = 0 ↔ ∀ x ∈ xs, '\n' ∉ x.toList := by
  induction xs with
  | nil => simp
  | cons x xs ih => rw [feedsIn_cons, Nat.add_eq_zero_iff, feeds_eq_zero, ih, List.forall_mem_cons]

theorem intercalate_cons_cons (sep x y : String) (xs : List String) :
    sep.intercalate (x :: y :: xs) = x ++ sep ++ sep.intercalate (y :: xs) := by
  rw [← String.toList_inj]
  simp

theorem feeds_intercalate (sep : String) (xs : List String) :
    feeds (sep.intercalate xs) = feedsIn xs + (xs.length - 1) * feeds sep := by
  induction xs with
  | nil => simp
  | cons x xs ih =>
    cases xs with
    | nil => simp
    | cons y xs =>
      rw [intercalate_cons_cons, feeds_append, feeds_append, ih]
      simp only [feedsIn_cons, List.length_cons, Nat.add_sub_cancel, Nat.succ_mul]
      omega

@[simp] theorem feeds_commas (xs : List String) : feeds (", ".intercalate xs) = feedsIn xs := by
  rw [feeds_intercalate, feeds_of_not_mem (by decide), Nat.mul_zero, Nat.add_zero]

theorem length_splitOn (cs : List Char) : (cs.splitOn '\n').length = cs.count '\n' + 1 := by
  induction cs with
  | nil => rfl
  | cons c cs ih =>
    rw [List.splitOn_cons_eq_if_modifyHead]
    by_cases hc : c = '\n' <;> simp [hc, ih]

theorem length_lines (s : String) : (lines s).length = feeds s + 1 := by
  rw [lines, List.length_map, length_splitOn, feeds]

theorem lines_intercalate (hne : xs ≠ []) (h : feedsIn xs = 0) :
    lines ("\n".intercalate xs) = xs := by
  have hsplit : ("\n".intercalate xs).toList.splitOn '\n' = xs.map String.toList := by
    rw [String.toList_intercalate]
    refine List.splitOn_intercalate '\n' (fun l hl => ?_) (by simpa using hne)
    obtain ⟨x, hx, rfl⟩ := List.mem_map.mp hl
    exact feedsIn_eq_zero.mp h x hx
  rw [lines, hsplit, List.map_map]
  simp

@[simp] theorem feeds_indented (depth : Nat) (s : String) : feeds (indented depth s) = feeds s := by
  simp [indented]

theorem indented_zero : indented 0 = id := by
  funext s
  simp [indented]

theorem indented_indented (d e : Nat) (s : String) :
    indented d (indented e s) = indented (d + e) s := by
  rw [← String.toList_inj]
  simp [indented, Nat.mul_add, ← List.replicate_append_replicate]

theorem length_indented (depth : Nat) (s : String) :
    (indented depth s).length = 2 * depth + s.length := by
  simp [indented]

/-- Texts one below another, the first at a depth and each further in than the one before. -/
def staircase (depth : Nat) (xs : List String) : List String :=
    xs.mapIdx fun k x => indented (depth + k) x

theorem staircase_cons (depth : Nat) (x : String) (xs : List String) :
    staircase depth (x :: xs) = indented depth x :: staircase (depth + 1) xs := by
  rw [staircase, List.mapIdx_cons, staircase]
  simp [Nat.add_assoc, Nat.add_comm 1]

theorem length_staircase (depth : Nat) (xs : List String) :
    (staircase depth xs).length = xs.length :=
  List.length_mapIdx

theorem feedsIn_staircase (depth : Nat) (xs : List String) :
    feedsIn (staircase depth xs) = feedsIn xs := by
  induction xs generalizing depth with
  | nil => rfl
  | cons x xs ih => rw [staircase_cons, feedsIn_cons, feedsIn_cons, feeds_indented, ih]

theorem map_indented_staircase (d depth : Nat) (xs : List String) :
    (staircase depth xs).map (indented d) = staircase (depth + d) xs := by
  induction xs generalizing depth with
  | nil => rfl
  | cons x xs ih =>
    rw [staircase_cons, staircase_cons, List.map_cons, ih, indented_indented, Nat.add_comm d,
      Nat.add_right_comm]

theorem intercalate_lines (s : String) : "\n".intercalate (lines s) = s := by
  rw [← String.toList_inj, String.toList_intercalate, lines, List.map_map]
  simp [Function.comp_def]

theorem length_intercalate_indented (d : Nat) (xs : List String) :
    ("\n".intercalate (xs.map (indented d))).length = ("\n".intercalate xs).length +
      2 * d * xs.length := by
  induction xs with
  | nil => rfl
  | cons x xs ih =>
    cases xs with
    | nil => simp [length_indented]; omega
    | cons y xs =>
      rw [List.map_cons] at ih
      rw [List.map_cons, List.map_cons, intercalate_cons_cons, intercalate_cons_cons]
      simp only [String.length_append, ih, length_indented, List.length_cons, Nat.mul_succ]
      omega

theorem length_lines_intercalate (hne : xs ≠ []) :
    (lines ("\n".intercalate xs)).length = xs.length + feedsIn xs := by
  have hpos : 0 < xs.length := List.length_pos_iff.mpr hne
  rw [length_lines, feeds_intercalate, show feeds "\n" = 1 from rfl]
  omega

theorem intercalate_indented_eq_iff (hne : xs ≠ []) (d : Nat) :
    "\n".intercalate (xs.map (indented d)) =
      "\n".intercalate ((lines ("\n".intercalate xs)).map (indented d)) ↔
      d = 0 ∨ feedsIn xs = 0 := by
  constructor
  · intro h
    -- each of the texts is moved once on the left, each line on the right
    have hlen := congrArg String.length h
    rw [length_intercalate_indented, length_intercalate_indented, intercalate_lines,
      length_lines_intercalate hne, Nat.mul_add] at hlen
    have hzero : 2 * d * feedsIn xs = 0 := by omega
    exact (Nat.mul_eq_zero.mp hzero).imp_left fun h => by omega
  · rintro (rfl | h)
    · simp [indented_zero, intercalate_lines]
    · rw [lines_intercalate hne h]

end LazyQuery.Text
