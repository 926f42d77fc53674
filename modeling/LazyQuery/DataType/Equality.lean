import LazyQuery.DataType

/-! Equality of types as values. What a list calls its members does not count; the names of the
members of a struct do. So types that are equal can have different texts. -/
namespace LazyQuery

mutual
def DataType.equal : DataType → DataType → Bool
  | .leaf a, .leaf b => a = b
  | .list ⟨_, t, p⟩, .list ⟨_, u, q⟩ | .largeList ⟨_, t, p⟩, .largeList ⟨_, u, q⟩ =>
    p = q && t.equal u
  | .fixedList ⟨_, t, p⟩ m, .fixedList ⟨_, u, q⟩ n => m = n && p = q && t.equal u
  | .struct fs, .struct gs => equalFields fs gs
  | .dictionary i v, .dictionary j w => i.equal j && v.equal w
  | .map k v, .map l w => k.equal l && v.equal w
  | _, _ => false

def Field.equal : Field → Field → Bool
  | ⟨m, t, p⟩, ⟨n, u, q⟩ => m = n && p = q && t.equal u

def equalFields : List Field → List Field → Bool
  | [], [] => true
  | f :: fs, g :: gs => f.equal g && equalFields fs gs
  | _, _ => false
end

mutual
theorem DataType.equal_self : (t : DataType) → t.equal t = true
  | .leaf _ => by simp [DataType.equal]
  | .list ⟨_, t, _⟩ | .largeList ⟨_, t, _⟩ | .fixedList ⟨_, t, _⟩ _ => by
    simp [DataType.equal, t.equal_self]
  | .struct fs => by simp [DataType.equal, equalFields_self fs]
  | .dictionary i v => by simp [DataType.equal, i.equal_self, v.equal_self]
  | .map k v => by simp [DataType.equal, k.equal_self, v.equal_self]

theorem Field.equal_self : (f : Field) → f.equal f = true
  | ⟨_, t, _⟩ => by simp [Field.equal, t.equal_self]

theorem equalFields_self : (fs : List Field) → equalFields fs fs = true
  | [] => by simp [equalFields]
  | f :: fs => by simp [equalFields, f.equal_self, equalFields_self fs]
end

mutual
theorem DataType.equal_trans : {t u v : DataType} → t.equal u = true → u.equal v = true →
    t.equal v = true
  | .leaf _, .leaf _, .leaf _, h, h' => by
    simp only [DataType.equal, decide_eq_true_eq] at h h' ⊢
    exact h.trans h'
  | .list ⟨_, t, _⟩, .list ⟨_, u, _⟩, .list ⟨_, v, _⟩, h, h' => by
    simp only [DataType.equal, Bool.and_eq_true, decide_eq_true_eq] at h h' ⊢
    exact ⟨h.1.trans h'.1, DataType.equal_trans h.2 h'.2⟩
  | .largeList ⟨_, t, _⟩, .largeList ⟨_, u, _⟩, .largeList ⟨_, v, _⟩, h, h' => by
    simp only [DataType.equal, Bool.and_eq_true, decide_eq_true_eq] at h h' ⊢
    exact ⟨h.1.trans h'.1, DataType.equal_trans h.2 h'.2⟩
  | .fixedList ⟨_, t, _⟩ _, .fixedList ⟨_, u, _⟩ _, .fixedList ⟨_, v, _⟩ _, h, h' => by
    simp only [DataType.equal, Bool.and_eq_true, decide_eq_true_eq] at h h' ⊢
    exact ⟨⟨h.1.1.trans h'.1.1, h.1.2.trans h'.1.2⟩, DataType.equal_trans h.2 h'.2⟩
  | .struct _, .struct _, .struct _, h, h' => by
    simp only [DataType.equal] at h h' ⊢
    exact equalFields_trans h h'
  | .dictionary _ _, .dictionary _ _, .dictionary _ _, h, h' => by
    simp only [DataType.equal, Bool.and_eq_true] at h h' ⊢
    exact ⟨DataType.equal_trans h.1 h'.1, DataType.equal_trans h.2 h'.2⟩
  | .map _ _, .map _ _, .map _ _, h, h' => by
    simp only [DataType.equal, Bool.and_eq_true] at h h' ⊢
    exact ⟨DataType.equal_trans h.1 h'.1, DataType.equal_trans h.2 h'.2⟩

theorem equalFields_trans : {fs gs hs : List Field} → equalFields fs gs = true →
    equalFields gs hs = true → equalFields fs hs = true
  | [], [], [], _, _ => rfl
  | ⟨_, t, _⟩ :: _, ⟨_, u, _⟩ :: _, ⟨_, v, _⟩ :: _, h, h' => by
    simp only [equalFields, Field.equal, Bool.and_eq_true, decide_eq_true_eq] at h h' ⊢
    exact ⟨⟨⟨h.1.1.1.trans h'.1.1.1, h.1.1.2.trans h'.1.1.2⟩,
      DataType.equal_trans h.1.2 h'.1.2⟩, equalFields_trans h.2 h'.2⟩
end

theorem DataType.isFloating_eq_of_equal {t u : DataType} (h : t.equal u = true) :
    t.isFloating = u.isFloating := by
  cases t with
  | leaf k =>
    cases u with
    | leaf l =>
      rw [of_decide_eq_true h]
    | _ => cases h
  | _ =>
    cases u with
    | leaf l => simp [DataType.equal] at h
    | _ => rfl

/-- Equal schemas have fields of one name and nullability each, and of equal types. -/
abbrev Schema.equal (s t : Schema) : Bool := equalFields s t

end LazyQuery
