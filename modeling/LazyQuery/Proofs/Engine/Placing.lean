import LazyQuery.Proofs.Engine.Renaming

/-! Where the columns of a plan are found. Whatever names a layout gives them, a column that is
found at all is found at its own position, and with the type that the header has there. -/
namespace LazyQuery
open Engine

/-- Columns are found where they are, and there is one for each field. -/
structure Opened.Placed (o : Opened) (s : Schema) : Prop where
  width : o.header.length = s.length
  found : ∀ {i : Int} {k : Nat} {t : ColumnType}, columnAt? o.layout o.header i = some (k, t) →
    Schema.position? s.length i = some k ∧ (o.header.map (·.2))[k]? = some t

namespace Engine
variable {s : Schema} {h : Header} {i : Int} {k : Nat} {t : ColumnType}

theorem placed_stored (hp : ∀ f ∈ s, isPattern f.name = false) (hh : storedHeader s = .ok h)
    (hi : columnAt? s h i = some (k, t)) :
    Schema.position? s.length i = some k ∧ (h.map (·.2))[k]? = some t := by
  have hlegible : ∀ f, s.at? i = some f → isLegible s.length f.name = true ∧
      isPattern f.name = false := by
    intro f hf
    rw [columnAt?, hf, Option.bind_some] at hi
    exact ⟨isLegible_of_findColumn hh (Outcome.toOption_eq_some.mp hi),
      hp f (Schema.mem_of_at? hf)⟩
  rw [columnAt?_stored hh hlegible] at hi
  obtain ⟨f, hf, hi⟩ := Option.bind_eq_some_iff.mp hi
  obtain ⟨j, hj, hi⟩ := Option.map_eq_some_iff.mp hi
  cases hi
  obtain ⟨k', hk', hf⟩ := Option.bind_eq_some_iff.mp hf
  cases hj.symm.trans hk'
  obtain ⟨-, -, rfl⟩ := storedHeader_eq_ok.mp hh
  refine ⟨hj, ?_⟩
  rw [types_heldHeader, List.getElem?_map, hf]
  rfl

theorem positionalName_ne_star (i : Nat) : positionalName i ≠ "*" := by
  intro h
  have hc : (positionalName i).toList.head? = some '*' := by rw [h]; rfl
  rw [positionalName, String.toList_append] at hc
  cases hc

theorem isPattern_positionalName (i : Nat) : isPattern (positionalName i) = false := by
  have hc : (positionalName i).toList.head? = some '_' := by
    rw [positionalName, String.toList_append]
    rfl
  rw [isPattern, hc]
  rfl

theorem placed_positional (hn : h.map (·.1) = (List.range s.length).map positionalName)
    (hi : columnAt? (positionalLayout s) h i = some (k, t)) :
    Schema.position? s.length i = some k ∧ (h.map (·.2))[k]? = some t := by
  obtain ⟨f, hf, hi⟩ := Option.bind_eq_some_iff.mp hi
  obtain ⟨j, hj, hf⟩ := Option.bind_eq_some_iff.mp hf
  have hlen : (positionalLayout s).length = s.length := by simp [positionalLayout]
  rw [hlen] at hj
  rw [positionalLayout, List.getElem?_mapIdx] at hf
  obtain ⟨g, hg, rfl⟩ := Option.map_eq_some_iff.mp hf
  have hlt : j < s.length := (List.getElem?_eq_some_iff.mp hg).1
  have hname : (h.map (·.1))[j]? = some (positionalName j) := by
    rw [hn, List.getElem?_map, List.getElem?_range hlt]
    rfl
  rw [List.getElem?_map] at hname
  obtain ⟨⟨name, u⟩, hu, rfl⟩ := Option.map_eq_some_iff.mp hname
  have hnodup : (h.map (·.1)).Nodup := by
    rw [hn]
    exact List.nodup_range.map positionalName_injective
  have hfound :=
    findColumn_of_getElem? hnodup hu (positionalName_ne_star j) (isPattern_positionalName j)
  rw [hfound] at hi
  cases hi
  refine ⟨hj, ?_⟩
  rw [List.getElem?_map, hu]
  rfl

end Engine

namespace Opened
variable {o : Opened} {s : Schema} {ks xs : List (Formula × ColumnType)}

theorem Placed.keep (h : o.Placed s) (f : Formula) : (o.keep f).Placed s := ⟨h.width, h.found⟩

theorem Placed.take (h : o.Placed s) (n : Nat) : (o.take n).Placed s := ⟨h.width, h.found⟩

theorem names_of_numbered (start : Nat) (ys : List (Formula × ColumnType))
    (g : Formula → ColumnType → ColumnType) :
    ((numbered start ys).map fun (name, f, t) => (name, g f t)).map (·.1) =
      (List.range' start ys.length).map positionalName := by
  rw [List.map_map, ← names_numbered]
  rfl

theorem placed_of_names (hl : o.layout = positionalLayout s)
    (hn : o.header.map (·.1) = (List.range s.length).map positionalName) : o.Placed s where
  width := by rw [← List.length_map (·.1), hn, List.length_map, List.length_range]
  found hi := placed_positional hn (hl ▸ hi)

theorem names_select (o : Opened) (hs : xs.length = s.length) :
    (o.select xs s).header.map (·.1) = (List.range s.length).map positionalName := by
  rw [select, ← header_numbered, names_of_numbered 0 xs fun _ t => t, hs, List.range_eq_range']

theorem names_group (o : Opened) (hs : (ks ++ xs).length = s.length) :
    (o.group ks xs s).header.map (·.1) = (List.range s.length).map positionalName := by
  have hl : ks.length + xs.length = s.length := List.length_append ▸ hs
  rw [group, List.map_append, names_of_numbered 0 ks fun _ t => t,
    names_of_numbered ks.length xs groupedType, ← List.map_append, ← hl, List.range_eq_range',
    ← List.range'_append_1, Nat.zero_add]

theorem placed_select (o : Opened) (hs : xs.length = s.length) : (o.select xs s).Placed s :=
  placed_of_names rfl (names_select o hs)

theorem placed_group (o : Opened) (hs : (ks ++ xs).length = s.length) :
    (o.group ks xs s).Placed s :=
  placed_of_names rfl (names_group o hs)

end Opened
end LazyQuery
