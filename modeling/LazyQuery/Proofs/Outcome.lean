import LazyQuery.Fault
import Mathlib.Data.List.Forall2

/-! Taking computations that can fail apart: what has succeeded has succeeded in every part, and
what succeeds in every part where another computation does succeeds where that one does. -/
namespace LazyQuery.Outcome

theorem ok_bind {α β : Type} (a : α) (f : α → Outcome β) : (Except.ok a >>= f) = f a := rfl

theorem error_bind {α β : Type} (e : Fault) (f : α → Outcome β) :
    ((Except.error e : Outcome α) >>= f) = .error e := rfl

theorem bind_eq_ok {α β : Type} {x : Outcome α} {f : α → Outcome β} {b : β} :
    (x >>= f) = .ok b ↔ ∃ a, x = .ok a ∧ f a = .ok b := by
  cases x with
  | error e => simp [error_bind]
  | ok a => simp [ok_bind]

theorem bind_eq_error {α β : Type} {x : Outcome α} {f : α → Outcome β} {e : Fault} :
    (x >>= f) = .error e ↔ x = .error e ∨ ∃ a, x = .ok a ∧ f a = .error e := by
  cases x with
  | error e' => simp [error_bind]
  | ok a => simp [ok_bind]

theorem toOption_ok {α : Type} (a : α) : (Except.ok a : Outcome α).toOption = some a := rfl

theorem toOption_error {α : Type} (e : Fault) : (Except.error e : Outcome α).toOption = none :=
    rfl

theorem toOption_eq_some {α : Type} {x : Outcome α} {a : α} :
    x.toOption = some a ↔ x = .ok a := by
  cases x with
  | error e => simp [toOption_error]
  | ok b => simp [toOption_ok]

theorem map_toOption_eq_some {α β : Type} {x : Outcome α} {f : α → β} {b : β} :
    x.toOption.map f = some b ↔ ∃ a, x = .ok a ∧ f a = b := by
  simp only [Option.map_eq_some_iff, toOption_eq_some]

theorem toOption_eq_none {α : Type} {x : Outcome α} :
    x.toOption = none ↔ ∃ e, x = .error e := by
  cases x with
  | error e => simp [toOption_error]
  | ok b => simp [toOption_ok]

theorem exists_error_iff {α : Type} {x : Outcome α} :
    (∃ e, x = .error e) ↔ ¬∃ a, x = .ok a := by
  cases x with
  | error e => simp
  | ok b => simp

theorem toOption_bind {α β : Type} (x : Outcome α) (f : α → Outcome β) :
    (x >>= f).toOption = x.toOption.bind fun a => (f a).toOption := by
  cases x with
  | error e => rfl
  | ok a => rfl

theorem mapError_eq_ok {α : Type} {f : Fault → Fault} {x : Outcome α} {a : α} :
    x.mapError f = .ok a ↔ x = .ok a := by
  cases x with
  | error e => simp [Except.mapError]
  | ok b => simp [Except.mapError]

def Follows {α β : Type} (R : α → β → Prop) (x : Outcome α) (y : Outcome β) : Prop :=
  ∀ a, x = .ok a → ∃ b, y = .ok b ∧ R a b

namespace Follows
variable {α β γ δ : Type} {R : α → β → Prop} {S : γ → δ → Prop} {x : Outcome α}
    {y : Outcome β}

theorem ok {a : α} {b : β} (h : R a b) : Follows R (.ok a) (.ok b) := by
  intro a' ha
  cases ha
  exact ⟨b, rfl, h⟩

theorem error {e : Fault} : Follows R (.error e) y := nofun

theorem refl (x : Outcome α) : Follows Eq x x := fun a ha => ⟨a, ha, rfl⟩

theorem bind {f : α → Outcome γ} {g : β → Outcome δ} (h : Follows R x y)
    (hfg : ∀ a b, R a b → Follows S (f a) (g b)) : Follows S (x >>= f) (y >>= g) := by
  intro c hc
  obtain ⟨a, ha, hc⟩ := bind_eq_ok.mp hc
  obtain ⟨b, hb, hab⟩ := h a ha
  obtain ⟨d, hd, hcd⟩ := hfg a b hab c hc
  exact ⟨d, bind_eq_ok.mpr ⟨b, hb, hd⟩, hcd⟩

theorem mapM {f : α → Outcome γ} {g : β → Outcome δ} (hfg : ∀ a b, R a b →
    Follows S (f a) (g b)) {as : List α} {bs : List β} (h : List.Forall₂ R as bs) :
    Follows (List.Forall₂ S) (as.mapM f) (bs.mapM g) := by
  induction h with
  | nil => exact ok .nil
  | cons hab _ ih =>
    rw [List.mapM_cons, List.mapM_cons]
    refine (hfg _ _ hab).bind fun c d hcd => ih.bind fun cs ds hcds => ?_
    exact ok (.cons hcd hcds)

theorem map_toOption_eq {f : α → γ} {g : β → γ} (hxy : Follows (fun a b => f a = g b) x y)
    (hyx : Follows (fun b a => g b = f a) y x) : x.toOption.map f = y.toOption.map g := by
  cases x with
  | ok a =>
    obtain ⟨b, rfl, hab⟩ := hxy a rfl
    exact congrArg some hab
  | error e =>
    cases y with
    | ok b =>
      obtain ⟨a, ha, -⟩ := hyx b rfl
      cases ha
    | error e' => rfl

end Follows

/-- Both computations fail in the same way, or both have results, which are related. -/
inductive Related {α β : Type} (R : α → β → Prop) : Outcome α → Outcome β → Prop
  | ok {a : α} {b : β} : R a b → Related R (.ok a) (.ok b)
  | error (e : Fault) : Related R (.error e) (.error e)

namespace Related
variable {α β γ δ : Type} {R : α → β → Prop} {S : γ → δ → Prop} {x : Outcome α}
    {y : Outcome β}

theorem bind {f : α → Outcome γ} {g : β → Outcome δ} (h : Related R x y)
    (hfg : ∀ a b, R a b → Related S (f a) (g b)) : Related S (x >>= f) (y >>= g) := by
  cases h with
  | ok hab => exact hfg _ _ hab
  | error e => exact .error e

theorem mono {R' : α → β → Prop} (h : Related R x y) (hr : ∀ a b, R a b → R' a b) :
    Related R' x y := by
  cases h with
  | ok hab => exact .ok (hr _ _ hab)
  | error e => exact .error e

theorem refl {R : α → α → Prop} (hr : ∀ a, R a a) (x : Outcome α) : Related R x x := by
  cases x with
  | ok a => exact .ok (hr a)
  | error e => exact .error e

/-- What is known of any two results is known of those that correspond. -/
theorem and {R' : α → β → Prop} (h : Related R x y)
    (hr : ∀ a b, x = .ok a → y = .ok b → R' a b) : Related (fun a b => R a b ∧
      R' a b) x y := by
  cases h with
  | ok hab => exact .ok ⟨hab, hr _ _ rfl rfl⟩
  | error e => exact .error e

theorem of_ok {a : α} {b : β} (h : Related R (.ok a) (.ok b)) : R a b := by
  cases h with
  | ok hab => exact hab

end Related

theorem map_eq_of_forall₂ {α β γ : Type} {R : α → β → Prop} {f : α → γ}
    {g : β → γ}
    (hfg : ∀ a b, R a b → f a = g b) {as : List α} {bs : List β}
    (h : List.Forall₂ R as bs) :
    as.map f = bs.map g := by
  have hm : List.Forall₂ Eq (as.map f) (bs.map g) := List.rel_map hfg h
  rwa [List.forall₂_eq_eq_eq] at hm

theorem mapM_eq_ok {α β : Type} {f : α → Outcome β} {xs : List α} {ys : List β} :
    xs.mapM f = .ok ys ↔ List.Forall₂ (fun x y => f x = .ok y) xs ys := by
  induction xs generalizing ys with
  | nil =>
    rw [List.mapM_nil, List.forall₂_nil_left_iff]
    exact ⟨fun h => (Except.ok.inj h).symm, fun h => h ▸ rfl⟩
  | cons x xs ih =>
    rw [List.mapM_cons, List.forall₂_cons_left_iff]
    constructor
    · intro h
      obtain ⟨y, hy, h⟩ := bind_eq_ok.mp h
      obtain ⟨ys', hys, h⟩ := bind_eq_ok.mp h
      exact ⟨y, ys', hy, ih.mp hys, (Except.ok.inj h).symm⟩
    · rintro ⟨y, ys', hy, hys, rfl⟩
      exact bind_eq_ok.mpr ⟨y, hy, bind_eq_ok.mpr ⟨ys', ih.mpr hys, rfl⟩⟩

theorem exists_mapM_eq_ok {α β : Type} {f : α → Outcome β} {xs : List α} :
    (∃ ys, xs.mapM f = .ok ys) ↔ ∀ x ∈ xs, ∃ y, f x = .ok y := by
  simp only [mapM_eq_ok]
  induction xs with
  | nil => exact ⟨fun _ => nofun, fun _ => ⟨[], .nil⟩⟩
  | cons x xs ih =>
    rw [List.forall_mem_cons, ← ih]
    constructor
    · rintro ⟨_, hall⟩
      obtain ⟨y, ys, hy, hys, -⟩ := List.forall₂_cons_left_iff.mp hall
      exact ⟨⟨y, hy⟩, ys, hys⟩
    · rintro ⟨⟨y, hy⟩, ys, hys⟩
      exact ⟨y :: ys, .cons hy hys⟩

theorem exists_of_forall₂ {α β : Type} {R : α → β → Prop} {as : List α} {bs : List β}
    (h : List.Forall₂ R as bs) {a : α} (ha : a ∈ as) : ∃ b ∈ bs, R a b := by
  induction h with
  | nil => cases ha
  | cons hab _ ih =>
    rcases List.mem_cons.mp ha with rfl | ha
    · exact ⟨_, List.mem_cons_self .., hab⟩
    · obtain ⟨b, hb, hr⟩ := ih ha
      exact ⟨b, List.mem_cons_of_mem _ hb, hr⟩

end LazyQuery.Outcome
