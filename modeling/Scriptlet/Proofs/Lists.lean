import Mathlib.Data.List.Forall2
import Mathlib.Data.List.Nodup
import Mathlib.Data.List.Perm.Subperm

/-!
# Related lists

## Main definitions

* `Pair` — related things.

## Main results

* `List.exists_pairs` — two lists that are related element by element are the two sides of a list of
  pairs.
* `List.find?_rel`, `List.modify_rel` and their like — operations on related lists.
-/

namespace Scriptlet

/-! ### Pairs that stand for related things

A list of related pairs is the common source of two lists, of which it gives each by a map.  Facts
about maps become facts about relations in this way. -/

section Pairs

variable {α β : Type} {R : α → β → Prop}

/-- Related things. -/
abbrev Pair (R : α → β → Prop) : Type := { p : α × β // R p.1 p.2 }

namespace Pair

/-- The first of two related things. -/
def left (p : Pair R) : α := p.1.1

/-- The second of two related things. -/
def right (p : Pair R) : β := p.1.2

/-- The two things are related. -/
theorem rel (p : Pair R) : R p.left p.right := p.2

end Pair

/-- The two sides of an optional pair are related. -/
theorem Option.rel_of_pair (o : Option (Pair R)) :
    Option.Rel R (o.map Pair.left) (o.map Pair.right) := by
  cases o with
  | none => exact .none
  | some p => exact .some p.rel

/-- Related options come from an optional pair. -/
theorem Option.exists_pair {o : Option α} {o' : Option β} (h : Option.Rel R o o') :
    ∃ z : Option (Pair R), z.map Pair.left = o ∧ z.map Pair.right = o' := by
  cases h with
  | none => exact ⟨none, rfl, rfl⟩
  | @some a b h => exact ⟨some ⟨(a, b), h⟩, rfl, rfl⟩

/-- Related options are both missing, or hold related things. -/
theorem Option.rel_cases {o : Option α} {o' : Option β} (h : Option.Rel R o o') :
    (o = none ∧ o' = none) ∨ ∃ a b, o = some a ∧ o' = some b ∧ R a b := by
  cases h with
  | none => exact .inl ⟨rfl, rfl⟩
  | some h => exact .inr ⟨_, _, rfl, rfl, h⟩

/-- What both sides agree on is the same option. -/
theorem Option.map_rel {γ : Type} {f : α → γ} {g : β → γ} (hfg : ∀ a b, R a b → f a = g b)
    {o : Option α} {o' : Option β} (h : Option.Rel R o o') : o.map f = o'.map g := by
  cases h with
  | none => rfl
  | some h => exact congrArg some (hfg _ _ h)

/-- Related options are changed into related ones. -/
theorem Option.rel_map {γ δ : Type} {S : γ → δ → Prop} {f : α → γ} {g : β → δ}
    (hfg : ∀ a b, R a b → S (f a) (g b)) {o : Option α} {o' : Option β} (h : Option.Rel R o o') :
    Option.Rel S (o.map f) (o'.map g) := by
  cases h with
  | none => exact .none
  | some h => exact .some (hfg _ _ h)

/-- Related lists come from a list of pairs. -/
theorem List.exists_pairs {l : List α} {l' : List β} (h : List.Forall₂ R l l') :
    ∃ z : List (Pair R), z.map Pair.left = l ∧ z.map Pair.right = l' := by
  induction h with
  | nil => exact ⟨[], rfl, rfl⟩
  | @cons a b l l' hab _ ih =>
    obtain ⟨z, rfl, rfl⟩ := ih
    exact ⟨⟨(a, b), hab⟩ :: z, rfl, rfl⟩

/-! ### Searching and changing related lists -/

variable {l : List α} {l' : List β}

/-- Searches for what both sides agree on find related things. -/
theorem List.find?_rel {p : α → Bool} {q : β → Bool} (hpq : ∀ a b, R a b → p a = q b)
    (h : List.Forall₂ R l l') : Option.Rel R (l.find? p) (l'.find? q) := by
  obtain ⟨z, rfl, rfl⟩ := List.exists_pairs h
  have hz : p ∘ Pair.left = (q ∘ Pair.right : Pair R → Bool) :=
    funext fun c => hpq _ _ c.rel
  rw [List.find?_map, List.find?_map, hz]
  exact Option.rel_of_pair _

/-- Searches for what both sides agree on find it in the same place. -/
theorem List.findIdx?_rel {p : α → Bool} {q : β → Bool} (hpq : ∀ a b, R a b → p a = q b)
    (h : List.Forall₂ R l l') : l.findIdx? p = l'.findIdx? q := by
  induction h with
  | nil => rfl
  | cons hab _ ih => simp only [List.findIdx?_cons, hpq _ _ hab, ih]

/-- What both sides agree on holds everywhere on both or on neither. -/
theorem List.all_rel {p : α → Bool} {q : β → Bool} (hpq : ∀ a b, R a b → p a = q b)
    (h : List.Forall₂ R l l') : l.all p = l'.all q := by
  induction h with
  | nil => rfl
  | cons hab _ ih => simp only [List.all_cons, hpq _ _ hab, ih]

/-- What both sides agree on holds somewhere on both or on neither. -/
theorem List.any_rel {p : α → Bool} {q : β → Bool} (hpq : ∀ a b, R a b → p a = q b)
    (h : List.Forall₂ R l l') : l.any p = l'.any q := by
  induction h with
  | nil => rfl
  | cons hab _ ih => simp only [List.any_cons, hpq _ _ hab, ih]

/-- What both sides agree on is the same list. -/
theorem List.map_rel {γ : Type} {f : α → γ} {g : β → γ} (hfg : ∀ a b, R a b → f a = g b)
    (h : List.Forall₂ R l l') : l.map f = l'.map g := by
  induction h with
  | nil => rfl
  | cons hab _ ih => rw [List.map_cons, List.map_cons, hfg _ _ hab, ih]

/-- Things in the same place are related. -/
theorem List.getElem?_rel (h : List.Forall₂ R l l') (i : Nat) : Option.Rel R l[i]? l'[i]? := by
  obtain ⟨z, rfl, rfl⟩ := List.exists_pairs h
  rw [List.getElem?_map, List.getElem?_map]
  exact Option.rel_of_pair _

/-- Things in the same place may be changed alike. -/
theorem List.modify_rel {f : α → α} {g : β → β} (hfg : ∀ a b, R a b → R (f a) (g b))
    (h : List.Forall₂ R l l') (i : Nat) : List.Forall₂ R (l.modify i f) (l'.modify i g) := by
  induction h generalizing i with
  | nil => simp
  | cons hab h ih =>
    cases i with
    | zero => simpa using ⟨hfg _ _ hab, h⟩
    | succ i => simpa using ⟨hab, ih i⟩

/-- Things in the same place may be replaced by related ones. -/
theorem List.set_rel {a : α} {b : β} (hab : R a b) (h : List.Forall₂ R l l') (i : Nat) :
    List.Forall₂ R (l.set i a) (l'.set i b) := by
  induction h generalizing i with
  | nil => exact .nil
  | cons hcd h ih =>
    cases i with
    | zero => exact .cons hab h
    | succ i => exact .cons hcd (ih i)

end Pairs

theorem List.filterMap_rel {α β γ δ : Type} {R : α → β → Prop} {S : γ → δ → Prop}
    {f : α → Option γ} {g : β → Option δ} (hfg : ∀ a b, R a b → Option.Rel S (f a) (g b))
    {l : List α} {l' : List β} (h : List.Forall₂ R l l') :
    List.Forall₂ S (l.filterMap f) (l'.filterMap g) := by
  induction h with
  | nil => exact .nil
  | @cons a b l l' hab _ ih =>
    rw [List.filterMap_cons, List.filterMap_cons]
    obtain ⟨h1, h2⟩ | ⟨x, y, h1, h2, hxy⟩ := Option.rel_cases (hfg a b hab)
    · rw [h1, h2]
      exact ih
    · rw [h1, h2]
      exact .cons hxy ih

/-- The same things of a list, with related outcomes. -/
theorem List.filterMap_same {α γ δ : Type} {S : γ → δ → Prop} {f : α → Option γ}
    {g : α → Option δ} (hfg : ∀ a, Option.Rel S (f a) (g a)) (l : List α) :
    List.Forall₂ S (l.filterMap f) (l.filterMap g) := by
  refine List.filterMap_rel (R := Eq) (fun a b hab => ?_) (List.forall₂_same.mpr fun _ _ => rfl)
  rw [hab]
  exact hfg b

/-- The same things of a list, made into related ones. -/
theorem List.map_same {α γ δ : Type} {S : γ → δ → Prop} {f : α → γ} {g : α → δ}
    (hfg : ∀ a, S (f a) (g a)) (l : List α) : List.Forall₂ S (l.map f) (l.map g) := by
  induction l with
  | nil => exact .nil
  | cons a l ih => exact .cons (hfg a) ih

theorem List.filter_rel {α β : Type} {R : α → β → Prop} {p : α → Bool} {q : β → Bool}
    (hpq : ∀ a b, R a b → p a = q b) {l : List α} {l' : List β} (h : List.Forall₂ R l l') :
    List.Forall₂ R (l.filter p) (l'.filter q) := by
  induction h with
  | nil => exact .nil
  | @cons a b l l' hab _ ih =>
    rw [List.filter_cons, List.filter_cons, hpq a b hab]
    split
    · exact .cons hab ih
    · exact ih

/-- Different things with numbers below a bound are no more than the bound. -/
theorem List.length_le_of_nodup {α : Type} {f : α → Nat} (hf : Function.Injective f) {l : List α}
    (hl : l.Nodup) {n : Nat} (h : ∀ a ∈ l, f a < n) : l.length ≤ n := by
  have hmap : (l.map f).Nodup := List.Nodup.map hf hl
  have hsub : l.map f ⊆ List.range n := by
    intro i hi
    obtain ⟨a, ha, rfl⟩ := List.mem_map.mp hi
    exact List.mem_range.mpr (h a ha)
  simpa using (hmap.subperm hsub).length_le

end Scriptlet
