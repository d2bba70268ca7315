import GuardClause.Proofs.Steps

/-!
# Two runs side by side

Two runs end alike when both fail, no matter how, or both succeed with results that belong together.
Steps that end alike can be put together into runs that end alike, so that the relation of two long
runs is shown one step at a time.
-/

namespace GuardClause

variable {α β γ δ ε ζ : Type}

/-- Two runs both fail, or both succeed with results that belong together. -/
inductive Alike (R : α → β → Prop) : Except ε α → Except ζ β → Prop
  | ok {a : α} {b : β} (h : R a b) : Alike R (.ok a) (.ok b)
  | error (e : ε) (f : ζ) : Alike R (.error e) (.error f)

namespace Alike

variable {R : α → β → Prop} {S : γ → δ → Prop} {x : Except ε α} {y : Except ζ β}

protected theorem pure {a : α} {b : β} (h : R a b) :
    Alike R (pure a : Except ε α) (pure b : Except ζ β) := .ok h

theorem bind (h : Alike R x y) {k : α → Except ε γ} {l : β → Except ζ δ}
    (hkl : ∀ a b, R a b → Alike S (k a) (l b)) : Alike S (x >>= k) (y >>= l) := by
  cases h with
  | ok h => exact hkl _ _ h
  | error e f => exact .error e f

theorem map (h : Alike R x y) {f : α → γ} {g : β → δ} (hfg : ∀ a b, R a b → S (f a) (g b)) :
    Alike S (f <$> x) (g <$> y) := by
  cases h with
  | ok h => exact .ok (hfg _ _ h)
  | error e f => exact .error e f

/-- What is known of the first run can be used. -/
theorem imp {T : α → β → Prop} (h : Alike R x y) (hT : ∀ a b, x = .ok a → R a b → T a b) :
    Alike T x y := by
  cases h with
  | ok h => exact .ok (hT _ _ rfl h)
  | error e f => exact .error e f

theorem mapM {ι : Type} {f : ι → Except ε α} {g : ι → Except ζ β} {l : List ι}
    (h : ∀ i ∈ l, Alike R (f i) (g i)) : Alike (List.Forall₂ R) (l.mapM f) (l.mapM g) := by
  induction l with
  | nil => exact .ok .nil
  | cons i l ih =>
      rw [List.mapM_cons, List.mapM_cons]
      refine (h i List.mem_cons_self).bind ?_
      intro a b hab
      refine (ih fun j hj => h j (List.mem_cons_of_mem i hj)).bind ?_
      intro as bs habs
      exact .ok (.cons hab habs)

end Alike

/-! ## Results in lists and options -/

variable {R : α → β → Prop} {l : List α} {m : List β}

theorem rel_cases {o : Option α} {o' : Option β} (h : Option.Rel R o o') :
    o = none ∧ o' = none ∨ ∃ a b, o = some a ∧ o' = some b ∧ R a b := by
  cases h with
  | none => exact Or.inl ⟨rfl, rfl⟩
  | some h => exact Or.inr ⟨_, _, rfl, rfl, h⟩

theorem map_eq_map_of_forall₂ (h : List.Forall₂ R l m) {f : α → γ} {g : β → γ}
    (hfg : ∀ a b, R a b → f a = g b) : l.map f = m.map g := by
  have hall : List.Forall₂ Eq (l.map f) (m.map g) := List.rel_map (fun a b hab => hfg a b hab) h
  rwa [List.forall₂_eq_eq_eq] at hall

/-- The first elements that are looked for belong together. -/
theorem rel_find? (h : List.Forall₂ R l m) {p : α → Bool} {q : β → Bool}
    (hpq : ∀ a b, R a b → p a = q b) : Option.Rel R (l.find? p) (m.find? q) := by
  induction h with
  | nil => exact .none
  | cons hab _ ih =>
      rw [List.find?_cons, List.find?_cons, hpq _ _ hab]
      split
      · exact .some hab
      · exact ih

end GuardClause
