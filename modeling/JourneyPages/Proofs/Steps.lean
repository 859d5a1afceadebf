import Mathlib.Data.List.Forall2

/-!
Steps that may fail: what a result says about the steps that led to it, and when two computations
come to the same.
-/
namespace JourneyPages

variable {ε ε' α β γ δ : Type}

theorem ok_of_bind {x : Except ε α} {f : α → Except ε β} {b : β} (h : x >>= f = .ok b) :
    ∃ a, x = .ok a ∧ f a = .ok b := by
  cases x with
  | error e => cases h
  | ok a => exact ⟨a, rfl, h⟩

theorem ok_of_mapError {x : Except ε α} {f : ε → ε'} {a : α} (h : x.mapError f = .ok a) :
    x = .ok a := by
  cases x with
  | error e => cases h
  | ok b =>
    cases h
    rfl

/-- Steps on all entries of a list give their results in the order of the list. -/
theorem forall₂_of_mapM {f : α → Except ε β} {xs : List α} {ys : List β}
    (h : xs.mapM f = .ok ys) : List.Forall₂ (fun x y => f x = .ok y) xs ys := by
  induction xs generalizing ys with
  | nil =>
    cases h
    exact .nil
  | cons x xs ih =>
    rw [List.mapM_cons] at h
    obtain ⟨y, hy, h⟩ := ok_of_bind h
    obtain ⟨rest, hrest, h⟩ := ok_of_bind h
    cases h
    exact .cons hy (ih hrest)

theorem exists_of_forall₂ {R : α → β → Prop} {xs : List α} {ys : List β}
    (h : List.Forall₂ R xs ys) {x : α} (hx : x ∈ xs) : ∃ y ∈ ys, R x y := by
  induction h with
  | nil => cases hx
  | @cons x' y' xs ys hxy _ ih =>
    rcases List.mem_cons.mp hx with rfl | hx
    · exact ⟨y', List.mem_cons_self, hxy⟩
    · obtain ⟨y, hy, hr⟩ := ih hx
      exact ⟨y, List.mem_cons_of_mem y' hy, hr⟩

theorem exists_of_mapM {f : α → Except ε β} {xs : List α} {ys : List β}
    (h : xs.mapM f = .ok ys) {x : α} (hx : x ∈ xs) : ∃ y ∈ ys, f x = .ok y :=
  exists_of_forall₂ (forall₂_of_mapM h) hx

theorem bind_mapError_ok (a : α) (f : ε → ε') (g : α → Except ε' β) :
    ((Except.ok a : Except ε α).mapError f >>= g) = g a := rfl

/-- Two computations that agree on what a view shows go on alike, if their continuation shows no
more. -/
theorem map_bind_congr {a b : Except ε α} {f g : α → Except ε β} {u : α → γ} {v : β → δ}
    (h : a.map u = b.map u) (hf : ∀ x y, u x = u y → (f x).map v = (g y).map v) :
    (a >>= f).map v = (b >>= g).map v := by
  cases a with
  | error e =>
    cases b with
    | error e' =>
      cases h
      rfl
    | ok y => cases h
  | ok x =>
    cases b with
    | error e => cases h
    | ok y => exact hf x y (Except.ok.inj h)

theorem map_mapError (a : Except ε α) (f : ε → ε') (u : α → γ) :
    (a.mapError f).map u = (a.map u).mapError f := by
  cases a <;> rfl

end JourneyPages
