import JourneyPages.Proofs.Steps

/-!
Checks made one behind the other. A computation follows a list of checks if it stops with the error
of the first one that is not passed and has a result if all are. Steps that follow their checks one
by one follow them all in a row.
-/
namespace JourneyPages

variable {ε ε' α β : Type} {e : ε}

/-- A check, as the errors that it may end with. It is passed if there are none. -/
abbrev Check (ε : Type) := ε → Prop

/-- A test that ends with one error unless something holds. -/
def Check.test (p : Prop) (e : ε) : Check ε := fun e' => ¬ p ∧ e' = e

@[simp] theorem Check.test_iff {p : Prop} {e' : ε} : Check.test p e e' ↔ ¬ p ∧ e' = e := Iff.rfl

theorem Check.test_passed_iff {p : Prop} : (∀ e', ¬ Check.test p e e') ↔ p := by
  simp

def AllPass (cs : List (Check ε)) : Prop := ∀ c ∈ cs, ∀ e, ¬ c e

/-- The first check that is not passed ends with the error. -/
inductive FirstFailure (e : ε) : List (Check ε) → Prop
  | here {c : Check ε} {cs : List (Check ε)} : c e → FirstFailure e (c :: cs)
  | later {c : Check ε} {cs : List (Check ε)} :
      (∀ e', ¬ c e') → FirstFailure e cs → FirstFailure e (c :: cs)

section checks
variable {c : Check ε} {cs ds : List (Check ε)}

theorem allPass_cons : AllPass (c :: cs) ↔ (∀ e, ¬ c e) ∧ AllPass cs := List.forall_mem_cons

theorem allPass_singleton : AllPass [c] ↔ ∀ e, ¬ c e := List.forall_mem_singleton

theorem allPass_append : AllPass (cs ++ ds) ↔ AllPass cs ∧ AllPass ds := List.forall_mem_append

theorem allPass_flatMap {checks : α → List (Check ε)} {xs : List α} :
    AllPass (xs.flatMap checks) ↔ ∀ x ∈ xs, AllPass (checks x) := by
  simp only [AllPass, List.mem_flatMap]
  exact ⟨fun h x hx c hc => h c ⟨x, hx, hc⟩, fun h c ⟨x, hx, hc⟩ => h x hx c hc⟩

theorem not_firstFailure_nil : ¬ FirstFailure e [] := nofun

theorem firstFailure_cons :
    FirstFailure e (c :: cs) ↔ c e ∨ (∀ e', ¬ c e') ∧ FirstFailure e cs := by
  constructor
  · rintro (h | ⟨hpass, h⟩)
    · exact .inl h
    · exact .inr ⟨hpass, h⟩
  · rintro (h | ⟨hpass, h⟩)
    · exact .here h
    · exact .later hpass h

theorem firstFailure_singleton : FirstFailure e [c] ↔ c e := by
  rw [firstFailure_cons]
  exact ⟨fun h => h.resolve_right fun ⟨_, hnil⟩ => not_firstFailure_nil hnil, .inl⟩

theorem firstFailure_append :
    FirstFailure e (cs ++ ds) ↔ FirstFailure e cs ∨ AllPass cs ∧ FirstFailure e ds := by
  induction cs with
  | nil => simp [not_firstFailure_nil, AllPass]
  | cons c cs ih =>
    rw [List.cons_append, firstFailure_cons, firstFailure_cons, allPass_cons, ih]
    tauto

/-- Either all checks are passed, or there is a first one that is not. -/
theorem exists_firstFailure_iff : (∃ e, FirstFailure e cs) ↔ ¬ AllPass cs := by
  induction cs with
  | nil => simp [not_firstFailure_nil, AllPass]
  | cons c cs ih =>
    simp only [firstFailure_cons, allPass_cons, exists_or, exists_and_left, ih, not_and_or,
      not_forall, not_not]
    by_cases hc : ∃ e, c e
    · simp [hc]
    · simp [not_exists.mp hc]

end checks

/-- The computation stops at the first check that is not passed, and only there. -/
def Follows (cs : List (Check ε)) (x : Except ε α) : Prop :=
  ∀ e, x = .error e ↔ FirstFailure e cs

namespace Follows
variable {cs ds : List (Check ε)} {x : Except ε α}

theorem exists_ok_iff (h : Follows cs x) : (∃ a, x = .ok a) ↔ AllPass cs := by
  rw [← not_iff_not, ← exists_firstFailure_iff]
  cases x with
  | error e => exact iff_of_true (fun ⟨a, ha⟩ => by cases ha) ⟨e, (h e).mp rfl⟩
  | ok a =>
    refine iff_of_false (fun hno => hno ⟨a, rfl⟩) ?_
    rintro ⟨e, he⟩
    cases (h e).mpr he

theorem pure (a : α) : Follows [] (pure a : Except ε α) := fun e =>
  iff_of_false (by rintro ⟨⟩) not_firstFailure_nil

/-- A single check. -/
theorem of_iff {c : Check ε} (h : ∀ e, x = .error e ↔ c e) : Follows [c] x := fun e =>
  (h e).trans firstFailure_singleton.symm

/-- A test that is made before the others. -/
theorem dite {p : Prop} [Decidable p] {e : ε} {x : p → Except ε α} (h : ∀ hp, Follows cs (x hp)) :
    Follows (Check.test p e :: cs) (if hp : p then x hp else .error e) := by
  intro e'
  rw [firstFailure_cons]
  split
  case isTrue hp => simp [hp, h hp e']
  case isFalse hp => simp [hp, eq_comm]

theorem bind {f : α → Except ε β} (h : Follows cs x)
    (hf : ∀ a, x = .ok a → Follows ds (f a)) : Follows (cs ++ ds) (x >>= f) := by
  intro e
  rw [firstFailure_append, ← h e, ← h.exists_ok_iff]
  cases x with
  | error e' => simp [Bind.bind, Except.bind]
  | ok a => simpa [Bind.bind, Except.bind] using hf a rfl e

/-- What is made of a result in the end is not checked. -/
theorem bind_pure (h : Follows cs x) (f : α → β) : Follows cs (x >>= fun a => Pure.pure (f a)) := by
  rw [← List.append_nil cs]
  exact h.bind fun a _ => .pure (f a)

/-- Steps on all entries of a list are checked entry by entry. -/
theorem mapM {checks : α → List (Check ε)} {f : α → Except ε β}
    (h : ∀ a, Follows (checks a) (f a)) (xs : List α) :
    Follows (xs.flatMap checks) (xs.mapM f) := by
  induction xs with
  | nil => exact .pure []
  | cons a xs ih =>
    rw [List.mapM_cons, List.flatMap_cons]
    exact (h a).bind fun b _ => ih.bind_pure (b :: ·)

end Follows
end JourneyPages
