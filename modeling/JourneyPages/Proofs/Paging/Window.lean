import JourneyPages.Paging.Cursor
import JourneyPages.Paging.Preferences
import JourneyPages.Proofs.Steps

/-!
Whatever a page was like, the window of the next search is within the bounds of the policy, and in
whole minutes like them.
-/
namespace JourneyPages

theorem ok_of_orOutOfRange {α : Type} {x : Option α} {a : α}
    (h : PageLinker.orOutOfRange x = .ok a) : x = some a := by
  cases x with
  | none => cases h
  | some b =>
    cases h
    rfl

/-! Bounds -/

theorem Span.le_clamp {low high : Span} (h : low ≤ high) (s : Span) : low ≤ s.clamp low high := by
  rw [Span.le_iff] at *
  unfold clamp
  split
  · exact Int.le_refl _
  · split
    · exact h
    · simp only [Span.lt_iff] at *
      omega

theorem Span.clamp_le {low high : Span} (h : low ≤ high) (s : Span) : s.clamp low high ≤ high := by
  rw [Span.le_iff] at *
  unfold clamp
  split
  · exact h
  · split
    · exact Int.le_refl _
    · simp only [Span.lt_iff] at *
      omega

namespace WindowPolicy
variable {p : WindowPolicy}

theorem min_le_fit (p : WindowPolicy) (window : Span) : p.min ≤ p.fit window := by
  unfold fit
  dsimp only
  split
  · exact Span.le_clamp p.min_le_max _
  · exact p.min_le_max

theorem fit_le_max (p : WindowPolicy) (window : Span) : p.fit window ≤ p.max := by
  unfold fit
  dsimp only
  split
  · exact Span.clamp_le p.min_le_max _
  · exact Int.le_refl _

/-- A window that the policy may give to a search: one moved into the bounds, or the longest. -/
def Gives (p : WindowPolicy) (window : Span) : Prop :=
  (∃ wanted, window = p.fit wanted) ∨ window = p.max

theorem gives_shrink (p : WindowPolicy) (opens : Instant) (used : Span) (cut : Instant)
    (lost : ListEnd) : p.Gives (p.shrink opens used cut lost) := by
  unfold shrink
  split
  · exact .inl ⟨_, rfl⟩
  · split
    · exact .inl ⟨_, rfl⟩
    · exact .inr rfl

theorem gives_grow (p : WindowPolicy) (used : Span) (requested found : Nat) :
    p.Gives (p.grow used requested found) := by
  unfold grow
  split
  · exact .inr rfl
  · split
    · exact .inl ⟨_, rfl⟩
    · split
      · exact .inl ⟨_, rfl⟩
      · exact .inr rfl

namespace Gives
variable {window : Span} (h : p.Gives window)
include h

theorem min_le : p.min ≤ window := by
  obtain ⟨wanted, rfl⟩ | rfl := h
  · exact p.min_le_fit wanted
  · exact p.min_le_max

theorem le_max : window ≤ p.max := by
  obtain ⟨wanted, rfl⟩ | rfl := h
  · exact p.fit_le_max wanted
  · exact Int.le_refl _

end Gives

/-- Bounds in whole minutes, and none of them negative. -/
structure InMinutes (p : WindowPolicy) : Prop where
  zero_le : 0 ≤ p.min.nanos
  min : 60000000000 ∣ p.min.nanos
  max : 60000000000 ∣ p.max.nanos

theorem InMinutes.fit (h : p.InMinutes) (window : Span) :
    60000000000 ∣ (p.fit window).nanos := by
  unfold WindowPolicy.fit
  dsimp only
  split
  case h_1 rounded hrounded =>
    have hnanos := Span.ofNanos?_eq_some_iff.mp hrounded
    unfold Span.clamp
    split
    · exact h.min
    · split
      · exact h.max
      · exact hnanos ▸ Int.dvd_mul_left _ _
  case h_2 => exact h.max

theorem InMinutes.of_gives (h : p.InMinutes) {window : Span} (hw : p.Gives window) :
    60000000000 ∣ window.nanos := by
  obtain ⟨wanted, rfl⟩ | rfl := hw
  · exact h.fit wanted
  · exact h.max

end WindowPolicy

namespace PagingPreferences

theorem of_window {name : String} {minutes : Int} {s : Span} (h : window name minutes = .ok s) :
    0 ≤ minutes ∧ s.nanos = minutes * 60000000000 := by
  unfold window at h
  split at h
  case h_1 t hminutes =>
    cases h
    split at hminutes
    case isTrue hpos => exact ⟨hpos, Span.ofNanos?_eq_some_iff.mp hminutes⟩
    case isFalse => cases hminutes
  case h_2 => cases h

variable {p : PagingPreferences} {policy : WindowPolicy}

theorem parts_of_policy (h : p.policy = .ok policy) :
    p.min = .ok policy.min ∧ p.max = .ok policy.max ∧ p.steps = .ok policy.steps := by
  obtain ⟨low, hlow, h⟩ := ok_of_bind h
  obtain ⟨high, hhigh, h⟩ := ok_of_bind h
  obtain ⟨steps, hsteps, h⟩ := ok_of_bind h
  unfold WindowPolicy.make at h
  split at h
  case isTrue =>
    cases h
    exact ⟨hlow, hhigh, hsteps⟩
  case isFalse => cases h

theorem min_of_policy (h : p.policy = .ok policy) :
    policy.min.nanos = p.minMinutes * 60000000000 :=
  (of_window (parts_of_policy h).1).2

theorem max_of_policy (h : p.policy = .ok policy) :
    policy.max.nanos = p.maxMinutes * 60000000000 :=
  (of_window (parts_of_policy h).2.1).2

theorem inMinutes_of_policy (h : p.policy = .ok policy) : policy.InMinutes := by
  obtain ⟨hmin, hmax, -⟩ := parts_of_policy h
  obtain ⟨hpos, hmin⟩ := of_window hmin
  obtain ⟨-, hmax⟩ := of_window hmax
  exact ⟨by omega, hmin ▸ Int.dvd_mul_left _ _, hmax ▸ Int.dvd_mul_left _ _⟩

/-- A window grows by whole minutes, if it grows. -/
theorem step_of_policy (h : p.policy = .ok policy) (found : Nat) :
    0 ≤ (policy.step found).nanos ∧ 60000000000 ∣ (policy.step found).nanos := by
  have hall : ∀ s ∈ policy.steps, 0 ≤ s.nanos ∧ 60000000000 ∣ s.nanos := by
    intro s hs
    have hsteps := forall₂_of_mapM (parts_of_policy h).2.2
    obtain ⟨minutes, -, hwindow⟩ := exists_of_forall₂ hsteps.flip hs
    obtain ⟨hpos, hs⟩ := of_window hwindow
    exact ⟨by omega, hs ▸ Int.dvd_mul_left _ _⟩
  unfold WindowPolicy.step
  cases hstep : policy.steps[found]? with
  | some s => exact hall s (List.mem_of_getElem? hstep)
  | none =>
    cases hlast : policy.steps.getLast? with
    | some s => exact hall s (List.mem_of_getLast? hlast)
    | none => exact ⟨Int.le_refl 0, Int.dvd_zero _⟩

end PagingPreferences
end JourneyPages
