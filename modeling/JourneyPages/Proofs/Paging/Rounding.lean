import JourneyPages.Proofs.Paging.Window
import JourneyPages.Proofs.Trip.Order
import Mathlib.Order.Bounds.Basic

/-!
How windows are rounded. A window is counted in full seconds, and a minute counts from its first
full second on: a window that is less than a second longer than whole minutes is rounded down.
Between the bounds this makes a window shorter than what was wanted, and nothing else does.
-/
namespace JourneyPages

/-- Less than a second has passed of a minute that has begun. -/
def JustBegun (nanos : Int) : Prop :=
  0 < nanos % 60000000000 ∧ nanos % 60000000000 < 1000000000

namespace Span
variable {s : Span} {m n : Int}

/-- `m` is the least number of whole minutes that the span fits into. -/
def FitsInto (s : Span) (m : Int) : Prop := IsLeast {k : Int | s.nanos ≤ k * 60000000000} m

theorem FitsInto.unique (hm : s.FitsInto m) (hn : s.FitsInto n) : m = n :=
  IsLeast.unique hm hn

theorem fitsInto_of_le_of_lt (hle : s.nanos ≤ m * 60000000000)
    (hlt : m * 60000000000 < s.nanos + 60000000000) : s.FitsInto m := by
  refine ⟨hle, fun k hk => ?_⟩
  rw [Set.mem_ofPred_eq] at hk
  omega

/-- The minutes of a span, a started one counting as a whole by its full seconds. -/
def roundedMinutes (s : Span) : Int :=
  s.wholeSeconds.tdiv 60 + if 0 < s.wholeSeconds.tmod 60 then 1 else 0

theorem roundedMinutes_of_nonneg (h : 0 ≤ s.nanos) : s.roundedMinutes =
    s.nanos / 60000000000 + if s.nanos % 60000000000 < 1000000000 then 0 else 1 := by
  have hseconds : s.wholeSeconds = s.nanos / 1000000000 := Int.tdiv_eq_ediv_of_nonneg h
  have hpos : 0 ≤ s.nanos / 1000000000 := by omega
  rw [roundedMinutes, hseconds, Int.tdiv_eq_ediv_of_nonneg hpos, Int.tmod_eq_emod_of_nonneg hpos]
  split <;> split <;> omega

/-- In front of zero, seconds and minutes are cut off upwards. -/
theorem fitsInto_of_nonpos (h : s.nanos ≤ 0) : s.FitsInto s.roundedMinutes := by
  obtain ⟨n, hn⟩ := Int.exists_eq_neg_ofNat h
  have hseconds : s.wholeSeconds = -((n : Int) / 1000000000) := by
    rw [wholeSeconds, hn, Int.neg_tdiv, Int.tdiv_eq_ediv_of_nonneg (Int.natCast_nonneg n)]
  have hpos : 0 ≤ (n : Int) / 1000000000 := by omega
  have hminutes : s.roundedMinutes = -((n : Int) / 1000000000 / 60) := by
    rw [roundedMinutes, hseconds, Int.neg_tdiv, Int.neg_tmod, Int.tdiv_eq_ediv_of_nonneg hpos,
      Int.tmod_eq_emod_of_nonneg hpos, if_neg (by omega), Int.add_zero]
  apply fitsInto_of_le_of_lt <;> omega

theorem fitsInto_of_not_justBegun (h : ¬ JustBegun s.nanos) : s.FitsInto s.roundedMinutes := by
  rcases Int.le_total s.nanos 0 with hneg | hpos
  · exact fitsInto_of_nonpos hneg
  · have hminutes := roundedMinutes_of_nonneg hpos
    unfold JustBegun at h
    apply fitsInto_of_le_of_lt <;> split at hminutes <;> omega

/-- A minute of which less than a second has passed is missing. -/
theorem fitsInto_of_justBegun (hpos : 0 ≤ s.nanos) (h : JustBegun s.nanos) :
    s.FitsInto (s.roundedMinutes + 1) := by
  have hminutes := roundedMinutes_of_nonneg hpos
  unfold JustBegun at h
  apply fitsInto_of_le_of_lt <;> split at hminutes <;> omega

/-- No more than a second is ever rounded off. -/
theorem lt_roundedMinutes (s : Span) : s.nanos < s.roundedMinutes * 60000000000 + 1000000000 := by
  by_cases h : 0 ≤ s.nanos
  · have hminutes := roundedMinutes_of_nonneg h
    split at hminutes <;> omega
  · have hfits : s.nanos ≤ s.roundedMinutes * 60000000000 :=
      (fitsInto_of_nonpos (s := s) (by omega)).1
    omega

end Span

/-- The part of a window, in time, that a page showed that was cut: from its start to the cut, or
from the cut to its end. -/
def shownNanos (opens : Instant) (used : Span) (cut : Instant) : ListEnd → Int
  | .tail => cut.nanosSince opens
  | .head => opens.nanosSince cut + used.nanos

namespace WindowPolicy
variable {p : WindowPolicy}

/-- A number of nanoseconds moved into the bounds. -/
def bounded (p : WindowPolicy) (nanos : Int) : Int := Max.max p.min.nanos (Min.min nanos p.max.nanos)

/-- The window for `wanted` is the least number of whole minutes that this fits into, moved into the
bounds. -/
def RoundsUp (p : WindowPolicy) (wanted : Span) : Prop :=
  ∃ minutes, wanted.FitsInto minutes ∧ (p.fit wanted).nanos = p.bounded (minutes * 60000000000)

/-- The window is as long as it was wanted, or as long as it may be. -/
def Suffices (p : WindowPolicy) (window : Span) (wanted : Int) : Prop :=
  Min.min p.max.nanos wanted ≤ window.nanos

/-- What was wanted is between the bounds and less than a second longer than whole minutes. -/
def Shortens (p : WindowPolicy) (wanted : Int) : Prop :=
  p.min.nanos < wanted ∧ wanted < p.max.nanos ∧ JustBegun wanted

theorem fit_nanos (p : WindowPolicy) (wanted : Span) :
    (p.fit wanted).nanos = p.bounded (wanted.roundedMinutes * 60000000000) := by
  have hbounds := p.min_le_max
  have hlower := wanted.lt_roundedMinutes
  have hwanted := wanted.inRange
  have hmax := p.max.inRange
  rw [Span.le_iff] at hbounds
  unfold fit bounded
  dsimp only
  rw [← Span.roundedMinutes]
  split
  case h_1 rounded hrounded =>
    have hnanos := Span.ofNanos?_eq_some_iff.mp hrounded
    unfold Span.clamp
    simp only [Span.lt_iff]
    split
    · omega
    · split <;> omega
  case h_2 hnone =>
    have hlong := Span.ofNanos?_eq_none_iff.mp hnone
    omega

theorem roundsUp_iff_of_fitsInto {wanted : Span} {minutes : Int} (h : wanted.FitsInto minutes) :
    p.RoundsUp wanted ↔ (p.fit wanted).nanos = p.bounded (minutes * 60000000000) := by
  constructor
  · rintro ⟨m, hm, heq⟩
    rw [heq, hm.unique h]
  · exact fun heq => ⟨minutes, h, heq⟩

/-- A window is rounded up, and is as long as it was wanted, unless that is between the bounds and
a minute of it has just begun. -/
theorem roundsUp_iff_and_suffices_iff (h : p.InMinutes) (wanted : Span) :
    (p.RoundsUp wanted ↔ ¬ p.Shortens wanted.nanos) ∧
      (p.Suffices (p.fit wanted) wanted.nanos ↔ ¬ p.Shortens wanted.nanos) := by
  have hbounds := p.min_le_max
  have hzero := h.zero_le
  obtain ⟨low, hlow⟩ := h.min
  obtain ⟨high, hhigh⟩ := h.max
  rw [Span.le_iff] at hbounds
  unfold Suffices
  by_cases hbegun : 0 ≤ wanted.nanos ∧ JustBegun wanted.nanos
  · -- What was wanted lies between the rounded minutes and one more, and no bound does.
    obtain ⟨hpos, hbegun⟩ := hbegun
    have hminutes := Span.roundedMinutes_of_nonneg hpos
    rw [if_pos hbegun.2] at hminutes
    rw [roundsUp_iff_of_fitsInto (Span.fitsInto_of_justBegun hpos hbegun), fit_nanos]
    unfold Shortens bounded
    simp only [hbegun, and_true]
    unfold JustBegun at hbegun
    constructor <;> omega
  · have hnot : ¬ p.Shortens wanted.nanos := by
      rintro ⟨hmin, -, hjust⟩
      exact hbegun ⟨by omega, hjust⟩
    have hfits : wanted.FitsInto wanted.roundedMinutes := by
      by_cases hpos : 0 ≤ wanted.nanos
      · exact Span.fitsInto_of_not_justBegun fun hjust => hbegun ⟨hpos, hjust⟩
      · exact Span.fitsInto_of_nonpos (by omega)
    have hle : wanted.nanos ≤ wanted.roundedMinutes * 60000000000 := hfits.1
    rw [roundsUp_iff_of_fitsInto hfits, fit_nanos, iff_true_right hnot, iff_true_right hnot]
    refine ⟨rfl, ?_⟩
    unfold bounded
    omega

theorem suffices_max {wanted : Int} : p.Suffices p.max wanted := Int.min_le_left _ _

theorem nanos_of_shortens (h : p.InMinutes) {wanted : Int} (hshort : p.Shortens wanted) :
    0 < wanted ∧ wanted < 9223372036854775807000000 := by
  have hzero := h.zero_le
  have hmax := p.max.inRange
  obtain ⟨hlow, hhigh, -⟩ := hshort
  omega

/-- After a page that was cut. -/
theorem suffices_shrink_iff (h : p.InMinutes) (opens : Instant) (used : Span) (cut : Instant)
    (lost : ListEnd) :
    p.Suffices (p.shrink opens used cut lost) (shownNanos opens used cut lost) ↔
      ¬ p.Shortens (shownNanos opens used cut lost) := by
  unfold shrink
  cases lost with
  | tail => exact (roundsUp_iff_and_suffices_iff h (cut.since opens)).2
  | head =>
    dsimp only
    cases hshown : (opens.since cut).add? used with
    | some shown =>
      have hnanos : shown.nanos = shownNanos opens used cut .head := by
        rw [Span.ofNanos?_eq_some_iff.mp hshown, Instant.since_nanos, shownNanos]
      rw [← hnanos]
      exact (roundsUp_iff_and_suffices_iff h shown).2
    | none =>
      have hlong := Span.ofNanos?_eq_none_iff.mp hshown
      rw [Instant.since_nanos] at hlong
      refine iff_of_true suffices_max fun hshort => ?_
      have hrange := nanos_of_shortens h hshort
      rw [shownNanos] at hrange
      omega

/-- After a page that was not cut. A step of a minute or more makes up for what is rounded off. -/
theorem suffices_grow_iff (h : p.InMinutes) (used : Span) (requested found : Nat)
    (hstep : 0 ≤ (p.step found).nanos ∧ 60000000000 ∣ (p.step found).nanos) :
    p.Suffices (p.grow used requested found) used.nanos ↔
      ¬ (p.Shortens used.nanos ∧ (requested ≤ found ∨ p.step found = Span.zero)) := by
  unfold grow
  split
  case isTrue hmax =>
    rw [Span.le_iff] at hmax
    exact iff_of_true suffices_max fun hshort => absurd hshort.1.2.1 (Int.not_lt.mpr hmax)
  case isFalse =>
    split
    case isTrue hfound =>
      simpa only [hfound, true_or, and_true] using (roundsUp_iff_and_suffices_iff h used).2
    case isFalse hfound =>
      simp only [hfound, false_or]
      by_cases hzero : p.step found = Span.zero
      · have hsame : used.add? (p.step found) = some used := by
          rw [hzero]
          exact Span.ofNanos?_eq_some_iff.mpr (Int.add_zero _).symm
        rw [hsame]
        simpa only [hzero, and_true] using (roundsUp_iff_and_suffices_iff h used).2
      · refine iff_of_true ?_ fun hshort => hzero hshort.2
        cases hlonger : used.add? (p.step found) with
        | none => exact suffices_max
        | some longer =>
          have hnanos := Span.ofNanos?_eq_some_iff.mp hlonger
          have hpos : (p.step found).nanos ≠ 0 := fun h0 => hzero (Span.ext h0)
          have hrounded := longer.lt_roundedMinutes
          obtain ⟨⟩ := hstep
          unfold Suffices
          rw [fit_nanos]
          unfold bounded
          omega

/-- What becomes shorter than it should be: a window between the bounds of which a minute has just
begun. It does after a page that was cut, and after another one unless a step makes up for it. -/
theorem rounds_up_iff {chosen : PagingPreferences} (hp : chosen.policy = .ok p) :
    (∀ wanted, p.RoundsUp wanted ↔ ¬ p.Shortens wanted.nanos) ∧
    (∀ opens used cut lost,
      p.Suffices (p.shrink opens used cut lost) (shownNanos opens used cut lost) ↔
        ¬ p.Shortens (shownNanos opens used cut lost)) ∧
    ∀ used requested found, p.Suffices (p.grow used requested found) used.nanos ↔
      ¬ (p.Shortens used.nanos ∧ (requested ≤ found ∨ p.step found = Span.zero)) := by
  have h := PagingPreferences.inMinutes_of_policy hp
  refine ⟨fun wanted => (roundsUp_iff_and_suffices_iff h wanted).1, suffices_shrink_iff h, ?_⟩
  intro used requested found
  exact suffices_grow_iff h used requested found (PagingPreferences.step_of_policy hp found)

/-- The bounds and steps of a service that chooses nothing. -/
theorem rounds_up_iff_standard : ∃ p, PagingPreferences.standard.policy = .ok p ∧
    (∀ wanted, p.RoundsUp wanted ↔ ¬ p.Shortens wanted.nanos) ∧
    (∀ opens used cut lost,
      p.Suffices (p.shrink opens used cut lost) (shownNanos opens used cut lost) ↔
        ¬ p.Shortens (shownNanos opens used cut lost)) ∧
    ∀ used requested found, p.Suffices (p.grow used requested found) used.nanos ↔
      ¬ (p.Shortens used.nanos ∧ (requested ≤ found ∨ p.step found = Span.zero)) := by
  have hp : PagingPreferences.standard.policy = .ok _ := rfl
  exact ⟨_, hp, rounds_up_iff hp⟩

/-- An hour and half a second. -/
def longHour : Span := ⟨3600500000000, by decide⟩

/-- Half a second past nine. -/
def pastNine : Instant := ⟨32940500000000, by decide⟩

/-- An hour is left of an hour and half a second, whether a page from eight o'clock is cut there or
the search has found enough. -/
theorem exists_shortened : ∃ p, PagingPreferences.standard.policy = .ok p ∧
    ¬ p.RoundsUp longHour ∧
    ¬ p.Suffices (p.shrink (.ofMinutes 480) (.ofMinutes 180) pastNine .tail)
      (shownNanos (.ofMinutes 480) (.ofMinutes 180) pastNine .tail) ∧
    ¬ p.Suffices (p.grow longHour 5 5) longHour.nanos := by
  have hstandard : ∃ p, PagingPreferences.standard.policy = .ok p ∧ p.Shortens longHour.nanos :=
    ⟨_, rfl, by decide, by decide, by decide, by decide⟩
  obtain ⟨p, hp, hshort⟩ := hstandard
  have h := PagingPreferences.inMinutes_of_policy hp
  have hstep := PagingPreferences.step_of_policy hp 5
  refine ⟨p, hp, ?_⟩
  rw [(roundsUp_iff_and_suffices_iff h longHour).1, suffices_shrink_iff h,
    suffices_grow_iff h longHour 5 5 hstep]
  exact ⟨not_not.mpr hshort, not_not.mpr hshort, not_not.mpr ⟨hshort, .inl (by decide)⟩⟩

end WindowPolicy
end JourneyPages
