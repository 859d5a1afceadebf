import JourneyPages.Proofs.Filter.DearTransit

/-!
The time on the legs and the time of the whole trip. No leg starts before the one in front of it
ends, so what is spent on some of the legs is no more than what lies between the first start and the
last finish, and cutting the time on each leg off to whole seconds only makes the sum less. This
needs a clock on which all times are a nanosecond apart. There is one for any trip, with sixty-one
seconds to the minute, so that sums stay in bounds; but durations are by the clock with sixty
seconds, and that one will not do if a leg starts or ends in a leap second. For the rule against
little driving this means that its ratio is a fraction of one with no zero below the line, leap
seconds apart.
-/
namespace JourneyPages

open Number

theorem Span.wholeSeconds_of_nonneg {s : Span} (h : 0 ≤ s.nanos) :
    s.wholeSeconds = s.nanos / 1000000000 := Int.tdiv_eq_ediv_of_nonneg h

theorem Span.wholeSeconds_of_neg {s : Span} (hlt : s.nanos < 0) (hle : -1000000000 < s.nanos) :
    s.wholeSeconds = 0 := by
  have habs : s.wholeSeconds.natAbs = s.nanos.natAbs / 1000000000 :=
    Int.natAbs_tdiv s.nanos 1000000000
  omega

/-- The whole seconds on a leg are no less than none, and no more than all clocks can show. -/
theorem Leg.wholeSeconds_duration_bounds (l : Leg) : 0 ≤ l.duration.wholeSeconds ∧
    l.duration.wholeSeconds * 1000000000 ≤ l.finish.ticks - l.start.ticks := by
  have horder := Instant.le_iff.mp l.start_le_finish
  have hlow : -1000000000 < l.duration.nanos := Instant.lt_nanosSince l.start_le_finish
  have hhigh : l.duration.nanos ≤ l.finish.ticks - l.start.ticks :=
    Instant.nanosSince_le l.start_le_finish
  by_cases hneg : l.duration.nanos < 0
  · rw [Span.wholeSeconds_of_neg hneg hlow]
    omega
  · rw [Span.wholeSeconds_of_nonneg (not_lt.mp hneg)]
    omega

/-- The whole seconds on some legs, counted leg by leg. -/
def secondsOn (legs : List Leg) : Int := (legs.map fun l => l.duration.wholeSeconds).sum

variable {legs part : List Leg} {clock : Instant → Int}

theorem secondsOn_nonneg (legs : List Leg) : 0 ≤ secondsOn legs := by
  apply List.sum_nonneg
  rw [List.forall_mem_map]
  exact fun l _ => l.wholeSeconds_duration_bounds.1

theorem secondsOn_le_of_sublist (h : part.Sublist legs) : secondsOn part ≤ secondsOn legs := by
  refine (h.map _).sum_le_sum ?_
  rw [List.forall_mem_map]
  exact fun l _ => l.wholeSeconds_duration_bounds.1

/-- A clock for some legs: it shows the whole seconds of each one, and never steps back from one to
the next. -/
structure Times (clock : Instant → Int) (legs : List Leg) : Prop where
  seconds : ∀ l ∈ legs, l.duration.wholeSeconds * 1000000000 ≤ clock l.finish - clock l.start
  gaps : legs.Pairwise fun a b => clock a.finish ≤ clock b.start

/-- Legs in order take no more time than there is from the first start to the last finish. -/
theorem Times.secondsOn_le (h : Times clock legs) (hne : legs ≠ []) :
    secondsOn legs * 1000000000 ≤
      clock (legs.getLast hne).finish - clock (legs.head hne).start := by
  induction legs with
  | nil => exact absurd rfl hne
  | cons a rest ih =>
    have hseconds : secondsOn (a :: rest) = a.duration.wholeSeconds + secondsOn rest := rfl
    have hfirst := h.seconds a List.mem_cons_self
    obtain ⟨hgaps, hrest⟩ := List.pairwise_cons.mp h.gaps
    cases rest with
    | nil =>
      have hnone : secondsOn [] = 0 := rfl
      rw [hseconds, hnone, Int.add_zero]
      exact hfirst
    | cons b rest =>
      have hgap := hgaps b List.mem_cons_self
      have htail := ih ⟨fun l hl => h.seconds l (List.mem_cons_of_mem a hl), hrest⟩
        (List.cons_ne_nil b rest)
      rw [hseconds, List.getLast_cons (List.cons_ne_nil b rest)]
      simp only [List.head_cons] at htail ⊢
      omega

namespace Itinerary
variable (it : Itinerary)

/-- No leg starts or ends in a leap second. -/
def AvoidsLeapSeconds : Prop := ∀ l ∈ it.legs, ¬ l.start.IsLeap ∧ ¬ l.finish.IsLeap

instance : Decidable it.AvoidsLeapSeconds :=
  inferInstanceAs (Decidable (∀ l ∈ it.legs, ¬ l.start.IsLeap ∧ ¬ l.finish.IsLeap))

theorem times_ticks : Times Instant.ticks it.legs where
  seconds l _ := l.wholeSeconds_duration_bounds.2
  gaps := it.legs_inOrder

theorem wholeSeconds_duration_lt : it.duration.wholeSeconds < 2 ^ 53 := by
  have h := it.finish.natAbs_wholeSeconds_since_lt it.start
  unfold duration
  omega

/-- The clock of all times is enough to keep a sum in bounds. -/
theorem secondsOn_lt (h : part.Sublist it.legs) : secondsOn part < 2 ^ 63 := by
  have hpart := secondsOn_le_of_sublist h
  have hall := it.times_ticks.secondsOn_le it.legs_ne_nil
  have hlast := (it.legs.getLast it.legs_ne_nil).finish.inRange
  have hfirst := (it.legs.head it.legs_ne_nil).start.inRange
  omega

section AvoidsLeapSeconds
variable {it} (even : it.AvoidsLeapSeconds)
include even

theorem times_nanos : Times Instant.nanos it.legs where
  seconds := by
    intro l hl
    obtain ⟨hstart, hfinish⟩ := even l hl
    have hnanos : l.duration.nanos = l.finish.nanos - l.start.nanos :=
      Instant.nanosSince_of_not_isLeap hfinish hstart
    have hpos := (Instant.nanos_le_nanos_iff hstart hfinish).mpr l.start_le_finish
    rw [Span.wholeSeconds_of_nonneg (by omega)]
    omega
  gaps := it.legs_inOrder.imp_of_mem fun ha hb hab =>
    (Instant.nanos_le_nanos_iff (even _ ha).2 (even _ hb).1).mpr hab

theorem secondsOn_le_duration (h : part.Sublist it.legs) :
    secondsOn part ≤ it.duration.wholeSeconds := by
  have hpart := secondsOn_le_of_sublist h
  have hall : secondsOn it.legs * 1000000000 ≤ it.finish.nanos - it.start.nanos :=
    (times_nanos even).secondsOn_le it.legs_ne_nil
  have hpos := secondsOn_nonneg it.legs
  have hnanos : it.duration.nanos = it.finish.nanos - it.start.nanos :=
    Instant.nanosSince_of_not_isLeap (even _ (List.getLast_mem it.legs_ne_nil)).2
      (even _ (List.head_mem it.legs_ne_nil)).1
  rw [Span.wholeSeconds_of_nonneg (by omega)]
  omega

end AvoidsLeapSeconds

end Itinerary

namespace Flagger
variable {it : Itinerary}

theorem drivingSeconds_eq (it : Itinerary) :
    drivingSeconds it = secondsOn (it.legs.filter (Leg.isBy .car)) := by
  rw [drivingSeconds, secondsOn, List.sum_eq_foldl]

/-- The part of an itinerary's time that is spent driving. -/
def drivingShare (it : Itinerary) : Float :=
  floatOfInt (drivingSeconds it) / floatOfInt it.duration.wholeSeconds

theorem rejectsAlone_littleDriving_iff {ratio : Float} : (littleDriving ratio).rejectsAlone it ↔
    it.isStreetOnly ∧ 0 < drivingSeconds it ∧ drivingShare it < ratio := by
  simp only [rejectsAlone, drivingShare, Bool.and_eq_true, decide_eq_true_eq, and_assoc]

/-- Where there is driving at all, its share is a quotient of two positive numbers and one at
most. -/
theorem drivingShare_le_one (even : it.AvoidsLeapSeconds) (h : 0 < drivingSeconds it) :
    0 < it.duration.wholeSeconds ∧ 0.0 < floatOfInt it.duration.wholeSeconds ∧
      drivingShare it ≤ 1.0 := by
  have hle : drivingSeconds it ≤ it.duration.wholeSeconds := by
    rw [drivingSeconds_eq]
    exact Itinerary.secondsOn_le_duration even List.filter_sublist
  have hlt := it.wholeSeconds_duration_lt
  obtain ⟨hdriving, hnumerator⟩ := Binary64.value_floatOfInt (n := drivingSeconds it) (by omega)
  obtain ⟨htotal, hdenominator⟩ :=
    Binary64.value_floatOfInt (n := it.duration.wholeSeconds) (by omega)
  have hpos : 0 < (Binary64.ofFloat (floatOfInt it.duration.wholeSeconds)).value := by
    rw [hdenominator]
    exact_mod_cast h.trans_le hle
  refine ⟨h.trans_le hle, ?_, Binary64.div_le_one_of_value_le hdriving htotal hpos ?_⟩
  · rw [Binary64.lt_iff_value_lt (Binary64.ne_nan_of_isFinite (by decide))
      (Binary64.ne_nan_of_isFinite htotal), Binary64.value_ofFloat_zero]
    exact hpos
  · rw [hnumerator, hdenominator]
    exact_mod_cast hle

end Flagger

/-- The whole seconds on any of an itinerary's legs are never negative and keep within 64 bits.
Where no leg starts or ends in a leap second, they are within those of the duration. The rule
against little driving then divides by a positive number wherever it divides, never comes out above
one, and with a ratio above one rejects whatever street-only itinerary has any driving. -/
theorem Itinerary.durations_add_up (it : Itinerary) :
    (∀ part, part.Sublist it.legs → 0 ≤ secondsOn part ∧ secondsOn part < 2 ^ 63) ∧
    (it.AvoidsLeapSeconds →
      (∀ part, part.Sublist it.legs → secondsOn part ≤ it.duration.wholeSeconds) ∧
      (0 < Flagger.drivingSeconds it → 0 < it.duration.wholeSeconds ∧
        0.0 < floatOfInt it.duration.wholeSeconds ∧ Flagger.drivingShare it ≤ 1.0) ∧
      ∀ ratio, 1.0 < ratio → ((Flagger.littleDriving ratio).rejectsAlone it ↔
        it.isStreetOnly ∧ 0 < Flagger.drivingSeconds it)) := by
  refine ⟨fun part h => ⟨secondsOn_nonneg part, it.secondsOn_lt h⟩, fun even => ?_⟩
  refine ⟨fun part h => secondsOn_le_duration even h, Flagger.drivingShare_le_one even,
    fun ratio hratio => ?_⟩
  rw [Flagger.rejectsAlone_littleDriving_iff]
  refine and_congr_right fun _ => and_iff_left_of_imp fun hdriving => ?_
  exact Binary64.lt_of_le_of_lt (Flagger.drivingShare_le_one even hdriving).2.2 hratio

/-- A stretch on the street. -/
def Leg.stretch (mode : StreetMode) (start finish : Instant) (h : start ≤ finish) : Leg where
  travel := .street mode false
  origin := ⟨"A", none, none⟩
  destination := ⟨"B", none, none⟩
  start := start
  finish := finish
  distance := 10.0
  cost := .saturate 0
  start_le_finish := h
  distance_isMeasure := rfl

/-- A drive of less than two seconds, one of no time at all, and a walk, with waiting between
them. -/
def shortDrive : Itinerary where
  legs := [.stretch .car ⟨100000000, by decide⟩ ⟨2000000000, by decide⟩ (by decide),
    .stretch .car ⟨2500000000, by decide⟩ ⟨2500000000, by decide⟩ (by decide),
    .stretch .walk ⟨2600000000, by decide⟩ ⟨3200000000, by decide⟩ (by decide)]
  cost := .saturate 10
  tags := []
  notices := []
  decorations := []
  legs_ne_nil := List.cons_ne_nil _ _
  legs_inOrder := by decide

theorem Itinerary.durations_add_up_shortDrive :
    (secondsOn shortDrive.legs = 1 ∧ shortDrive.duration.wholeSeconds = 3 ∧
      secondsOn shortDrive.legs ≤ shortDrive.duration.wholeSeconds) ∧
    (Flagger.drivingSeconds shortDrive = 1 ∧ Flagger.drivingShare shortDrive ≤ 1.0) ∧
    (Flagger.littleDriving 1.5).rejectsAlone shortDrive := by
  obtain ⟨-, heven⟩ := shortDrive.durations_add_up
  obtain ⟨hparts, hshare, hrejects⟩ := heven (by decide)
  have hdriving : 0 < Flagger.drivingSeconds shortDrive := by decide
  exact ⟨⟨by decide, by decide, hparts shortDrive.legs (List.Sublist.refl _)⟩,
    ⟨by decide, (hshare hdriving).2.2⟩, (hrejects 1.5 (by decide)).mpr ⟨by decide, hdriving⟩⟩

/-- A walk of a tenth of a second up to the leap second of a minute, and a drive from there on for a
second and a half. The whole trip takes no more than six tenths of a second, as the leap second
counts for nothing between its ends. -/
def leapDrive : Itinerary where
  legs := [.stretch .walk ⟨29339900000000, by decide⟩ ⟨29340000000000, by decide⟩ (by decide),
    .stretch .car ⟨29340000000000, by decide⟩ ⟨29341500000000, by decide⟩ (by decide)]
  cost := .saturate 10
  tags := []
  notices := []
  decorations := []
  legs_ne_nil := List.cons_ne_nil _ _
  legs_inOrder := by decide

/-- The drive takes a whole second more than the trip that it is part of, which leaves a zero below
the line. -/
theorem exists_longer_than_trip : ¬ ∀ it : Itinerary,
    (∀ part, part.Sublist it.legs → 0 ≤ secondsOn part ∧
      secondsOn part ≤ it.duration.wholeSeconds ∧ secondsOn part < 2 ^ 63) ∧
    (0 < Flagger.drivingSeconds it → 0 < it.duration.wholeSeconds ∧
      Flagger.drivingShare it ≤ 1.0) := by
  intro hall
  have hdriving : 0 < Flagger.drivingSeconds leapDrive := by decide
  have hnone : leapDrive.duration.wholeSeconds = 0 := by decide
  have hpos := ((hall leapDrive).2 hdriving).1
  rw [hnone] at hpos
  exact absurd hpos (by decide)

example : ¬ (Flagger.littleDriving 2.0).rejectsAlone leapDrive := by decide +kernel

end JourneyPages
