import JourneyPages.Proofs.Number.Numeral
import JourneyPages.Proofs.Trip.CostLine

/-!
Which texts are read as cost lines. A text spells two numerals in one way only. The second one has
to be finite and not below zero, but the first one is rounded to a cost and held to its range before
its sign is looked at: an infinite constant is read as the largest cost, one that is not a number or
not far enough below zero as nothing.
-/
namespace JourneyPages

open Number

theorem Cost.ofFloat_nonneg_iff {x : Float} :
    0 ≤ (ofFloat x).value ↔ -1 / 2 < (Binary64.ofFloat x).value := by
  rw [ofFloat_eq, ← nearestInt_nonneg_iff, saturate_value]
  omega

namespace CostLine
variable {s : String} {f : CostLine} {a b a' b' : Float}

/-- Without its blanks, the text is two numerals with a plus between them and an `x` at its end. -/
def Spells (s : String) (a b : Float) : Prop :=
  ∃ first second, s.toList.filter (!Text.isBlank ·) = first ++ '+' :: (second ++ ['x']) ∧
    Numeral.Denotes a first ∧ Numeral.Denotes b second

/-- The text spells the line: with numerals that are finite and not below zero, of which the first
one is rounded to the nearest cost. -/
def Meaningful (s : String) (f : CostLine) : Prop :=
  ∃ a b, Spells s a b ∧ isMeasure a = true ∧ isMeasure b = true ∧
    f.constant = .saturate (round (Binary64.ofFloat a).value) ∧ f.coefficient = b

theorem Spells.unique (h : Spells s a b) (h' : Spells s a' b') : a = a' ∧ b = b' := by
  obtain ⟨first, second, hs, ha, hb⟩ := h
  obtain ⟨first', second', hs', ha', hb'⟩ := h'
  obtain ⟨rfl, hterm⟩ := ha.eq_of_append_plus ha' (hs.symm.trans hs')
  obtain rfl := List.append_cancel_right hterm
  exact ⟨ha.unique ha', hb.unique hb'⟩

theorem make_eq_ok_iff {c : Cost} : make c b = .ok f ↔
    isMeasure b = true ∧ 0 ≤ c.value ∧ f.constant = c ∧ f.coefficient = b := by
  unfold make
  split_ifs with hb hc
  · constructor
    · rintro ⟨⟩
      exact ⟨hb, hc, rfl, rfl⟩
    · rintro ⟨-, -, rfl, rfl⟩
      rfl
  · simp [hc]
  · simp [hb]

/-- The first plus of the text divides it. -/
theorem read_eq_ok_iff : read s = .ok f ↔ ∃ first second a b,
    s.toList.filter (!Text.isBlank ·) = first ++ '+' :: (second ++ ['x']) ∧ '+' ∉ first ∧
      Numeral.Denotes a first ∧ Numeral.Denotes b second ∧ make (Cost.ofFloat a) b = .ok f := by
  constructor
  · intro h
    unfold read at h
    dsimp only at h
    split at h
    case h_1 => cases h
    case h_2 c term hdrop =>
      obtain ⟨rfl, hplus, hs⟩ := Text.takeWhile_dropWhile_ne_iff.mp ⟨rfl, hdrop⟩
      split at h
      case h_2 => cases h
      case h_1 coefficient hterm =>
        have hend : term = coefficient.reverse ++ ['x'] := by
          rw [← List.reverse_reverse term, hterm, List.reverse_cons]
        split at h
        case h_1 => cases h
        case h_2 a ha =>
          split at h
          case h_1 => cases h
          case h_2 b hb =>
            rw [hend] at hs
            exact ⟨_, _, a, b, hs, hplus, Numeral.toFloat?_eq_some_iff.mp ha,
              Numeral.toFloat?_eq_some_iff.mp hb, h⟩
  · rintro ⟨first, second, a, b, hs, hplus, ha, hb, hmake⟩
    obtain ⟨htake, hdrop⟩ := Text.takeWhile_dropWhile_ne_iff.mpr ⟨rfl, hplus, hs⟩
    rw [← Numeral.toFloat?_eq_some_iff] at ha hb
    unfold read
    dsimp only
    rw [hdrop, htake]
    simp only [List.reverse_append, List.reverse_singleton, List.singleton_append,
      List.reverse_reverse, ha, hb]
    exact hmake

/-- A text that is read says what it is read as, unless its constant is no cost to begin with. -/
theorem meaningful_iff (hread : read s = .ok f) (h : Spells s a b) :
    Meaningful s f ↔ isMeasure a = true := by
  constructor
  · rintro ⟨a', b', h', ha', -⟩
    rwa [(h.unique h').1]
  · intro ha
    obtain ⟨first, second, a', b', hs, -, ha', hb', hmake⟩ := read_eq_ok_iff.mp hread
    have h' : Spells s a' b' := ⟨first, second, hs, ha', hb'⟩
    obtain ⟨rfl, rfl⟩ := h.unique h'
    obtain ⟨hb, -, hconstant, hcoefficient⟩ := make_eq_ok_iff.mp hmake
    refine ⟨a, b, h, ha, hb, ?_, hcoefficient⟩
    rw [hconstant, Cost.ofFloat_eq, nearestInt_eq_bySign_round, bySign,
      if_neg (not_lt.mpr (isMeasure_iff.mp ha).2)]

/-- What is not rounded below zero is finite and not below zero, with three exceptions. -/
theorem isMeasure_iff_of_half_lt (h : -1 / 2 < (Binary64.ofFloat a).value) : isMeasure a = true ↔
    ¬ (Binary64.ofFloat a = .nan ∨ Binary64.ofFloat a = .infinite false ∨
      -1 / 2 < (Binary64.ofFloat a).value ∧ (Binary64.ofFloat a).value < 0) := by
  rw [isMeasure_iff]
  constructor
  · rintro ⟨hfinite, hpos⟩ (hnan | hinf | ⟨-, hneg⟩)
    · exact Binary64.ne_nan_of_isFinite hfinite hnan
    · obtain ⟨s, m, e, hread⟩ := Binary64.isFinite_iff.mp hfinite
      rw [hread] at hinf
      cases hinf
    · exact absurd hpos (not_le.mpr hneg)
  · intro hnot
    rw [not_or, not_or] at hnot
    obtain ⟨hnan, hinf, hneg⟩ := hnot
    rcases Binary64.infinite_or_isFinite hnan with ⟨-, hvalue⟩ | ⟨hinf', -⟩ | hfinite
    · have hone : (1 : ℚ) ≤ overflow := one_le_zpow₀ (by norm_num) (by norm_num)
      linarith
    · exact absurd hinf' hinf
    · exact ⟨hfinite, not_lt.mp fun hlt => hneg ⟨h, hlt⟩⟩

/-- A text is read exactly if its first plus divides it into two numerals, of which the first one is
not rounded below zero and the second one is finite and not below zero. The line is then what the
text says, except where the constant is no number, infinite, or below zero by less than a half. -/
theorem read_by_terms (s : String) (f : CostLine) :
    (read s = .ok f ↔ ∃ first second a b,
      s.toList.filter (!Text.isBlank ·) = first ++ '+' :: (second ++ ['x']) ∧ '+' ∉ first ∧
        Numeral.Denotes a first ∧ Numeral.Denotes b second ∧ isMeasure b = true ∧
        -1 / 2 < (Binary64.ofFloat a).value ∧
        f.constant = .saturate (bySign round (Binary64.ofFloat a).value) ∧ f.coefficient = b) ∧
    ∀ a b, read s = .ok f → Spells s a b → (Meaningful s f ↔
      ¬ (Binary64.ofFloat a = .nan ∨ Binary64.ofFloat a = .infinite false ∨
        -1 / 2 < (Binary64.ofFloat a).value ∧ (Binary64.ofFloat a).value < 0)) := by
  constructor
  · simp only [read_eq_ok_iff, make_eq_ok_iff, Cost.ofFloat_nonneg_iff]
    simp only [Cost.ofFloat_eq, nearestInt_eq_bySign_round]
  · intro a b hread h
    obtain ⟨first, second, a', b', hs, -, ha', hb', hmake⟩ := read_eq_ok_iff.mp hread
    obtain ⟨rfl, rfl⟩ := h.unique ⟨first, second, hs, ha', hb'⟩
    -- The constant passed, so it is not far below zero, but that is all that is known of it.
    have hhalf := Cost.ofFloat_nonneg_iff.mp (make_eq_ok_iff.mp hmake).2.1
    rw [meaningful_iff hread h, isMeasure_iff_of_half_lt hhalf]

/-- The first plus divides the terms, and the second one is a sign. -/
theorem read_by_terms_signed : ∃ f, read "1e3 + +.5 x" = .ok f ∧ Meaningful "1e3 + +.5 x" f ∧
    f.constant = .saturate 1000 ∧ f.coefficient = 0.5 := by
  let f : CostLine := ⟨.saturate 1000, 0.5, by decide, by decide +kernel⟩
  obtain ⟨hread, hmeaningful⟩ := read_by_terms "1e3 + +.5 x" f
  have hfirst : Numeral.Denotes 1000.0 ['1', 'e', '3'] := Numeral.toFloat?_eq_some_iff.mp rfl
  have hsecond : Numeral.Denotes 0.5 ['+', '.', '5'] := Numeral.toFloat?_eq_some_iff.mp rfl
  have hbits : Binary64.ofFloat 1000.0 = .finite false 8796093022208000 (-43) := by decide +kernel
  have hvalue : (Binary64.ofFloat 1000.0).value = (1000 : ℤ) := by
    rw [hbits]
    norm_num [Binary64.value]
  have hround : bySign round (Binary64.ofFloat 1000.0).value = 1000 := by
    rw [hvalue, bySign, if_neg (by norm_num), round_intCast]
  have hok : read "1e3 + +.5 x" = .ok f := hread.mpr ⟨_, _, _, _, rfl, by decide, hfirst, hsecond,
    by decide +kernel, by rw [hvalue]; norm_num, by rw [hround], rfl⟩
  refine ⟨f, hok, (hmeaningful _ _ hok ⟨_, _, rfl, hfirst, hsecond⟩).mpr ?_, rfl, rfl⟩
  rintro (hnan | hinf | ⟨-, hneg⟩)
  · rw [hbits] at hnan
    cases hnan
  · rw [hbits] at hinf
    cases hinf
  · rw [hvalue] at hneg
    norm_num at hneg

theorem exists_not_meaningful (first second : List Char)
    (hs : s.toList.filter (!Text.isBlank ·) = first ++ '+' :: (second ++ ['x']))
    (hplus : '+' ∉ first) (ha : Numeral.toFloat? first = some a)
    (hb : Numeral.toFloat? second = some b) (hmeasure : isMeasure b = true)
    (hnonneg : 0 ≤ (Cost.ofFloat a).value) (hnot : ¬ isMeasure a = true) :
    ∃ f, read s = .ok f ∧ ¬ Meaningful s f := by
  rw [Numeral.toFloat?_eq_some_iff] at ha hb
  let f : CostLine := ⟨Cost.ofFloat a, b, hnonneg, hmeasure⟩
  have hread : read s = .ok f := read_eq_ok_iff.mpr ⟨first, second, a, b, hs, hplus, ha, hb,
    make_eq_ok_iff.mpr ⟨hmeasure, hnonneg, rfl, rfl⟩⟩
  exact ⟨f, hread, fun h => hnot ((meaningful_iff hread ⟨first, second, hs, ha, hb⟩).mp h)⟩

/-- A constant that is below zero, infinite or not a number is read all the same. -/
theorem exists_meaningless :
    (∃ f, read "-0.4 + 1 x" = .ok f ∧ ¬ Meaningful "-0.4 + 1 x" f) ∧
    (∃ f, read "inf + 1 x" = .ok f ∧ ¬ Meaningful "inf + 1 x" f) ∧
    ∃ f, read "nan + 1 x" = .ok f ∧ ¬ Meaningful "nan + 1 x" f := by
  have hone : isMeasure 1.0 = true := by decide +kernel
  refine ⟨exists_not_meaningful ['-', '0', '.', '4'] ['1'] rfl (by decide) rfl rfl hone ?_ ?_,
    exists_not_meaningful ['i', 'n', 'f'] ['1'] rfl (by decide) rfl rfl hone ?_ ?_,
    exists_not_meaningful ['n', 'a', 'n'] ['1'] rfl (by decide) rfl rfl hone ?_ ?_⟩ <;>
    decide +kernel

end CostLine
end JourneyPages
