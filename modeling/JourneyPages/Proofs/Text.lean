import JourneyPages.Text.Blank
import JourneyPages.Text.Digits
import Mathlib.Data.List.TakeWhile
import Mathlib.Data.Nat.Digits.Defs

/-!
Runs of digits in a text, and texts that are split at a character. A scanner that takes digits takes
a whole run if something else follows it, and no blank is in its way.
-/
namespace JourneyPages.Text

variable {ds rest : List Char} {c : Char} {width n : Nat}

theorem digits_ne_nil (n : Nat) : digits n ≠ [] := Nat.toDigits_ne_nil

/-- Digits are written without zeros in front. -/
theorem digits_eq_zero_or (n : Nat) :
    digits n = ['0'] ∨ ∃ d ds, digits n = d :: ds ∧ d ≠ '0' := by
  induction n using Nat.strong_induction_on with
  | _ n ih =>
    rcases Nat.lt_or_ge n 10 with hlt | hge
    · rw [digits, Nat.toDigits_of_lt_base hlt]
      by_cases hzero : Nat.digitChar n = '0'
      · exact .inl (by rw [hzero])
      · exact .inr ⟨_, [], rfl, hzero⟩
    · rcases ih (n / 10) (by omega) with hzero | ⟨d, ds, hds, hd⟩
      · have hof := ofDigits_digits (n / 10)
        rw [hzero] at hof
        have : n / 10 = 0 := hof.symm
        omega
      · refine .inr ⟨d, ds ++ [Nat.digitChar (n % 10)], ?_, hd⟩
        rw [digits, Nat.toDigits_of_base_le (by decide) hge]
        rw [digits] at hds
        rw [hds, List.cons_append]

theorem padded_ne_nil (width n : Nat) : padded width n ≠ [] := by
  simp [padded, digits_ne_nil]

theorem length_padded (h : n < 10 ^ width) (hwidth : 0 < width) :
    (padded width n).length = width := by
  have hle : (digits n).length ≤ width := Nat.toDigits_length 10 n width hwidth h
  simp [padded, hle]

/-- Whether no digit is in front. -/
def endsDigits : List Char → Bool
  | [] => true
  | c :: _ => !c.isDigit

theorem takeWhile_isDigit_append (hds : ∀ c ∈ ds, c.isDigit) (hrest : endsDigits rest) :
    (ds ++ rest).takeWhile Char.isDigit = ds := by
  rw [List.takeWhile_append_of_pos hds]
  cases rest with
  | nil => simp
  | cons c rest =>
    rw [List.takeWhile_cons_of_neg (by simpa [endsDigits] using hrest), List.append_nil]

theorem dropWhile_isDigit_append (hds : ∀ c ∈ ds, c.isDigit) (hrest : endsDigits rest) :
    (ds ++ rest).dropWhile Char.isDigit = rest := by
  rw [List.dropWhile_append_of_pos hds]
  cases rest with
  | nil => rfl
  | cons c rest => exact List.dropWhile_cons_of_neg (by simpa [endsDigits] using hrest)

theorem spanDigits_append (hds : ∀ c ∈ ds, c.isDigit) (hrest : endsDigits rest) :
    spanDigits (ds ++ rest) = (ds, rest) := by
  rw [spanDigits, takeWhile_isDigit_append hds hrest, dropWhile_isDigit_append hds hrest]

/-- A run of digits, and what is known of its first. -/
theorem exists_digit_cons (hne : ds ≠ []) (hds : ∀ c ∈ ds, c.isDigit) :
    ∃ d ds', ds = d :: ds' ∧ d.isDigit := by
  cases ds with
  | nil => exact absurd rfl hne
  | cons d ds' => exact ⟨d, ds', rfl, hds d List.mem_cons_self⟩

theorem isBlank_of_isDigit (h : c.isDigit) : isBlank c = false := by
  simp only [Char.isDigit, Bool.and_eq_true, decide_eq_true_eq, ge_iff_le,
    UInt32.le_iff_toNat_le] at h
  have h1 : 48 ≤ c.toNat := h.1
  have h2 : c.toNat ≤ 57 := h.2
  simp only [isBlank]
  generalize c.toNat = n at h1 h2
  simp
  omega

@[simp] theorem skipBlanks_cons (h : isBlank c = false) (cs : List Char) :
    skipBlanks (c :: cs) = c :: cs :=
  List.dropWhile_cons_of_neg (by simp [h])

theorem skipBlanks_append (hne : ds ≠ []) (hds : ∀ c ∈ ds, c.isDigit) (rest : List Char) :
    skipBlanks (ds ++ rest) = ds ++ rest := by
  obtain ⟨d, ds', rfl, hd⟩ := exists_digit_cons hne hds
  exact skipBlanks_cons (isBlank_of_isDigit hd) _

/-- A text without blanks has none to be trimmed. -/
theorem trim_of_not_blank {cs : List Char} (h : ∀ c ∈ cs, isBlank c = false) : trim cs = cs := by
  have hskip : ∀ {cs : List Char}, (∀ c ∈ cs, isBlank c = false) → skipBlanks cs = cs := by
    intro cs hcs
    cases cs with
    | nil => rfl
    | cons c cs => exact skipBlanks_cons (hcs c List.mem_cons_self) cs
  rw [trim, hskip h, hskip (by simpa using h), List.reverse_reverse]

/-- A text with a character is split at the first one: there is none in front of it. -/
theorem takeWhile_dropWhile_ne_iff {cs before after : List Char} {c d : Char} :
    (cs.takeWhile (· ≠ c) = before ∧ cs.dropWhile (· ≠ c) = d :: after) ↔
      d = c ∧ c ∉ before ∧ cs = before ++ c :: after := by
  constructor
  · rintro ⟨rfl, hdrop⟩
    have hd : d = c := by
      have hstop := List.head?_dropWhile_not (fun x => decide (x ≠ c)) cs
      rw [hdrop] at hstop
      simpa using hstop
    subst hd
    refine ⟨rfl, fun hmem => ?_, ?_⟩
    · simpa using List.mem_takeWhile_imp hmem
    · rw [← hdrop, List.takeWhile_append_dropWhile]
  · rintro ⟨rfl, hnot, rfl⟩
    have hbefore : ∀ x ∈ before, decide (x ≠ d) = true := fun x hx =>
      decide_eq_true (ne_of_mem_of_not_mem hx hnot)
    rw [List.takeWhile_append_of_pos hbefore, List.dropWhile_append_of_pos hbefore]
    simp

end JourneyPages.Text
