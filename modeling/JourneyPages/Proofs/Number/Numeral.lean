import JourneyPages.Number.Numeral
import JourneyPages.Proofs.Text
import Mathlib.Data.List.Chain

/-!
The grammar of numerals. Main statements: a text is read as a double exactly if it is a numeral of
the grammar that denotes this double, and a plus in a numeral stands in front of it or of its
exponent, so that a numeral is not the beginning of another one with a plus behind it.
-/
namespace JourneyPages.Number.Numeral

/-! The grammar -/

/-- An optional sign, and whether it is a minus. -/
inductive IsSign : Bool → List Char → Prop
  | absent : IsSign false []
  | plus : IsSign false ['+']
  | minus : IsSign true ['-']

def IsDigits (ds : List Char) : Prop := ∀ c ∈ ds, c.isDigit

def IsExponentMark (c : Char) : Prop := c = 'e' ∨ c = 'E'

/-- An optional exponent, which is zero if there is none. -/
inductive IsExponent : Int → List Char → Prop
  | absent : IsExponent 0 []
  | present {mark : Char} {negative : Bool} {sign ds : List Char} : IsExponentMark mark →
      IsSign negative sign → ds ≠ [] → IsDigits ds →
      IsExponent (if negative then -(Text.ofDigits ds : Int) else Text.ofDigits ds)
        (mark :: (sign ++ ds))

/-- Digits with an optional point, on one side of which there may be none: all the digits, and how
many of them are behind the point. -/
inductive IsDecimal : List Char → Nat → List Char → Prop
  | whole {ds : List Char} : ds ≠ [] → IsDigits ds → IsDecimal ds 0 ds
  | pointed {ds fraction : List Char} : ds ++ fraction ≠ [] → IsDigits ds → IsDigits fraction →
      IsDecimal (ds ++ fraction) fraction.length (ds ++ '.' :: fraction)

def infinity (negative : Bool) : Float := if negative then -1.0 / 0.0 else 1.0 / 0.0

/-- The double that a numeral denotes. Words are written in any case. -/
inductive Denotes : Float → List Char → Prop
  | infinity {negative : Bool} {sign word : List Char} : IsSign negative sign →
      spells "inf" word ∨ spells "infinity" word → Denotes (infinity negative) (sign ++ word)
  | nan {negative : Bool} {sign word : List Char} : IsSign negative sign → spells "nan" word →
      Denotes (0.0 / 0.0) (sign ++ word)
  | number {negative : Bool} {sign ds decimal exponent : List Char} {places : Nat} {e : Int} :
      IsSign negative sign → IsDecimal ds places decimal → IsExponent e exponent →
      Denotes (Scientific.toFloat ⟨negative, Text.ofDigits ds, e - places⟩)
        (sign ++ (decimal ++ exponent))

/-! Signs -/

/-- Whether no sign is in front. -/
def isUnsigned : List Char → Bool
  | [] => true
  | c :: _ => c != '+' && c != '-'

theorem sign_append {negative : Bool} {s rest : List Char} (hs : IsSign negative s)
    (hrest : isUnsigned rest) : sign (s ++ rest) = (negative, rest) := by
  cases hs with
  | plus => rfl
  | minus => rfl
  | absent =>
    cases rest with
    | nil => rfl
    | cons c rest =>
      simp only [isUnsigned, Bool.and_eq_true, bne_iff_ne] at hrest
      rw [List.nil_append, sign]
      · exact fun _ h => hrest.2 (List.cons.inj h).1
      · exact fun _ h => hrest.1 (List.cons.inj h).1

theorem exists_isSign (cs : List Char) : ∃ s, IsSign (sign cs).1 s ∧ cs = s ++ (sign cs).2 := by
  unfold sign
  split
  · exact ⟨['-'], .minus, rfl⟩
  · exact ⟨['+'], .plus, rfl⟩
  · exact ⟨[], .absent, rfl⟩

theorem isUnsigned_of_isDigit {c : Char} (h : c.isDigit) (rest : List Char) :
    isUnsigned (c :: rest) := by
  simp only [isUnsigned, Bool.and_eq_true, bne_iff_ne]
  constructor <;> (rintro rfl; exact absurd h (by decide))

theorem isUnsigned_digits_append {ds : List Char} (hne : ds ≠ []) (hds : IsDigits ds)
    (rest : List Char) : isUnsigned (ds ++ rest) := by
  obtain ⟨d, ds', rfl, hd⟩ := Text.exists_digit_cons hne hds
  exact isUnsigned_of_isDigit hd _

/-! Exponents -/

theorem exponent?_eq_some_iff {cs : List Char} {e : Int} :
    exponent? cs = some e ↔ IsExponent e cs := by
  constructor
  · intro h
    cases cs with
    | nil =>
      cases h
      exact .absent
    | cons mark rest =>
      obtain ⟨s, hs, hrest⟩ := exists_isSign rest
      rw [exponent?] at h
      generalize sign rest = p at h hs hrest
      obtain ⟨negative, ds⟩ := p
      dsimp only at h hs hrest
      by_cases hmark : mark = 'e' ∨ mark = 'E'
      · rw [if_pos hmark] at h
        by_cases hds : ds ≠ [] ∧ ds.all Char.isDigit
        · rw [if_pos hds] at h
          cases h
          rw [hrest]
          exact .present hmark hs hds.1 (List.all_eq_true.mp hds.2)
        · rw [if_neg hds] at h
          cases h
      · rw [if_neg hmark] at h
        cases h
  · rintro (_ | ⟨hmark, hs, hne, hds⟩)
    · rfl
    · have hsign := sign_append hs (isUnsigned_digits_append hne hds [])
      rw [List.append_nil] at hsign
      rw [exponent?, hsign]
      exact (if_pos hmark).trans (if_pos ⟨hne, List.all_eq_true.mpr hds⟩)

/-- What follows the digits of a numeral is no digit, and no point either. -/
theorem endsDigits_exponent {e : Int} {cs : List Char} (h : IsExponent e cs) :
    Text.endsDigits cs ∧ ∀ rest, cs ≠ '.' :: rest := by
  rcases h with _ | ⟨rfl | rfl, -, -, -⟩
  · exact ⟨rfl, nofun⟩
  · exact ⟨rfl, nofun⟩
  · exact ⟨rfl, nofun⟩

/-! Decimals -/

theorem spanDigits_spec (cs : List Char) :
    IsDigits (Text.spanDigits cs).1 ∧ cs = (Text.spanDigits cs).1 ++ (Text.spanDigits cs).2 :=
  ⟨fun _ hc => List.mem_takeWhile_imp hc, List.takeWhile_append_dropWhile.symm⟩

section decimal
variable {negative : Bool} {cs whole fraction rest tail : List Char}

theorem decimal?_of_point (hwhole : Text.spanDigits cs = (whole, '.' :: tail))
    (hfraction : Text.spanDigits tail = (fraction, rest)) :
    decimal? negative cs = if whole ++ fraction = [] then none
      else (exponent? rest).map fun e =>
        ⟨negative, Text.ofDigits (whole ++ fraction), e - fraction.length⟩ := by
  simp only [decimal?, hwhole, hfraction, List.append_eq_nil_iff]

theorem decimal?_of_no_point (hwhole : Text.spanDigits cs = (whole, rest))
    (hrest : ∀ tail, rest ≠ '.' :: tail) :
    decimal? negative cs = if whole = [] then none
      else (exponent? rest).map fun e => ⟨negative, Text.ofDigits whole, e⟩ := by
  unfold decimal?
  rw [hwhole]
  dsimp only
  split
  · exact absurd rfl (hrest _)
  · simp

theorem decimal?_eq_some_iff {x : Scientific} :
    decimal? negative cs = some x ↔ ∃ ds places decimal e exponent, IsDecimal ds places decimal ∧
      IsExponent e exponent ∧ cs = decimal ++ exponent ∧
      x = ⟨negative, Text.ofDigits ds, e - places⟩ := by
  constructor
  · intro h
    obtain ⟨hdigits, hcs⟩ := spanDigits_spec cs
    generalize hwhole : Text.spanDigits cs = p at hdigits hcs
    obtain ⟨whole, rest⟩ := p
    by_cases hpoint : ∃ tail, rest = '.' :: tail
    · obtain ⟨tail, rfl⟩ := hpoint
      obtain ⟨hdigits', htail⟩ := spanDigits_spec tail
      generalize hfraction : Text.spanDigits tail = p at hdigits' htail
      obtain ⟨fraction, rest⟩ := p
      rw [decimal?_of_point hwhole hfraction] at h
      split_ifs at h with hne
      obtain ⟨e, he, rfl⟩ := Option.map_eq_some_iff.mp h
      refine ⟨_, _, _, e, rest, .pointed hne hdigits hdigits', exponent?_eq_some_iff.mp he, ?_, rfl⟩
      rw [hcs, htail, List.append_assoc, List.cons_append]
    · rw [decimal?_of_no_point hwhole fun tail htail => hpoint ⟨tail, htail⟩] at h
      split_ifs at h with hne
      obtain ⟨e, he, rfl⟩ := Option.map_eq_some_iff.mp h
      refine ⟨_, _, _, e, rest, .whole hne hdigits, exponent?_eq_some_iff.mp he, hcs, ?_⟩
      simp
  · rintro ⟨ds, places, decimal, e, exponent, hdecimal, hexponent, rfl, rfl⟩
    obtain ⟨hends, hpoint⟩ := endsDigits_exponent hexponent
    rw [← exponent?_eq_some_iff] at hexponent
    cases hdecimal with
    | whole hne hds =>
      rw [decimal?_of_no_point (Text.spanDigits_append hds hends) hpoint, if_neg hne, hexponent]
      simp
    | @pointed ds fraction hne hds hfraction =>
      rw [List.append_assoc, List.cons_append,
        decimal?_of_point (Text.spanDigits_append hds rfl) (Text.spanDigits_append hfraction hends),
        if_neg hne, hexponent]
      rfl

end decimal

/-- The characters of a decimal. -/
def IsDecimalChar (c : Char) : Prop := c.isDigit ∨ c = '.'

instance (c : Char) : Decidable (IsDecimalChar c) :=
  inferInstanceAs (Decidable (c.isDigit ∨ c = '.'))

theorem IsDecimal.ne_nil {ds decimal : List Char} {places : Nat}
    (h : IsDecimal ds places decimal) : decimal ≠ [] := by
  cases h with
  | whole hne => exact hne
  | pointed => simp

theorem IsDecimal.mem {ds decimal : List Char} {places : Nat} (h : IsDecimal ds places decimal) :
    ∀ c ∈ decimal, IsDecimalChar c := by
  intro c hc
  cases h with
  | whole _ hds => exact .inl (hds c hc)
  | pointed _ hds hfraction =>
    rcases List.mem_append.mp hc with hc | hc
    · exact .inl (hds c hc)
    · rcases List.mem_cons.mp hc with rfl | hc
      · exact .inr rfl
      · exact .inl (hfraction c hc)

theorem IsDecimalChar.toLower {c : Char} (h : IsDecimalChar c) : c.toLower = c := by
  unfold Char.toLower
  rw [dif_neg]
  rintro ⟨hge, -⟩
  rcases h with h | rfl
  · simp only [Char.isDigit, Bool.and_eq_true, decide_eq_true_eq] at h
    exact absurd (UInt32.le_trans hge h.2) (by decide)
  · exact absurd hge (by decide)

theorem IsDecimal.isUnsigned {ds decimal : List Char} {places : Nat}
    (h : IsDecimal ds places decimal) (rest : List Char) : isUnsigned (decimal ++ rest) := by
  obtain ⟨c, cs, rfl⟩ := List.exists_cons_of_ne_nil h.ne_nil
  rcases h.mem c List.mem_cons_self with hc | rfl
  · exact isUnsigned_of_isDigit hc _
  · rfl

/-! Words -/

/-- A word of the grammar. -/
inductive IsWord (cs : List Char) : Prop
  | inf : spells "inf" cs → IsWord cs
  | infinity : spells "infinity" cs → IsWord cs
  | nan : spells "nan" cs → IsWord cs

theorem spells_iff {word : String} {cs : List Char} :
    spells word cs ↔ cs.map Char.toLower = word.toList := beq_iff_eq

/-- A word begins and ends with letters of its own. -/
theorem IsWord.ends {cs : List Char} (h : IsWord cs) :
    (cs.map Char.toLower).head? ∈ [some 'i', some 'n'] ∧
      (cs.map Char.toLower).getLast? ∈ [some 'f', some 'y', some 'n'] ∧
      '+' ∉ cs.map Char.toLower := by
  rcases h with h | h | h <;> rw [spells_iff.mp h] <;> decide

theorem IsWord.isUnsigned {cs : List Char} (h : IsWord cs) : isUnsigned cs := by
  cases cs with
  | nil => rfl
  | cons c cs =>
    have hhead := h.ends.1
    simp only [Numeral.isUnsigned, Bool.and_eq_true, bne_iff_ne]
    constructor <;> (rintro rfl; exact absurd hhead (by simp))

theorem IsDecimal.not_isWord {ds decimal : List Char} {places : Nat}
    (h : IsDecimal ds places decimal) (rest : List Char) : ¬ IsWord (decimal ++ rest) := by
  intro hword
  obtain ⟨c, cs, rfl⟩ := List.exists_cons_of_ne_nil h.ne_nil
  have hc := h.mem c List.mem_cons_self
  have hhead := hword.ends.1
  rw [List.cons_append, List.map_cons, List.head?_cons, hc.toLower] at hhead
  rcases hc with hc | rfl
  · simp only [List.mem_cons, Option.some.injEq, List.not_mem_nil, or_false] at hhead
    rcases hhead with rfl | rfl
    · exact absurd hc (by decide)
    · exact absurd hc (by decide)
  · exact absurd hhead (by decide)

/-! Numerals -/

theorem toFloat?_of_sign {cs body : List Char} {negative : Bool} (h : sign cs = (negative, body)) :
    toFloat? cs = if spells "inf" body || spells "infinity" body then some (infinity negative)
      else if spells "nan" body then some (0.0 / 0.0)
      else (decimal? negative body).map Scientific.toFloat := by
  simp only [toFloat?, h, infinity]

/-- What is read is what the grammar says. -/
theorem toFloat?_eq_some_iff {cs : List Char} {x : Float} :
    toFloat? cs = some x ↔ Denotes x cs := by
  constructor
  · intro h
    obtain ⟨s, hs, hcs⟩ := exists_isSign cs
    generalize hsign : sign cs = p at hs hcs
    obtain ⟨negative, body⟩ := p
    rw [toFloat?_of_sign hsign] at h
    rw [hcs]
    split_ifs at h with hinf hnan
    · cases h
      exact .infinity hs (Bool.or_eq_true_iff.mp hinf)
    · cases h
      exact .nan hs hnan
    · obtain ⟨n, hn, rfl⟩ := Option.map_eq_some_iff.mp h
      obtain ⟨ds, places, decimal, e, exponent, hdecimal, hexponent, hbody, rfl⟩ :=
        decimal?_eq_some_iff.mp hn
      dsimp only
      rw [hbody]
      exact .number hs hdecimal hexponent
  · intro h
    cases h with
    | infinity hs hword =>
      have hw : IsWord _ := hword.elim .inf .infinity
      rw [toFloat?_of_sign (sign_append hs hw.isUnsigned)]
      exact if_pos (Bool.or_eq_true_iff.mpr hword)
    | nan hs hword =>
      -- The other words come first, but they are spelled otherwise.
      rw [toFloat?_of_sign (sign_append hs (IsWord.nan hword).isUnsigned), if_neg, if_pos hword]
      rw [Bool.or_eq_true_iff, spells_iff, spells_iff, spells_iff.mp hword]
      decide
    | number hs hdecimal hexponent =>
      have hword := hdecimal.not_isWord
      rw [toFloat?_of_sign (sign_append hs (hdecimal.isUnsigned _)), if_neg, if_neg]
      · exact Option.map_eq_some_iff.mpr
          ⟨_, decimal?_eq_some_iff.mpr ⟨_, _, _, _, _, hdecimal, hexponent, rfl, rfl⟩, rfl⟩
      · exact fun h => hword _ (.nan h)
      · exact fun h => hword _ ((Bool.or_eq_true_iff.mp h).elim .inf .infinity)

theorem Denotes.unique {x y : Float} {cs : List Char} (hx : Denotes x cs) (hy : Denotes y cs) :
    x = y := by
  rw [← toFloat?_eq_some_iff] at hx hy
  exact Option.some.inj (hx.symm.trans hy)

/-! Where a plus can stand -/

/-- A plus that is not in front stands behind the mark of an exponent. -/
def PlusAfterMark (cs : List Char) : Prop := cs.IsChain fun c d => d = '+' → IsExponentMark c

theorem plusAfterMark_of_not_mem {cs : List Char} (h : '+' ∉ cs) : PlusAfterMark cs := by
  refine List.Pairwise.isChain (List.pairwise_iff_forall_sublist.mpr fun {c d} hsub hd => ?_)
  subst hd
  exact absurd (hsub.subset (by simp)) h

theorem plusAfterMark_append {cs ds : List Char} (hcs : PlusAfterMark cs) (hds : PlusAfterMark ds)
    (hhead : ds.head? ≠ some '+') : PlusAfterMark (cs ++ ds) := by
  refine List.isChain_append.mpr ⟨hcs, hds, fun c _ d hd hplus => ?_⟩
  rw [hplus] at hd
  exact absurd hd hhead

theorem IsSign.plusAfterMark {negative : Bool} {s : List Char} (h : IsSign negative s) :
    PlusAfterMark s := by
  cases h <;> simp [PlusAfterMark]

theorem IsDigits.plus_not_mem {ds : List Char} (h : IsDigits ds) : '+' ∉ ds := fun hmem =>
  absurd (h _ hmem) (by decide)

theorem head?_ne_plus {cs : List Char} (h : isUnsigned cs) : cs.head? ≠ some '+' := by
  cases cs with
  | nil => exact nofun
  | cons c cs =>
    rintro ⟨⟩
    cases h

theorem IsExponent.plusAfterMark {e : Int} {cs : List Char} (h : IsExponent e cs) :
    PlusAfterMark cs ∧ cs.head? ≠ some '+' := by
  rcases h with _ | ⟨hmark, hs, hne, hds⟩
  · exact ⟨.nil, nofun⟩
  · have hhead := head?_ne_plus (isUnsigned_digits_append hne hds [])
    rw [List.append_nil] at hhead
    refine ⟨List.isChain_cons.mpr ⟨fun _ _ _ => hmark, ?_⟩, ?_⟩
    · exact plusAfterMark_append hs.plusAfterMark (plusAfterMark_of_not_mem hds.plus_not_mem) hhead
    · rcases hmark with rfl | rfl <;> exact nofun

theorem IsWord.plusAfterMark {cs : List Char} (h : IsWord cs) : PlusAfterMark cs :=
  plusAfterMark_of_not_mem fun hmem => h.ends.2.2 (List.mem_map.mpr ⟨'+', hmem, by decide⟩)

theorem IsDecimal.plusAfterMark {ds decimal : List Char} {places : Nat}
    (h : IsDecimal ds places decimal) : PlusAfterMark decimal :=
  plusAfterMark_of_not_mem fun hmem => absurd (h.mem _ hmem) (by decide)

theorem Denotes.plusAfterMark {x : Float} {cs : List Char} (h : Denotes x cs) :
    PlusAfterMark cs := by
  have hwords {negative : Bool} {s word : List Char} (hs : IsSign negative s) (hw : IsWord word) :
      PlusAfterMark (s ++ word) :=
    plusAfterMark_append hs.plusAfterMark hw.plusAfterMark (head?_ne_plus hw.isUnsigned)
  cases h with
  | infinity hs hword => exact hwords hs (hword.elim .inf .infinity)
  | nan hs hword => exact hwords hs (.nan hword)
  | number hs hdecimal hexponent =>
    obtain ⟨he, hhead⟩ := hexponent.plusAfterMark
    have hbody := plusAfterMark_append hdecimal.plusAfterMark he hhead
    exact plusAfterMark_append hs.plusAfterMark hbody (head?_ne_plus (hdecimal.isUnsigned _))

/-- A text that does not end where an exponent would go on. -/
def EndsUnmarked (cs : List Char) : Prop := ∃ c ∈ cs.getLast?, ¬ IsExponentMark c

theorem EndsUnmarked.append_left {cs : List Char} (h : EndsUnmarked cs) (ds : List Char) :
    EndsUnmarked (ds ++ cs) := by
  obtain ⟨c, hc, hmark⟩ := h
  refine ⟨c, ?_, hmark⟩
  rw [List.getLast?_append, Option.mem_def.mp hc]
  rfl

theorem endsUnmarked_of_forall {cs : List Char} (hne : cs ≠ [])
    (h : ∀ c ∈ cs, IsDecimalChar c) : EndsUnmarked cs := by
  refine ⟨cs.getLast hne, List.getLast?_eq_some_getLast hne, ?_⟩
  have hlast := h _ (List.getLast_mem hne)
  rintro (hmark | hmark) <;> (rw [hmark] at hlast; exact absurd hlast (by decide))

theorem IsWord.endsUnmarked {cs : List Char} (h : IsWord cs) : EndsUnmarked cs := by
  have hlast := h.ends.2.1
  rw [List.getLast?_map] at hlast
  cases hc : cs.getLast? with
  | none => simp [hc] at hlast
  | some c =>
    refine ⟨c, hc, ?_⟩
    rw [hc] at hlast
    rintro (rfl | rfl) <;> exact absurd hlast (by decide)

theorem Denotes.endsUnmarked {x : Float} {cs : List Char} (h : Denotes x cs) :
    EndsUnmarked cs := by
  cases h with
  | infinity _ hword => exact (IsWord.endsUnmarked (hword.elim .inf .infinity)).append_left _
  | nan _ hword => exact (IsWord.endsUnmarked (.nan hword)).append_left _
  | number _ hdecimal hexponent =>
    apply EndsUnmarked.append_left
    cases hexponent with
    | absent =>
      rw [List.append_nil]
      exact endsUnmarked_of_forall hdecimal.ne_nil hdecimal.mem
    | @present mark _ sign ds _ _ hne hds =>
      have hdigits := endsUnmarked_of_forall hne fun c hc => .inl (hds c hc)
      rw [← List.cons_append]
      exact (hdigits.append_left _).append_left _

/-- No numeral goes on behind another one with a plus. -/
theorem Denotes.not_plus_behind {x y : Float} {cs ds : List Char} (hx : Denotes x cs) :
    ¬ Denotes y (cs ++ '+' :: ds) := by
  intro hy
  obtain ⟨c, hc, hmark⟩ := hx.endsUnmarked
  obtain ⟨front, rfl⟩ := List.getLast?_eq_some_iff.mp hc
  -- In the longer numeral the plus stands behind the last character of the shorter one.
  have hchain := hy.plusAfterMark
  rw [List.append_assoc, List.singleton_append] at hchain
  exact hmark ((List.isChain_append_cons_cons.mp hchain).2.1 rfl)

/-- So there is only one plus behind a numeral at which a text can be divided. -/
theorem Denotes.eq_of_append_plus {x y : Float} {cs ds rest rest' : List Char}
    (hx : Denotes x cs) (hy : Denotes y ds) (h : cs ++ '+' :: rest = ds ++ '+' :: rest') :
    cs = ds ∧ rest = rest' := by
  rcases List.append_eq_append_iff.mp h with ⟨as, rfl, has⟩ | ⟨as, rfl, has⟩
  · cases as with
    | nil => exact ⟨(List.append_nil cs).symm, (List.cons.inj has).2⟩
    | cons c as =>
      obtain ⟨rfl, -⟩ := List.cons.inj has
      exact absurd hy hx.not_plus_behind
  · cases as with
    | nil => exact ⟨List.append_nil ds, (List.cons.inj has).2.symm⟩
    | cons c as =>
      obtain ⟨rfl, -⟩ := List.cons.inj has
      exact absurd hx hy.not_plus_behind

end JourneyPages.Number.Numeral
