import JourneyPages.Json.Printer
import JourneyPages.Json.Reader
import JourneyPages.Json.Record
import JourneyPages.Proofs.Text

/-!
A JSON value is read back from its text. Each token is found again at the front of what it starts,
and one pass over the text of a value takes the reader from where a value may stand to behind it.
-/
namespace JourneyPages

open Text (endsDigits)

namespace Number.Literal

/-- Written by the grammar: digits in front of the point, with no zero in front of others. -/
structure WellFormed (l : Literal) : Prop where
  whole : l.whole = ['0'] ∨ ∃ d ds, l.whole = d :: ds ∧ d ≠ '0'
  isDigit_whole : ∀ c ∈ l.whole, c.isDigit
  isDigit_fraction : ∀ c ∈ l.fraction, c.isDigit

theorem WellFormed.exists_cons {l : Literal} (h : l.WellFormed) :
    ∃ d ds, l.whole = d :: ds ∧ d.isDigit := by
  have hne : l.whole ≠ [] := by
    rcases h.whole with hw | ⟨d, ds, hw, -⟩ <;> simp [hw]
  exact Text.exists_digit_cons hne h.isDigit_whole

theorem wellFormed_ofInt (n : Int) : (ofInt n).WellFormed where
  whole := Text.digits_eq_zero_or n.natAbs
  isDigit_whole := fun _ hc => Text.isDigit_of_mem_digits hc
  isDigit_fraction := fun _ hc => by cases hc

end Number.Literal

namespace Json.Token

/-! Strings -/

theorem hex4?_control (n : Nat) (h : n < 0x20) :
    hex4? '0' '0' (hexDigit (n / 16)) (hexDigit n) = some n := by
  have hall : ∀ n : Fin 0x20, hex4? '0' '0' (hexDigit (n / 16)) (hexDigit n) = some n.val := by
    decide
  exact hall ⟨n, h⟩

theorem scanUnits_backslash {e c : Char} (he : e ≠ 'u') (hc : escaped? e = some c)
    (rest : List Char) : scanUnits ('\\' :: e :: rest) =
      (scanUnits rest).map fun (units, rest) => (c.toNat :: units, rest) := by
  rw [scanUnits]
  · rw [hc]
    cases scanUnits rest <;> rfl
  · rintro _ _ _ _ _ rfl
    exact absurd rfl he

theorem scanUnits_cons {c : Char} (hquote : c ≠ '"') (hbackslash : c ≠ '\\')
    (hcontrol : ¬ c.toNat < 0x20) (rest : List Char) : scanUnits (c :: rest) =
      (scanUnits rest).map fun (units, rest) => (c.toNat :: units, rest) := by
  rw [scanUnits]
  · rw [if_neg hcontrol]
    cases scanUnits rest <;> rfl
  · exact hquote
  · rintro _ _ _ _ _ rfl
    exact absurd rfl hbackslash
  · rintro _ _ rfl
    exact absurd rfl hbackslash

/-- A character is written as a letter behind a backslash, by its number, or as it is. -/
theorem escape_cases (c : Char) :
    (∃ e, e ≠ 'u' ∧ escaped? e = some c ∧ escape c = ['\\', e]) ∨
    (c.toNat < 0x20 ∧ escape c =
      ['\\', 'u', '0', '0', hexDigit (c.toNat / 16), hexDigit c.toNat]) ∨
    (c ≠ '"' ∧ c ≠ '\\' ∧ ¬ c.toNat < 0x20 ∧ escape c = [c]) := by
  unfold escape
  split_ifs with hquote hbackslash h h h h h hcontrol
  · exact .inl ⟨'"', by decide, by subst hquote; rfl, rfl⟩
  · exact .inl ⟨'\\', by decide, by subst hbackslash; rfl, rfl⟩
  · exact .inl ⟨'b', by decide, by subst h; rfl, rfl⟩
  · exact .inl ⟨'f', by decide, by subst h; rfl, rfl⟩
  · exact .inl ⟨'n', by decide, by subst h; rfl, rfl⟩
  · exact .inl ⟨'r', by decide, by subst h; rfl, rfl⟩
  · exact .inl ⟨'t', by decide, by subst h; rfl, rfl⟩
  · exact .inr (.inl ⟨hcontrol, rfl⟩)
  · exact .inr (.inr ⟨hquote, hbackslash, hcontrol, rfl⟩)

/-- However it is written, it gives its code point. -/
theorem scanUnits_escape (c : Char) (rest : List Char) : scanUnits (escape c ++ rest) =
    (scanUnits rest).map fun (units, rest) => (c.toNat :: units, rest) := by
  rcases escape_cases c with ⟨e, hu, he, h⟩ | ⟨hcontrol, h⟩ | ⟨hquote, hbackslash, hcontrol, h⟩
  · rw [h]
    exact scanUnits_backslash hu he rest
  · rw [h]
    simp only [List.cons_append, List.nil_append, scanUnits, hex4?_control _ hcontrol]
    cases scanUnits rest <;> rfl
  · rw [h]
    exact scanUnits_cons hquote hbackslash hcontrol rest

theorem scanUnits_flatMap_escape (cs rest : List Char) :
    scanUnits (cs.flatMap escape ++ '"' :: rest) = some (cs.map Char.toNat, rest) := by
  induction cs with
  | nil => rfl
  | cons c cs ih =>
    rw [List.flatMap_cons, List.append_assoc, scanUnits_escape, ih]
    rfl

/-- No character is a surrogate. -/
theorem not_isSurrogate_toNat (c : Char) :
    isHighSurrogate c.toNat = false ∧ isLowSurrogate c.toNat = false := by
  have hvalid : c.toNat < 0xD800 ∨ 0xDFFF < c.toNat ∧ c.toNat < 0x110000 := c.valid
  simp only [isHighSurrogate, isLowSurrogate, Bool.and_eq_false_iff, decide_eq_false_iff_not]
  omega

theorem pairUnits_map_toNat (cs : List Char) : pairUnits (cs.map Char.toNat) = some cs := by
  induction cs with
  | nil => rfl
  | cons c cs ih =>
    obtain ⟨hhigh, hlow⟩ := not_isSurrogate_toNat c
    cases cs with
    | nil => simp [pairUnits, hhigh, hlow]
    | cons d cs =>
      rw [List.map_cons, List.map_cons, pairUnits]
      simp only [hhigh, hlow, Bool.false_and, Bool.or_self]
      rw [List.map_cons] at ih
      simp [ih]

/-! Numbers -/

/-- Whether a number in front of a text ends there. -/
def endsNumber : List Char → Bool
  | [] => true
  | c :: _ => !(c.isDigit || c == '.' || c == 'e' || c == 'E')

variable {ds rest : List Char}

theorem endsDigits_of_endsNumber (h : endsNumber rest) : endsDigits rest := by
  cases rest with
  | nil => rfl
  | cons c rest => simp_all [endsNumber, endsDigits]

theorem digits1?_append (hne : ds ≠ []) (hds : ∀ c ∈ ds, c.isDigit) (hrest : endsDigits rest) :
    digits1? (ds ++ rest) = some (ds, rest) := by
  rw [digits1?, Text.takeWhile_isDigit_append hds hrest, Text.dropWhile_isDigit_append hds hrest]
  obtain ⟨d, ds', rfl, -⟩ := Text.exists_digit_cons hne hds
  rfl

theorem scanWhole_append (hds : ∀ c ∈ ds, c.isDigit)
    (hwhole : ds = ['0'] ∨ ∃ d ds', ds = d :: ds' ∧ d ≠ '0') (hrest : endsDigits rest) :
    scanWhole (ds ++ rest) = some (ds, rest) := by
  rcases hwhole with rfl | ⟨d, ds', rfl, hd⟩
  · rfl
  · unfold scanWhole
    split
    case h_1 heq => exact absurd (List.cons.inj heq).1 hd
    case h_2 => exact digits1?_append (List.cons_ne_nil d ds') hds hrest

/-- The digits behind the point, with the point. -/
def fractionText (ds : List Char) : List Char := if ds = [] then [] else '.' :: ds

def exponentText : Option Int → List Char
  | some e => 'e' :: (if e < 0 then '-' else '+') :: Text.digits e.natAbs
  | none => []

theorem scanExponent_text (e : Option Int) (hrest : endsNumber rest) :
    scanExponent (exponentText e ++ rest) = some (e, rest) := by
  cases e with
  | none =>
    cases rest with
    | nil => rfl
    | cons c rest =>
      simp only [endsNumber, Bool.not_eq_true', Bool.or_eq_false_iff, beq_eq_false_iff_ne] at hrest
      rw [exponentText, List.nil_append, scanExponent]
      · exact fun _ heq => hrest.1.2 (List.cons.inj heq).1
      · exact fun _ heq => hrest.2 (List.cons.inj heq).1
  | some e =>
    have hdigits : digits1? (Text.digits e.natAbs ++ rest) = some (Text.digits e.natAbs, rest) :=
      digits1?_append (Text.digits_ne_nil e.natAbs) (fun _ hc => Text.isDigit_of_mem_digits hc)
        (endsDigits_of_endsNumber hrest)
    simp only [exponentText, List.cons_append, scanExponent]
    split
    case isTrue hneg =>
      simp only [Number.Numeral.sign, hdigits, Option.map_some, Text.ofDigits_digits, if_true]
      congr 3
      omega
    case isFalse hpos =>
      simp only [Number.Numeral.sign, hdigits, Option.map_some, Text.ofDigits_digits,
        Bool.false_eq_true, if_false]
      congr 3
      omega

theorem endsDigits_exponentText (e : Option Int) (hrest : endsNumber rest) :
    endsDigits (exponentText e ++ rest) ∧ (exponentText e ++ rest).head? ≠ some '.' := by
  cases e with
  | none =>
    refine ⟨endsDigits_of_endsNumber hrest, ?_⟩
    intro hpoint
    obtain ⟨back, rfl⟩ := List.head?_eq_some_iff.mp hpoint
    cases hrest
  | some e => exact ⟨rfl, by simp [exponentText]⟩

theorem endsDigits_fractionText (ds : List Char) {back : List Char} (hback : endsDigits back) :
    endsDigits (fractionText ds ++ back) := by
  unfold fractionText
  split
  · exact hback
  · rfl

theorem scanFraction_text (hds : ∀ c ∈ ds, c.isDigit) {back : List Char}
    (hdigits : endsDigits back) (hpoint : back.head? ≠ some '.') :
    scanFraction (fractionText ds ++ back) = some (ds, back) := by
  unfold fractionText
  split
  case isTrue h =>
    rw [h, List.nil_append, scanFraction]
    rintro back' rfl
    exact hpoint rfl
  case isFalse h => exact digits1?_append h hds hdigits

/-- A number is found again at the front of a text that ends it. -/
theorem scanNumber_text {l : Number.Literal} (h : l.WellFormed) (hrest : endsNumber rest) :
    scanNumber (l.text ++ rest) = some (l, rest) := by
  have htext : l.text ++ rest = (if l.negative then ['-'] else []) ++
      (l.whole ++ (fractionText l.fraction ++ (exponentText l.exponent ++ rest))) := by
    rw [Number.Literal.text]
    simp only [List.append_assoc]
    rfl
  have hexponent := scanExponent_text l.exponent hrest
  obtain ⟨hends, hpoint⟩ := endsDigits_exponentText l.exponent hrest
  have hfraction := scanFraction_text h.isDigit_fraction hends hpoint
  have hwhole := scanWhole_append h.isDigit_whole h.whole
    (endsDigits_fractionText l.fraction hends)
  have hminus : minus (l.text ++ rest) = (l.negative, l.whole ++
      (fractionText l.fraction ++ (exponentText l.exponent ++ rest))) := by
    rw [htext]
    cases l.negative with
    | true => rfl
    | false =>
      obtain ⟨d, ds, hds, hd⟩ := h.exists_cons
      rw [hds]
      simp only [Bool.false_eq_true, if_false, List.nil_append, List.cons_append, minus]
      split
      case h_1 heq =>
        obtain ⟨rfl, -⟩ := List.cons.inj heq
        cases hd
      case h_2 => rfl
  simp only [scanNumber, hminus, hwhole, hfraction, hexponent, Option.bind_eq_bind,
    Option.bind_some]

/-! Text -/

theorem exists_cons_text {l : Number.Literal} (h : l.WellFormed) :
    ∃ c cs, l.text = c :: cs ∧ (c.isDigit ∨ c = '-') := by
  obtain ⟨d, ds, hds, hd⟩ := h.exists_cons
  rw [Number.Literal.text, hds]
  cases l.negative
  · exact ⟨d, _, rfl, .inl hd⟩
  · exact ⟨'-', _, rfl, .inr rfl⟩

theorem next?_of_isDigit {c : Char} (h : c.isDigit ∨ c = '-') (cs : List Char) :
    next? (c :: cs) = (scanNumber (c :: cs)).map fun (l, rest) => (.number l, rest) := by
  unfold next?
  split
  case h_11 => rfl
  all_goals
    rename_i heq
    obtain ⟨rfl, -⟩ := List.cons.inj heq
    exact absurd h (by decide)

theorem next?_number {l : Number.Literal} (h : l.WellFormed) (hrest : endsNumber rest) :
    next? (l.text ++ rest) = some (.number l, rest) := by
  have hscan := scanNumber_text h hrest
  obtain ⟨c, cs, htext, hc⟩ := exists_cons_text h
  rw [htext, List.cons_append] at hscan ⊢
  rw [next?_of_isDigit hc, hscan]
  rfl

theorem next?_quote (s : String) (rest : List Char) :
    next? (quote s.toList ++ rest) = some (.string (some s), rest) := by
  simp only [quote, List.cons_append, List.append_assoc, List.nil_append, next?,
    scanUnits_flatMap_escape, Option.map_some, pairUnits_map_toNat, String.ofList_toList]

/-- No token starts with white space. -/
theorem isSpace_of_next? {c : Char} {cs : List Char} {t : Token}
    (h : next? (c :: cs) = some (t, rest)) : isSpace c = false := by
  by_contra hspace
  simp only [isSpace, Bool.not_eq_false, Bool.or_eq_true, beq_iff_eq] at hspace
  rcases hspace with ((rfl | rfl) | rfl) | rfl <;> cases h

theorem all?_of_next? {cs : List Char} {t : Token} (h : next? cs = some (t, rest)) :
    all? cs = (all? rest).map (t :: ·) := by
  cases cs with
  | nil => cases h
  | cons c cs =>
    rw [all?, if_neg (by simp [isSpace_of_next? h])]
    split
    case h_1 t' rest' heq =>
      rw [h] at heq
      cases heq
      rfl
    case h_2 heq =>
      rw [h] at heq
      cases heq

end Json.Token

namespace Json

/-- A value with a text of its own: its numbers are written by the grammar, and its strings stand
for texts. -/
inductive WellFormed : Json → Prop
  | null : WellFormed .null
  | bool (b : Bool) : WellFormed (.bool b)
  | number {l : Number.Literal} (h : l.WellFormed) : WellFormed (.number l)
  | text (s : String) : WellFormed (.text s)
  | array {vs : List Json} (h : ∀ v ∈ vs, WellFormed v) : WellFormed (.array vs)
  | object {ms : List (Option String × Json)} (names : ∀ m ∈ ms, m.1.isSome)
      (h : ∀ m ∈ ms, WellFormed m.2) : WellFormed (.object ms)

namespace Reader
open Token (next? endsNumber)

/-- The state behind a text. -/
def advance (s : State) (cs : List Char) : Option State := do (← Token.all? cs).foldlM step s

theorem read?_eq (cs : List Char) : read? cs = (advance start cs).bind finish := by
  simp only [read?, advance, Option.bind_eq_bind, Option.bind_assoc]

theorem advance_nil (s : State) : advance s [] = some s := by
  simp [advance, Token.all?]

/-- One token at a time. -/
theorem advance_of_next? {cs rest : List Char} {t : Token} (h : next? cs = some (t, rest))
    (s : State) : advance s cs = (step s t).bind fun s => advance s rest := by
  rw [advance, Token.all?_of_next? h]
  cases hall : Token.all? rest with
  | none => cases step s t <;> simp [advance, hall]
  | some ts => simp [advance, hall]

/-- A value may come next, and it will stand in the given containers. -/
def Awaits (s : State) (outer : List Frame) : Prop :=
  ∀ t, t ≠ .closeArray → step s t = onValue outer t

theorem awaits_value (outer : List Frame) : Awaits (.value outer) outer := fun _ _ => rfl

theorem awaits_element (outer : List Frame) : Awaits (.element outer) (.array [] :: outer) := by
  intro t ht
  cases t <;> first | rfl | exact absurd rfl ht

/-- What follows an element or a member ends a number. -/
theorem endsNumber_compactElements (vs : List Json) (rest : List Char) :
    endsNumber (compactElements vs ++ ']' :: rest) := by
  cases vs <;> rfl

theorem endsNumber_compactMembers (ms : List (Option String × Json)) (rest : List Char) :
    endsNumber (compactMembers ms ++ '\x7d' :: rest) := by
  cases ms with
  | nil => rfl
  | cons m ms => rfl

/-- The reader gets behind a value, wherever in a text it stands. -/
def Passes (v : Json) : Prop :=
  ∀ s outer, Awaits s outer → ∀ rest, endsNumber rest →
    advance s (v.compact ++ rest) = advance (.after v outer) rest

/-- A value of one token. -/
theorem passes_of_token {v : Json} {t : Token}
    (hnext : ∀ rest, endsNumber rest → next? (v.compact ++ rest) = some (t, rest))
    (ht : ∀ outer, onValue outer t = some (.after v outer)) : Passes v := by
  intro s outer hs rest hrest
  have hclose : t ≠ .closeArray := by
    rintro rfl
    cases ht []
  rw [advance_of_next? (hnext rest hrest), hs t hclose, ht, Option.bind_some]

theorem advance_compactElements {vs : List Json} (h : ∀ v ∈ vs, Passes v) (outer : List Frame)
    (v : Json) (before : List Json) (rest : List Char) :
    advance (.after v (.array before :: outer)) (compactElements vs ++ ']' :: rest) =
      advance (.after (.array (before.reverse ++ v :: vs)) outer) rest := by
  induction vs generalizing v before with
  | nil =>
    rw [compactElements, List.nil_append, advance_of_next? (t := .closeArray) rfl]
    simp [step]
  | cons w vs ih =>
    have hw := h w List.mem_cons_self _ _ (awaits_value (.array (v :: before) :: outer)) _
      (endsNumber_compactElements vs rest)
    have hrest := ih (fun u hu => h u (List.mem_cons_of_mem w hu)) w (v :: before)
    -- The comma puts `v` to the elements before, and `w` takes its place.
    simp only [compactElements, List.cons_append, List.append_assoc]
    rw [advance_of_next? (t := .comma) rfl]
    simp only [step, Option.bind_some, hw, hrest, List.reverse_cons, List.append_assoc,
      List.cons_append, List.nil_append]

/-- A member, first or not. -/
theorem advance_member {m : Option String × Json} (hname : m.1.isSome) (hv : Passes m.2) {s : State}
    {before : List (Option String × Json)} {outer : List Frame}
    (hs : ∀ name, step s (.string name) = some (.colon before name outer)) {rest : List Char}
    (hrest : endsNumber rest) : advance s (quoted m.1 ++ ':' :: (m.2.compact ++ rest)) =
      advance (.after m.2 (.object before m.1 :: outer)) rest := by
  obtain ⟨name, hname⟩ := Option.isSome_iff_exists.mp hname
  have hvalue := hv _ _ (awaits_value (.object before (some name) :: outer)) rest hrest
  rw [hname, quoted, advance_of_next? (Token.next?_quote name _), hs, Option.bind_some,
    advance_of_next? (t := .colon) rfl]
  exact hvalue

theorem advance_compactMembers {ms : List (Option String × Json)} (names : ∀ m ∈ ms, m.1.isSome)
    (h : ∀ m ∈ ms, Passes m.2) (outer : List Frame) (name : Option String) (v : Json)
    (before : List (Option String × Json)) (rest : List Char) :
    advance (.after v (.object before name :: outer)) (compactMembers ms ++ '\x7d' :: rest) =
      advance (.after (.object (before.reverse ++ (name, v) :: ms)) outer) rest := by
  induction ms generalizing name v before with
  | nil =>
    rw [compactMembers, List.nil_append, advance_of_next? (t := .closeObject) rfl]
    simp [step]
  | cons m ms ih =>
    have hm := advance_member (names m List.mem_cons_self) (h m List.mem_cons_self)
      (s := .name ((name, v) :: before) outer) (fun _ => rfl) (endsNumber_compactMembers ms rest)
    have hrest := ih (fun n hn => names n (List.mem_cons_of_mem m hn))
      (fun n hn => h n (List.mem_cons_of_mem m hn)) m.1 m.2 ((name, v) :: before)
    simp only [compactMembers, List.cons_append, List.append_assoc]
    rw [advance_of_next? (t := .comma) rfl]
    simp only [step, Option.bind_some, hm, hrest, List.reverse_cons, List.append_assoc,
      List.cons_append, List.nil_append]

theorem passes_array {vs : List Json} (h : ∀ v ∈ vs, Passes v) : Passes (.array vs) := by
  intro s outer hs rest _
  cases vs with
  | nil =>
    simp only [compact, List.cons_append, List.nil_append]
    rw [advance_of_next? (t := .openArray) rfl, hs _ (by simp)]
    simp only [onValue, Option.bind_some]
    rw [advance_of_next? (t := .closeArray) rfl]
    rfl
  | cons v vs =>
    have hv := h v List.mem_cons_self _ _ (awaits_element outer) _
      (endsNumber_compactElements vs rest)
    have hvs := advance_compactElements (fun u hu => h u (List.mem_cons_of_mem v hu)) outer v []
    simp only [compact, List.cons_append, List.append_assoc, List.nil_append]
    rw [advance_of_next? (t := .openArray) rfl, hs _ (by simp)]
    simp only [onValue, Option.bind_some, hv, hvs, List.reverse_nil, List.nil_append]

theorem passes_object {ms : List (Option String × Json)} (names : ∀ m ∈ ms, m.1.isSome)
    (h : ∀ m ∈ ms, Passes m.2) : Passes (.object ms) := by
  intro s outer hs rest _
  cases ms with
  | nil =>
    simp only [compact, List.cons_append, List.nil_append]
    rw [advance_of_next? (t := .openObject) rfl, hs _ (by simp)]
    simp only [onValue, Option.bind_some]
    rw [advance_of_next? (t := .closeObject) rfl]
    rfl
  | cons m ms =>
    have hfirst (name : Option String) :
        step (.member outer) (.string name) = some (.colon [] name outer) := rfl
    have hm := advance_member (names m List.mem_cons_self) (h m List.mem_cons_self) hfirst
      (endsNumber_compactMembers ms rest)
    have hms := advance_compactMembers (fun n hn => names n (List.mem_cons_of_mem m hn))
      (fun n hn => h n (List.mem_cons_of_mem m hn)) outer m.1 m.2 []
    simp only [compact, List.cons_append, List.append_assoc, List.nil_append]
    rw [advance_of_next? (t := .openObject) rfl, hs _ (by simp)]
    simp only [onValue, Option.bind_some, hm, hms, List.reverse_nil, List.nil_append]

end Reader

open Reader

theorem WellFormed.passes {v : Json} (h : v.WellFormed) : Passes v := by
  induction h with
  | null => exact passes_of_token (fun _ _ => rfl) fun _ => rfl
  | bool b => exact passes_of_token (t := .bool b) (fun _ _ => by cases b <;> rfl) fun _ => rfl
  | number hl => exact passes_of_token (fun _ hrest => Token.next?_number hl hrest) fun _ => rfl
  | text s => exact passes_of_token (fun rest _ => Token.next?_quote s rest) fun _ => rfl
  | array _ ih => exact passes_array ih
  | object names _ ih => exact passes_object names ih

/-- A value is read back from its text. -/
theorem read?_compact {v : Json} (h : v.WellFormed) : read? v.compact = some v := by
  have hend : Token.endsNumber [] := rfl
  have hpasses := h.passes _ _ (awaits_value []) [] hend
  rw [List.append_nil, advance_nil] at hpasses
  rw [read?_eq, start, hpasses]
  rfl

/-! Values as data -/

theorem wellFormed_int (n : Int) : (int n).WellFormed :=
  .number (Number.Literal.wellFormed_ofInt n)

theorem wellFormed_record {members : List (String × Json)} (h : ∀ m ∈ members, m.2.WellFormed) :
    (record members).WellFormed := by
  refine .object ?_ ?_
  · rw [List.forall_mem_map]
    exact fun _ _ => rfl
  · rw [List.forall_mem_map]
    exact h

theorem intIn?_int {low high n : Int} (h : low ≤ n ∧ n ≤ high) :
    intIn? low high (int n) = some ⟨n, h⟩ := by
  simp [intIn?, int, h]

theorem nullable?_of_eq_some {α : Type} {read : Json → Option α} {v : Json} {x : α}
    (hnull : v ≠ .null) (h : read v = some x) : nullable? read v = some (some x) := by
  cases v <;> simp_all [nullable?]

/-- The slot of a field that an object may have. -/
def Slot.ofMember : Option Json → Slot
  | some v => .given v
  | none => .absent

variable {members : List (String × Json)}

/-- One member of a name at most. -/
theorem filter_fst_eq_lookup (h : (members.map Prod.fst).Nodup) (name : String) :
    members.filter (fun m => m.1 == name) = (members.lookup name).toList.map (name, ·) := by
  induction members with
  | nil => rfl
  | cons m members ih =>
    obtain ⟨hnot, hrest⟩ := List.nodup_cons.mp h
    obtain ⟨n, v⟩ := m
    by_cases hname : n = name
    · subst hname
      have hnone : members.filter (fun m => m.1 == n) = [] := by
        rw [List.filter_eq_nil_iff]
        intro m hm heq
        have hmem : m.1 ∈ members.map Prod.fst := List.mem_map_of_mem hm
        rw [eq_of_beq heq] at hmem
        exact hnot hmem
      rw [List.filter_cons_of_pos (by simp), hnone, List.lookup_cons_self]
      rfl
    · have hne : (name == n) = false := beq_eq_false_iff_ne.mpr (Ne.symm hname)
      rw [List.filter_cons_of_neg (by simpa using hname), ih hrest, List.lookup_cons, hne]

theorem slotIn?_record (h : (members.map Prod.fst).Nodup) (name : String) :
    slotIn? (members.map fun (name, v) => (some name, v)) name =
      some (.ofMember (members.lookup name)) := by
  have hfilter : (members.map fun (name, v) => (some name, v)).filter (·.1 == some name) =
      (members.filter fun m => m.1 == name).map fun (name, v) => (some name, v) := by
    rw [List.filter_map]
    rfl
  rw [slotIn?, hfilter, filter_fst_eq_lookup h]
  cases members.lookup name <;> rfl

/-- The fields of a record are found by their names. -/
theorem record?_record (strict : Bool) {names : List String} (h : (members.map Prod.fst).Nodup)
    (hnames : ∀ m ∈ members, m.1 ∈ names) : record? strict names (record members) =
      some (names.map fun name => (name, .ofMember (members.lookup name))) := by
  have hall : (members.map fun (name, v) => (some name, v)).all
      (fun m => m.1.any fun s => !strict || names.contains s) := by
    rw [List.all_eq_true, List.forall_mem_map]
    intro m hm
    simp [hnames m hm]
  rw [record, record?, if_pos hall]
  simp only [slotIn?_record h, Option.map_some]
  exact List.mapM_pure

end Json
end JourneyPages
