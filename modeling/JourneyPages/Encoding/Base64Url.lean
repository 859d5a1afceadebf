/-!
Base64 with the URL-safe alphabet and without padding. Main statement: decoding gives back the
bytes that were encoded.
-/
namespace JourneyPages.Base64Url

/-- The symbol for a number below 64: letters, digits, `-` and `_`. -/
def symbol (n : Nat) : Char :=
  if n < 26 then Char.ofNat ('A'.toNat + n)
  else if n < 52 then Char.ofNat ('a'.toNat + (n - 26))
  else if n < 62 then Char.ofNat ('0'.toNat + (n - 52))
  else if n = 62 then '-' else '_'

def value? (c : Char) : Option Nat :=
  if 'A' ≤ c ∧ c ≤ 'Z' then some (c.toNat - 'A'.toNat)
  else if 'a' ≤ c ∧ c ≤ 'z' then some (c.toNat - 'a'.toNat + 26)
  else if '0' ≤ c ∧ c ≤ '9' then some (c.toNat - '0'.toNat + 52)
  else if c = '-' then some 62
  else if c = '_' then some 63
  else none

/-- Three bytes make four symbols; at the end one byte makes two and two make three, the bits
that are left over being zero. -/
def encode : List UInt8 → List Char
  | a :: b :: c :: rest =>
    let n := a.toNat * 65536 + b.toNat * 256 + c.toNat
    symbol (n / 262144) :: symbol (n / 4096 % 64) :: symbol (n / 64 % 64) :: symbol (n % 64) ::
      encode rest
  | [a, b] =>
    let n := a.toNat * 1024 + b.toNat * 4
    [symbol (n / 4096), symbol (n / 64 % 64), symbol (n % 64)]
  | [a] =>
    let n := a.toNat * 16
    [symbol (n / 64), symbol (n % 64)]
  | [] => []

/-- Refuses other symbols, lengths that no bytes have, and left-over bits that are not zero. -/
def decode? : List Char → Option (List UInt8)
  | p :: q :: r :: s :: rest => do
    let n := (((← value? p) * 64 + (← value? q)) * 64 + (← value? r)) * 64 + (← value? s)
    let bytes ← decode? rest
    some (UInt8.ofNat (n / 65536) :: UInt8.ofNat (n / 256 % 256) :: UInt8.ofNat (n % 256) :: bytes)
  | [p, q, r] => do
    let n := ((← value? p) * 64 + (← value? q)) * 64 + (← value? r)
    if n % 4 = 0 then some [UInt8.ofNat (n / 1024), UInt8.ofNat (n / 4 % 256)] else none
  | [p, q] => do
    let n := (← value? p) * 64 + (← value? q)
    if n % 16 = 0 then some [UInt8.ofNat (n / 16)] else none
  | [_] => none
  | [] => some []

theorem value?_symbol {n : Nat} (h : n < 64) : value? (symbol n) = some n := by
  have all : ∀ n : Fin 64, value? (symbol n) = some n.val := by decide
  exact all ⟨n, h⟩

theorem ofNat_eq {a : UInt8} {n : Nat} (h : n = a.toNat) : UInt8.ofNat n = a := by
  rw [h, UInt8.ofNat_toNat]

@[simp] theorem decode?_encode (bytes : List UInt8) : decode? (encode bytes) = some bytes := by
  fun_induction encode bytes with
  | case1 a b c rest n ih =>
    have ha := a.toNat_lt; have hb := b.toNat_lt; have hc := c.toNat_lt
    have e : ((n / 262144 * 64 + n / 4096 % 64) * 64 + n / 64 % 64) * 64 + n % 64 = n := by omega
    simp only [decode?, ih, value?_symbol (show n / 262144 < 64 by omega),
      value?_symbol (Nat.mod_lt _ (show 0 < 64 by decide)), Option.bind_eq_bind,
      Option.bind_some, e]
    rw [ofNat_eq (show n / 65536 = a.toNat by omega),
      ofNat_eq (show n / 256 % 256 = b.toNat by omega), ofNat_eq (show n % 256 = c.toNat by omega)]
  | case2 a b n =>
    have ha := a.toNat_lt; have hb := b.toNat_lt
    have e : (n / 4096 * 64 + n / 64 % 64) * 64 + n % 64 = n := by omega
    simp only [decode?, value?_symbol (show n / 4096 < 64 by omega),
      value?_symbol (Nat.mod_lt _ (show 0 < 64 by decide)), Option.bind_eq_bind,
      Option.bind_some, e]
    rw [if_pos (by omega), ofNat_eq (show n / 1024 = a.toNat by omega),
      ofNat_eq (show n / 4 % 256 = b.toNat by omega)]
  | case3 a n =>
    have ha := a.toNat_lt
    have e : n / 64 * 64 + n % 64 = n := by omega
    simp only [decode?, value?_symbol (show n / 64 < 64 by omega),
      value?_symbol (Nat.mod_lt _ (show 0 < 64 by decide)), Option.bind_eq_bind,
      Option.bind_some, e]
    rw [if_pos (by omega), ofNat_eq (show n / 16 = a.toNat by omega)]
  | case4 => rfl

example : encode [104, 105] = ['a', 'G', 'k'] ∧ decode? ['a', 'G', 'l'] = none := by decide

end JourneyPages.Base64Url
