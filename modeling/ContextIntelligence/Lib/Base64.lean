import ContextIntelligence.Lib.JsonText

/-!
# Base64

The encoder of RFC 4648 and the lenient decoder of `binascii.a2b_base64`: it skips characters that
are not in the alphabet, stops at the padding that completes a group of four, and refuses a text
that ends within a group.
-/

namespace ContextIntelligence.Lib.Base64

open Lib.JsonText

def symbol (n : Nat) : Nat :=
  if n < 26 then 65 + n
  else if n < 52 then 71 + n
  else if n < 62 then n - 4
  else if n = 62 then 43
  else 47

def sextet (c : Nat) : Option Nat :=
  if 65 ≤ c ∧ c ≤ 90 then some (c - 65)
  else if 97 ≤ c ∧ c ≤ 122 then some (c - 71)
  else if 48 ≤ c ∧ c ≤ 57 then some (c + 4)
  else if c = 43 then some 62
  else if c = 47 then some 63
  else none

/-- `base64.b64encode`. -/
def encode : List UInt8 → Text
  | [] => []
  | [a] => [symbol (a.toNat / 4), symbol (a.toNat % 4 * 16), 61, 61]
  | [a, b] =>
    [symbol (a.toNat / 4), symbol (a.toNat % 4 * 16 + b.toNat / 16), symbol (b.toNat % 16 * 4), 61]
  | a :: b :: c :: rest =>
    [symbol (a.toNat / 4), symbol (a.toNat % 4 * 16 + b.toNat / 16),
      symbol (b.toNat % 16 * 4 + c.toNat / 64), symbol (c.toNat % 64)] ++ encode rest

/-- The loop of the decoder: how many characters of a group it has seen, the bits of the last of
them that are not used yet, and the padding it has seen behind them. -/
def decodeFrom (quad left pads : Nat) : Text → Option (List UInt8)
  | [] => if quad = 0 then some [] else none
  | c :: rest =>
    if c = 61 then
      if quad < 2 then decodeFrom quad left pads rest
      else if 4 ≤ quad + (pads + 1) then some []
      else decodeFrom quad left (pads + 1) rest
    else match sextet c with
      | none => decodeFrom quad left pads rest
      | some d =>
        match quad with
        | 0 => decodeFrom 1 d 0 rest
        | 1 => (decodeFrom 2 (d % 16) 0 rest).map (UInt8.ofNat (left * 4 + d / 16) :: ·)
        | 2 => (decodeFrom 3 (d % 4) 0 rest).map (UInt8.ofNat (left * 16 + d / 4) :: ·)
        | _ => (decodeFrom 0 0 0 rest).map (UInt8.ofNat (left * 64 + d) :: ·)

/-- `base64.b64decode` of a `str`, which has to be ASCII. -/
def decode (t : Text) : Option (List UInt8) :=
  if t.any (128 ≤ ·) then none else decodeFrom 0 0 0 t

theorem sextet_symbol : ∀ n < 64, sextet (symbol n) = some n ∧ symbol n ≠ 61
    ∧ 32 ≤ symbol n ∧ symbol n ≤ 126 := by
  decide

section Steps

variable {n : Nat} (left pads : Nat) (rest : Text)

theorem decodeFrom_first (hn : n < 64) :
    decodeFrom 0 left pads (symbol n :: rest) = decodeFrom 1 n 0 rest := by
  obtain ⟨hsextet, hne, -⟩ := sextet_symbol n hn
  simp only [decodeFrom, hsextet, if_neg hne]

theorem decodeFrom_second (hn : n < 64) (a : UInt8) (ha : left * 4 + n / 16 = a.toNat) :
    decodeFrom 1 left pads (symbol n :: rest) = (decodeFrom 2 (n % 16) 0 rest).map (a :: ·) := by
  obtain ⟨hsextet, hne, -⟩ := sextet_symbol n hn
  simp only [decodeFrom, hsextet, if_neg hne, ha, UInt8.ofNat_toNat]

theorem decodeFrom_third (hn : n < 64) (b : UInt8) (hb : left * 16 + n / 4 = b.toNat) :
    decodeFrom 2 left pads (symbol n :: rest) = (decodeFrom 3 (n % 4) 0 rest).map (b :: ·) := by
  obtain ⟨hsextet, hne, -⟩ := sextet_symbol n hn
  simp only [decodeFrom, hsextet, if_neg hne, hb, UInt8.ofNat_toNat]

theorem decodeFrom_fourth (hn : n < 64) (c : UInt8) (hc : left * 64 + n = c.toNat) :
    decodeFrom 3 left pads (symbol n :: rest) = (decodeFrom 0 0 0 rest).map (c :: ·) := by
  obtain ⟨hsextet, hne, -⟩ := sextet_symbol n hn
  simp only [decodeFrom, hsextet, if_neg hne, hc, UInt8.ofNat_toNat]

end Steps

theorem decodeFrom_encode (bytes : List UInt8) : decodeFrom 0 0 0 (encode bytes) = some bytes := by
  induction bytes using encode.induct with
  | case1 => rfl
  | case2 a =>
    have ha := a.toNat_lt
    rw [encode, decodeFrom_first _ _ _ (by omega),
      decodeFrom_second _ _ _ (by omega) a (by omega)]
    rfl
  | case3 a b =>
    have ha := a.toNat_lt
    have hb := b.toNat_lt
    rw [encode, decodeFrom_first _ _ _ (by omega),
      decodeFrom_second _ _ _ (by omega) a (by omega),
      decodeFrom_third _ _ _ (by omega) b (by omega)]
    rfl
  | case4 a b c rest ih =>
    have ha := a.toNat_lt
    have hb := b.toNat_lt
    have hc := c.toNat_lt
    simp only [encode, List.cons_append, List.nil_append]
    rw [decodeFrom_first _ _ _ (by omega),
      decodeFrom_second _ _ _ (by omega) a (by omega),
      decodeFrom_third _ _ _ (by omega) b (by omega),
      decodeFrom_fourth _ _ _ (by omega) c (by omega), ih]
    rfl

theorem allPrintable_encode (bytes : List UInt8) : AllPrintable (encode bytes) := by
  have hsymbol : ∀ n < 64, 32 ≤ symbol n ∧ symbol n ≤ 126 := fun n hn => (sextet_symbol n hn).2.2
  induction bytes using encode.induct with
  | case1 => exact allPrintable_nil
  | case2 a =>
    have ha := a.toNat_lt
    simp only [encode, allPrintable_cons, allPrintable_nil, and_true]
    exact ⟨hsymbol _ (by omega), hsymbol _ (by omega), by decide, by decide⟩
  | case3 a b =>
    have ha := a.toNat_lt
    have hb := b.toNat_lt
    simp only [encode, allPrintable_cons, allPrintable_nil, and_true]
    exact ⟨hsymbol _ (by omega), hsymbol _ (by omega), hsymbol _ (by omega), by decide⟩
  | case4 a b c rest ih =>
    have ha := a.toNat_lt
    have hb := b.toNat_lt
    have hc := c.toNat_lt
    simp only [encode, allPrintable_cons, allPrintable_append, allPrintable_nil, and_true, ih]
    exact ⟨hsymbol _ (by omega), hsymbol _ (by omega), hsymbol _ (by omega), hsymbol _ (by omega)⟩

/-- Decoding gives the bytes back. -/
theorem decode_encode (bytes : List UInt8) : decode (encode bytes) = some bytes := by
  have hascii : (encode bytes).any (128 ≤ ·) = false := by
    rw [List.any_eq_false]
    intro c hc
    have hprint := allPrintable_encode bytes c hc
    simp only [IsPrintable] at hprint
    simp only [decide_eq_true_eq]
    omega
  rw [decode, hascii, if_neg nofun, decodeFrom_encode]

end ContextIntelligence.Lib.Base64
