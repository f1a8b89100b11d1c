import Mathlib
import FabricMemory.Proofs.Parts

/-!
# Counting up digits in words of 128 bits

The number of an attribute is counted up digit by digit in a signed word of 128 bits, is cut off at
every step, and goes into a word of 64 bits in the end. Here each of these operations may overflow
(`addDigit?`, `convert?`). Main statement (`convert?_exact`): none does, for any run of digits, and
the value is that of the run held within 64 bits.
-/

namespace FabricMemory.Attribute

/-- The result of an operation on signed words of 128 bits; there is none if it overflows. -/
def wide? (n : Int) : Option Int := if -2 ^ 127 ≤ n ∧ n < 2 ^ 127 then some n else none

def long? (n : Int) : Option Int64 :=
  if -2 ^ 63 ≤ n ∧ n < 2 ^ 63 then some (Int64.ofInt n) else none

/-- The value with one digit more, cut off at the magnitude of the least 64-bit integer. -/
def addDigit? (radix : Nat) (value : Int) (digit : Nat) : Option Int := do
  let shifted ← wide? (value * radix)
  let sum ← wide? (shifted + digit)
  return min sum (2 ^ 63)

/-- What a run of digits is converted to, if to anything, provided that no operation overflows. -/
def convert? (negative : Bool) (radix : Nat) (run : List Nat) : Option (Option Int64) := do
  let value ← run.foldlM (addDigit? radix) 0
  if run = [] then return none
  let signed ← if negative then wide? (-value) else some value
  return long? (max (-2 ^ 63) (min signed (2 ^ 63 - 1)))

variable {radix : Nat} {run : List Nat}

-- ---------------------------------------------------------------------
-- One digit, and all of them

theorem wide?_of_le {n : Int} (hl : -2 ^ 127 ≤ n) (hh : n < 2 ^ 127) : wide? n = some n :=
  if_pos ⟨hl, hh⟩

theorem ceiling_eq : ceiling = 2 ^ 63 := by decide

theorem extended_lt {value digit : Nat} (hr : radix ≤ 16) (hd : digit < radix)
    (hv : value ≤ 2 ^ 63) : value * radix + digit < 2 ^ 127 := by
  have hm : value * radix ≤ 2 ^ 63 * 16 := Nat.mul_le_mul hv hr
  omega

theorem addDigit?_of_le {value digit : Nat} (hr : radix ≤ 16) (hd : digit < radix)
    (hv : value ≤ ceiling) :
    addDigit? radix value digit = some ↑(min (value * radix + digit) ceiling) := by
  rw [ceiling_eq] at hv ⊢
  have he := extended_lt hr hd hv
  have hs : wide? ((value : Int) * radix) = some ((value * radix : Nat) : Int) :=
    wide?_of_le (by omega) (by omega)
  have ha : wide? ((value * radix : Nat) + digit) = some ((value * radix + digit : Nat) : Int) :=
    wide?_of_le (by omega) (by omega)
  have hc : min ((value * radix + digit : Nat) : Int) (2 ^ 63) =
      ↑(min (value * radix + digit) (2 ^ 63)) := by omega
  rw [addDigit?, hs, Option.bind_eq_bind, Option.bind_some, ha, ← hc]
  rfl

theorem foldlM_addDigit? (hr : radix ≤ 16) (hd : ∀ digit ∈ run, digit < radix) :
    run.foldlM (addDigit? radix) 0 = some (magnitude radix run : Int) := by
  suffices h : ∀ value ≤ ceiling, run.foldlM (addDigit? radix) (value : Int) =
      some ↑(run.foldl (fun value digit => min (value * radix + digit) ceiling) value) from
    h 0 (Nat.zero_le _)
  induction run with
  | nil => exact fun value _ => rfl
  | cons digit run ih =>
    intro value hv
    obtain ⟨hd, hs⟩ := List.forall_mem_cons.mp hd
    rw [List.foldlM_cons, addDigit?_of_le hr hd hv, List.foldl_cons]
    exact ih hs _ (Nat.min_le_right _ _)

theorem magnitude_exact (hr : 0 < radix) (run : List Nat) :
    magnitude radix run = min (Nat.ofDigits radix run.reverse) (2 ^ 63) := by
  rw [magnitude_eq hr, Numeral.runValue_eq, ceiling_eq]

-- ---------------------------------------------------------------------
-- The conversion

def held (negative : Bool) (radix : Nat) (run : List Nat) : Int :=
  let amount : Nat := Nat.ofDigits radix run.reverse
  max (-2 ^ 63) (min (if negative then -(amount : Int) else amount) (2 ^ 63 - 1))

theorem held_bounds (negative : Bool) (radix : Nat) (run : List Nat) :
    -2 ^ 63 ≤ held negative radix run ∧ held negative radix run < 2 ^ 63 := by
  simp only [held]
  omega

theorem convert?_eq (negative : Bool) (hp : 0 < radix) (hr : radix ≤ 16)
    (hd : ∀ digit ∈ run, digit < radix) :
    convert? negative radix run =
      some (if run = [] then none else some (Int64.ofInt (held negative radix run))) := by
  have hm := magnitude_exact hp run
  have hw : wide? (-(magnitude radix run : Int)) = some (-(magnitude radix run : Int)) :=
    wide?_of_le (by omega) (by omega)
  have hh : max (-2 ^ 63) (min (if negative then -(magnitude radix run : Int) else
      magnitude radix run) (2 ^ 63 - 1)) = held negative radix run := by
    simp only [held, hm]
    split <;> omega
  have hl : long? (held negative radix run) = some (Int64.ofInt (held negative radix run)) :=
    if_pos (held_bounds negative radix run)
  rw [convert?, foldlM_addDigit? hr hd, Option.bind_eq_bind, Option.bind_some]
  by_cases hn : run = []
  · rw [if_pos hn, if_pos hn]
    rfl
  · rw [if_neg hn, if_neg hn, ← hl, ← hh]
    cases negative with
    | false => rfl
    | true =>
      rw [if_pos rfl, hw]
      rfl

/-- The text has the sign, selects the radix and goes on with the run. -/
def Selects (text : Bytes) (negative : Bool) (radix : Nat) (run : List Nat) : Prop :=
  ∃ unsigned rest, splitSign (text.dropWhile isSpace) = (negative, unsigned) ∧
    splitRadix unsigned = (radix, rest) ∧ digits radix rest = run

theorem Selects.number?_eq {text : Bytes} {negative : Bool} (h : Selects text negative radix run)
    (hp : 0 < radix) :
    number? text = if run = [] then none else some (held negative radix run) := by
  obtain ⟨unsigned, rest, hs, hx, hd⟩ := h
  have hm := magnitude_exact hp run
  simp only [number?, hs, hx, hd]
  cases run with
  | nil => rfl
  | cons digit run =>
    simp only [hm, ceiling_eq, held, reduceCtorEq, if_false, Option.some.injEq]
    split <;> omega

/-- Counting up a run of digits in words of 128 bits never overflows, and comes to the value of the
run, cut off once. In a word of 64 bits it is the signed value held within the word, and only a run
without digits has none. A text with this sign and run begins with this number. -/
theorem convert?_exact (negative : Bool) (hr : radix = 8 ∨ radix = 10 ∨ radix = 16)
    (hd : ∀ digit ∈ run, digit < radix) :
    let amount := Nat.ofDigits radix run.reverse
    run.foldlM (addDigit? radix) 0 = some (magnitude radix run : Int) ∧
    (∀ front digit rest, run = front ++ digit :: rest →
      magnitude radix front * radix + digit < 2 ^ 127) ∧
    magnitude radix run = min amount (2 ^ 63) ∧
    ∃ result, convert? negative radix run = some result ∧ (result = none ↔ run = []) ∧
      (∀ value, result = some value →
        value.toInt =
          max (-2 ^ 63) (min (if negative then -(amount : Int) else amount) (2 ^ 63 - 1))) ∧
      ∀ text, Selects text negative radix run → number? text = result.map Int64.toInt := by
  intro amount
  obtain ⟨hp, hl⟩ : 0 < radix ∧ radix ≤ 16 := by omega
  obtain ⟨hlow, hhigh⟩ := held_bounds negative radix run
  have hi : (Int64.ofInt (held negative radix run)).toInt = held negative radix run :=
    Int64.toInt_ofInt_of_le hlow hhigh
  refine ⟨foldlM_addDigit? hl hd, ?_, magnitude_exact hp run, _, convert?_eq negative hp hl hd, ?_,
    ?_, fun text ht => ?_⟩
  · rintro front digit rest rfl
    have hm := magnitude_exact hp front
    exact extended_lt hl (hd digit (by simp)) (by omega)
  · simp
  · intro value hv
    split at hv
    · cases hv
    · rw [← Option.some.inj hv, hi]
      rfl
  · rw [ht.number?_eq hp]
    split
    · rfl
    · rw [Option.map_some, hi]

/-- A negative number of seventeen hexadecimal digits is the least of 64 bits. -/
theorem convert?_exact_least :
    convert? true 16 (List.replicate 17 15) = some (some Int64.minValue) ∧
      number? ([0x2d, 0x30, 0x78] ++ List.replicate 17 0x66) = some (-2 ^ 63) := by
  have hd : ∀ digit ∈ List.replicate 17 15, digit < 16 := by decide
  have hs : Selects ([0x2d, 0x30, 0x78] ++ List.replicate 17 0x66) true 16
      (List.replicate 17 15) := ⟨_, _, rfl, rfl, by decide⟩
  obtain ⟨-, -, -, result, hc, hn, hv, ht⟩ := convert?_exact true (.inr (.inr rfl)) hd
  obtain ⟨value, rfl⟩ : ∃ value, result = some value :=
    Option.ne_none_iff_exists'.mp (mt hn.mp (by decide))
  have hl : value.toInt = -2 ^ 63 := by
    rw [hv value rfl]
    decide
  have hm : value = Int64.minValue := Int64.toInt_inj.mp (hl.trans Int64.toInt_minValue.symm)
  exact ⟨hm ▸ hc, by rw [ht _ hs, Option.map_some, hl]⟩

end FabricMemory.Attribute
