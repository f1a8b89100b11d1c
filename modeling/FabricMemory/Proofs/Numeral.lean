import Mathlib.Data.Nat.Digits.Defs
import FabricMemory.Text.Numeral
import FabricMemory.Text.Utf8

/-!
# What numerals stand for

`Spells` says that characters are digits and what they stand for together. A number is spelled by
its digits (`spells_toDigits`), by them behind zeros (`Spells.zeros`) and in either letter case
(`spells_toLower_iff`).
-/

namespace FabricMemory.Numeral

def runValue (radix : Nat) (digits : List Nat) : Nat :=
  digits.foldl (fun value digit => value * radix + digit) 0

def Spells (radix : Nat) (text : List Char) (n : Nat) : Prop :=
  ∃ digits, text.mapM (digitValue radix) = some digits ∧ runValue radix digits = n

variable {radix : Nat}

-- ---------------------------------------------------------------------
-- Digits

theorem digitValue_digitChar {digit : Nat} (hr : radix ≤ 16) (hd : digit < radix) :
    digitValue radix digit.digitChar = some digit := by
  have h : ∀ d < 16, digitValue 16 d.digitChar = some d := by decide
  have hs := Option.filter_eq_some_iff.mp (h digit (Nat.lt_of_lt_of_le hd hr))
  exact Option.filter_eq_some_iff.mpr ⟨hs.1, decide_eq_true hd⟩

theorem digitValue_zero (hr : 0 < radix) : digitValue radix '0' = some 0 := by
  simp [digitValue, hr]

theorem toNat_of_digitValue {c : Char} {digit : Nat} (h : digitValue radix c = some digit) :
    48 ≤ c.toNat ∧ c.toNat < 128 := by
  have within {low high : Char} (hc : low ≤ c ∧ c ≤ high) (hl : 48 ≤ low.toNat)
      (hh : high.toNat < 128) : 48 ≤ c.toNat ∧ c.toNat < 128 :=
    ⟨Nat.le_trans hl hc.1, Nat.lt_of_le_of_lt hc.2 hh⟩
  have hv := (Option.filter_eq_some_iff.mp h).1
  split at hv
  · rename_i hc
    exact within hc (by decide) (by decide)
  · split at hv
    · rename_i hc
      exact within hc (by decide) (by decide)
    · split at hv
      · rename_i hc
        exact within hc (by decide) (by decide)
      · cases hv

theorem toLower_cases (c : Char) :
    c.toLower = c ∨ 'A' ≤ c ∧ c ≤ 'Z' ∧ c.toLower.toNat = c.toNat + 32 := by
  by_cases hc : 'A' ≤ c ∧ c ≤ 'Z'
  · right
    have hu : c.val ≥ 'A'.val ∧ c.val ≤ 'Z'.val := hc
    have hz : c.toNat ≤ 90 := hc.2
    have ht : c.toLower.toNat = (c.val + 32).toNat := congrArg Char.toNat (dif_pos hu)
    refine ⟨hc.1, hc.2, ?_⟩
    rw [ht, UInt32.toNat_add]
    exact Nat.mod_eq_of_lt (show c.toNat + 32 < _ by omega)
  · exact .inl (dif_neg hc)

theorem digitValue_toLower (c : Char) : digitValue radix c.toLower = digitValue radix c := by
  rcases toLower_cases c with hl | ⟨ha, hz, hl⟩
  · rw [hl]
  · have ha' : 65 ≤ c.toNat := ha
    have hz' : c.toNat ≤ 90 := hz
    have hd (b : Char) (hb : 65 ≤ b.toNat) : ¬ ('0' ≤ b ∧ b ≤ '9') := by
      rintro ⟨-, h⟩
      exact absurd (Nat.le_trans hb h) (by decide)
    have hs : 'a' ≤ c.toLower ∧ c.toLower ≤ 'z' :=
      ⟨show 97 ≤ c.toLower.toNat by omega, show c.toLower.toNat ≤ 122 by omega⟩
    have hn : ¬ ('a' ≤ c ∧ c ≤ 'z') := by
      rintro ⟨h, -⟩
      exact absurd (Nat.le_trans h hz) (by decide)
    rw [digitValue, digitValue, if_neg (hd _ (by omega)), if_pos hs, if_neg (hd _ ha'), if_neg hn,
      if_pos ⟨ha, hz⟩, hl]
    rfl

-- ---------------------------------------------------------------------
-- Runs of digits

theorem mapM_cons_eq_some {c : Char} {text : List Char} {digits : List Nat}
    (h : (c :: text).mapM (digitValue radix) = some digits) :
    ∃ digit others, digitValue radix c = some digit ∧
      text.mapM (digitValue radix) = some others ∧ digits = digit :: others := by
  rw [List.mapM_cons] at h
  obtain ⟨digit, hd, h⟩ := Option.bind_eq_some_iff.mp h
  obtain ⟨others, ho, h⟩ := Option.bind_eq_some_iff.mp h
  exact ⟨digit, others, hd, ho, (Option.some.inj h).symm⟩

theorem runValue_eq (run : List Nat) : runValue radix run = Nat.ofDigits radix run.reverse := by
  rw [runValue, Nat.ofDigits_eq_foldr, List.foldr_reverse]
  simp only [Nat.cast_id, Nat.add_comm, Nat.mul_comm]

theorem Spells.snoc {text : List Char} {n digit : Nat} {c : Char} (h : Spells radix text n)
    (hd : digitValue radix c = some digit) : Spells radix (text ++ [c]) (n * radix + digit) := by
  obtain ⟨digits, hm, rfl⟩ := h
  refine ⟨digits ++ [digit], ?_, ?_⟩
  · simp [List.mapM_append, hm, hd]
  · simp [runValue, List.foldl_append]

theorem Spells.digitValue_of_mem {text : List Char} {n : Nat} {c : Char} (h : Spells radix text n)
    (hc : c ∈ text) : ∃ digit, digitValue radix c = some digit := by
  obtain ⟨digits, hm, -⟩ := h
  induction text generalizing digits with
  | nil => cases hc
  | cons first text ih =>
    obtain ⟨digit, others, hd, ho, -⟩ := mapM_cons_eq_some hm
    cases hc with
    | head => exact ⟨digit, hd⟩
    | tail _ hc => exact ih hc others ho

theorem spells_toDigits (hb : 1 < radix) (hr : radix ≤ 16) (n : Nat) :
    Spells radix (Nat.toDigits radix n) n := by
  induction n using Nat.strongRecOn with
  | ind n ih =>
    by_cases hn : n < radix
    · rw [Nat.toDigits_of_lt_base hn]
      exact ⟨[n], by simp [digitValue_digitChar hr hn], by simp [runValue]⟩
    · -- the digits of the quotient, and the last one
      have hd := digitValue_digitChar hr (Nat.mod_lt n (Nat.lt_trans Nat.zero_lt_one hb))
      have hs := (ih (n / radix) (Nat.div_lt_self (by omega) hb)).snoc hd
      rwa [Nat.toDigits_of_base_le hb (Nat.le_of_not_lt hn), Nat.div_add_mod'] at *

theorem head?_toDigits_ne (hb : 1 < radix) (hr : radix ≤ 16) {n : Nat} (h : 0 < n) :
    (Nat.toDigits radix n).head? ≠ some '0' := by
  induction n using Nat.strongRecOn with
  | ind n ih =>
    by_cases hn : n < radix
    · rw [Nat.toDigits_of_lt_base hn, List.head?_cons]
      have hd : ∀ m < 16, 0 < m → m.digitChar ≠ '0' := by decide
      exact fun he => hd n (Nat.lt_of_lt_of_le hn hr) h (Option.some.inj he)
    · -- the digits of the quotient come first
      have hp : 0 < n / radix := Nat.div_pos (Nat.le_of_not_lt hn) (by omega)
      have hq := ih (n / radix) (Nat.div_lt_self h hb) hp
      rw [Nat.toDigits_of_base_le hb (Nat.le_of_not_lt hn), List.head?_append]
      cases hd : (Nat.toDigits radix (n / radix)).head? with
      | none => exact absurd (List.head?_eq_none_iff.mp hd) Nat.toDigits_ne_nil
      | some c => rwa [hd] at hq

theorem Spells.zeros {text : List Char} {n : Nat} (h : Spells radix text n) (hr : 0 < radix)
    (zeros : Nat) : Spells radix (List.replicate zeros '0' ++ text) n := by
  induction zeros with
  | zero => exact h
  | succ zeros ih =>
    obtain ⟨digits, hm, hv⟩ := ih
    refine ⟨0 :: digits, ?_, ?_⟩
    · simp [List.replicate_succ, hm, digitValue_zero hr]
    · simpa [runValue] using hv

theorem spells_toLower_iff {text : List Char} {n : Nat} :
    Spells radix (text.map Char.toLower) n ↔ Spells radix text n := by
  rw [Spells, Spells, List.mapM_map]
  have h : digitValue radix ∘ Char.toLower = digitValue radix := funext digitValue_toLower
  rw [h]

end FabricMemory.Numeral
