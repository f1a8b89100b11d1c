import Mathlib
import FabricMemory.Proofs.Numeral

/-!
# Numbers as they are written

`Literal` says which characters write a number, however large: digits of a radix, with a mark for
sixteen and maybe a plus sign in front. Main statement (`literal_eq_ok_iff`): a literal is read
exactly if its number is below the bound. What numbers are shown as are literals, in either letter
case (`literal_decimal`, `literal_hex`).
-/

namespace FabricMemory.Numeral

/-- A digit of a radix up to sixteen. A letter stands for the same digit in either case. -/
def IsDigit (radix : Nat) (c : Char) (digit : Nat) : Prop :=
  digit < radix ∧ c.toLower = digit.digitChar

/-- The characters are digits, and this is the number that they are the places of. -/
def Amounts (radix : Nat) (text : List Char) (n : Nat) : Prop :=
  ∃ digits, List.Forall₂ (IsDigit radix) text digits ∧ Nat.ofDigits radix digits.reverse = n

def Unsigned (radix : Nat) (text : List Char) (n : Nat) : Prop :=
  ∃ plus digits, text = plus ++ digits ∧ (plus = [] ∨ plus = ['+']) ∧ digits ≠ [] ∧
    Amounts radix digits n

/-- A number as it is written, in decimal or behind the mark of hexadecimal. -/
inductive Literal : List Char → Nat → Prop
  | decimal {text : List Char} {n : Nat} (h : Unsigned 10 text n) : Literal text n
  | hex {x : Char} {text : List Char} {n : Nat} (hx : x = 'x' ∨ x = 'X') (h : Unsigned 16 text n) :
      Literal ('0' :: x :: text) n

/-- A decimal number behind at most one sign. -/
inductive Signed : List Char → Int → Prop
  | plain {text : List Char} {n : Nat} (h : Unsigned 10 text n) : Signed text n
  | negative {text : List Char} {n : Nat} (hp : text.head? ≠ some '+') (h : Unsigned 10 text n) :
      Signed ('-' :: text) (-n)

variable {radix bound start n : Nat} {text : List Char} {c : Char}

-- ---------------------------------------------------------------------
-- Digits

theorem forall_ascii {P : Char → Prop} (h : ∀ code < 128, P (Char.ofNat code)) (c : Char)
    (hc : c.toNat < 128) : P c := by
  have hp := h c.toNat hc
  rwa [Char.ofNat_toNat] at hp

theorem digitValue_eq_some_iff (hr : radix ≤ 16) {digit : Nat} :
    digitValue radix c = some digit ↔ IsDigit radix c digit := by
  constructor
  · intro h
    obtain ⟨hv, hd⟩ := Option.filter_eq_some_iff.mp h
    have hs : digitValue 16 c = some digit :=
      Option.filter_eq_some_iff.mpr ⟨hv, by simp only [decide_eq_true_eq] at hd ⊢; omega⟩
    have ha : ∀ digit ∈ digitValue 16 c, c.toLower = digit.digitChar := by
      apply forall_ascii _ c (toNat_of_digitValue h).2
      decide
    exact ⟨of_decide_eq_true hd, ha digit hs⟩
  · rintro ⟨hd, hc⟩
    rw [← digitValue_toLower, hc]
    exact digitValue_digitChar hr hd

theorem amounts_iff_spells (hr : radix ≤ 16) : Amounts radix text n ↔ Spells radix text n := by
  have hm (digits : List Nat) : List.Forall₂ (IsDigit radix) text digits ↔
      text.mapM (digitValue radix) = some digits := by
    induction text generalizing digits with
    | nil => simp [eq_comm]
    | cons c text ih =>
      simp only [List.forall₂_cons_left_iff, List.mapM_cons, ← digitValue_eq_some_iff hr, ih]
      cases digitValue radix c with
      | none => simp
      | some digit =>
        cases text.mapM (digitValue radix) with
        | none => simp
        | some others => simp [eq_comm]
  simp only [Amounts, Spells, hm, runValue_eq]

theorem Amounts.digit_of_mem (h : Amounts radix text n) (hc : c ∈ text) :
    ∃ digit, IsDigit radix c digit := by
  obtain ⟨digits, hd, -⟩ := h
  induction hd with
  | nil => cases hc
  | cons hd _ ih =>
    cases hc with
    | head => exact ⟨_, hd⟩
    | tail _ hc => exact ih hc

-- ---------------------------------------------------------------------
-- Reading digits

theorem le_foldl (hr : 0 < radix) (digits : List Nat) :
    start ≤ digits.foldl (fun value digit => value * radix + digit) start := by
  induction digits generalizing start with
  | nil => exact Nat.le_refl start
  | cons digit digits ih =>
    have hs : start ≤ start * radix := Nat.le_mul_of_pos_right start hr
    exact Nat.le_trans (Nat.le_add_right_of_le hs) ih

theorem extend_eq_ok_iff (hp : 0 < radix) (hr : radix ≤ 16) (hs : start < bound) :
    extend radix bound start text = .ok n ↔
      ∃ digits, List.Forall₂ (IsDigit radix) text digits ∧
        digits.foldl (fun value digit => value * radix + digit) start = n ∧ n < bound := by
  induction text generalizing start with
  | nil =>
    simp only [extend, Except.ok.injEq, List.forall₂_nil_left_iff, exists_eq_left, List.foldl_nil]
    constructor
    · rintro rfl
      exact ⟨rfl, hs⟩
    · exact fun h => h.1
  | cons c text ih =>
    simp only [List.forall₂_cons_left_iff, ← digitValue_eq_some_iff hr, extend]
    cases digitValue radix c with
    | none => simp
    | some digit =>
      simp only [Option.some.injEq]
      split
      · rename_i hn
        rw [ih hn]
        constructor
        · rintro ⟨digits, hd, hv⟩
          exact ⟨_, ⟨digit, digits, rfl, hd, rfl⟩, hv⟩
        · rintro ⟨_, ⟨_, digits, rfl, hd, rfl⟩, hv⟩
          exact ⟨digits, hd, hv⟩
      · -- it has grown too large, and further digits only add to it
        rename_i hn
        simp only [reduceCtorEq, false_iff]
        rintro ⟨_, ⟨_, digits, rfl, -, rfl⟩, rfl, hl⟩
        exact hn (Nat.lt_of_le_of_lt (le_foldl hp digits) hl)

theorem extend_zero_eq_ok_iff (hp : 0 < radix) (hr : radix ≤ 16) (hb : 0 < bound) :
    extend radix bound 0 text = .ok n ↔ Amounts radix text n ∧ n < bound := by
  rw [extend_eq_ok_iff hp hr hb]
  constructor
  · rintro ⟨digits, hd, hv, hn⟩
    exact ⟨⟨digits, hd, (runValue_eq digits).symm.trans hv⟩, hn⟩
  · rintro ⟨⟨digits, hd, hv⟩, hn⟩
    exact ⟨digits, hd, (runValue_eq digits).trans hv, hn⟩

-- ---------------------------------------------------------------------
-- Signs and marks

theorem not_isDigit_plus (digit : Nat) : ¬ IsDigit 16 '+' digit := by
  rintro ⟨hd, hc⟩
  have h : ∀ digit < 16, '+'.toLower ≠ digit.digitChar := by decide
  exact h digit hd hc

theorem IsDigit.mono {digit : Nat} (h : IsDigit radix c digit) (hr : radix ≤ 16) :
    IsDigit 16 c digit :=
  ⟨Nat.lt_of_lt_of_le h.1 hr, h.2⟩

theorem unsigned_eq_ok_iff (hp : 0 < radix) (hr : radix ≤ 16) (hb : 0 < bound) :
    unsigned radix bound text = .ok n ↔ Unsigned radix text n ∧ n < bound := by
  constructor
  · intro h
    unfold unsigned at h
    split at h
    · cases h
    · cases h
    · rename_i digits hd
      obtain ⟨ha, hn⟩ := (extend_zero_eq_ok_iff hp hr hb).mp h
      exact ⟨⟨['+'], digits, rfl, .inr rfl, hd, ha⟩, hn⟩
    · rename_i hd _ _
      obtain ⟨ha, hn⟩ := (extend_zero_eq_ok_iff hp hr hb).mp h
      exact ⟨⟨[], text, rfl, .inl rfl, hd, ha⟩, hn⟩
  · rintro ⟨⟨plus, digits, rfl, hs, hd, ha⟩, hn⟩
    obtain ⟨c, digits, rfl⟩ := List.exists_cons_of_ne_nil hd
    have he := (extend_zero_eq_ok_iff hp hr hb).mpr ⟨ha, hn⟩
    rcases hs with rfl | rfl
    · obtain ⟨digit, hc⟩ := ha.digit_of_mem (.head _)
      have hne : c ≠ '+' := by
        rintro rfl
        exact not_isDigit_plus digit (hc.mono hr)
      simpa [unsigned, hne] using he
    · exact he

theorem Unsigned.mem (h : Unsigned radix text n) (hc : c ∈ text) :
    c = '+' ∨ ∃ digit, IsDigit radix c digit := by
  obtain ⟨plus, digits, rfl, hs, -, ha⟩ := h
  rcases List.mem_append.mp hc with hc | hc
  · left
    rcases hs with rfl | rfl
    · cases hc
    · exact List.mem_singleton.mp hc
  · exact .inr (ha.digit_of_mem hc)

theorem not_unsigned_of_mark {x : Char} (hx : x = 'x' ∨ x = 'X') :
    ¬ Unsigned 10 ('0' :: x :: text) n := by
  intro h
  have hd : ∀ digit < 10, 'x' ≠ digit.digitChar := by decide
  rcases h.mem (.tail _ (.head _)) with rfl | ⟨digit, hl, hc⟩
  · simp at hx
  · rcases hx with rfl | rfl
    · exact hd digit hl hc
    · exact hd digit hl hc

theorem literal_eq_ok_iff (hb : 0 < bound) :
    literal bound text = .ok n ↔ Literal text n ∧ n < bound := by
  constructor
  · intro h
    unfold literal at h
    split at h
    · obtain ⟨hu, hn⟩ := (unsigned_eq_ok_iff (by decide) (by decide) hb).mp h
      exact ⟨.hex (.inl rfl) hu, hn⟩
    · obtain ⟨hu, hn⟩ := (unsigned_eq_ok_iff (by decide) (by decide) hb).mp h
      exact ⟨.hex (.inr rfl) hu, hn⟩
    · obtain ⟨hu, hn⟩ := (unsigned_eq_ok_iff (by decide) (by decide) hb).mp h
      exact ⟨.decimal hu, hn⟩
  · rintro ⟨h, hn⟩
    cases h with
    | decimal hu =>
      unfold literal
      split
      · exact absurd hu (not_unsigned_of_mark (.inl rfl))
      · exact absurd hu (not_unsigned_of_mark (.inr rfl))
      · exact (unsigned_eq_ok_iff (by decide) (by decide) hb).mpr ⟨hu, hn⟩
    | hex hx hu =>
      have hu := (unsigned_eq_ok_iff (by decide) (by decide) hb).mpr ⟨hu, hn⟩
      rcases hx with rfl | rfl
      · exact hu
      · exact hu

theorem signed_eq_ok {limit : Nat} {value : Int} (hl : 0 < limit)
    (h : signed limit text = .ok value) : Signed text value ∧ -limit ≤ value ∧ value < limit := by
  unfold signed at h
  split at h
  · cases h
  · cases h
  · rename_i digits _ hp
    cases hn : unsigned 10 (limit + 1) digits with
    | error fault =>
      rw [hn] at h
      cases h
    | ok n =>
      rw [hn] at h
      obtain rfl : -(n : Int) = value := Except.ok.inj h
      obtain ⟨hu, hb⟩ := (unsigned_eq_ok_iff (by decide) (by decide) (Nat.succ_pos limit)).mp hn
      refine ⟨.negative (fun hs => ?_) hu, by omega, by omega⟩
      obtain ⟨rest, rfl⟩ := List.head?_eq_some_iff.mp hs
      exact hp rest rfl
  · cases hn : unsigned 10 limit text with
    | error fault =>
      rw [hn] at h
      cases h
    | ok n =>
      rw [hn] at h
      obtain rfl : (n : Int) = value := Except.ok.inj h
      obtain ⟨hu, hb⟩ := (unsigned_eq_ok_iff (by decide) (by decide) hl).mp hn
      exact ⟨.plain hu, by omega, by omega⟩

theorem Literal.eq {other : Nat} (h : Literal text n) (ho : Literal text other) : n = other := by
  have hn := (literal_eq_ok_iff (Nat.succ_pos (n + other))).mpr ⟨h, by omega⟩
  have hm := (literal_eq_ok_iff (Nat.succ_pos (n + other))).mpr ⟨ho, by omega⟩
  exact Except.ok.inj (hn.symm.trans hm)

theorem Literal.ne_nil (h : Literal text n) : text ≠ [] := by
  rintro rfl
  cases h with
  | decimal hu =>
    obtain ⟨plus, digits, hs, -, hd, -⟩ := hu
    exact hd (List.append_eq_nil_iff.mp hs.symm).2

theorem Literal.plain (h : Literal text n) (hc : c ∈ text) :
    c ≠ ':' ∧ c ≠ '-' ∧ '+'.toNat ≤ c.toNat ∧ c.toNat < 128 := by
  have digit {digit : Nat} (hd : IsDigit 16 c digit) :
      c ≠ ':' ∧ c ≠ '-' ∧ '+'.toNat ≤ c.toNat ∧ c.toNat < 128 := by
    have hs : ∀ digit < 16, ':'.toLower ≠ digit.digitChar ∧ '-'.toLower ≠ digit.digitChar := by
      decide
    obtain ⟨hl, hh⟩ := toNat_of_digitValue ((digitValue_eq_some_iff (Nat.le_refl 16)).mpr hd)
    refine ⟨?_, ?_, Nat.le_trans (by decide) hl, hh⟩
    · rintro rfl
      exact (hs _ hd.1).1 hd.2
    · rintro rfl
      exact (hs _ hd.1).2 hd.2
  cases h with
  | decimal hu =>
    rcases hu.mem hc with rfl | ⟨_, hd⟩
    · decide
    · exact digit (hd.mono (by decide))
  | hex hx hu =>
    rcases List.mem_cons.mp hc with rfl | hc
    · decide
    rcases List.mem_cons.mp hc with rfl | hc
    · rcases hx with rfl | rfl <;> decide
    rcases hu.mem hc with rfl | ⟨_, hd⟩
    · decide
    · exact digit hd

-- ---------------------------------------------------------------------
-- What numbers are shown as

theorem unsigned_toDigits (hb : 1 < radix) (hr : radix ≤ 16)
    (h : text.map Char.toLower = (Nat.toDigits radix n).map Char.toLower) :
    Unsigned radix text n := by
  have ha : Amounts radix text n := by
    rw [amounts_iff_spells hr, ← spells_toLower_iff, h, spells_toLower_iff]
    exact spells_toDigits hb hr n
  refine ⟨[], text, rfl, .inl rfl, ?_, ha⟩
  rintro rfl
  exact Nat.toDigits_ne_nil (List.map_eq_nil_iff.mp h.symm)

theorem literal_decimal (n : Nat) : Literal (decimal n).toList n := by
  simp only [decimal, String.toList_ofList]
  exact .decimal (unsigned_toDigits (by decide) (by decide) rfl)

theorem eq_of_toLower {d : Char} (hd : d.toNat < 'a'.toNat) (h : c.toLower = d) : c = d := by
  rcases toLower_cases c with hl | ⟨ha, -, hl⟩
  · exact hl.symm.trans h
  · have ha : 65 ≤ c.toNat := ha
    have hs : d.toNat < 97 := hd
    rw [h] at hl
    omega

theorem eq_x_of_toLower (h : c.toLower = 'x') : c = 'x' ∨ c = 'X' := by
  rcases toLower_cases c with hl | ⟨-, -, hl⟩
  · exact .inl (hl.symm.trans h)
  · right
    have hx : 'x'.toNat = 'X'.toNat + 32 := rfl
    rw [h, hx] at hl
    exact Char.toNat_inj.mp (Nat.add_right_cancel hl).symm

theorem toList_hex (n : Nat) : (hex n).toList = '0' :: 'x' :: Nat.toDigits 16 n := by
  simp [hex]

theorem literal_hex (h : text.map Char.toLower = (hex n).toList.map Char.toLower) :
    Literal text n := by
  rw [toList_hex] at h
  obtain ⟨zero, text, rfl, hz, h⟩ := List.map_eq_cons_iff.mp h
  obtain ⟨x, text, rfl, hx, h⟩ := List.map_eq_cons_iff.mp h
  rw [eq_of_toLower (by decide) hz]
  exact .hex (eq_x_of_toLower hx) (unsigned_toDigits (by decide) (by decide) h)

end FabricMemory.Numeral
