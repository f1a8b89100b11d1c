import Mathlib
import FabricMemory.Proofs.Parts

/-!
# Conversion as in C

`strtol` converts the longest text behind the white space that is an integer constant, maybe with a
sign, and holds its value within a word of 64 bits. Main statement (`number?_converts`): so is the
number that an attribute begins with, unless there is a vertical tab among the white space, which is
not skipped here.
-/

namespace FabricMemory.Attribute

def IsWhite (byte : UInt8) : Prop := byte = 0x20 ∨ 0x09 ≤ byte ∧ byte ≤ 0x0d

instance (byte : UInt8) : Decidable (IsWhite byte) := inferInstanceAs (Decidable (_ ∨ _))

/-- An integer constant without a suffix, and its value. Zero is octal. -/
inductive Constant : Bytes → Nat → Prop
  | decimal {first : UInt8} {others : Bytes} {value : Nat} (hz : first ≠ 0x30)
      (ha : Amounts 10 (first :: others) value) : Constant (first :: others) value
  | octal {others : Bytes} {value : Nat} (ha : Amounts 8 (0x30 :: others) value) :
      Constant (0x30 :: others) value
  | hex {x first : UInt8} {others : Bytes} {value : Nat} (hx : x = 0x78 ∨ x = 0x58)
      (ha : Amounts 16 (first :: others) value) : Constant (0x30 :: x :: first :: others) value

inductive Subject : Bytes → Int → Prop
  | plain {text : Bytes} {value : Nat} (hc : Constant text value) : Subject text value
  | plus {text : Bytes} {value : Nat} (hc : Constant text value) : Subject (0x2b :: text) value
  | minus {text : Bytes} {value : Nat} (hc : Constant text value) : Subject (0x2d :: text) (-value)

inductive Converts (text : Bytes) : Option Int → Prop
  | number {front : Bytes} {value : Int} (hf : front <+: text.dropWhile IsWhite)
      (hs : Subject front value)
      (longest : ∀ other value, other <+: text.dropWhile IsWhite → Subject other value →
        other.length ≤ front.length) :
      Converts text (some (max (-2 ^ 63) (min value (2 ^ 63 - 1))))
  | nothing (hn : ∀ front value, front <+: text.dropWhile IsWhite → ¬ Subject front value) :
      Converts text none

variable {radix : Nat}

-- ---------------------------------------------------------------------
-- Values are unique

theorem IsDigit.unique {byte : UInt8} {first second : Nat} (h : IsDigit radix byte first)
    (h' : IsDigit radix byte second) (hr : radix ≤ 16) : first = second :=
  Option.some.inj (((digit?_eq_some_iff hr).mpr h).symm.trans ((digit?_eq_some_iff hr).mpr h'))

theorem Amounts.unique {run : Bytes} {first second : Nat} (h : Amounts radix run first)
    (h' : Amounts radix run second) (hr : radix ≤ 16) : first = second := by
  obtain ⟨digits, hd, rfl⟩ := h
  obtain ⟨digits', hd', rfl⟩ := h'
  have hu : Relator.RightUnique (IsDigit radix) := fun _ _ _ h h' => h.unique h' hr
  rw [hu.forall₂ hd hd']

theorem Amounts.digit_of_mem {run : Bytes} {amount : Nat} (h : Amounts radix run amount)
    {byte : UInt8} (hb : byte ∈ run) : ∃ digit, IsDigit radix byte digit := by
  obtain ⟨digits, hd, -⟩ := h
  induction hd with
  | nil => cases hb
  | cons hd _ ih =>
    cases hb with
    | head => exact ⟨_, hd⟩
    | tail _ hb => exact ih hb

theorem not_octal_of_mark {x : UInt8} (hx : x = 0x78 ∨ x = 0x58) (digit : Nat) :
    ¬ IsDigit 8 x digit := by
  rintro ⟨hd, h⟩
  obtain rfl | rfl := hx <;> simp only [UInt8.reduceToNat] at h <;> omega

theorem Constant.head {text : Bytes} {value : Nat} (h : Constant text value) :
    ∃ first others, text = first :: others ∧ 0x30 ≤ first := by
  have lead {radix value : Nat} {first : UInt8} {others : Bytes} (hr : radix ≤ 16)
      (ha : Amounts radix (first :: others) value) : 0x30 ≤ first := by
    obtain ⟨digit, hd⟩ := ha.digit_of_mem (.head _)
    exact UInt8.le_iff_toNat_le.mpr (hd.bounds hr).1
  cases h with
  | decimal _ ha => exact ⟨_, _, rfl, lead (by decide) ha⟩
  | octal ha => exact ⟨_, _, rfl, lead (by decide) ha⟩
  | hex => exact ⟨_, _, rfl, UInt8.le_refl _⟩

theorem Constant.unique {text : Bytes} {first second : Nat} (h : Constant text first)
    (h' : Constant text second) : first = second := by
  cases h with
  | decimal hz ha =>
    cases h' with
    | decimal _ ha' => exact ha.unique ha' (by decide)
    | octal => exact absurd rfl hz
    | hex => exact absurd rfl hz
  | octal ha =>
    cases h' with
    | decimal hz => exact absurd rfl hz
    | octal ha' => exact ha.unique ha' (by decide)
    | hex hx =>
      obtain ⟨digit, hd⟩ := ha.digit_of_mem (.tail _ (.head _))
      exact absurd hd (not_octal_of_mark hx digit)
  | hex hx ha =>
    cases h' with
    | decimal hz => exact absurd rfl hz
    | octal ha' =>
      obtain ⟨digit, hd⟩ := ha'.digit_of_mem (.tail _ (.head _))
      exact absurd hd (not_octal_of_mark hx digit)
    | hex _ ha' => exact ha.unique ha' (by decide)

theorem Subject.unique {text : Bytes} {first second : Int} (h : Subject text first)
    (h' : Subject text second) : first = second := by
  have signless {byte : UInt8} {text : Bytes} {value : Nat} (hc : Constant (byte :: text) value)
      (hb : byte < 0x30) : False := by
    obtain ⟨first, others, ht, hl⟩ := hc.head
    rw [(List.cons.inj ht).1] at hb
    exact UInt8.not_lt.mpr hl hb
  cases h with
  | plain hc =>
    cases h' with
    | plain hc' => rw [hc.unique hc']
    | plus => exact (signless hc (by decide)).elim
    | minus => exact (signless hc (by decide)).elim
  | plus hc =>
    cases h' with
    | plain hc' => exact (signless hc' (by decide)).elim
    | plus hc' => rw [hc.unique hc']
  | minus hc =>
    cases h' with
    | plain hc' => exact (signless hc' (by decide)).elim
    | minus hc' => rw [hc.unique hc']

-- ---------------------------------------------------------------------
-- The longest subject

theorem length_le_of_digits {front run rest : Bytes}
    (hd : ∀ byte ∈ front, ∃ digit, IsDigit radix byte digit) (hp : front <+: run ++ rest)
    (he : ∀ byte ∈ rest.head?, ∀ digit, ¬ IsDigit radix byte digit) :
    front.length ≤ run.length := by
  induction run generalizing front with
  | nil =>
    cases front with
    | nil => exact Nat.le_refl 0
    | cons byte front =>
      obtain ⟨digit, hb⟩ := hd byte (.head _)
      obtain ⟨tail, rfl⟩ := hp
      exact absurd hb (he byte rfl digit)
  | cons first run ih =>
    cases front with
    | nil => exact Nat.zero_le _
    | cons byte front =>
      have hp := (List.cons_prefix_cons.mp hp).2
      exact Nat.succ_le_succ (ih (fun byte hb => hd byte (.tail _ hb)) hp)

theorem Amounts.length_le {front run rest : Bytes} {amount : Nat} (h : Amounts radix front amount)
    (hp : front <+: run ++ rest)
    (he : ∀ byte ∈ rest.head?, ∀ digit, ¬ IsDigit radix byte digit) :
    front.length ≤ run.length :=
  length_le_of_digits (fun _ => h.digit_of_mem) hp he

theorem Led.constant {mark run rest : Bytes} {amount : Nat} (h : Led mark radix (run ++ rest))
    (ha : Amounts radix run amount) (hr : run ≠ []) : Constant (mark ++ run) amount := by
  obtain ⟨first, others, rfl⟩ := List.exists_cons_of_ne_nil hr
  generalize ht : first :: others ++ rest = text at h
  cases h with
  | hex hx hd => exact .hex hx ha
  | octal =>
    obtain rfl := (List.cons.inj ht).1
    exact .octal ha
  | decimal hz =>
    refine .decimal (hz first ?_) ha
    rw [← ht]
    rfl

theorem Led.length_le {mark run rest front : Bytes} {value : Nat}
    (h : Led mark radix (run ++ rest))
    (he : ∀ byte ∈ rest.head?, ∀ digit, ¬ IsDigit radix byte digit) (hc : Constant front value)
    (hp : front <+: mark ++ (run ++ rest)) :
    run ≠ [] ∧ front.length ≤ (mark ++ run).length := by
  generalize ht : run ++ rest = text at h hp
  have within {amount : Nat} (ha : Amounts radix front amount) (hp : front <+: text) :
      front.length ≤ run.length := ha.length_le (by rwa [ht]) he
  have hn : front.length ≠ 0 := by
    obtain ⟨first, others, rfl, -⟩ := hc.head
    simp
  cases h with
  | @hex x byte digit tail hx hd =>
    have hr : run ≠ [] := by
      rintro rfl
      obtain rfl : rest = byte :: tail := ht
      exact he byte rfl digit hd
    refine ⟨hr, ?_⟩
    cases hc with
    | decimal hz => exact absurd (List.cons_prefix_cons.mp hp).1 hz
    | @octal others _ ha =>
      -- no digit of it can follow the zero
      cases others with
      | nil => simp
      | cons second others =>
        obtain ⟨rfl, -⟩ := List.cons_prefix_cons.mp (List.cons_prefix_cons.mp hp).2
        obtain ⟨digit, hd⟩ := ha.digit_of_mem (.tail _ (.head _))
        exact absurd hd (not_octal_of_mark hx digit)
    | hex _ ha =>
      have hp := (List.cons_prefix_cons.mp (List.cons_prefix_cons.mp hp).2).2
      have hl := Amounts.length_le ha (by rwa [← ht] at hp) he
      simp only [List.length_append, List.length_cons] at hl ⊢
      omega
  | octal hm =>
    have hl : front.length ≤ run.length := by
      cases hc with
      | decimal hz => exact absurd (List.cons_prefix_cons.mp hp).1 hz
      | octal ha => exact within ha hp
      | hex hx ha =>
        obtain ⟨left, hl⟩ := hp
        obtain ⟨digit, hd⟩ := ha.digit_of_mem (.head _)
        exact absurd ⟨_, _, digit, _, hl.symm, hx, hd⟩ hm
    exact ⟨List.length_pos_iff.mp (by omega), hl⟩
  | decimal hz =>
    have hl : front.length ≤ run.length := by
      obtain ⟨left, rfl⟩ := hp
      cases hc with
      | decimal _ ha => exact within ha (List.prefix_append _ _)
      | octal => exact absurd rfl (hz _ rfl)
      | hex => exact absurd rfl (hz _ rfl)
    exact ⟨List.length_pos_iff.mp (by omega), hl⟩

namespace Parts

variable {parts : Parts} {text : Bytes}

def subject (parts : Parts) : Bytes := parts.sign ++ (parts.mark ++ parts.run)

theorem Divides.subject (h : parts.Divides text) (hr : parts.run ≠ []) :
    Subject parts.subject parts.exact := by
  have hc := h.led.constant h.amounts hr
  rw [Parts.subject, exact]
  obtain hs | hs | ⟨hs, -⟩ := h.sign
  · rw [hs]
    exact .plus hc
  · rw [hs]
    exact .minus hc
  · rw [hs]
    exact .plain hc

theorem Divides.length_le_of_sign (h : parts.Divides text) {sign : UInt8} {front : Bytes}
    {value : Nat} (hb : sign = 0x2b ∨ sign = 0x2d) (hc : Constant front value)
    (hp : sign :: front <+: parts.shown) :
    parts.run ≠ [] ∧ (sign :: front).length ≤ parts.subject.length := by
  have behind {byte : UInt8} (hs : parts.sign = [byte]) :
      parts.run ≠ [] ∧ (sign :: front).length ≤ parts.subject.length := by
    rw [shown, hs] at hp
    obtain ⟨hr, hl⟩ := h.led.length_le h.ended hc (List.cons_prefix_cons.mp hp).2
    rw [Parts.subject, hs]
    exact ⟨hr, Nat.succ_le_succ hl⟩
  obtain hs | hs | ⟨hs, hn⟩ := h.sign
  · exact behind hs
  · exact behind hs
  · rw [shown, hs] at hp
    obtain ⟨left, hl⟩ := hp
    have hu : parts.unsigned = sign :: (front ++ left) := hl.symm
    obtain ⟨hp, hm⟩ := hn sign (by rw [hu]; rfl)
    exact (hb.elim hp hm).elim

theorem Divides.length_le (h : parts.Divides text) {front : Bytes} {value : Int}
    (hs : Subject front value) (hp : front <+: parts.shown) :
    parts.run ≠ [] ∧ front.length ≤ parts.subject.length := by
  cases hs with
  | plain hc =>
    have unsigned {byte : UInt8} (hb : byte < 0x30) : parts.sign ≠ [byte] := by
      intro hs
      obtain ⟨first, others, rfl, hl⟩ := hc.head
      rw [shown, hs] at hp
      rw [← (List.cons_prefix_cons.mp hp).1] at hb
      exact UInt8.not_lt.mpr hl hb
    obtain hs | hs | ⟨hs, -⟩ := h.sign
    · exact absurd hs (unsigned (by decide))
    · exact absurd hs (unsigned (by decide))
    · rw [shown, hs] at hp
      rw [Parts.subject, hs]
      exact h.led.length_le h.ended hc hp
  | plus hc => exact h.length_le_of_sign (.inl rfl) hc hp
  | minus hc => exact h.length_le_of_sign (.inr rfl) hc hp

theorem subject_prefix : parts.subject <+: parts.shown :=
  ⟨parts.rest, by simp [Parts.subject, shown, unsigned]⟩

end Parts

-- ---------------------------------------------------------------------
-- White space

theorem isWhite_iff {byte : UInt8} : IsWhite byte ↔ isSpace byte = true ∨ byte = 0x0b := by
  simp only [isSpace_iff, IsWhite, IsBlank, List.mem_cons, List.not_mem_nil, or_false,
    ← UInt8.toNat_inj, UInt8.le_iff_toNat_le, UInt8.reduceToNat]
  omega

theorem dropWhile_isWhite {text : Bytes} (h : 0x0b ∉ text.takeWhile IsWhite) :
    text.dropWhile IsWhite = text.dropWhile isSpace := by
  induction text with
  | nil => rfl
  | cons byte rest ih =>
    by_cases hw : IsWhite byte
    · simp only [List.takeWhile_cons, hw, decide_true, if_true, List.mem_cons, not_or] at h
      have hs : isSpace byte = true := (isWhite_iff.mp hw).resolve_right (Ne.symm h.1)
      simp [hw, hs, ih h.2]
    · have hs : ¬ isSpace byte = true := fun hs => hw (isWhite_iff.mpr (.inl hs))
      simp [hw, hs]

theorem dropWhile_isSpace_of_tab {text : Bytes} (h : 0x0b ∈ text.takeWhile IsWhite) :
    ∃ rest, text.dropWhile isSpace = 0x0b :: rest := by
  induction text with
  | nil => cases h
  | cons byte rest ih =>
    by_cases hw : IsWhite byte
    · obtain hs | rfl := isWhite_iff.mp hw
      · simp only [List.takeWhile_cons, hw, decide_true, if_true, List.mem_cons] at h
        obtain rfl | h := h
        · cases hs
        · simpa [hs] using ih h
      · exact ⟨rest, rfl⟩
    · simp [hw] at h

theorem converts_iff {text : Bytes} {result : Option Int} :
    Converts text result ↔ result = number? (text.dropWhile IsWhite) := by
  obtain ⟨parts, h⟩ := Parts.exists_divides (text.dropWhile IsWhite)
  have hn : (text.dropWhile IsWhite).takeWhile IsWhite = [] :=
    List.takeWhile_eq_nil_iff.mpr (List.dropWhile_eq_self_iff.mp (List.dropWhile_idempotent _ _))
  have hw : text.dropWhile IsWhite = parts.shown := by
    rw [← h.dropWhile_isSpace, ← dropWhile_isWhite (by simp [hn]), List.dropWhile_idempotent]
  rw [h.number?_eq]
  constructor
  · intro hc
    cases hc with
    | @number front value hf hs longest =>
      rw [hw] at hf longest
      obtain ⟨hr, hl⟩ := h.length_le hs hf
      have hg := longest _ _ Parts.subject_prefix (h.subject hr)
      obtain rfl : front = parts.subject :=
        (List.prefix_of_prefix_length_le hf Parts.subject_prefix hl).eq_of_length (by omega)
      rw [if_neg hr, hs.unique (h.subject hr), Parts.held]
    | nothing hn =>
      rw [hw] at hn
      by_cases hr : parts.run = []
      · rw [if_pos hr]
      · exact absurd (h.subject hr) (hn _ _ Parts.subject_prefix)
  · rintro rfl
    split
    · rename_i hr
      refine .nothing fun front value hf hs => ?_
      rw [hw] at hf
      exact (h.length_le hs hf).1 hr
    · rename_i hr
      refine .number (hw ▸ Parts.subject_prefix) (h.subject hr) fun other value ho hs => ?_
      rw [hw] at ho
      exact (h.length_le hs ho).2

/-- The number that a text begins with is what it is converted to, but for a vertical tab in front
of it. -/
theorem number?_converts (text : Bytes) :
    ∃ result, (∀ other, Converts text other ↔ other = result) ∧
      number? text = if 0x0b ∈ text.takeWhile IsWhite then none else result := by
  refine ⟨number? (text.dropWhile IsWhite), fun other => converts_iff, ?_⟩
  split
  · rename_i ht
    obtain ⟨rest, hr⟩ := dropWhile_isSpace_of_tab ht
    rw [number?, hr]
    rfl
  · rename_i ht
    rw [dropWhile_isWhite ht]
    simp only [number?, List.dropWhile_idempotent]

/-- Behind a vertical tab no number is found, but five is what is converted. -/
theorem number?_vertical_tab :
    Converts [0x0b, 0x35] (some 5) ∧ number? [0x0b, 0x35] = none :=
  ⟨converts_iff.mpr rfl, rfl⟩

end FabricMemory.Attribute
