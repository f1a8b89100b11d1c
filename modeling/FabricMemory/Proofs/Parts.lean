import Mathlib
import FabricMemory.Proofs.Attribute
import FabricMemory.Proofs.Lossy

/-!
# The parts of a number

The bytes of an attribute that are looked at fall into blanks, a sign, the mark of a radix, the
longest run of digits and a rest. Main statement (`read_by_parts`): what is read is the sign and the
amount of the run, counted without a bound, if it has 32 bits. The rest, what is not looked at and
bytes that are no text do not matter.
-/

namespace FabricMemory.Attribute

-- ---------------------------------------------------------------------
-- Digits and amounts

/-- A digit of a radix up to sixteen. Letters, of either case, go on after the figures. -/
def IsDigit (radix : Nat) (byte : UInt8) (digit : Nat) : Prop :=
  digit < radix ∧
    (digit < 10 ∧ byte.toNat = 0x30 + digit ∨
      10 ≤ digit ∧ (byte.toNat = 0x41 + (digit - 10) ∨ byte.toNat = 0x61 + (digit - 10)))

instance (radix : Nat) (byte : UInt8) (digit : Nat) : Decidable (IsDigit radix byte digit) :=
  inferInstanceAs (Decidable (_ ∧ _))

def Amounts (radix : Nat) (run : Bytes) (amount : Nat) : Prop :=
  ∃ digits, List.Forall₂ (IsDigit radix) run digits ∧ Nat.ofDigits radix digits.reverse = amount

variable {radix : Nat}

theorem digit?_eq_some_iff (hr : radix ≤ 16) {byte : UInt8} {digit : Nat} :
    digit? radix byte = some digit ↔ IsDigit radix byte digit := by
  have hb : byte.toNat < 256 := byte.toNat_lt
  obtain ⟨c, hc, hn⟩ : ∃ c, Char.ofNat byte.toNat = c ∧ c.toNat = byte.toNat :=
    ⟨_, rfl, by rw [Char.toNat_ofNat, if_pos (.inl (by omega))]⟩
  have hle (low high : Char) :
      (low ≤ c ∧ c ≤ high) ↔ low.toNat ≤ byte.toNat ∧ byte.toNat ≤ high.toNat := by
    rw [← hn]
    exact Iff.rfl
  simp only [digit?, Numeral.digitValue, hc, hn, hle, Option.filter_eq_some_iff, decide_eq_true_eq,
    IsDigit, Char.reduceToNat]
  split_ifs <;> simp only [Option.some.injEq, false_and, false_iff] <;> omega

theorem digit?_eq_none_iff (hr : radix ≤ 16) {byte : UInt8} :
    digit? radix byte = none ↔ ∀ digit, ¬ IsDigit radix byte digit := by
  rw [Option.eq_none_iff_forall_ne_some]
  exact forall_congr' fun digit => not_congr (digit?_eq_some_iff hr)

theorem IsDigit.bounds {byte : UInt8} {digit : Nat} (h : IsDigit radix byte digit)
    (hr : radix ≤ 16) : 0x30 ≤ byte.toNat ∧ byte.toNat < 0x80 := by
  obtain ⟨hd, h⟩ := h
  omega

theorem digits_append (hr : radix ≤ 16) {run rest : Bytes} {values : List Nat}
    (h : List.Forall₂ (IsDigit radix) run values)
    (he : ∀ byte ∈ rest.head?, ∀ digit, ¬ IsDigit radix byte digit) :
    digits radix (run ++ rest) = values := by
  induction h with
  | nil =>
    cases rest with
    | nil => rfl
    | cons byte rest =>
      simp [digits, (digit?_eq_none_iff hr).mpr (he byte rfl)]
  | cons hd _ ih =>
    rw [List.cons_append, digits, (digit?_eq_some_iff hr).mpr hd]
    exact congrArg _ ih

theorem exists_run (radix : Nat) (text : Bytes) :
    ∃ run amount rest, text = run ++ rest ∧ Amounts radix run amount ∧
      ∀ byte ∈ rest.head?, ∀ digit, ¬ IsDigit radix byte digit := by
  suffices ∃ run values rest, text = run ++ rest ∧ List.Forall₂ (IsDigit radix) run values ∧
      ∀ byte ∈ rest.head?, ∀ digit, ¬ IsDigit radix byte digit by
    obtain ⟨run, values, rest, ht, hv, he⟩ := this
    exact ⟨run, _, rest, ht, ⟨values, hv, rfl⟩, he⟩
  induction text with
  | nil => exact ⟨[], [], [], rfl, .nil, by simp⟩
  | cons byte text ih =>
    by_cases h : ∃ digit, IsDigit radix byte digit
    · obtain ⟨digit, hd⟩ := h
      obtain ⟨run, values, rest, rfl, hv, he⟩ := ih
      exact ⟨byte :: run, digit :: values, rest, rfl, .cons hd hv, he⟩
    · refine ⟨[], [], byte :: text, rfl, .nil, ?_⟩
      rintro _ ⟨⟩ digit hd
      exact h ⟨digit, hd⟩

-- ---------------------------------------------------------------------
-- The mark of a radix

/-- A zero and an `x`, with a hexadecimal digit behind. -/
def HexMarked (text : Bytes) : Prop :=
  ∃ x byte digit rest, text = 0x30 :: x :: byte :: rest ∧ (x = 0x78 ∨ x = 0x58) ∧
    IsDigit 16 byte digit

/-- How the radix is told. The zero of an octal number is its first digit as well. -/
inductive Led : Bytes → Nat → Bytes → Prop
  | hex {x byte : UInt8} {digit : Nat} {rest : Bytes} (hx : x = 0x78 ∨ x = 0x58)
      (hd : IsDigit 16 byte digit) : Led [0x30, x] 16 (byte :: rest)
  | octal {rest : Bytes} (h : ¬ HexMarked (0x30 :: rest)) : Led [] 8 (0x30 :: rest)
  | decimal {text : Bytes} (h : ∀ byte ∈ text.head?, byte ≠ 0x30) : Led [] 10 text

theorem Led.radix_le {mark text : Bytes} (h : Led mark radix text) : 0 < radix ∧ radix ≤ 16 := by
  cases h <;> decide

theorem exists_led (text : Bytes) :
    ∃ mark radix rest, text = mark ++ rest ∧ Led mark radix rest := by
  by_cases hx : HexMarked text
  · obtain ⟨x, byte, digit, rest, rfl, hx, hd⟩ := hx
    exact ⟨[0x30, x], 16, byte :: rest, rfl, .hex hx hd⟩
  · cases text with
    | nil => exact ⟨[], 10, [], rfl, .decimal (by simp)⟩
    | cons byte rest =>
      by_cases hz : byte = 0x30
      · subst hz
        exact ⟨[], 8, _, rfl, .octal hx⟩
      · exact ⟨[], 10, _, rfl, .decimal (by simpa using hz)⟩

theorem Led.splitRadix {mark text : Bytes} (h : Led mark radix text) :
    splitRadix (mark ++ text) = (radix, text) := by
  cases h with
  | @hex x byte digit rest hx hd =>
    have hs : (digit? 16 byte).isSome := by
      rw [(digit?_eq_some_iff (Nat.le_refl 16)).mpr hd]
      rfl
    simp [Attribute.splitRadix, hx, hs]
  | @octal rest h =>
    simp only [List.nil_append]
    unfold Attribute.splitRadix
    split
    · rename_i x next rest ht
      obtain rfl := (List.cons.inj ht).2
      rw [if_neg]
      rintro ⟨hx, hs⟩
      obtain ⟨digit, hd⟩ := Option.isSome_iff_exists.mp hs
      exact h ⟨x, next, digit, rest, rfl, hx, (digit?_eq_some_iff (Nat.le_refl 16)).mp hd⟩
    · rename_i ht
      rw [(List.cons.inj ht).2]
    · rename_i hz
      exact absurd rfl (hz _)
  | decimal h =>
    cases text with
    | nil => rfl
    | cons byte rest => exact splitRadix_ten (h byte rfl)

-- ---------------------------------------------------------------------
-- Blanks, and bytes past ASCII

def IsBlank (byte : UInt8) : Prop := byte ∈ ([0x20, 0x09, 0x0a, 0x0c, 0x0d] : Bytes)

instance (byte : UInt8) : Decidable (IsBlank byte) := inferInstanceAs (Decidable (_ ∈ _))

theorem isSpace_iff {byte : UInt8} : isSpace byte = true ↔ IsBlank byte := by
  simp [isSpace, IsBlank, or_assoc]

theorem forall_head?_append {p : UInt8 → Prop} {front rest : Bytes}
    (hf : ∀ byte ∈ front.head?, p byte) (hr : ∀ byte ∈ rest.head?, p byte) :
    ∀ byte ∈ (front ++ rest).head?, p byte := by
  cases front with
  | nil => exact hr
  | cons => exact hf

theorem not_isBlank_of_le {byte : UInt8} (h : 0x80 ≤ byte) : ¬ IsBlank byte := by
  intro hb
  exact absurd (UInt8.lt_of_le_of_lt h (lt_of_isSpace (isSpace_iff.mpr hb))) (by decide)

theorem not_isDigit_of_le {byte : UInt8} (h : 0x80 ≤ byte) (hr : radix ≤ 16) (digit : Nat) :
    ¬ IsDigit radix byte digit := by
  intro hd
  exact absurd (UInt8.le_iff_toNat_le.mp h) (Nat.not_le.mpr (hd.bounds hr).2)

theorem ne_of_le {byte other : UInt8} (h : 0x80 ≤ byte) (ho : other < 0x80) : byte ≠ other := by
  rintro rfl
  exact absurd ho (UInt8.not_lt.mpr h)

theorem Led.append_foreign {mark text other : Bytes} (h : Led mark radix text)
    (hf : Utf8.Foreign other) : Led mark radix (text ++ other) := by
  cases h with
  | hex hx hd => exact .hex hx hd
  | @octal rest h =>
    refine .octal fun ⟨x, byte, digit, tail, ht, hx, hd⟩ => ?_
    have ht : rest ++ other = x :: byte :: tail := (List.cons.inj ht).2
    -- a mark and its digit are ASCII, so neither of them is among the other bytes
    match rest with
    | [] =>
      have ho : other = x :: byte :: tail := ht
      have hb : 0x80 ≤ x := hf x (by rw [ho]; rfl)
      obtain rfl | rfl := hx <;> exact absurd hb (by decide)
    | [_] =>
      have ho : other = byte :: tail := (List.cons.inj ht).2
      have hb : 0x80 ≤ byte := hf byte (by rw [ho]; rfl)
      exact not_isDigit_of_le hb (Nat.le_refl 16) digit hd
    | first :: second :: _ =>
      injection ht with hp ht
      injection ht with hs ht
      subst hp hs
      exact h ⟨_, _, digit, _, rfl, hx, hd⟩
  | decimal h =>
    exact .decimal (forall_head?_append h fun byte hb => ne_of_le (hf byte hb) (by decide))

-- ---------------------------------------------------------------------
-- Parts

/-- The parts of a text, and what the digits of the run amount to. -/
structure Parts where
  blanks : Bytes
  sign : Bytes
  mark : Bytes
  radix : Nat
  run : Bytes
  amount : Nat
  rest : Bytes

namespace Parts

def unsigned (parts : Parts) : Bytes := parts.mark ++ (parts.run ++ parts.rest)

def shown (parts : Parts) : Bytes := parts.sign ++ parts.unsigned

/-- The text falls into the parts, each of them as long as can be. -/
structure Divides (parts : Parts) (text : Bytes) : Prop where
  whole : text = parts.blanks ++ parts.shown
  blanks : ∀ byte ∈ parts.blanks, IsBlank byte
  unblank : ∀ byte ∈ parts.shown.head?, ¬ IsBlank byte
  sign : parts.sign = [0x2b] ∨ parts.sign = [0x2d] ∨
    parts.sign = [] ∧ ∀ byte ∈ parts.unsigned.head?, byte ≠ 0x2b ∧ byte ≠ 0x2d
  led : Led parts.mark parts.radix (parts.run ++ parts.rest)
  amounts : Amounts parts.radix parts.run parts.amount
  ended : ∀ byte ∈ parts.rest.head?, ∀ digit, ¬ IsDigit parts.radix byte digit

def exact (parts : Parts) : Int := if parts.sign = [0x2d] then -parts.amount else parts.amount

def held (parts : Parts) : Int := max (-2 ^ 63) (min parts.exact (2 ^ 63 - 1))

variable {parts : Parts} {text : Bytes}

theorem exists_sign (text : Bytes) : ∃ sign rest, text = sign ++ rest ∧
    (sign = [0x2b] ∨ sign = [0x2d] ∨
      sign = [] ∧ ∀ byte ∈ rest.head?, byte ≠ 0x2b ∧ byte ≠ 0x2d) := by
  by_cases hp : text.head? = some 0x2b
  · obtain ⟨rest, hr⟩ := List.head?_eq_some_iff.mp hp
    exact ⟨[0x2b], rest, hr, .inl rfl⟩
  · by_cases hm : text.head? = some 0x2d
    · obtain ⟨rest, hr⟩ := List.head?_eq_some_iff.mp hm
      exact ⟨[0x2d], rest, hr, .inr (.inl rfl)⟩
    · refine ⟨[], text, rfl, .inr (.inr ⟨rfl, fun byte hb => ⟨?_, ?_⟩⟩)⟩
      · rintro rfl
        exact hp hb
      · rintro rfl
        exact hm hb

theorem exists_divides (text : Bytes) : ∃ parts : Parts, parts.Divides text := by
  have hb : text = text.takeWhile isSpace ++ text.dropWhile isSpace :=
    List.takeWhile_append_dropWhile.symm
  have hu : ∀ byte ∈ (text.dropWhile isSpace).head?, ¬ IsBlank byte := by
    intro byte hm hs
    have hn := List.head?_dropWhile_not isSpace text
    rw [Option.mem_def.mp hm] at hn
    exact absurd (isSpace_iff.mpr hs) (by simpa using hn)
  obtain ⟨sign, rest, hs, hg⟩ := exists_sign (text.dropWhile isSpace)
  obtain ⟨mark, radix, digits, rfl, hl⟩ := exists_led rest
  obtain ⟨run, amount, rest, rfl, ha, he⟩ := exists_run radix digits
  rw [hs] at hb hu
  exact ⟨⟨text.takeWhile isSpace, sign, mark, radix, run, amount, rest⟩, hb,
    fun byte hm => isSpace_iff.mp (List.mem_takeWhile_imp hm), hu, hg, hl, ha, he⟩

theorem Divides.dropWhile_isSpace (h : parts.Divides text) :
    text.dropWhile isSpace = parts.shown := by
  have hd : parts.shown.dropWhile isSpace = parts.shown := by
    cases hs : parts.shown with
    | nil => rfl
    | cons byte rest =>
      refine List.dropWhile_cons_of_neg fun hb => ?_
      exact h.unblank byte (by rw [hs]; rfl) (isSpace_iff.mp hb)
  rw [h.whole, List.dropWhile_append_of_pos fun byte hb => isSpace_iff.mpr (h.blanks byte hb), hd]

theorem Divides.splitSign (h : parts.Divides text) :
    splitSign parts.shown = (decide (parts.sign = [0x2d]), parts.unsigned) := by
  obtain hs | hs | ⟨hs, hn⟩ := h.sign
  · rw [shown, hs]
    rfl
  · rw [shown, hs]
    rfl
  · rw [shown, hs, List.nil_append]
    cases hu : parts.unsigned with
    | nil => rfl
    | cons byte rest =>
      obtain ⟨hp, hm⟩ := hn byte (by rw [hu]; rfl)
      unfold Attribute.splitSign
      split
      · rename_i ht
        exact absurd (List.cons.inj ht).1 hm
      · rename_i ht
        exact absurd (List.cons.inj ht).1 hp
      · rfl

theorem Divides.number?_eq (h : parts.Divides text) :
    number? text = if parts.run = [] then none else some parts.held := by
  obtain ⟨hp, hr⟩ := h.led.radix_le
  obtain ⟨values, hv, ha⟩ := h.amounts
  have hd : digits parts.radix (parts.run ++ parts.rest) = values := digits_append hr hv h.ended
  have hc : ceiling = 2 ^ 63 := by decide
  simp only [number?, h.dropWhile_isSpace, h.splitSign, unsigned, h.led.splitRadix, hd]
  cases values with
  | nil => rw [if_pos (List.forall₂_nil_right_iff.mp hv)]
  | cons digit values =>
    have hn : parts.run ≠ [] := by
      obtain ⟨byte, run, -, -, hr⟩ := List.forall₂_cons_right_iff.mp hv
      simp [hr]
    simp only [magnitude_eq hp, Numeral.runValue_eq, ha, hc, held, exact, if_neg hn, decide_eq_true_eq,
      Option.some.injEq]
    split_ifs <;> omega

-- ---------------------------------------------------------------------
-- Showing as text

theorem Divides.append_foreign (h : parts.Divides text) {other : Bytes}
    (hf : Utf8.Foreign other) :
    ({ parts with rest := parts.rest ++ other } : Parts).Divides (text ++ other) := by
  have hu : ({ parts with rest := parts.rest ++ other } : Parts).unsigned =
      parts.unsigned ++ other := by simp [unsigned]
  have hs : ({ parts with rest := parts.rest ++ other } : Parts).shown =
      parts.shown ++ other := by simp [shown, unsigned]
  refine ⟨?_, h.blanks, ?_, ?_, ?_, h.amounts, ?_⟩
  · rw [hs, h.whole, List.append_assoc]
  · rw [hs]
    exact forall_head?_append h.unblank fun byte hb => not_isBlank_of_le (hf byte hb)
  · rw [hu]
    obtain hp | hm | ⟨hn, hd⟩ := h.sign
    · exact .inl hp
    · exact .inr (.inl hm)
    · exact .inr (.inr ⟨hn, forall_head?_append hd fun byte hb =>
        ⟨ne_of_le (hf byte hb) (by decide), ne_of_le (hf byte hb) (by decide)⟩⟩)
  · have hl := h.led.append_foreign hf
    rwa [List.append_assoc] at hl
  · exact forall_head?_append h.ended fun byte hb =>
      not_isDigit_of_le (hf byte hb) h.led.radix_le.2

theorem number?_append_foreign {front rest : Bytes} (hf : Utf8.Foreign rest) :
    number? (front ++ rest) = number? front := by
  obtain ⟨parts, hd⟩ := exists_divides front
  rw [hd.number?_eq, (hd.append_foreign hf).number?_eq]
  rfl

/-- Showing the bytes as text and taking the bytes of it again does not change the number. -/
theorem number?_lossy (text : Bytes) : number? (Utf8.encode (Utf8.lossy text)) = number? text := by
  obtain ⟨front, rest, shown, ht, hs, hr, hf⟩ := Utf8.encode_lossy_split text
  rw [hs, ht, number?_append_foreign hf, number?_append_foreign hr]

-- ---------------------------------------------------------------------
-- Reading

def Fits (parts : Parts) : Prop := -2 ^ 31 ≤ parts.exact ∧ parts.exact < 2 ^ 31

instance : Decidable parts.Fits := inferInstanceAs (Decidable (_ ∧ _))

theorem inRange_held : inRange parts.held = true ↔ parts.Fits := by
  have hw : (wordBound 31 : Int) = 2 ^ 31 := by decide
  simp only [inRange, hw, Bool.and_eq_true, decide_eq_true_eq, Fits, held]
  omega

theorem held_eq (h : parts.Fits) : parts.held = parts.exact := by
  obtain ⟨hl, hh⟩ := h
  simp only [held]
  omega

theorem toInt_ofInt_exact (h : parts.Fits) : (Int32.ofInt parts.exact).toInt = parts.exact :=
  Int32.toInt_ofInt_of_le h.1 h.2

theorem Divides.value_read {files : FileSystem} {path : Path} {content : Bytes}
    (h : parts.Divides (content.take maxLength)) (hf : files.readFile path = .ok content) :
    (read files path).value =
      if content = [] then .error (.badAttribute path .empty)
      else if parts.run = [] then .error (.badAttribute path .noNumber)
      else if parts.Fits then .ok (Int32.ofInt parts.exact)
      else .error (.badAttribute path (.outOfRange parts.held)) := by
  have ht : content.take maxLength = [] ↔ content = [] := by
    simp [List.take_eq_nil_iff, maxLength]
  rw [read_of_readFile hf]
  simp only [parse, h.number?_eq, ht]
  split_ifs with hc hn hr
  · rfl
  · rfl
  · simp only [if_pos (inRange_held.mpr hr), ← held_eq hr]
    rfl
  · simp only [if_neg (mt inRange_held.mp hr)]
    rfl

theorem Divides.run_eq_nil (h : parts.Divides []) : parts.run = [] := by
  have hw := h.whole
  simp only [shown, unsigned, List.nil_eq, List.append_eq_nil_iff] at hw
  exact hw.2.2.2.1

end Parts

/-- What is read from a file is told by the parts of what is looked at. -/
theorem read_by_parts {files : FileSystem} {path : Path} {content : Bytes}
    (h : files.readFile path = .ok content) :
    (∃ parts : Parts, parts.Divides (content.take maxLength)) ∧
    (∀ parts : Parts, parts.Divides (content.take maxLength) →
      (∀ value, (read files path).value = .ok value ↔
        parts.run ≠ [] ∧ parts.Fits ∧ value.toInt = parts.exact) ∧
      ((read files path).value = .error (.badAttribute path .empty) ↔ content = []) ∧
      ((read files path).value = .error (.badAttribute path .noNumber) ↔
        content ≠ [] ∧ parts.run = []) ∧
      ((read files path).value = .error (.badAttribute path (.outOfRange parts.held)) ↔
        parts.run ≠ [] ∧ ¬ parts.Fits) ∧
      ∀ there other rest, there.readFile path = .ok other →
        ({ parts with rest } : Parts).Divides (other.take maxLength) →
        (other = [] ↔ content = []) → (read there path).value = (read files path).value) ∧
    number? (Utf8.encode (Utf8.lossy (content.take maxLength))) =
      number? (content.take maxLength) := by
  refine ⟨Parts.exists_divides _, fun parts hd => ?_, Parts.number?_lossy _⟩
  have hv := hd.value_read h
  have he (hc : content = []) : parts.run = [] := by
    rw [hc] at hd
    exact hd.run_eq_nil
  refine ⟨fun value => ?_, ?_, ?_, ?_, fun there other rest ho hr hn => ?_⟩
  · rw [hv]
    split_ifs with hc hn hf
    · simp [he hc]
    · simp [hn]
    · simp [hn, hf, ← Int32.toInt_inj, Parts.toInt_ofInt_exact hf, eq_comm]
    · simp [hf]
  · rw [hv]
    split_ifs <;> simp_all
  · rw [hv]
    split_ifs <;> simp_all
  · rw [hv]
    split_ifs <;> simp_all
  · rw [hv, hr.value_read ho]
    simp only [hn]
    rfl

/-- A negative hexadecimal number after a blank, and before a byte that is no text. -/
theorem read_by_parts_hex :
    let path := Path.ofString "a"
    let content : Bytes := [0x20, 0x2d, 0x30, 0x58, 0x32, 0x61, 0xff]
    let files : FileSystem := ⟨[([path.bytes], .file content)], []⟩
    files.readFile path = .ok content ∧ (read files path).value = .ok (-42) := by
  intro path content files
  have hf : files.readFile path = .ok content := by cbv
  have hd : (⟨[0x20], [0x2d], [0x30, 0x58], 16, [0x32, 0x61], 42, [0xff]⟩ : Parts).Divides
      (content.take maxLength) :=
    { whole := rfl
      blanks := by simp [IsBlank]
      unblank := by
        rintro byte ⟨⟩
        decide
      sign := .inr (.inl rfl)
      led := .hex (.inr rfl) (show IsDigit 16 0x32 2 by decide)
      amounts := ⟨[2, 10], .cons (by decide) (.cons (by decide) .nil), by decide⟩
      ended := by
        rintro byte ⟨⟩
        exact not_isDigit_of_le (by decide) (by decide) }
  obtain ⟨-, hp, -⟩ := read_by_parts hf
  exact ⟨hf, ((hp _ hd).1 (-42)).mpr ⟨by decide, by decide, by decide⟩⟩

end FabricMemory.Attribute
