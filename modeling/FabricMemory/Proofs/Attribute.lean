import FabricMemory.Attribute
import FabricMemory.Proofs.Numeral

/-!
# Reading what an attribute shows

A number is shown in decimal, or in hexadecimal after `0x`, with at most a line end behind it.
Main statement (`parse_of_holds`): it is read back if it has 31 bits, and turned down if it has 32.
-/

namespace FabricMemory

theorem Utf8.encode_ofList {text : List Char} (h : ∀ c ∈ text, c.toNat < 128) :
    encode (String.ofList text) = text.map Char.toUInt8 := by
  rw [encode, String.toUTF8, String.toByteArray_ofList, List.utf8Encode, List.data_toByteArray,
    List.toList_toArray]
  induction text with
  | nil => rfl
  | cons c text ih =>
    have hz : c.utf8Size = 1 := Char.utf8Size_eq_one_iff.mpr (Nat.le_of_lt_succ (h c (.head _)))
    rw [List.flatMap_cons, String.utf8EncodeChar_eq_singleton hz]
    exact congrArg _ (ih fun d hd => h d (.tail _ hd))

namespace Attribute

open Numeral

variable {radix : Nat}

-- ---------------------------------------------------------------------
-- Digits

theorem toNat_toUInt8 {c : Char} (h : c.toNat < 128) : c.toUInt8.toNat = c.toNat := by
  show c.val.toUInt8.toNat = c.val.toNat
  rw [UInt32.toNat_toUInt8]
  exact Nat.mod_eq_of_lt (Nat.lt_trans h (by decide))

theorem digit?_toUInt8 {c : Char} (h : c.toNat < 128) :
    digit? radix c.toUInt8 = digitValue radix c := by
  rw [digit?, toNat_toUInt8 h, Char.ofNat_toNat]

theorem le_toUInt8 {c : Char} {digit : Nat} (h : digitValue radix c = some digit) :
    0x30 ≤ c.toUInt8 := by
  obtain ⟨hl, hh⟩ := toNat_of_digitValue h
  rw [UInt8.le_iff_toNat_le, toNat_toUInt8 hh]
  exact hl

theorem digits_map_append {text : List Char} {run : List Nat} {rest : Bytes}
    (hm : text.mapM (digitValue radix) = some run) (hr : digits radix rest = []) :
    digits radix (text.map Char.toUInt8 ++ rest) = run := by
  induction text generalizing run with
  | nil =>
    obtain rfl := Option.some.inj hm
    exact hr
  | cons c text ih =>
    obtain ⟨digit, others, hd, ho, rfl⟩ := mapM_cons_eq_some hm
    rw [List.map_cons, List.cons_append, digits, digit?_toUInt8 (toNat_of_digitValue hd).2, hd]
    exact congrArg _ (ih ho)

theorem magnitude_eq (hr : 0 < radix) (run : List Nat) :
    magnitude radix run = min (runValue radix run) ceiling := by
  have h (value : Nat) :
      run.foldl (fun value digit => min (value * radix + digit) ceiling) (min value ceiling) =
        min (run.foldl (fun value digit => value * radix + digit) value) ceiling := by
    induction run generalizing value with
    | nil => rfl
    | cons digit run ih =>
      have hs : min (min value ceiling * radix + digit) ceiling =
          min (value * radix + digit) ceiling := by
        obtain hv | hv := Nat.le_total value ceiling
        · rw [Nat.min_eq_left hv]
        · have hc : ceiling ≤ ceiling * radix := Nat.le_mul_of_pos_right _ hr
          have hm : ceiling * radix ≤ value * radix := Nat.mul_le_mul_right _ hv
          rw [Nat.min_eq_right hv, Nat.min_eq_right (by omega), Nat.min_eq_right (by omega)]
      simp only [List.foldl_cons, hs, ih]
  exact h 0

-- ---------------------------------------------------------------------
-- Numbers

theorem lt_of_isSpace {byte : UInt8} (h : isSpace byte = true) : byte < 0x30 := by
  simp only [isSpace, Bool.or_eq_true, decide_eq_true_eq] at h
  rcases h with (((rfl | rfl) | rfl) | rfl) | rfl <;> decide

theorem number?_of_spells {first : UInt8} {others rest : Bytes} {c : Char} {text : List Char}
    {n : Nat} (hf : 0x30 ≤ first) (hr : 0 < radix)
    (hx : splitRadix (first :: others) = (radix, (c :: text).map Char.toUInt8 ++ rest))
    (hs : Spells radix (c :: text) n) (hd : digits radix rest = []) (hn : n < ceiling) :
    number? (first :: others) = some (n : Int) := by
  have hne {byte : UInt8} (hb : byte < 0x30) : first ≠ byte := by
    rintro rfl
    exact absurd hf (UInt8.not_le.mpr hb)
  have hw : (first :: others).dropWhile isSpace = first :: others :=
    List.dropWhile_cons_of_neg fun hb => hne (lt_of_isSpace hb) rfl
  have hg : splitSign (first :: others) = (false, first :: others) := by
    unfold splitSign
    split
    · rename_i h
      exact absurd (List.cons.inj h).1 (hne (by decide))
    · rename_i h
      exact absurd (List.cons.inj h).1 (hne (by decide))
    · rfl
  obtain ⟨run, hm, rfl⟩ := hs
  obtain ⟨digit, more, -, -, rfl⟩ := mapM_cons_eq_some hm
  simp only [number?, hw, hg, hx, digits_map_append hm hd, magnitude_eq hr, Bool.false_eq_true,
    if_false, Option.some.injEq]
  omega

theorem splitRadix_ten {first : UInt8} {rest : Bytes} (h : first ≠ 0x30) :
    splitRadix (first :: rest) = (10, first :: rest) := by
  unfold splitRadix
  split
  · rename_i hc
    exact absurd (List.cons.inj hc).1 h
  · rename_i hc
    exact absurd (List.cons.inj hc).1 h
  · rfl

theorem splitRadix_sixteen {c : Char} {digit : Nat} {rest : Bytes}
    (h : digitValue 16 c = some digit) :
    splitRadix (0x30 :: 0x78 :: c.toUInt8 :: rest) = (16, c.toUInt8 :: rest) := by
  have hd : (digit? 16 c.toUInt8).isSome = true := by
    rw [digit?_toUInt8 (toNat_of_digitValue h).2, h]
    rfl
  simp [splitRadix, hd]

-- ---------------------------------------------------------------------
-- What is shown

/-- A number as an attribute shows it, as far as it is looked at. -/
inductive Shows (value : UInt32) : List Char → Prop
  | decimal : Shows value (Nat.toDigits 10 value.toNat)
  | hex {zeros : Nat} {run : List Char}
      (hr : run.map Char.toLower = List.replicate zeros '0' ++ Nat.toDigits 16 value.toNat)
      (hl : run.length + 2 ≤ maxLength) : Shows value ('0' :: 'x' :: run)

theorem spells_hex {value zeros : Nat} {run : List Char}
    (h : run.map Char.toLower = List.replicate zeros '0' ++ Nat.toDigits 16 value) :
    Spells 16 run value := by
  rw [← spells_toLower_iff, h]
  exact (spells_toDigits (by decide) (by decide) value).zeros (by decide) zeros

/-- The content of an attribute's file: a number, and maybe the end of the line. -/
def Holds (content : Bytes) (value : UInt32) : Prop :=
  ∃ text ending, Shows value text ∧ (ending = [] ∨ ending = ['\n']) ∧
    content = Utf8.encode (String.ofList (text ++ ending))

namespace Shows

variable {value : UInt32} {text : List Char}

theorem ne_nil (h : Shows value text) : text ≠ [] := by
  cases h with
  | decimal => exact Nat.toDigits_ne_nil
  | hex => simp

theorem length_le (h : Shows value text) : text.length ≤ maxLength := by
  cases h with
  | decimal =>
    have hd := Nat.toDigits_length 10 value.toNat 10 (by decide)
      (Nat.lt_trans value.toNat_lt (by decide))
    exact Nat.le_trans hd (by decide)
  | hex _ hl => exact hl

theorem ascii (h : Shows value text) : ∀ c ∈ text, c.toNat < 128 := by
  intro c hc
  cases h with
  | decimal =>
    obtain ⟨digit, hd⟩ := (spells_toDigits (by decide) (by decide) _).digitValue_of_mem hc
    exact (toNat_of_digitValue hd).2
  | hex hr =>
    obtain _ | ⟨_, _ | ⟨_, hc⟩⟩ := hc
    · decide
    · decide
    · obtain ⟨digit, hd⟩ := (spells_hex hr).digitValue_of_mem hc
      exact (toNat_of_digitValue hd).2

theorem number?_map_append (h : Shows value text) {rest : Bytes}
    (hr : rest = [] ∨ rest = [0x0a]) :
    number? (text.map Char.toUInt8 ++ rest) = some (value.toNat : Int) := by
  have hd (radix : Nat) : digits radix rest = [] := by
    obtain rfl | rfl := hr <;> rfl
  have hb : value.toNat < ceiling := Nat.lt_trans value.toNat_lt (by decide)
  cases h with
  | decimal =>
    have hs : Spells 10 (Nat.toDigits 10 value.toNat) value.toNat :=
      spells_toDigits (by decide) (by decide) _
    obtain hz | hp := Nat.eq_zero_or_pos value.toNat
    · rw [hz]
      obtain rfl | rfl := hr <;> rfl
    · have hh : (Nat.toDigits 10 value.toNat).head? ≠ some '0' :=
        head?_toDigits_ne (by decide) (by decide) hp
      obtain ⟨c, text, ht⟩ := List.exists_cons_of_ne_nil
        (Nat.toDigits_ne_nil : Nat.toDigits 10 value.toNat ≠ [])
      rw [ht] at hs hh ⊢
      obtain ⟨digit, hc⟩ := hs.digitValue_of_mem (.head _)
      have hz : c.toUInt8 ≠ 0x30 := by
        intro he
        have hn : c.toNat = '0'.toNat := by
          rw [← toNat_toUInt8 (toNat_of_digitValue hc).2, he]
          rfl
        exact hh (congrArg some (Char.toNat_inj.mp hn))
      exact number?_of_spells (le_toUInt8 hc) (by decide) (splitRadix_ten hz) hs (hd 10) hb
  | @hex zeros run hx hl =>
    have hs := spells_hex hx
    have hn : run ≠ [] := by
      rintro rfl
      simp at hx
    obtain ⟨c, text, rfl⟩ := List.exists_cons_of_ne_nil hn
    obtain ⟨digit, hc⟩ := hs.digitValue_of_mem (.head _)
    exact number?_of_spells (by decide) (by decide) (splitRadix_sixteen hc) hs (hd 16) hb

end Shows

theorem Holds.take {content : Bytes} {value : UInt32} (h : Holds content value) :
    ∃ text rest, Shows value text ∧ (rest = [] ∨ rest = [0x0a]) ∧
      content.take maxLength = text.map Char.toUInt8 ++ rest := by
  obtain ⟨text, ending, hs, he, rfl⟩ := h
  have ha : ∀ c ∈ text ++ ending, c.toNat < 128 := by
    intro c hc
    obtain hc | hc := List.mem_append.mp hc
    · exact hs.ascii c hc
    · obtain rfl | rfl := he
      · cases hc
      · obtain rfl := List.mem_singleton.mp hc
        decide
  refine ⟨text, (ending.take (maxLength - text.length)).map Char.toUInt8, hs, ?_, ?_⟩
  · obtain rfl | rfl := he
    · exact .inl (by simp)
    · cases maxLength - text.length with
      | zero => exact .inl rfl
      | succ room =>
        rw [List.take_of_length_le (Nat.le_add_left 1 room)]
        exact .inr rfl
  · rw [Utf8.encode_ofList ha, ← List.map_take, List.take_append,
      List.take_of_length_le hs.length_le, List.map_append]

theorem inRange_natCast_iff (n : Nat) : inRange n = true ↔ n < wordBound 31 := by
  simp only [inRange, Bool.and_eq_true, decide_eq_true_eq]
  omega

theorem parse_of_holds {path : Path} {content : Bytes} {value : UInt32} (h : Holds content value) :
    (parse path content).value =
      if value.toNat < wordBound 31 then .ok (Int32.ofInt value.toNat)
      else .error (.badAttribute path (.outOfRange value.toNat)) := by
  obtain ⟨text, rest, hs, hr, ht⟩ := h.take
  have hn : text.map Char.toUInt8 ++ rest ≠ [] := by simp [hs.ne_nil]
  simp only [parse, ht, if_neg hn, hs.number?_map_append hr]
  by_cases hv : value.toNat < wordBound 31
  · rw [if_pos hv, if_pos ((inRange_natCast_iff _).mpr hv), Logged.value_pure]
  · rw [if_neg hv, if_neg (mt (inRange_natCast_iff _).mp hv), Logged.value_bind, Logged.value_pure]

theorem read_of_readFile {files : FileSystem} {path : Path} {content : Bytes}
    (h : files.readFile path = .ok content) : read files path = parse path content := by
  unfold FileSystem.readFile at h
  cases ho : files.openRead path with
  | error e =>
    rw [ho] at h
    cases h
  | ok file =>
    rw [ho] at h
    have hr : file.read = .ok content := h
    simp only [read, ho, hr]

end Attribute

end FabricMemory
