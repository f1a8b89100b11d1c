import Mathlib
import FabricMemory.Eid.Text
import FabricMemory.Proofs.Literal

/-!
# Reading and showing identifiers

`Written` is the grammar of a trimmed text: one literal, or two of them around the first colon.
Main statements: `parse_grammar` (a text is read exactly if it is written so, and as the number that
it is written for) and `text_round_trip` (each way to show an identifier reads back as it).
-/

namespace FabricMemory.Text

variable {text front core : List Char} {c : Char}

-- ---------------------------------------------------------------------
-- Blanks at the ends

/-- The core stands between blanks, and has none at its own ends. -/
structure Trims (text core : List Char) : Prop where
  around : ∃ front back, text = front ++ core ++ back ∧ ∀ c ∈ front ++ back, isBlank c = true
  starts : ∀ c ∈ core.head?, isBlank c = false
  ends : ∀ c ∈ core.getLast?, isBlank c = false

theorem trimStart_eq_self (h : ∀ c ∈ text.head?, isBlank c = false) : trimStart text = text := by
  cases text with
  | nil => rfl
  | cons c text => exact List.dropWhile_cons_of_neg (by simp [h c rfl])

theorem trimStart_append (h : ∀ c ∈ front, isBlank c = true) :
    trimStart (front ++ text) = trimStart text :=
  List.dropWhile_append_of_pos h

theorem not_isBlank_head?_trimStart (hc : c ∈ (trimStart text).head?) : isBlank c = false := by
  have hn := List.head?_dropWhile_not isBlank text
  rw [trimStart] at hc
  rw [hc] at hn
  simpa using hn

theorem trimEnd_eq : trimEnd text = (trimStart text.reverse).reverse := rfl

theorem Trims.trim_eq (h : Trims text core) : trim text = core := by
  obtain ⟨front, back, rfl, hb⟩ := h.around
  have hf : ∀ c ∈ front, isBlank c = true := fun c hc => hb c (List.mem_append_left back hc)
  have hk : ∀ c ∈ back.reverse, isBlank c = true := fun c hc =>
    hb c (List.mem_append_right front (List.mem_reverse.mp hc))
  cases core with
  | nil =>
    -- nothing but blanks, which the first trimming takes away
    have hn : trimStart (front ++ [] ++ back) = [] := by
      rw [List.append_nil]
      exact List.dropWhile_eq_nil_iff.mpr hb
    rw [trim, hn]
    rfl
  | cons c core =>
    have he : trimStart (c :: core ++ back) = c :: core ++ back := trimStart_eq_self h.starts
    have hr : trimStart (c :: core).reverse = (c :: core).reverse := by
      refine trimStart_eq_self ?_
      rw [List.head?_reverse]
      exact h.ends
    rw [trim, List.append_assoc, trimStart_append hf, he, trimEnd_eq, List.reverse_append,
      trimStart_append hk, hr, List.reverse_reverse]

theorem trims_trim (text : List Char) : Trims text (trim text) := by
  obtain ⟨back, hb⟩ : ∃ back : List Char, trimStart text = trim text ++ back.reverse ∧
      ∀ c ∈ back, isBlank c = true := by
    refine ⟨(trimStart text).reverse.takeWhile isBlank, ?_, fun c => List.mem_takeWhile_imp⟩
    rw [trim, trimEnd, ← List.reverse_append, List.takeWhile_append_dropWhile,
      List.reverse_reverse]
  refine ⟨⟨text.takeWhile isBlank, back.reverse, ?_, ?_⟩, ?_, ?_⟩
  · rw [List.append_assoc, ← hb.1]
    exact List.takeWhile_append_dropWhile.symm
  · intro c hc
    rcases List.mem_append.mp hc with hc | hc
    · exact List.mem_takeWhile_imp hc
    · exact hb.2 c (List.mem_reverse.mp hc)
  · intro c hc
    have hm : c ∈ (trimStart text).head? := by
      rw [hb.1, List.head?_append, Option.mem_def.mp hc]
      rfl
    exact not_isBlank_head?_trimStart hm
  · intro c hc
    rw [trim, trimEnd_eq, List.getLast?_reverse] at hc
    exact not_isBlank_head?_trimStart hc

theorem Trims.self (h : Trims text core) : Trims core core :=
  ⟨⟨[], [], by simp, by simp⟩, h.starts, h.ends⟩

theorem Trims.mem (h : Trims text core) (hc : c ∈ text) (hb : isBlank c = false) : c ∈ core := by
  obtain ⟨front, back, rfl, ha⟩ := h.around
  have hn (hm : c ∈ front ++ back) : c ∈ core := by
    rw [ha c hm] at hb
    cases hb
  rcases List.mem_append.mp hc with hc | hc
  · rcases List.mem_append.mp hc with hc | hc
    · exact hn (List.mem_append_left back hc)
    · exact hc
  · exact hn (List.mem_append_right front hc)

theorem trims_self (h : ∀ c ∈ core, isBlank c = false) : Trims core core :=
  ⟨⟨[], [], by simp, by simp⟩, fun c hc => h c (List.mem_of_mem_head? hc),
    fun c hc => h c (List.mem_of_getLast? hc)⟩

theorem Trims.surround {back : List Char} (h : Trims core core)
    (hb : ∀ c ∈ front ++ back, isBlank c = true) : Trims (front ++ core ++ back) core :=
  ⟨⟨front, back, rfl, hb⟩, h.starts, h.ends⟩

end FabricMemory.Text

namespace FabricMemory.LittleEndian

-- ---------------------------------------------------------------------
-- Single bytes

theorem encode_add (low high value : Nat) :
    encode (low + high) value = encode low value ++ encode high (value / 256 ^ low) := by
  induction low generalizing value with
  | zero => simp [encode]
  | succ low ih =>
    rw [Nat.add_right_comm, encode, ih, encode, List.cons_append, Nat.div_div_eq_div_mul,
      Nat.pow_succ']

theorem getElem?_encode {width index : Nat} (h : index < width) (value : Nat) :
    (encode width value)[index]? = some (UInt8.ofNat (value / 256 ^ index)) := by
  induction width generalizing index value with
  | zero => exact absurd h (Nat.not_lt_zero index)
  | succ width ih =>
    cases index with
    | zero => simp [encode]
    | succ index =>
      rw [encode, List.getElem?_cons_succ, ih (Nat.lt_of_succ_lt_succ h), Nat.div_div_eq_div_mul,
        Nat.pow_succ']

end FabricMemory.LittleEndian

namespace FabricMemory.Eid

open Numeral (Literal)
open Text (Trims)

variable {text core high low whole : List Char} {n : Nat} {eid : Eid}

-- ---------------------------------------------------------------------
-- The grammar

/-- A trimmed text for a number: a literal, or the literals of two halves around the first
colon. -/
inductive Written : List Char → Nat → Prop
  | whole {text : List Char} {n : Nat} (hc : ':' ∉ text) (hl : Literal text n)
      (hn : n < 2 ^ 128) : Written text n
  | halves {high low first second : List Char} {h l : Nat} (hc : ':' ∉ high)
      (hf : Trims high first) (hs : Trims low second) (hh : Literal first h) (hl : Literal second l)
      (hhn : h < 2 ^ 64) (hln : l < 2 ^ 64) : Written (high ++ ':' :: low) (h * 2 ^ 64 + l)

theorem wordBound_eq (bits : Nat) : wordBound bits = 2 ^ bits := by
  rw [wordBound, Nat.shiftLeft_eq, Nat.one_mul]

theorem toNat_ofNat_of_lt (h : n < 2 ^ 128) : (ofNat n).toNat = n := by
  rw [toNat_ofNat, wordBound_eq]
  exact Nat.mod_eq_of_lt h

theorem toNat_ofHalves {h l : Nat} (hh : h < 2 ^ 64) (hl : l < 2 ^ 64) :
    (ofHalves h l).toNat = h * 2 ^ 64 + l := by
  rw [ofHalves, wordBound_eq]
  exact toNat_ofNat_of_lt (by omega)

theorem parsePart_eq_ok_iff :
    parsePart text whole = .ok n ↔ Literal (Text.trim text) n ∧ n < 2 ^ 128 := by
  rw [← wordBound_eq, ← Numeral.literal_eq_ok_iff (wordBound_pos 128), parsePart]
  cases Numeral.literal (wordBound 128) (Text.trim text) with
  | ok value => simp
  | error fault => simp

theorem parsePart_error {e : Error} (h : parsePart text whole = .error e) :
    ∃ fault, e = .invalidArgument (.badEid (String.ofList whole) fault) := by
  unfold parsePart at h
  split at h
  · cases h
  · rename_i fault _
    exact ⟨fault, (Except.error.inj h).symm⟩

theorem span_colon (h : ':' ∉ high) (rest : List Char) (hr : ∀ c ∈ rest.head?, c = ':') :
    (high ++ rest).span (· ≠ ':') = (high, rest) := by
  have hp : ∀ c ∈ high, decide (c ≠ ':') = true := by
    intro c hc
    refine decide_eq_true ?_
    rintro rfl
    exact h hc
  rw [List.span_eq_takeWhile_dropWhile, List.takeWhile_append_of_pos hp,
    List.dropWhile_append_of_pos hp]
  cases rest with
  | nil => simp
  | cons c rest => simp [hr c rfl]

theorem parseChars_whole (h : ':' ∉ text) :
    parseChars text = (parsePart text text).map ofNat := by
  have hs := span_colon h [] (by simp)
  rw [List.append_nil] at hs
  rw [parseChars, hs]

theorem parseChars_halves (h : ':' ∉ high) (hw : high ++ ':' :: low = whole) :
    parseChars whole = (do
      let first ← parsePart high whole
      let second ← parsePart low whole
      if wordBound 64 ≤ first ∨ wordBound 64 ≤ second then
        throw (.invalidArgument (.eidHalf (String.ofList whole)))
      return ofHalves first second) := by
  have hs := span_colon h (':' :: low) (by simp)
  rw [hw] at hs
  rw [parseChars, hs]

theorem parseChars_halves_eq_ok_iff (h : ':' ∉ high) (hw : high ++ ':' :: low = whole) :
    parseChars whole = .ok eid ↔
      ∃ first second, parsePart high whole = .ok first ∧ parsePart low whole = .ok second ∧
        first < 2 ^ 64 ∧ second < 2 ^ 64 ∧ ofHalves first second = eid := by
  rw [parseChars_halves h hw]
  cases hf : parsePart high whole with
  | error e => simp [bind, Except.bind]
  | ok first =>
    cases hs : parsePart low whole with
    | error e => simp [bind, Except.bind]
    | ok second =>
      simp only [Except.ok.injEq, bind, Except.bind, pure, Except.pure, wordBound_eq]
      split
      · rename_i hn
        simp only [throw, throwThe, MonadExceptOf.throw, reduceCtorEq, false_iff]
        rintro ⟨_, _, rfl, rfl, hfn, hsn, -⟩
        omega
      · rename_i hn
        constructor
        · intro he
          exact ⟨first, second, rfl, rfl, by omega, by omega, Except.ok.inj he⟩
        · rintro ⟨_, _, rfl, rfl, -, -, rfl⟩
          rfl

theorem parseChars_eq_ok_iff (ht : Trims text text) :
    parseChars text = .ok eid ↔ Written text eid.toNat := by
  constructor
  · intro h
    by_cases hc : ':' ∈ text
    · obtain ⟨high, low, rfl, hh⟩ := List.eq_append_cons_of_mem hc
      obtain ⟨first, second, hf, hs, hfn, hsn, rfl⟩ := (parseChars_halves_eq_ok_iff hh rfl).mp h
      rw [toNat_ofHalves hfn hsn]
      exact .halves hh (Text.trims_trim high) (Text.trims_trim low) (parsePart_eq_ok_iff.mp hf).1
        (parsePart_eq_ok_iff.mp hs).1 hfn hsn
    · rw [parseChars_whole hc] at h
      cases hp : parsePart text text with
      | error e =>
        rw [hp] at h
        cases h
      | ok n =>
        rw [hp] at h
        obtain rfl : ofNat n = eid := Except.ok.inj h
        obtain ⟨hl, hn⟩ := parsePart_eq_ok_iff.mp hp
        rw [ht.trim_eq] at hl
        rw [toNat_ofNat_of_lt hn]
        exact .whole hc hl hn
  · intro h
    rw [← ofNat_toNat eid]
    generalize eid.toNat = n at h
    cases h with
    | whole hc hl hn =>
      rw [parseChars_whole hc, parsePart_eq_ok_iff.mpr ⟨ht.trim_eq.symm ▸ hl, hn⟩]
      rfl
    | @halves high low first second h l hc hf hs hh hl hhn hln =>
      refine (parseChars_halves_eq_ok_iff hc rfl).mpr ⟨h, l, ?_, ?_, hhn, hln, ?_⟩
      · exact parsePart_eq_ok_iff.mpr ⟨hf.trim_eq.symm ▸ hh, by omega⟩
      · exact parsePart_eq_ok_iff.mpr ⟨hs.trim_eq.symm ▸ hl, by omega⟩
      · rw [ofHalves, wordBound_eq]

/-- The text is refused, and named in the error without the blanks around it. -/
def Refused (text : String) (core : List Char) : Prop :=
  (∃ fault, parse text = .error (.invalidArgument (.badEid (String.ofList core) fault))) ∨
    parse text = .error (.invalidArgument (.eidHalf (String.ofList core)))

theorem parse_eq {text : String} (h : Trims text.toList core) : parse text = parseChars core := by
  rw [parse, h.trim_eq]

theorem parse_eq_ok_iff {text : String} (h : Trims text.toList core) :
    parse text = .ok eid ↔ Written core eid.toNat := by
  rw [parse_eq h]
  exact parseChars_eq_ok_iff h.self

theorem refused_of_forall {text : String} (h : Trims text.toList core)
    (hn : ∀ eid, parse text ≠ .ok eid) : Refused text core := by
  rw [Refused, parse_eq h]
  simp only [parse_eq h] at hn
  by_cases hc : ':' ∈ core
  · obtain ⟨high, low, hw, hh⟩ := List.eq_append_cons_of_mem hc
    rw [parseChars_halves hh hw.symm] at hn ⊢
    cases hf : parsePart high core with
    | error e =>
      obtain ⟨fault, rfl⟩ := parsePart_error hf
      exact .inl ⟨fault, rfl⟩
    | ok first =>
      cases hs : parsePart low core with
      | error e =>
        obtain ⟨fault, rfl⟩ := parsePart_error hs
        exact .inl ⟨fault, rfl⟩
      | ok second =>
        simp only [hf, hs, bind, Except.bind] at hn ⊢
        split at hn
        · rename_i hw
          rw [if_pos hw]
          exact .inr rfl
        · exact absurd rfl (hn _)
  · rw [parseChars_whole hc] at hn ⊢
    cases hp : parsePart core core with
    | error e =>
      obtain ⟨fault, rfl⟩ := parsePart_error hp
      exact .inl ⟨fault, rfl⟩
    | ok n =>
      rw [hp] at hn
      exact absurd rfl (hn _)

-- ---------------------------------------------------------------------
-- What is no number

inductive Part (text core : List Char) : Prop
  | whole (hc : ':' ∉ text) (ht : Trims text core)
  | high {high low : List Char} (hs : text = high ++ ':' :: low) (hc : ':' ∉ high)
      (ht : Trims high core)
  | low {high low : List Char} (hs : text = high ++ ':' :: low) (hc : ':' ∉ high)
      (ht : Trims low core)

/-- Faults which each keep a trimmed text from being a number, whatever the rest of it is. -/
inductive Faulty (text : List Char) : Prop
  | colons (h : 1 < text.count ':')
  | minus (h : '-' ∈ text)
  | blank {core : List Char} {c : Char} (hp : Part text core) (hc : c ∈ core)
      (hb : Text.isBlank c = true)
  | empty (hp : Part text [])
  | wide {core : List Char} {n : Nat} (hc : ':' ∈ text) (hp : Part text core) (hl : Literal core n)
      (hn : 2 ^ 64 ≤ n)

theorem not_isBlank_of_literal (h : Literal text n) {c : Char} (hc : c ∈ text) :
    Text.isBlank c = false := by
  obtain ⟨-, -, hl, hh⟩ := h.plain hc
  have hp : 43 ≤ c.toNat := hl
  simp only [Text.isBlank, Text.blankRanges, List.any_cons, List.any_nil, Bool.or_false,
    Bool.or_eq_false_iff, Bool.and_eq_false_iff, decide_eq_false_iff_not, Nat.not_le]
  omega

theorem eq_of_colon {high' low' : List Char} (h : high ++ ':' :: low = high' ++ ':' :: low')
    (hc : ':' ∉ high) (hc' : ':' ∉ high') : high = high' ∧ low = low' := by
  have hs := span_colon hc (':' :: low) (by simp)
  rw [h, span_colon hc' (':' :: low') (by simp)] at hs
  obtain ⟨rfl, hl⟩ := Prod.mk.inj hs
  exact ⟨rfl, (List.cons.inj hl).2.symm⟩

theorem Written.literal_of_part (h : Written text n) (hp : Part text core) :
    ∃ m, Literal core m ∧ (':' ∈ text → m < 2 ^ 64) := by
  cases h with
  | whole hc hl hn =>
    cases hp with
    | whole _ ht =>
      have hs := Text.trims_self fun c => not_isBlank_of_literal hl
      obtain rfl := hs.trim_eq.symm.trans ht.trim_eq
      exact ⟨n, hl, fun h => absurd h hc⟩
    | high hs => simp [hs] at hc
    | low hs => simp [hs] at hc
  | halves hc hf hs hh hl hhn hln =>
    cases hp with
    | whole hc => simp at hc
    | high he hc' ht =>
      obtain ⟨rfl, rfl⟩ := eq_of_colon he hc hc'
      obtain rfl := hf.trim_eq.symm.trans ht.trim_eq
      exact ⟨_, hh, fun _ => hhn⟩
    | low he hc' ht =>
      obtain ⟨rfl, rfl⟩ := eq_of_colon he hc hc'
      obtain rfl := hs.trim_eq.symm.trans ht.trim_eq
      exact ⟨_, hl, fun _ => hln⟩

theorem exists_part {c : Char} (hm : c ∈ text) (hc : c ≠ ':') (hb : Text.isBlank c = false) :
    ∃ core, Part text core ∧ c ∈ core := by
  by_cases ht : ':' ∈ text
  · obtain ⟨high, low, rfl, hh⟩ := List.eq_append_cons_of_mem ht
    rcases List.mem_append.mp hm with hm | hm
    · have ht := Text.trims_trim high
      exact ⟨_, .high rfl hh ht, ht.mem hm hb⟩
    · have ht := Text.trims_trim low
      exact ⟨_, .low rfl hh ht, ht.mem ((List.mem_cons.mp hm).resolve_left hc) hb⟩
  · have hs := Text.trims_trim text
    exact ⟨_, .whole ht hs, hs.mem hm hb⟩

theorem Faulty.not_written (h : Faulty text) (n : Nat) : ¬ Written text n := by
  intro hw
  cases h with
  | colons h =>
    have ht : ':' ∈ text := List.count_pos_iff.mp (by omega)
    obtain ⟨high, low, rfl, hh⟩ := List.eq_append_cons_of_mem ht
    have hl : ':' ∈ low := by
      rw [List.count_append, List.count_cons_self, List.count_eq_zero_of_not_mem hh] at h
      exact List.count_pos_iff.mp (by omega)
    have ht := Text.trims_trim low
    obtain ⟨m, hm, -⟩ := hw.literal_of_part (.low rfl hh ht)
    exact (hm.plain (ht.mem hl (by decide))).1 rfl
  | minus h =>
    obtain ⟨core, hp, hc⟩ := exists_part h (by decide) (by decide)
    obtain ⟨m, hm, -⟩ := hw.literal_of_part hp
    exact (hm.plain hc).2.1 rfl
  | blank hp hc hb =>
    obtain ⟨m, hm, -⟩ := hw.literal_of_part hp
    rw [not_isBlank_of_literal hm hc] at hb
    cases hb
  | empty hp =>
    obtain ⟨m, hm, -⟩ := hw.literal_of_part hp
    exact hm.ne_nil rfl
  | wide hc hp hl hn =>
    obtain ⟨m, hm, hlt⟩ := hw.literal_of_part hp
    have he := hl.eq hm
    have := hlt hc
    omega

theorem Written.lt (h : Written text n) : n < 2 ^ 128 := by
  cases h with
  | whole _ _ hn => exact hn
  | halves _ _ _ _ _ hhn hln => omega

/-- A text is read exactly if it is written for a number, and then as that number, which is kept
least byte first; every other text is refused. -/
theorem parse_grammar (text : String) :
    (∀ eid : Eid, parse text = .ok eid ↔
      ∃ core, Trims text.toList core ∧ Written core eid.toNat) ∧
    (∀ core, Trims text.toList core →
      (∀ n, Written core n → ∃ eid, parse text = .ok eid ∧ eid.toNat = n) ∧
      ((∀ n, ¬ Written core n) → Refused text core) ∧
      (Faulty core → Refused text core)) ∧
    ∀ eid, parse text = .ok eid → eid.bytes.length = 16 ∧
      ∀ index < 16, eid.bytes[index]? = some (UInt8.ofNat (eid.toNat / 256 ^ index)) := by
  refine ⟨fun eid => ⟨fun h => ?_, ?_⟩, fun core ht => ⟨fun n hw => ?_, ?_, fun hf => ?_⟩, ?_⟩
  · have ht := Text.trims_trim text.toList
    exact ⟨_, ht, (parse_eq_ok_iff ht).mp h⟩
  · rintro ⟨core, ht, hw⟩
    exact (parse_eq_ok_iff ht).mpr hw
  · have hn : (ofNat n).toNat = n := toNat_ofNat_of_lt hw.lt
    exact ⟨ofNat n, (parse_eq_ok_iff ht).mpr (hn.symm ▸ hw), hn⟩
  · intro hn
    exact refused_of_forall ht fun eid h => hn _ ((parse_eq_ok_iff ht).mp h)
  · exact refused_of_forall ht fun eid h => hf.not_written _ ((parse_eq_ok_iff ht).mp h)
  · intro eid _
    exact ⟨eid.length_bytes, fun index hi => LittleEndian.getElem?_encode hi eid.toNat⟩

-- ---------------------------------------------------------------------
-- Showing

/-- The ways to show an identifier: its two halves or the whole number in hexadecimal, in either
letter case, and the whole number in decimal. -/
inductive Shows (eid : Eid) : List Char → Prop
  | halves {text : List Char} (h : text.map Char.toLower = eid.text.toList.map Char.toLower) :
      Shows eid text
  | hex {text : List Char}
      (h : text.map Char.toLower = (Numeral.hex eid.toNat).toList.map Char.toLower) :
      Shows eid text
  | decimal : Shows eid (Numeral.decimal eid.toNat).toList

theorem colon_notMem (h : Literal text n) : ':' ∉ text := fun hc => (h.plain hc).1 rfl

theorem trims_literal (h : Literal text n) : Trims text text :=
  Text.trims_self fun _ => not_isBlank_of_literal h

theorem toNat_high_low (eid : Eid) :
    eid.high < 2 ^ 64 ∧ eid.low < 2 ^ 64 ∧ eid.high * 2 ^ 64 + eid.low = eid.toNat := by
  have h : eid.toNat < 2 ^ 128 := eid.value.isLt
  simp only [high, low, wordBound_eq]
  omega

theorem Shows.written (h : Shows eid text) : Written text eid.toNat ∧ Trims text text := by
  obtain ⟨hh, hl, he⟩ := toNat_high_low eid
  have ht : eid.toNat < 2 ^ 128 := eid.value.isLt
  cases h with
  | halves h =>
    rw [Eid.text, String.toList_append, String.toList_append, List.map_append, List.map_append] at h
    obtain ⟨front, second, rfl, ha, hs⟩ := List.map_eq_append_iff.mp h
    obtain ⟨first, mark, rfl, hf, hm⟩ := List.map_eq_append_iff.mp ha
    obtain ⟨c, rfl, hc⟩ := List.map_eq_singleton_iff.mp hm
    obtain rfl : c = ':' := Numeral.eq_of_toLower (by decide) hc
    have hf := Numeral.literal_hex hf
    have hs := Numeral.literal_hex hs
    rw [List.append_assoc, List.singleton_append, ← he]
    refine ⟨.halves (colon_notMem hf) (trims_literal hf) (trims_literal hs) hf hs hh hl, ?_⟩
    refine Text.trims_self fun c hm => ?_
    rcases List.mem_append.mp hm with hm | hm
    · exact not_isBlank_of_literal hf hm
    · rcases List.mem_cons.mp hm with rfl | hm
      · decide
      · exact not_isBlank_of_literal hs hm
  | hex h =>
    have hl := Numeral.literal_hex h
    exact ⟨.whole (colon_notMem hl) hl ht, trims_literal hl⟩
  | decimal =>
    have hl := Numeral.literal_decimal eid.toNat
    exact ⟨.whole (colon_notMem hl) hl ht, trims_literal hl⟩

theorem parse_shows (h : Shows eid core) (front back : List Char)
    (hb : ∀ c ∈ front ++ back, Text.isBlank c = true) :
    parse (String.ofList (front ++ core ++ back)) = .ok eid := by
  obtain ⟨hw, ht⟩ := h.written
  refine (parse_eq_ok_iff ?_).mpr hw
  rw [String.toList_ofList]
  exact ht.surround hb

theorem parse_text (eid : Eid) : parse eid.text = .ok eid := by
  have h : Shows eid eid.text.toList := .halves rfl
  simpa using parse_shows h [] [] (by simp)

theorem bytes_eq (eid : Eid) :
    eid.bytes = LittleEndian.encode 8 eid.low ++ LittleEndian.encode 8 eid.high := by
  have hl := LittleEndian.encode_mod 8 eid.toNat
  rw [bytes, size, LittleEndian.encode_add 8 8, low, high, ← hl]
  rfl

/-- Each text that an identifier is shown as reads back as the identifier, with blanks around it or
without, and the halves that are shown are those of the stored bytes. -/
theorem text_round_trip (eid : Eid) :
    (∀ front core back, (∀ c ∈ front ++ back, Text.isBlank c = true) → Shows eid core →
      parse (String.ofList (front ++ core ++ back)) = .ok eid) ∧
    (∀ other : Eid, other.text = eid.text → other = eid) ∧
    ∃ high low, eid.text = Numeral.hex high ++ ":" ++ Numeral.hex low ∧
      eid.bytes = LittleEndian.encode 8 low ++ LittleEndian.encode 8 high := by
  refine ⟨fun front core back hb hs => parse_shows hs front back hb, fun other h => ?_, ?_⟩
  · have ho := parse_text other
    rw [h, parse_text eid] at ho
    exact (Except.ok.inj ho).symm
  · exact ⟨eid.high, eid.low, rfl, bytes_eq eid⟩

theorem text_round_trip_spaced :
    parse (String.ofList ([' '] ++ ['0', 'X', 'a', ':', '0', 'x', 'F', 'f'] ++ ['\t'])) =
      .ok (ofHalves 10 255) := by
  have ht : (ofHalves 10 255).text.toList = ['0', 'x', 'a', ':', '0', 'x', 'f', 'f'] := by
    simp only [Eid.text, String.toList_append, Numeral.toList_hex]
    rfl
  have hb : ∀ c ∈ [' '] ++ ['\t'], Text.isBlank c = true := by
    simp [Text.isBlank, Text.blankRanges]
  exact (text_round_trip (ofHalves 10 255)).1 [' '] _ ['\t'] hb (.halves (by rw [ht]; decide))

end FabricMemory.Eid
