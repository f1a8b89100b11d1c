import Mathlib
import FabricMemory.CommandLine.Grammar
import FabricMemory.Proofs.Eid

/-!
# Numbers among the arguments

Options and operands hold numbers of 32, 64 and 128 bits, each read by a reader of its own. Main
statement (`readers_agree`): they read the same literals as the same numbers, as far as those fit,
and what the tool shows is read back.
-/

namespace FabricMemory.CommandLine

open Numeral (Literal)

def Value.number? : Value → Option Nat
  | .long value => some value.toNat
  | .word value => some value.toNat
  | .eid value => some value.toNat
  | .path _ | .integer _ | .ownership _ => none

def Kind.Reads (kind : Kind) (text : String) (n : Nat) : Prop :=
  (kind.parse text).bind Value.number? = some n

variable {text : String} {n : Nat}

theorem reads_iff_of_literal {kind : Kind} {bound : Nat} {value : Nat → Value}
    (hk : kind.parse text = (Numeral.literal bound text.toList).toOption.map value)
    (hv : ∀ m < bound, (value m).number? = some m) (hb : 0 < bound) :
    kind.Reads text n ↔ Literal text.toList n ∧ n < bound := by
  rw [Kind.Reads, hk, ← Numeral.literal_eq_ok_iff hb]
  cases hl : Numeral.literal bound text.toList with
  | error fault => simp [Except.toOption]
  | ok m =>
    have hm : m < bound := ((Numeral.literal_eq_ok_iff hb).mp hl).2
    simp [Except.toOption, hv m hm]

theorem reads_long_iff : Kind.long.Reads text n ↔ Literal text.toList n ∧ n < 2 ^ 64 := by
  rw [← Eid.wordBound_eq]
  exact reads_iff_of_literal rfl
    (fun m hm => congrArg some (UInt64.toNat_ofNat_of_lt' hm)) (wordBound_pos 64)

theorem reads_word_iff : Kind.word.Reads text n ↔ Literal text.toList n ∧ n < 2 ^ 32 := by
  rw [← Eid.wordBound_eq]
  exact reads_iff_of_literal rfl
    (fun m hm => congrArg some (UInt32.toNat_ofNat_of_lt' hm)) (wordBound_pos 32)

/-- A literal without anything around it is an identifier as a whole. -/
theorem parse_of_literal (h : Literal text.toList n) (hn : n < 2 ^ 128) :
    Eid.parse text = .ok (Eid.ofNat n) := by
  have hw : Eid.Written text.toList (Eid.ofNat n).toNat := by
    rw [Eid.toNat_ofNat_of_lt hn]
    exact .whole (Eid.colon_notMem h) h hn
  exact (Eid.parse_eq_ok_iff (Eid.trims_literal h)).mpr hw

/-- A text is read as a long number exactly if it is the literal of one, and as a word exactly if
the long number is small enough; as an identifier it is then the same number. Both texts that a long
number is shown as are read back. -/
theorem readers_agree (text : String) (n : Nat) :
    (Kind.long.Reads text n ↔ Literal text.toList n ∧ n < 2 ^ 64) ∧
    (Kind.word.Reads text n ↔ Kind.long.Reads text n ∧ n < 2 ^ 32) ∧
    (Kind.long.Reads text n → Eid.parse text = .ok (Eid.ofNat n)) ∧
    ∀ value : UInt64, Kind.long.Reads (Numeral.decimal value.toNat) value.toNat ∧
      Kind.long.Reads (Numeral.hex value.toNat) value.toNat := by
  refine ⟨reads_long_iff, ?_, fun h => ?_, fun value => ⟨?_, ?_⟩⟩
  · rw [reads_word_iff, reads_long_iff]
    constructor
    · rintro ⟨hl, hn⟩
      exact ⟨⟨hl, by omega⟩, hn⟩
    · rintro ⟨⟨hl, -⟩, hn⟩
      exact ⟨hl, hn⟩
  · obtain ⟨hl, hn⟩ := reads_long_iff.mp h
    exact parse_of_literal hl (by omega)
  · exact reads_long_iff.mpr ⟨Numeral.literal_decimal _, value.toNat_lt⟩
  · exact reads_long_iff.mpr ⟨Numeral.literal_hex rfl, value.toNat_lt⟩

/-- A plus may stand between the prefix and the digits. -/
theorem readers_agree_plus :
    Kind.long.Reads "0X+0fF" 255 ∧ Kind.word.Reads "0X+0fF" 255 ∧
      Eid.parse "0X+0fF" = .ok (Eid.ofNat 255) := by
  obtain ⟨-, hw, he, -⟩ := readers_agree "0X+0fF" 255
  have hl : Kind.long.Reads "0X+0fF" 255 := by
    unfold Kind.Reads
    decide +kernel
  exact ⟨hl, hw.mpr ⟨hl, by decide⟩, he hl⟩

end FabricMemory.CommandLine
