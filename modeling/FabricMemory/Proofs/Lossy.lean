import Mathlib
import FabricMemory.Text.Utf8

/-!
# What lossy decoding keeps

Bytes that are shown as text and encoded again are the same up to the first byte past ASCII
(`encode_lossy_split`). What comes from there on may differ, but it begins past ASCII as well.
-/

namespace FabricMemory.Utf8

def Foreign (bytes : Bytes) : Prop := ∀ byte ∈ bytes.head?, 0x80 ≤ byte

-- ---------------------------------------------------------------------
-- Encoding

theorem encode_ofList_cons (c : Char) (text : List Char) :
    encode (String.ofList (c :: text)) =
      String.utf8EncodeChar c ++ encode (String.ofList text) := by
  simp [encode, String.toUTF8, List.utf8Encode]

theorem utf8EncodeChar_ascii {byte : UInt8} (h : byte < 0x80) :
    String.utf8EncodeChar (Char.ofNat byte.toNat) = [byte] := by
  have hb : byte.toNat < 128 := UInt8.lt_iff_toNat_lt.mp h
  have hv : (Char.ofNat byte.toNat).toNat = byte.toNat := by
    rw [Char.toNat_ofNat, if_pos (.inl (by omega))]
  have hc : (Char.ofNat byte.toNat).val.toNat = byte.toNat := hv
  simp only [String.utf8EncodeChar, hc]
  rw [if_pos (by omega), UInt8.ofNat_toNat]

theorem foreign_utf8EncodeChar_append {c : Char} (h : 128 ≤ c.toNat) (rest : Bytes) :
    Foreign (String.utf8EncodeChar c ++ rest) := by
  have hc : 128 ≤ c.val.toNat := h
  unfold String.utf8EncodeChar
  simp only
  rw [if_neg (by omega)]
  split
  · simp [Foreign, UInt8.le_iff_toNat_le]; omega
  · split
    · simp [Foreign, UInt8.le_iff_toNat_le]; omega
    · simp [Foreign, UInt8.le_iff_toNat_le]; omega

-- ---------------------------------------------------------------------
-- Characters past ASCII

/-- Where the code of a completed character lies: the first further byte is in its range, and the
others add six bits each. -/
theorem bounds_of_complete {count code result : Nat} {low high : UInt8} {bytes rest : Bytes}
    (h : complete (count + 1) low high code bytes = (some result, rest)) :
    (code * 64 + (low.toNat - 128)) * 64 ^ count ≤ result ∧
      result < (code * 64 + (high.toNat - 128) + 1) * 64 ^ count := by
  induction count generalizing low high code bytes with
  | zero =>
    cases bytes with
    | nil => cases h
    | cons byte bytes =>
      simp only [complete] at h
      split at h
      · rename_i hb
        simp only [UInt8.le_iff_toNat_le] at hb
        obtain ⟨rfl, -⟩ : _ = result ∧ _ := by simpa using h
        have he : (0x80 : UInt8).toNat = 128 := rfl
        constructor <;> omega
      · cases h
  | succ count ih =>
    cases bytes with
    | nil => cases h
    | cons byte bytes =>
      rw [complete] at h
      split at h
      · rename_i hb
        simp only [UInt8.le_iff_toNat_le] at hb
        obtain ⟨hl, hh⟩ := ih h
        have he : (0x80 : UInt8).toNat = 128 := rfl
        have hf : (0xbf : UInt8).toNat = 191 := rfl
        rw [he] at hl
        rw [hf] at hh
        rw [Nat.pow_succ, ← Nat.mul_assoc, ← Nat.mul_assoc]
        constructor
        · refine Nat.le_trans ?_ hl
          rw [Nat.mul_right_comm]
          exact Nat.mul_le_mul_right _ (by omega)
        · refine Nat.lt_of_lt_of_le hh ?_
          rw [Nat.mul_right_comm]
          exact Nat.mul_le_mul_right _ (by omega)
      · cases h

theorem lead?_cases {byte : UInt8} {lead : Lead} (hb : 128 ≤ byte.toNat)
    (h : lead? byte = some lead) :
    (lead = ⟨byte.toNat - 0xc0, 1, 0x80, 0xbf⟩ ∧ 0xc2 ≤ byte.toNat ∧ byte.toNat < 0xe0) ∨
    (lead = ⟨byte.toNat - 0xe0, 2, if byte = 0xe0 then 0xa0 else 0x80,
        if byte = 0xed then 0x9f else 0xbf⟩ ∧ 0xe0 ≤ byte.toNat ∧ byte.toNat < 0xf0) ∨
    (lead = ⟨byte.toNat - 0xf0, 3, if byte = 0xf0 then 0x90 else 0x80,
        if byte = 0xf4 then 0x8f else 0xbf⟩ ∧ 0xf0 ≤ byte.toNat ∧ byte.toNat < 0xf5) := by
  unfold lead? at h
  simp only [UInt8.lt_iff_toNat_lt, UInt8.reduceToNat] at h
  rw [if_neg (by omega)] at h
  split at h
  · cases h
  · split at h
    · exact .inl ⟨(Option.some.inj h).symm, by omega⟩
    · split at h
      · exact .inr (.inl ⟨(Option.some.inj h).symm, by omega⟩)
      · split at h
        · exact .inr (.inr ⟨(Option.some.inj h).symm, by omega⟩)
        · cases h

/-- A character that is led by a byte past ASCII is past ASCII. The ranges of its first further byte
leave out the surrogates, and what is past the last code point. -/
theorem valid_of_complete {byte : UInt8} {lead : Lead} {code : Nat} {bytes rest : Bytes}
    (hb : 128 ≤ byte.toNat) (hl : lead? byte = some lead)
    (hc : complete lead.count lead.low lead.high lead.bits bytes = (some code, rest)) :
    128 ≤ code ∧ code.isValidChar := by
  unfold Nat.isValidChar
  obtain ⟨rfl, hr⟩ | ⟨rfl, hr⟩ | ⟨rfl, hr⟩ := lead?_cases hb hl
  all_goals
    obtain ⟨hmin, hmax⟩ := bounds_of_complete hc
    simp only [← UInt8.toNat_inj, apply_ite UInt8.toNat, UInt8.reduceToNat] at hmin hmax
  · omega
  · split_ifs at hmin hmax <;> omega
  · split_ifs at hmin hmax <;> omega

-- ---------------------------------------------------------------------
-- Lossy decoding

theorem lossyChars_ascii {byte : UInt8} (h : byte < 0x80) (rest : Bytes) :
    lossyChars (byte :: rest) = Char.ofNat byte.toNat :: lossyChars rest := by
  have hl : lead? byte = some ⟨byte.toNat, 0, 0x80, 0xbf⟩ := if_pos h
  rw [lossyChars, hl]
  rfl

/-- A byte past ASCII shows as a character past ASCII, be it the replacement. -/
theorem lossyChars_foreign {byte : UInt8} (h : ¬ byte < 0x80) (rest : Bytes) :
    ∃ c text, lossyChars (byte :: rest) = c :: text ∧ 128 ≤ c.toNat := by
  have hb : 128 ≤ byte.toNat := UInt8.not_lt.mp h
  rw [lossyChars]
  cases hl : lead? byte with
  | none => exact ⟨_, _, rfl, by decide⟩
  | some lead =>
    refine ⟨_, _, rfl, ?_⟩
    rcases hc : complete lead.count lead.low lead.high lead.bits rest with ⟨_ | code, left⟩
    · show 128 ≤ replacement.toNat
      decide
    · obtain ⟨hn, hv⟩ := valid_of_complete hb hl hc
      show 128 ≤ (Char.ofNat code).toNat
      rwa [Char.toNat_ofNat, if_pos hv]

/-- What bytes show, encoded again, begins as they do, up to a byte past ASCII in both. -/
theorem encode_lossy_split (bytes : Bytes) :
    ∃ front rest shown, bytes = front ++ rest ∧ encode (lossy bytes) = front ++ shown ∧
      Foreign rest ∧ Foreign shown := by
  unfold lossy
  induction bytes with
  | nil => exact ⟨[], [], [], rfl, by rw [lossyChars]; rfl, by simp [Foreign], by simp [Foreign]⟩
  | cons byte rest ih =>
    by_cases h : byte < 0x80
    · obtain ⟨front, others, shown, hf, hs, hr, hx⟩ := ih
      rw [lossyChars_ascii h, encode_ofList_cons, utf8EncodeChar_ascii h, hf, ← hf, hs]
      exact ⟨byte :: front, others, shown, by rw [hf]; rfl, rfl, hr, hx⟩
    · obtain ⟨c, text, ht, hc⟩ := lossyChars_foreign h rest
      rw [ht, encode_ofList_cons]
      refine ⟨[], _, _, rfl, rfl, ?_, foreign_utf8EncodeChar_append hc _⟩
      intro first hf
      obtain rfl := Option.some.inj hf
      exact UInt8.not_lt.mp h

end FabricMemory.Utf8
