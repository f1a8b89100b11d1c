import Mathlib
import FabricMemory.Operation.Export

/-!
# The vendor blob

A blob decodes to what it was encoded from, whatever follows it, and a unit gets the blob of its own
bit alone. What is decoded hangs on seventeen bytes (`decode_congr`), and is encoded again with the
mask that it came with (`encode_of_decode`). Main statement: `blob_codec`.
-/

namespace FabricMemory.VendorInfo

def unit (index : Nat) : UInt64 := UInt64.ofNat (2 ^ index)

theorem toNat_unit {index : Nat} (h : index < 64) : (unit index).toNat = 2 ^ index :=
  UInt64.toNat_ofNat_of_lt' (Nat.pow_lt_pow_right (by omega) h)

theorem forUmmu_eq_ok_iff {ummuMap : UInt32} {info : VendorInfo} :
    forUmmu ummuMap = .ok info ↔ ummuMap.toNat < 64 ∧ info = ⟨unit ummuMap.toNat, true⟩ := by
  unfold forUmmu
  split
  · rename_i h
    have hn : ummuMap.toNat < 64 := h
    simp [hn, unit, Nat.one_shiftLeft, eq_comm]
  · rename_i h
    have hn : ¬ ummuMap.toNat < 64 := h
    simp [hn]

section

variable (info : VendorInfo) (rest : Bytes)

theorem take_encode :
    (info.encode ++ rest).take 4 = LittleEndian.encode 4 version := by
  simp [encode]

theorem take_drop_encode :
    ((info.encode ++ rest).drop 8).take 8 = LittleEndian.encode 8 info.mask.toNat := by
  simp [encode, LittleEndian.encode]

theorem head?_drop_encode :
    ((info.encode ++ rest).drop 16).head? = some (UInt8.ofNat info.onChip.toNat) := by
  simp [encode, LittleEndian.encode]

theorem decode_encode_append : decode (info.encode ++ rest) = .ok info := by
  have hm : LittleEndian.decode (LittleEndian.encode 8 info.mask.toNat) = info.mask.toNat := by
    rw [LittleEndian.decode_encode]
    exact Nat.mod_eq_of_lt info.mask.toNat_lt
  have hl : ¬ (info.encode ++ rest).length < vendorInfoSize := by
    rw [List.length_append, length_encode]
    omega
  have hv : LittleEndian.decode (LittleEndian.encode 4 version) = version := by decide
  rw [decode, if_neg hl]
  simp only [take_encode, take_drop_encode, head?_drop_encode, hm, hv, if_true, UInt64.ofNat_toNat]
  cases info with
  | mk mask onChip => cases onChip <;> rfl

end

theorem decode_encode (info : VendorInfo) : decode info.encode = .ok info := by
  simpa using decode_encode_append info []

-- ---------------------------------------------------------------------
-- Any bytes

/-- The bytes that say something; the others are padding, or behind the blob. -/
def Telling (index : Nat) : Prop := index < 4 ∨ 8 ≤ index ∧ index < 17

def Padding (index : Nat) : Prop := 4 ≤ index ∧ index < 8 ∨ 17 ≤ index ∧ index < 24

variable {bytes other : Bytes} {info : VendorInfo}

theorem getElem?_encode_of_padding (info : VendorInfo) {index : Nat} (h : Padding index) :
    info.encode[index]? = some 0 := by
  rcases h with ⟨hl, hh⟩ | ⟨hl, hh⟩
  · interval_cases index <;> rfl
  · interval_cases index <;> rfl

theorem decode_congr (hb : vendorInfoSize ≤ bytes.length) (ho : vendorInfoSize ≤ other.length)
    (h : ∀ index, Telling index → other[index]? = bytes[index]?) :
    decode other = decode bytes := by
  have hv : other.take 4 = bytes.take 4 := by
    refine List.ext_getElem? fun index => ?_
    simp only [List.getElem?_take]
    split
    · exact h index (.inl ‹_›)
    · rfl
  have hm : (other.drop 8).take 8 = (bytes.drop 8).take 8 := by
    refine List.ext_getElem? fun index => ?_
    simp only [List.getElem?_take, List.getElem?_drop]
    split
    · exact h _ (.inr (by omega))
    · rfl
  have hc : (other.drop 16).head? = (bytes.drop 16).head? := by
    simp only [List.head?_drop]
    exact h 16 (.inr (by omega))
  simp only [decode, if_neg (Nat.not_lt.mpr hb), if_neg (Nat.not_lt.mpr ho), hv, hm, hc]

theorem decode_take_eq_version_iff (h : vendorInfoSize ≤ bytes.length) :
    LittleEndian.decode (bytes.take 4) = version ↔ bytes.take 4 = [0, 0, 0, 0] := by
  have hl : (bytes.take 4).length = 4 := by
    simp only [List.length_take, vendorInfoSize] at h ⊢
    omega
  constructor
  · intro hv
    have he := LittleEndian.encode_decode (bytes.take 4)
    rw [hl, hv] at he
    exact he.symm
  · intro hz
    rw [hz]
    rfl

theorem decode_eq_ok_iff :
    decode bytes = .ok info ↔
      vendorInfoSize ≤ bytes.length ∧ bytes.take 4 = [0, 0, 0, 0] ∧
        info.mask.toNat = LittleEndian.decode ((bytes.drop 8).take 8) ∧
        (info.onChip = true ↔ bytes[16]? ≠ some 0) := by
  obtain ⟨mask, onChip⟩ := info
  unfold decode
  split
  · rename_i hl
    simp only [reduceCtorEq, false_iff]
    rintro ⟨hs, -⟩
    omega
  · rename_i hl
    have hs : vendorInfoSize ≤ bytes.length := Nat.le_of_not_lt hl
    have hm : (LittleEndian.decode ((bytes.drop 8).take 8)) < 2 ^ 64 := by
      have hd := LittleEndian.decode_lt ((bytes.drop 8).take 8)
      have hw : ((bytes.drop 8).take 8).length = 8 := by
        simp only [List.length_take, List.length_drop, vendorInfoSize] at hs ⊢
        omega
      rwa [hw] at hd
    simp only [decode_take_eq_version_iff hs, hs, true_and, List.head?_drop]
    by_cases hv : bytes.take 4 = [0, 0, 0, 0]
    · simp only [hv, if_true, Except.ok.injEq, mk.injEq, true_and, ← UInt64.toNat_inj,
        UInt64.toNat_ofNat_of_lt' hm]
      refine and_congr eq_comm ?_
      cases onChip <;> simp
    · simp [hv]

theorem encode_of_decode (h : decode bytes = .ok info) :
    (info.encode.drop 8).take 8 = (bytes.drop 8).take 8 := by
  obtain ⟨hs, -, hm, -⟩ := decode_eq_ok_iff.mp h
  have hl : ((bytes.drop 8).take 8).length = 8 := by
    simp only [List.length_take, List.length_drop, vendorInfoSize] at hs ⊢
    omega
  have ht := take_drop_encode info []
  have he := LittleEndian.encode_decode ((bytes.drop 8).take 8)
  rw [hl, ← hm] at he
  rw [List.append_nil] at ht
  exact ht.trans he

-- ---------------------------------------------------------------------
-- Units

theorem testBit_unit {index : Nat} (h : index < 64) (bit : Nat) :
    (unit index).toNat.testBit bit = decide (bit = index) := by
  rw [toNat_unit h, Nat.testBit_two_pow]
  exact decide_eq_decide.mpr eq_comm

/-- A blob has 24 bytes, and the command says so; it is read back whatever comes behind it. Bytes
are a blob by their length and version alone, and what they are read as is told by its own blob as
well. There is a blob for each unit that has a bit in the mask. -/
theorem blob_codec :
    (∀ info : VendorInfo, ∃ bytes, info.blob = .ok bytes ∧ bytes.length = 24 ∧
      bytes.length ≤ maxVendorInfo ∧
      (∀ sizes flags region payloadLength numa,
        let command := Operation.pagesCommand sizes flags region payloadLength ⟨info, numa⟩
        command.vendor = some bytes ∧ command.vendorLength.toNat = bytes.length) ∧
      (∀ pid va length flags region payloadLength numa,
        let command := Operation.rangeCommand pid va length flags region payloadLength ⟨info, numa⟩
        command.vendor = some bytes ∧ command.vendorLength.toNat = bytes.length) ∧
      (∀ index, Padding index → bytes[index]? = some 0) ∧
      ∀ rest, decode (bytes ++ rest) = .ok info) ∧
    (∀ bytes, (∃ info, decode bytes = .ok info) ↔
      24 ≤ bytes.length ∧ bytes.take 4 = [0, 0, 0, 0]) ∧
    (∀ bytes other : Bytes, 24 ≤ bytes.length → 24 ≤ other.length →
      (∀ index, Telling index → other[index]? = bytes[index]?) → decode other = decode bytes) ∧
    (∀ bytes info, decode bytes = .ok info → ∃ again, info.blob = .ok again ∧
      (again.drop 8).take 8 = (bytes.drop 8).take 8 ∧ decode again = .ok info) ∧
    ∀ ummuMap : UInt32, ((∃ info, build ummuMap = .ok info) ↔ ummuMap.toNat < 64) ∧
      ∀ info, build ummuMap = .ok info → ∃ bytes decoded, info.blob = .ok bytes ∧
        decode bytes = .ok decoded ∧
        ∀ bit, decoded.mask.toNat.testBit bit = decide (bit = ummuMap.toNat) := by
  refine ⟨fun info => ⟨_, blob_eq info, length_encode info, ?_, ?_, ?_, ?_, ?_⟩, ?_, ?_, ?_, ?_⟩
  · simp [vendorInfoSize, maxVendorInfo]
  · intro sizes flags region payloadLength numa
    exact ⟨rfl, by simp [Operation.pagesCommand, vendorInfoSize]⟩
  · intro pid va length flags region payloadLength numa
    exact ⟨rfl, by simp [Operation.rangeCommand, vendorInfoSize]⟩
  · exact fun index => getElem?_encode_of_padding info
  · exact decode_encode_append info
  · intro bytes
    constructor
    · rintro ⟨info, h⟩
      obtain ⟨hs, hv, -⟩ := decode_eq_ok_iff.mp h
      exact ⟨hs, hv⟩
    · rintro ⟨hs, hv⟩
      have hl : ¬ bytes.length < vendorInfoSize := Nat.not_lt.mpr hs
      simp only [decode, if_neg hl, hv]
      exact ⟨_, rfl⟩
  · exact fun bytes other => decode_congr
  · intro bytes info h
    exact ⟨_, blob_eq info, encode_of_decode h, decode_encode info⟩
  · intro ummuMap
    simp only [build_eq, forUmmu_eq_ok_iff]
    refine ⟨⟨?_, fun hl => ⟨_, hl, rfl⟩⟩, ?_⟩
    · rintro ⟨info, hl, -⟩
      exact hl
    · rintro info ⟨hl, rfl⟩
      exact ⟨_, _, blob_eq _, decode_encode _, testBit_unit hl⟩

end FabricMemory.VendorInfo
