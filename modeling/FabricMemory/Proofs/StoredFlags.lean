import Mathlib
import FabricMemory.Proofs.Exchange

/-!
# Flags stored in a descriptor

A descriptor takes flags as a payload of two bytes. Main statement (`setFlags_read_back`): wherever
the descriptor has been since, the flags are read back from it, unless a bit without a name is among
them; then no flags are.
-/

namespace FabricMemory

-- ---------------------------------------------------------------------
-- Names of bits

namespace FlagFamily

variable {family : FlagFamily} {bits : Nat}

/-- Every bit that is set belongs to a flag with a name. -/
def Names (family : FlagFamily) (bits : Nat) : Prop :=
  ∀ i, bits.testBit i = true → ∃ flag ∈ family.named, flag.2.testBit i = true

theorem testBit_foldl_or (flags : List (String × Nat)) (start i : Nat) :
    (flags.foldl (fun bits flag => bits ||| flag.2) start).testBit i = true ↔
      start.testBit i = true ∨ ∃ flag ∈ flags, flag.2.testBit i = true := by
  induction flags generalizing start with
  | nil => simp
  | cons flag flags ih => simp [ih, or_assoc]

theorem knows_iff_names : family.knows bits = true ↔ family.Names bits := by
  have ha (i : Nat) : family.all.testBit i = true ↔
      ∃ flag ∈ family.named, flag.2.testBit i = true := by
    simp [all, testBit_foldl_or]
  simp only [knows, decide_eq_true_eq, Names, ← ha]
  constructor
  · intro h i hi
    rw [← h, Nat.testBit_or, hi, Bool.true_or]
  · intro h
    refine Nat.eq_of_testBit_eq fun i => ?_
    rw [Nat.testBit_or]
    cases hi : bits.testBit i with
    | false => exact Bool.false_or _
    | true => rw [h i hi, Bool.true_or]

end FlagFamily

-- ---------------------------------------------------------------------
-- Payloads of flags

namespace Payload

theorem decode_ofFlags (flags : PayloadFlags) :
    LittleEndian.decode (ofFlags flags) = flags.bits.toNat := by
  rw [ofFlags, LittleEndian.decode_encode]
  exact Nat.mod_eq_of_lt flags.bits.toNat_lt

theorem length_ofFlags (flags : PayloadFlags) : length (ofFlags flags) = .ok 2 := by rfl

theorem flags?_ofFlags (flags : PayloadFlags) :
    flags? (ofFlags flags) =
      if FlagFamily.payload.knows flags.bits.toNat then some flags else none := by
  have hl : (ofFlags flags).length = 2 := LittleEndian.length_encode 2 _
  simp only [flags?, hl, decode_ofFlags, true_and, UInt16.ofNat_toNat]

end Payload

-- ---------------------------------------------------------------------
-- Trips

/-- What there is of a descriptor after so many trips, each as text or through a file. -/
inductive Travelled (sent : Descriptor) : Nat → Except Error Descriptor → Prop
  | start : Travelled sent 0 (.ok sent)
  | trip {trips : Nat} {middle : Descriptor} {memId : UInt64} {arrived : Except Error Descriptor}
      (hs : Travelled sent trips (.ok middle)) (hc : Conveyed middle memId arrived) :
      Travelled sent (trips + 1) arrived

theorem Travelled.intact {sent : Descriptor} {trips : Nat} {arrived : Except Error Descriptor}
    (h : Travelled sent trips arrived) : arrived = .ok sent := by
  induction h with
  | start => rfl
  | trip hs hc ih =>
    obtain rfl := Except.ok.inj ih
    exact hc.intact

namespace Descriptor

/-- A descriptor that flags were stored in arrives whole from any number of trips, with a payload of
two bytes and all else as it was before. The flags are read back from it if each of their bits has a
name, and otherwise none are. -/
theorem setFlags_read_back (region : Descriptor) (flags : PayloadFlags) {trips : Nat}
    {arrived : Except Error Descriptor} (h : Travelled (region.setFlags flags) trips arrived) :
    ∃ after, arrived = .ok after ∧ after.payloadLength = .ok 2 ∧
      { after with payload := region.payload } = region ∧
      (FlagFamily.payload.Names flags.bits.toNat → after.flags? = some flags) ∧
      (¬ FlagFamily.payload.Names flags.bits.toNat → after.flags? = none) := by
  have hf : (region.setFlags flags).flags? =
      if FlagFamily.payload.knows flags.bits.toNat then some flags else none :=
    Payload.flags?_ofFlags flags
  refine ⟨region.setFlags flags, h.intact, Payload.length_ofFlags flags, rfl, fun hn => ?_,
    fun hn => ?_⟩
  · rw [hf, if_pos (FlagFamily.knows_iff_names.mpr hn)]
  · rw [hf, if_neg (mt FlagFamily.knows_iff_names.mp hn)]

/-- Both flags that have names, after a trip as text. -/
theorem setFlags_read_back_named :
    ∃ after, ofJson ((default : Descriptor).setFlags ⟨96⟩).toJson = .ok after ∧
      after.flags? = some ⟨96⟩ := by
  have ht : Travelled ((default : Descriptor).setFlags ⟨96⟩) 1 _ :=
    .trip .start (.text : Conveyed _ 0 _)
  obtain ⟨after, ha, -, -, hk, -⟩ := setFlags_read_back default ⟨96⟩ ht
  exact ⟨after, ha, hk (FlagFamily.knows_iff_names.mp (by decide))⟩

/-- The text form holds flags without a name, and these are not read back. -/
theorem setFlags_unnamed_lost :
    PayloadFlags.ofJson "\"0x1\"" = .ok ⟨1⟩ ∧
      ((default : Descriptor).setFlags ⟨1⟩).flags? ≠ some ⟨1⟩ := by
  constructor
  · cbv
  · decide

end Descriptor

end FabricMemory
