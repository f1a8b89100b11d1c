import FabricMemory.Proofs.Json.Acceptance
import FabricMemory.Proofs.Json.Rejection
import FabricMemory.Proofs.Store

/-!
# Descriptors in texts of other hands

A descriptor is read from just those texts that present it: in whatever order, with whatever blanks,
with whatever other members, and with the payload left out where it is empty. Main statement:
`Descriptor.ofJson_presentation`.
-/

namespace FabricMemory

theorem Json.readRecord_eq_ok_iff {schema : Schema} (hs : schema.Sound) {text : List Char}
    {fields : List Field} : readRecord schema text = .ok fields ↔ schema.Admits fields ∧
      ∃ document : Document, document.Stands text ∧ Presents schema fields document := by
  constructor
  · exact presents_of_readRecord hs
  · rintro ⟨ha, document, hd, hp⟩
    exact readRecord_of_presents hs ha hd hp

namespace Descriptor

variable {text : String} {region : Descriptor}

theorem ofJson_eq_ok_iff :
    ofJson text = .ok region ↔ Json.readRecord schema text.toList = .ok region.fields := by
  refine ⟨fun h => ?_, ofJson_of_readRecord⟩
  unfold ofJson at h
  cases hr : Json.readRecord schema text.toList with
  | error fault => simp [hr] at h
  | ok fields =>
    obtain ⟨ha, -⟩ := Json.presents_of_readRecord schema_sound hr
    obtain ⟨region', rfl⟩ := admits_iff.mp ha
    obtain rfl : region' = region := by simpa [hr, ofFields?_fields] using h
    rfl

theorem fault_of_ofJson {e : Error} (h : ofJson text = .error e) : ∃ fault, e = .json fault := by
  unfold ofJson at h
  split at h
  · exact ⟨_, (Except.error.inj h).symm⟩
  · split at h
    · cases h
    · exact ⟨_, (Except.error.inj h).symm⟩

theorem ofJson_refuses
    (h : ∀ fields, Json.readRecord schema text.toList ≠ .ok fields) :
    ∃ fault, ofJson text = .error (.json fault) := by
  cases ho : ofJson text with
  | ok region => exact absurd (ofJson_eq_ok_iff.mp ho) (h _)
  | error e =>
    obtain ⟨fault, rfl⟩ := fault_of_ofJson ho
    exact ⟨fault, rfl⟩

/-- A descriptor is read from a text if and only if the text is a document that presents it. So none
is read from a flawed document, or from a value with anything but blanks after it. Where none is
read, it is for a fault in the text, as an invalid argument. -/
theorem ofJson_presentation (text : String) :
    (∀ region, ofJson text = .ok region ↔ ∃ document : Json.Document,
      document.Stands text.toList ∧ Json.Presents schema region.fields document) ∧
    (∀ document : Json.Document, document.Stands text.toList → Json.Flawed schema document →
      ∃ fault, ofJson text = .error (.json fault)) ∧
    (∀ front value rest, text.toList = front ++ rest → Json.Lexes front value → Json.Value value →
      (∃ c ∈ rest, c ∉ [' ', '\t', '\n', '\r']) → ∃ fault, ofJson text = .error (.json fault)) ∧
    (∀ e, ofJson text = .error e → (∃ fault, e = .json fault) ∧ e.errno = Errno.invalid) := by
  refine ⟨fun region => ?_, ?_, ?_, ?_⟩
  · rw [ofJson_eq_ok_iff, Json.readRecord_eq_ok_iff schema_sound]
    exact and_iff_right region.admits_fields
  · intro document hd hf
    exact ofJson_refuses fun fields => Json.not_read_of_flawed schema_sound hd hf
  · intro front value rest ht hl hv hr
    refine ofJson_refuses fun fields => ?_
    rw [ht]
    exact Json.not_read_of_trailing schema_sound hv hl hr
  · intro e h
    obtain ⟨fault, rfl⟩ := fault_of_ofJson h
    exact ⟨⟨fault, rfl⟩, rfl⟩

end Descriptor

end FabricMemory
