import FabricMemory.Proofs.Store
import FabricMemory.Window

/-!
# Texts tell what they were written for

A descriptor and a window come back from their texts, so no two of them have one text. Main
statement: `texts_read_back`.
-/

namespace FabricMemory

theorem injective_of_read {α β ε : Type} {write : α → β} {read : β → Except ε α}
    (h : ∀ a, read (write a) = .ok a) : Function.Injective write := by
  intro a b he
  have hr := h a
  rw [he, h b] at hr
  exact (Except.ok.inj hr).symm

-- ---------------------------------------------------------------------
-- Windows

namespace Window

theorem schema_sound : schema.Sound where
  distinct := by decide
  plain := by decide
  bounded := by decide
  defaults := by decide

theorem admits_fields (window : Window) : schema.Admits window.fields :=
  ⟨Json.Column.admits_long_iff.mpr ⟨_, rfl⟩, Json.Column.admits_long_iff.mpr ⟨_, rfl⟩,
    Json.Column.admits_signed_iff.mpr ⟨_, rfl⟩, Json.Column.admits_signed_iff.mpr ⟨_, rfl⟩,
    Eid.admits_iff.mpr ⟨_, rfl⟩, Eid.admits_iff.mpr ⟨_, rfl⟩,
    Json.Column.admits_word_iff.mpr ⟨_, rfl⟩, Json.Column.admits_word_iff.mpr ⟨_, rfl⟩,
    trivial, trivial⟩

theorem ofJson_of_readRecord {window : Window} {text : String}
    (h : Json.readRecord schema text.toList = .ok window.fields) : ofJson text = .ok window := by
  rw [ofJson, h]
  simp only [ofFields?_fields]

theorem ofJson_toJson (window : Window) : ofJson window.toJson = .ok window :=
  ofJson_of_readRecord (Json.readRecord_compact schema_sound window.admits_fields)

end Window

-- ---------------------------------------------------------------------
-- Texts

theorem Descriptor.readText_save {region : Descriptor} {files after : FileSystem}
    {directory path : Path} {memId : UInt64}
    (h : (region.save files directory memId).value = (.ok path, after)) :
    after.readText path = .ok region.record.pretty := by
  obtain ⟨rfl, made, -, hw⟩ := save_eq_ok_iff.mp h
  exact FileSystem.readText_writeText hw

/-- A descriptor comes back from either of its texts, of which the pretty one is what a save writes,
and a window from its own. Different ones have different texts. -/
theorem texts_read_back :
    (∀ region : Descriptor,
      Descriptor.ofJson region.toJson = .ok region ∧
        Descriptor.ofJson region.record.pretty = .ok region ∧
        ∀ files directory memId path after,
          (region.save files directory memId).value = (.ok path, after) →
            after.readText path = .ok region.record.pretty) ∧
    (∀ window : Window, Window.ofJson window.toJson = .ok window) ∧
    Function.Injective Descriptor.toJson ∧
    Function.Injective (fun region : Descriptor => region.record.pretty) ∧
    Function.Injective Window.toJson := by
  refine ⟨fun region => ⟨region.ofJson_toJson, region.ofJson_pretty, ?_⟩, Window.ofJson_toJson,
    ?_, ?_, ?_⟩
  · intro files directory memId path after hs
    exact Descriptor.readText_save hs
  · exact injective_of_read Descriptor.ofJson_toJson
  · exact injective_of_read Descriptor.ofJson_pretty
  · exact injective_of_read Window.ofJson_toJson

end FabricMemory
