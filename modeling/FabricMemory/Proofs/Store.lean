import FabricMemory.Descriptor.Store
import FabricMemory.Proofs.Json.Writing
import FabricMemory.Proofs.Write

/-!
# Descriptors as text and on disk

A descriptor comes back from its text, compact or pretty, and from the file that a save has made.
-/

namespace FabricMemory

theorem Eid.admits_iff {name : String} {field : Json.Field} :
    (Json.Column.exactly name size).type.Admits field ↔ ∃ eid : Eid, field = .bytes eid.bytes := by
  rw [Json.Column.admits_exactly_iff]
  constructor
  · rintro ⟨value, hl, rfl⟩
    exact ⟨ofBytes value, by rw [bytes_ofBytes hl]⟩
  · rintro ⟨eid, rfl⟩
    exact ⟨eid.bytes, length_bytes eid, rfl⟩

namespace Descriptor

theorem schema_sound : schema.Sound where
  distinct := by decide
  plain := by decide
  bounded := by decide
  defaults := by decide

theorem admits_iff {fields : List Json.Field} :
    schema.Admits fields ↔ ∃ region : Descriptor, fields = region.fields := by
  simp only [schema, Json.Schema.admits_cons_iff, Json.Schema.admits_nil_iff,
    Json.Column.admits_long_iff, Json.Column.admits_word_iff, Eid.admits_iff,
    Json.Column.admits_payload_iff]
  constructor
  · rintro ⟨_, _, rfl, ⟨addr, rfl⟩, _, _, rfl, ⟨length, rfl⟩, _, _, rfl, ⟨seid, rfl⟩, _, _, rfl,
      ⟨deid, rfl⟩, _, _, rfl, ⟨tokenid, rfl⟩, _, _, rfl, ⟨scna, rfl⟩, _, _, rfl, ⟨dcna, rfl⟩, _, _,
      rfl, ⟨payload, rfl⟩, rfl⟩
    exact ⟨⟨addr, length, seid, deid, tokenid, scna, dcna, payload⟩, rfl⟩
  · rintro ⟨region, rfl⟩
    exact ⟨_, _, rfl, ⟨_, rfl⟩, _, _, rfl, ⟨_, rfl⟩, _, _, rfl, ⟨_, rfl⟩, _, _, rfl, ⟨_, rfl⟩, _, _,
      rfl, ⟨_, rfl⟩, _, _, rfl, ⟨_, rfl⟩, _, _, rfl, ⟨_, rfl⟩, _, _, rfl, ⟨_, rfl⟩, rfl⟩

theorem admits_fields (region : Descriptor) : schema.Admits region.fields :=
  admits_iff.mpr ⟨region, rfl⟩

theorem ofJson_of_readRecord {region : Descriptor} {text : String}
    (h : Json.readRecord schema text.toList = .ok region.fields) : ofJson text = .ok region := by
  rw [ofJson, h]
  simp only [ofFields?_fields]

theorem ofJson_toJson (region : Descriptor) : ofJson region.toJson = .ok region :=
  ofJson_of_readRecord (Json.readRecord_compact schema_sound region.admits_fields)

theorem ofJson_pretty (region : Descriptor) : ofJson region.record.pretty = .ok region :=
  ofJson_of_readRecord (Json.readRecord_pretty schema_sound region.admits_fields)

theorem save_eq_ok_iff {region : Descriptor} {files after : FileSystem} {directory path : Path}
    {memId : UInt64} :
    (region.save files directory memId).value = (.ok path, after) ↔
      path = filePath directory memId ∧
        ∃ made, files.makeDirectories directory = (.ok (), made) ∧
          made.writeText path region.record.pretty = .ok after := by
  unfold save
  cases hm : files.makeDirectories directory with
  | mk result made =>
    cases result with
    | error source => simp
    | ok =>
      cases hw : made.writeText (filePath directory memId) region.record.pretty with
      | error source =>
        simp only [hw, Logged.value_pure, Prod.mk.injEq, reduceCtorEq, false_and, false_iff]
        rintro ⟨rfl, made', ⟨-, rfl⟩, hw'⟩
        cases hw.symm.trans hw'
      | ok written =>
        simp only [hw, Logged.value_bind, Logged.value_pure, Prod.mk.injEq, Except.ok.injEq]
        constructor
        · rintro ⟨rfl, rfl⟩
          exact ⟨rfl, made, ⟨trivial, rfl⟩, hw⟩
        · rintro ⟨rfl, made', ⟨-, rfl⟩, hw'⟩
          exact ⟨rfl, Except.ok.inj (hw.symm.trans hw')⟩

theorem save_of_vacant {files : FileSystem} {directory : Path} {memId : UInt64} {place : Place}
    (hm : files.makeDirectories directory = (.ok (), files))
    (hv : files.resolve (filePath directory memId) .newFile = .ok (.vacant place))
    (region : Descriptor) :
    ∃ after,
      (region.save files directory memId).value = (.ok (filePath directory memId), after) := by
  have hw : files.writeText (filePath directory memId) region.record.pretty =
      .ok (files.set place (.file (Utf8.encode region.record.pretty))) := by
    rw [FileSystem.writeText, FileSystem.writeFile, hv]
    rfl
  exact ⟨_, save_eq_ok_iff.mpr ⟨rfl, files, hm, hw⟩⟩

theorem io_of_save {region : Descriptor} {files after : FileSystem} {directory : Path}
    {memId : UInt64} {e : Error}
    (h : (region.save files directory memId).value = (.error e, after)) :
    ∃ source, e = .io source := by
  unfold save at h
  rcases hm : files.makeDirectories directory with ⟨source | _, made⟩
  · simp only [hm, Logged.value_pure, Prod.mk.injEq, Except.error.injEq] at h
    exact ⟨source, h.1.symm⟩
  · cases hw : made.writeText (filePath directory memId) region.record.pretty with
    | error source =>
      simp only [hm, hw, Logged.value_pure, Prod.mk.injEq, Except.error.injEq] at h
      exact ⟨source, h.1.symm⟩
    | ok => simp [hm, hw] at h

theorem load_save {region : Descriptor} {files after : FileSystem} {directory path : Path}
    {memId : UInt64} (h : (region.save files directory memId).value = (.ok path, after)) :
    load after directory memId = .ok region := by
  obtain ⟨rfl, made, -, hw⟩ := save_eq_ok_iff.mp h
  rw [load, FileSystem.readText_writeText hw]
  exact ofJson_pretty region

end Descriptor

end FabricMemory
