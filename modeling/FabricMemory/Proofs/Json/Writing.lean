import FabricMemory.Proofs.Json.Acceptance

/-!
# What is written is read back

The members of a record present its fields, in any order and with any other members among them
(`presents_of_perm`). So fields that a sound schema admits come back as they were from either
writing of their record: `readRecord_compact` and `readRecord_pretty`.
-/

namespace FabricMemory.Json

def Member.ofField (member : String × Field) : Member :=
  ⟨member.1.toList.map .plain, member.1.toList, member.2.tokens⟩

def Record.members (record : Record) : List Member := record.map Member.ofField

theorem spells_plain (name : List Char) : Spells (name.map .plain) name := by
  induction name with
  | nil => exact .done
  | cons c name ih => exact .plain ih

theorem Record.tokens_members (record : Record) :
    (Document.object record.members).tokens = record.tokens := by
  simp [Document.tokens, objectTokens, Record.members, Record.tokens]
  rfl

theorem Record.formed_members (record : Record) : (Document.object record.members).Formed := by
  intro member hm
  obtain ⟨⟨name, field⟩, -, rfl⟩ := List.mem_map.mp hm
  exact ⟨spells_plain name.toList, field.value_tokens⟩

-- ---------------------------------------------------------------------
-- Members in any order

variable {schema : Schema} {fields : List Field}

theorem name_of_mem_record {member : String × Field} (h : member ∈ schema.record fields) :
    ∃ column ∈ schema, column.name = member.1 :=
  List.mem_map.mp (List.of_mem_zip h).1

theorem filter_record (hn : (schema.map Column.name).Nodup) {index : Nat} {column : Column}
    {field : Field} (hc : schema[index]? = some column) (hf : fields[index]? = some field) :
    (schema.record fields).filter (fun member => member.1 = column.name) =
      [(column.name, field)] := by
  induction schema generalizing fields index with
  | nil => cases hc
  | cons first schema ih =>
    obtain ⟨hfirst, hn⟩ : (∀ other ∈ schema, other.name ≠ first.name) ∧
        (schema.map Column.name).Nodup := by
      simpa using hn
    cases fields with
    | nil => cases hf
    | cons field' fields =>
      rw [Schema.record_cons]
      cases index with
      | zero =>
        obtain rfl := Option.some.inj hc
        obtain rfl := Option.some.inj hf
        rw [List.filter_cons_of_pos (by simp), List.filter_eq_nil_iff.mpr]
        intro member hm
        obtain ⟨other, ho, he⟩ := name_of_mem_record hm
        simpa [← he] using hfirst other ho
      | succ index =>
        have hne := hfirst column (List.mem_of_getElem? hc)
        rw [List.filter_cons_of_neg (by simpa using hne.symm)]
        exact ih hn hc hf

theorem presents_of_perm (hs : schema.Sound) {members : List Member}
    (h : (members.filter fun member => ∃ column ∈ schema, member.name = column.name.toList).Perm
      (schema.record fields).members) : Presents schema fields (.object members) where
  within := trivial
  gives {index column field} hc hf := by
    have hc' := List.mem_of_getElem? hc
    -- the members under the name of a column are all among those under some column's name
    have hl : (members.filter fun member => member.name = column.name.toList) =
        (members.filter fun member => ∃ column ∈ schema, member.name = column.name.toList).filter
          fun member => member.name = column.name.toList := by
      rw [List.filter_filter]
      refine List.filter_congr fun member _ => ?_
      by_cases hn : member.name = column.name.toList
      · simpa [hn] using ⟨column, hc', rfl⟩
      · simp [hn]
    have hr : ((schema.record fields).members.filter fun member =>
        member.name = column.name.toList) = [.ofField (column.name, field)] := by
      rw [← List.map_singleton, ← filter_record hs.distinct hc hf, Record.members, List.filter_map]
      simp [Function.comp_def, Member.ofField, String.toList_inj]
    have hp := h.filter fun member => member.name = column.name.toList
    rw [hr, ← hl, List.perm_singleton] at hp
    refine .inl ?_
    rw [Document.values, hp]
    rfl

theorem presents_record (hs : schema.Sound) (fields : List Field) :
    Presents schema fields (.object (schema.record fields).members) := by
  refine presents_of_perm hs (.of_eq (List.filter_eq_self.mpr ?_))
  intro member hm
  obtain ⟨field, hf, rfl⟩ := List.mem_map.mp hm
  obtain ⟨column, hc, hn⟩ := name_of_mem_record hf
  exact decide_eq_true ⟨column, hc, congrArg String.toList hn.symm⟩

-- ---------------------------------------------------------------------
-- Writings

theorem readRecord_of_tokens {text : List Char} (hs : schema.Sound) (ha : schema.Admits fields)
    (ht : tokens text = (schema.record fields).tokens) : readRecord schema text = .ok fields := by
  have hd := (schema.record fields).formed_members.stands (ht.trans (Record.tokens_members _).symm)
  exact readRecord_of_presents hs ha hd (presents_record hs fields)

theorem plainNames_record (hs : schema.Sound) (fields : List Field) :
    Record.PlainNames (schema.record fields) := by
  intro member hm
  obtain ⟨column, hc, he⟩ := name_of_mem_record hm
  rw [← he]
  exact hs.plain column hc

theorem readRecord_compact (hs : schema.Sound) (ha : schema.Admits fields) :
    readRecord schema (schema.record fields).compact.toList = .ok fields :=
  readRecord_of_tokens hs ha (tokens_compact (plainNames_record hs fields))

theorem readRecord_pretty (hs : schema.Sound) (ha : schema.Admits fields) :
    readRecord schema (schema.record fields).pretty.toList = .ok fields :=
  readRecord_of_tokens hs ha (tokens_pretty (plainNames_record hs fields))

end FabricMemory.Json
