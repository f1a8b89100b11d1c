import FabricMemory.Proofs.Json.Documents

/-!
# What the reader has found

The fields found so far are those that the document read so far gives (`Tells`), column by column;
at its end they make up the fields it presents (`Tells.fields_eq_ok_iff`).
-/

namespace FabricMemory.Json

theorem Schema.admits_iff {schema : Schema} {fields : List Field} :
    schema.Admits fields ↔ fields.length = schema.length ∧
      ∀ (index : Nat) (column : Column) (field : Field), schema[index]? = some column →
        fields[index]? = some field → column.type.Admits field := by
  induction schema generalizing fields with
  | nil => cases fields <;> simp [Admits]
  | cons column schema ih =>
    cases fields with
    | nil => simp [Admits]
    | cons field fields =>
      rw [Admits, ih]
      constructor
      · rintro ⟨ha, hl, h⟩
        refine ⟨by simpa using hl, fun index other field' hc hf => ?_⟩
        cases index with
        | zero =>
          obtain rfl := Option.some.inj hc
          obtain rfl := Option.some.inj hf
          exact ha
        | succ index => exact h index other field' hc hf
      · rintro ⟨hl, h⟩
        exact ⟨h 0 column field rfl rfl, by simpa using hl, fun index => h (index + 1)⟩

theorem Schema.Admits.field_of_column {schema : Schema} {fields : List Field}
    (h : schema.Admits fields) {index : Nat} {column : Column}
    (hc : schema[index]? = some column) :
    ∃ field, fields[index]? = some field ∧ column.type.Admits field := by
  obtain ⟨hl, ha⟩ := admits_iff.mp h
  have hi : index < fields.length := hl ▸ (List.getElem?_eq_some_iff.mp hc).1
  exact ⟨fields[index], by simp [hi], ha index column _ hc (by simp [hi])⟩

theorem Schema.Sound.name_ne {schema : Schema} (hs : schema.Sound) {index other : Nat}
    {column column' : Column} (hc : schema[index]? = some column)
    (hc' : schema[other]? = some column') (h : index ≠ other) : column.name ≠ column'.name := by
  intro hn
  have hl : index < (schema.map Column.name).length := by
    simpa using (List.getElem?_eq_some_iff.mp hc).1
  exact h ((List.getElem?_inj hl hs.distinct).mp (by simp [hc, hc', hn]))

theorem Reading.fields_cons_eq_ok_iff {schema : Schema} {column : Column}
    {found : List (Option Field)} {entry : Option Field} {fields : List Field} :
    Reading.fields (column :: schema) (entry :: found) = .ok fields ↔
      ∃ field rest, fields = field :: rest ∧ entry.or column.default? = some field ∧
        Reading.fields schema found = .ok rest := by
  unfold Reading.fields
  rw [List.zip_cons_cons, List.mapM_cons]
  cases he : entry.or column.default? with
  | none => simp [he, bind, Except.bind]
  | some field =>
    simp only [he, bind, Except.bind]
    generalize List.mapM (m := Except Fault) _ (schema.zip found) = result
    cases result with
    | error fault => simp
    | ok rest => simp [pure, Except.pure, eq_comm]

theorem Reading.fields_eq_ok_iff {schema : Schema} {found : List (Option Field)}
    {fields : List Field} (hf : found.length = schema.length) :
    Reading.fields schema found = .ok fields ↔ fields.length = schema.length ∧
      ∀ (index : Nat) (column : Column) (entry : Option Field) (field : Field),
        schema[index]? = some column → found[index]? = some entry →
          fields[index]? = some field → entry.or column.default? = some field := by
  induction schema generalizing found fields with
  | nil => cases fields <;> simp [Reading.fields, pure, Except.pure]
  | cons column schema ih =>
    obtain ⟨entry, found, rfl⟩ := List.exists_cons_of_length_eq_add_one hf
    replace ih (rest : List Field) : Reading.fields schema found = .ok rest ↔ _ :=
      ih (Nat.succ.inj hf)
    rw [fields_cons_eq_ok_iff]
    constructor
    · rintro ⟨field, rest, rfl, hd, hr⟩
      obtain ⟨hl, h⟩ := (ih rest).mp hr
      refine ⟨by simpa using hl, fun index other entry' field' hc he hf => ?_⟩
      cases index with
      | zero =>
        obtain rfl := Option.some.inj hc
        obtain rfl := Option.some.inj he
        obtain rfl := Option.some.inj hf
        exact hd
      | succ index => exact h index other entry' field' hc he hf
    · rintro ⟨hl, h⟩
      obtain ⟨field, rest, rfl⟩ := List.exists_cons_of_length_eq_add_one hl
      exact ⟨field, rest, rfl, h 0 column entry field rfl rfl rfl,
        (ih rest).mpr ⟨by simpa using hl, fun index => h (index + 1)⟩⟩

-- ---------------------------------------------------------------------
-- Keys

theorem column_of_findIdx? {schema : Schema} {name : List Char} {index : Nat}
    (h : (schema.findIdx? fun column => column.name.toList = name) = some index) :
    ∃ column, schema[index]? = some column ∧ column.name.toList = name := by
  obtain ⟨hl, hn, -⟩ := List.findIdx?_eq_some_iff_getElem.mp h
  exact ⟨schema[index], by simp [hl], by simpa using hn⟩

theorem ne_of_findIdx? {schema : Schema} {name : List Char}
    (h : (schema.findIdx? fun column => column.name.toList = name) = none) :
    ∀ column ∈ schema, column.name.toList ≠ name := by
  simpa using List.findIdx?_eq_none_iff.mp h

theorem Reading.keyStep_spelled {schema : Schema} {found : List (Option Field)} {stage : Stage}
    {key : List Piece} {name : List Char} (hk : Spells key name) :
    keyStep schema ⟨found, stage⟩ (.text key none) =
      match schema.findIdx? fun column => column.name.toList = name with
      | none => .ok ⟨found, .colon none⟩
      | some column =>
        if (found[column]?.join).isSome then .error .mismatched
        else .ok ⟨found, .colon (some column)⟩ := by
  unfold keyStep
  simp only [joinPieces_of_spells hk, bind, Except.bind, List.reverse_nil, List.nil_append]
  cases schema.findIdx? _ <;> rfl

-- ---------------------------------------------------------------------
-- Values of growing documents

namespace Document

theorem values_object_append (members more : List Member) (index : Nat) (column : Column) :
    (object (members ++ more)).values index column =
      (object members).values index column ++ (object more).values index column := by
  simp [values]

theorem values_object_cons (member : Member) (members : List Member) (index : Nat)
    (column : Column) : (object (member :: members)).values index column =
      (if member.name = column.name.toList then [member.value] else []) ++
        (object members).values index column := by
  by_cases hn : member.name = column.name.toList <;> simp [values, hn]

theorem values_object_snoc_of_ne {members : List Member} {member : Member} {index : Nat}
    {column : Column} (h : member.name ≠ column.name.toList) :
    (object (members ++ [member])).values index column =
      (object members).values index column := by
  simp [values, h]

theorem values_row_length (items : List (List Token)) (item : List Token) (column : Column) :
    (row (items ++ [item])).values items.length column = [item] := by
  simp [values]

theorem values_row_snoc_of_ne {items : List (List Token)} {item : List Token} {index : Nat}
    {column : Column} (h : index ≠ items.length) :
    (row (items ++ [item])).values index column = (row items).values index column := by
  rw [values, values, List.getElem?_append]
  split
  · rfl
  · rw [List.getElem?_eq_none (by simp; omega), List.getElem?_eq_none (by omega)]

end Document

-- ---------------------------------------------------------------------
-- Tallies

/-- The fields found are those that the document gives. -/
structure Tells (schema : Schema) (found : List (Option Field)) (document : Document) : Prop where
  length_eq : found.length = schema.length
  entry {index : Nat} {column : Column} : schema[index]? = some column →
    found[index]? = some none ∧ document.values index column = [] ∨
      ∃ field, found[index]? = some (some field) ∧ column.type.Admits field ∧
        document.values index column = [field.tokens]

namespace Tells

variable {schema : Schema} {found : List (Option Field)} {document document' : Document}
  {index : Nat} {column : Column} {field : Field}

theorem initial (h : ∀ index column, document.values index column = []) :
    Tells schema (schema.map fun _ => none) document where
  length_eq := List.length_map ..
  entry hc := .inl ⟨by rw [List.getElem?_map, hc]; rfl, h ..⟩

theorem keep (h : Tells schema found document)
    (hv : ∀ index column, schema[index]? = some column →
      document'.values index column = document.values index column) :
    Tells schema found document' where
  length_eq := h.length_eq
  entry hc := by
    rw [hv _ _ hc]
    exact h.entry hc

theorem store (h : Tells schema found document) (hc : schema[index]? = some column)
    (ha : column.type.Admits field) (hv : document'.values index column = [field.tokens])
    (ho : ∀ other column, other ≠ index → schema[other]? = some column →
      document'.values other column = document.values other column) :
    Tells schema (found.set index (some field)) document' where
  length_eq := by simpa using h.length_eq
  entry {other} column' hc' := by
    by_cases he : other = index
    · subst he
      obtain rfl : column = column' := Option.some.inj (hc.symm.trans hc')
      have hl : other < found.length := by
        rw [h.length_eq]
        exact (List.getElem?_eq_some_iff.mp hc).1
      exact .inr ⟨field, by simp [hl], ha, hv⟩
    · rw [ho other column' he hc', List.getElem?_set_ne (Ne.symm he)]
      exact h.entry hc'

theorem vacant_iff (h : Tells schema found document) (hc : schema[index]? = some column) :
    found[index]? = some none ↔ document.values index column = [] := by
  obtain ⟨hf, hv⟩ | ⟨field, hf, -, hv⟩ := h.entry hc <;> simp [hf, hv]

section

variable {members : List Member} {member : Member} {items : List (List Token)}

theorem storeMember (hs : schema.Sound) (h : Tells schema found (.object members))
    (hc : schema[index]? = some column) (hn : column.name.toList = member.name)
    (hf : found[index]? = some none) (ha : column.type.Admits field)
    (hv : member.value = field.tokens) :
    Tells schema (found.set index (some field)) (.object (members ++ [member])) := by
  refine h.store hc ha ?_ fun other column' ho hc' => Document.values_object_snoc_of_ne ?_
  · rw [Document.values_object_append, (h.vacant_iff hc).mp hf, Document.values_object_cons,
      if_pos hn.symm, hv]
    rfl
  · rw [← hn]
    exact fun he => hs.name_ne hc' hc ho (String.toList_inj.mp he.symm)

theorem skipMember (h : Tells schema found (.object members))
    (hn : ∀ column ∈ schema, column.name.toList ≠ member.name) :
    Tells schema found (.object (members ++ [member])) :=
  h.keep fun _ column hc =>
    Document.values_object_snoc_of_ne (hn column (List.mem_of_getElem? hc)).symm

theorem storeItem (h : Tells schema found (.row items)) (hc : schema[items.length]? = some column)
    (ha : column.type.Admits field) :
    Tells schema (found.set items.length (some field)) (.row (items ++ [field.tokens])) :=
  h.store hc ha (Document.values_row_length ..)
    fun _ _ ho _ => Document.values_row_snoc_of_ne ho

end

theorem fields_eq_ok_iff (hs : schema.Sound) (h : Tells schema found document)
    (hw : document.Within schema) {fields : List Field} :
    Reading.fields schema found = .ok fields ↔
      schema.Admits fields ∧ Presents schema fields document := by
  rw [Reading.fields_eq_ok_iff h.length_eq, Schema.admits_iff]
  constructor
  · rintro ⟨hl, hf⟩
    refine ⟨⟨hl, fun index column field hc hf' => ?_⟩, hw, fun {index column field} hc hf' => ?_⟩
    · obtain ⟨he, -⟩ | ⟨field', he, ha, -⟩ := h.entry hc
      · exact hs.defaults column (List.mem_of_getElem? hc) field (hf index column _ field hc he hf')
      · obtain rfl : field' = field := by simpa using hf index column _ field hc he hf'
        exact ha
    · obtain ⟨he, hv⟩ | ⟨field', he, -, hv⟩ := h.entry hc
      · exact .inr ⟨hv, hf index column _ field hc he hf'⟩
      · obtain rfl : field' = field := by simpa using hf index column _ field hc he hf'
        exact .inl hv
  · rintro ⟨⟨hl, ha⟩, hp⟩
    refine ⟨hl, fun index column entry field hc he hf => ?_⟩
    obtain ⟨he', hv⟩ | ⟨field', he', -, hv⟩ := h.entry hc <;>
      obtain rfl := Option.some.inj (he.symm.trans he') <;>
      obtain hg | ⟨hg, hd⟩ := hp.gives hc hf
    · rw [hv] at hg
      cases hg
    · exact hd
    · rw [hv] at hg
      rw [Field.tokens_injective (List.cons.inj hg).1]
      rfl
    · rw [hv] at hg
      cases hg

end Tells

end FabricMemory.Json
