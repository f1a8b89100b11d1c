import FabricMemory.Proofs.Json.Tokens

/-!
# Schemas, and the fields they admit

What a column admits is read from its tokens as the field that it is (`Reading.reads_field`), where
the schema is sound.
-/

namespace FabricMemory.Json

/-- Integers of the type have at most 64 bits. -/
def FieldType.Bounded : FieldType → Prop
  | .integer low high => -(wordBound 63 : Int) ≤ low ∧ high ≤ wordBound 64
  | .bytes _ => True

instance : (type : FieldType) → Decidable type.Bounded
  | .integer _ _ => inferInstanceAs (Decidable (_ ∧ _))
  | .bytes _ => inferInstanceAs (Decidable True)

instance : (type : FieldType) → (field : Field) → Decidable (type.Admits field)
  | .integer _ _, .integer _ => inferInstanceAs (Decidable (_ ∧ _))
  | .bytes none, .bytes _ => inferInstanceAs (Decidable True)
  | .bytes (some _), .bytes _ => inferInstanceAs (Decidable (_ = _))
  | .integer _ _, .bytes _ => inferInstanceAs (Decidable False)
  | .bytes none, .integer _ => inferInstanceAs (Decidable False)
  | .bytes (some _), .integer _ => inferInstanceAs (Decidable False)

structure Schema.Sound (schema : Schema) : Prop where
  distinct : (schema.map Column.name).Nodup
  plain : ∀ column ∈ schema, column.name.toList.all isPlain = true
  bounded : ∀ column ∈ schema, column.type.Bounded
  defaults : ∀ column ∈ schema, ∀ field ∈ column.default?, column.type.Admits field

def Schema.Admits : Schema → List Field → Prop
  | [], [] => True
  | column :: schema, field :: fields => column.type.Admits field ∧ Admits schema fields
  | _, _ => False

theorem Schema.admits_nil_iff {fields : List Field} : Schema.Admits [] fields ↔ fields = [] := by
  cases fields <;> simp [Admits]

theorem Schema.admits_cons_iff {column : Column} {schema : Schema} {fields : List Field} :
    Schema.Admits (column :: schema) fields ↔
      ∃ field rest, fields = field :: rest ∧ column.type.Admits field ∧ schema.Admits rest := by
  cases fields <;> simp [Admits, and_assoc]

namespace Column

variable {name : String} {field : Field}

theorem admits_unsigned_iff {bits : Nat} :
    (unsigned name bits).type.Admits field ↔
      ∃ n : Nat, n < wordBound bits ∧ field = .integer n := by
  constructor
  · intro h
    cases field with
    | bytes => exact h.elim
    | integer value =>
      obtain ⟨n, rfl⟩ := Int.eq_ofNat_of_zero_le h.1
      exact ⟨n, Int.ofNat_lt.mp h.2, rfl⟩
  · rintro ⟨n, hn, rfl⟩
    exact ⟨Int.natCast_nonneg n, Int.ofNat_lt.mpr hn⟩

theorem admits_long_iff :
    (unsigned name 64).type.Admits field ↔ ∃ n : UInt64, field = .integer n.toNat := by
  rw [admits_unsigned_iff]
  constructor
  · rintro ⟨n, hn, rfl⟩
    exact ⟨.ofNat n, by rw [UInt64.toNat_ofNat_of_lt' hn]⟩
  · rintro ⟨n, rfl⟩
    exact ⟨n.toNat, n.toNat_lt, rfl⟩

theorem admits_word_iff :
    (unsigned name 32).type.Admits field ↔ ∃ n : UInt32, field = .integer n.toNat := by
  rw [admits_unsigned_iff]
  constructor
  · rintro ⟨n, hn, rfl⟩
    exact ⟨.ofNat n, by rw [UInt32.toNat_ofNat_of_lt' hn]⟩
  · rintro ⟨n, rfl⟩
    exact ⟨n.toNat, n.toNat_lt, rfl⟩

theorem admits_signed_iff :
    (signed name 32).type.Admits field ↔ ∃ n : Int32, field = .integer n.toInt := by
  constructor
  · intro h
    cases field with
    | bytes => exact h.elim
    | integer value => exact ⟨.ofInt value, by rw [Int32.toInt_ofInt_of_le h.1 h.2]⟩
  · rintro ⟨n, rfl⟩
    exact ⟨n.le_toInt, n.toInt_lt⟩

theorem admits_exactly_iff {count : Nat} :
    (exactly name count).type.Admits field ↔
      ∃ value : Bytes, value.length = count ∧ field = .bytes value := by
  cases field <;> simp [exactly, FieldType.Admits]

theorem admits_payload_iff :
    (payload name).type.Admits field ↔ ∃ value : Bytes, field = .bytes value := by
  cases field <;> simp [payload, FieldType.Admits]

end Column

@[simp] theorem Schema.record_cons (column : Column) (schema : Schema) (field : Field)
    (fields : List Field) : Schema.record (column :: schema) (field :: fields) =
      (column.name, field) :: schema.record fields := by rfl

theorem integer_integerToken {low high value : Int} (hb : FieldType.Bounded (.integer low high))
    (hl : low ≤ value) (hh : value < high) :
    (integerToken value).integer low high = .ok value := by
  obtain ⟨hlow, hhigh⟩ := hb
  have hv := value_integerLiteral value (by omega) (by omega)
  simp [integerToken, Token.integer, hv, hl, hh]

theorem listed_cons_cons (first second : List Token) (rest : List (List Token)) :
    listed (first :: second :: rest) = first ++ .comma :: listed (second :: rest) := by
  simp [listed]

theorem listed_singleton (part : List Token) : listed [part] = part := by
  simp [listed]

theorem listed_cons (part : List Token) (parts : List (List Token)) :
    listed (part :: parts) = part ++ parts.flatMap (.comma :: ·) := by
  induction parts generalizing part with
  | nil => simp [listed_singleton]
  | cons next parts ih => simp [listed_cons_cons, ih]

namespace Reading

variable {schema : Schema} {found : List (Option Field)} {form : Form} {index : Nat}

def Reads (schema : Schema) (state : Reading) (read : List Token) (after : Reading) : Prop :=
  read.foldlM (step schema) state = .ok after

theorem Reads.nil (state : Reading) : Reads schema state [] state := by rfl

theorem Reads.cons {state middle after : Reading} {token : Token} {rest : List Token}
    (h : step schema state token = .ok middle) (hr : Reads schema middle rest after) :
    Reads schema state (token :: rest) after := by
  rw [Reads, List.foldlM_cons, h]
  exact hr

theorem Reads.append {state middle after : Reading} {read rest : List Token}
    (h : Reads schema state read middle) (hr : Reads schema middle rest after) :
    Reads schema state (read ++ rest) after := by
  rw [Reads, List.foldlM_append, h]
  exact hr

-- ---------------------------------------------------------------------
-- Bytes

def HasRoom (schema : Schema) (index length : Nat) : Prop :=
  ∀ count, count? schema index = some count → length = count

theorem byteStep_integerToken (state : Reading) (read : Bytes) (byte : UInt8) :
    byteStep state form index read (integerToken byte.toNat) =
      .ok { state with stage := .bytesNext form index (byte :: read) } := by
  have hb := byte.toNat_lt
  have hi : (integerToken (byte.toNat : Int)).integer 0 256 = .ok (byte.toNat : Int) :=
    integer_integerToken (by decide) (by omega) (by omega)
  rw [byteStep, hi]
  show Except.ok _ = _
  rw [Int.toNat_natCast, UInt8.ofNat_toNat]

theorem bytesEnd_room (state : Reading) (form : Form) {read : Bytes}
    (hr : HasRoom schema index read.length) :
    bytesEnd schema state form index read = .ok (state.take form index (.bytes read.reverse)) := by
  unfold bytesEnd
  cases hc : count? schema index with
  | none => rfl
  | some count => simp [hr count hc]

theorem isFull_room {read : Bytes} {length : Nat} (hr : HasRoom schema index length)
    (hl : read.length < length) : isFull schema index read = false := by
  unfold isFull
  cases hc : count? schema index with
  | none => rfl
  | some count =>
    have := hr count hc
    simp
    omega

theorem reads_bytes (read : Bytes) (byte : UInt8) (rest : Bytes)
    (hr : HasRoom schema index (read.length + (rest.length + 1))) :
    Reads schema ⟨found, .bytesValue form index read⟩
      (listed ((byte :: rest).map fun byte => [integerToken byte.toNat]) ++ [.endArray])
      (take ⟨found, .bytesValue form index read⟩ form index
        (.bytes (read.reverse ++ byte :: rest))) := by
  induction rest generalizing read byte with
  | nil =>
    have hl : HasRoom schema index (byte :: read).length := by simpa using hr
    have he := bytesEnd_room ⟨found, .bytesNext form index (byte :: read)⟩ form hl
    rw [List.reverse_cons] at he
    exact .cons (byteStep_integerToken ..) (.cons he (.nil _))
  | cons next rest ih =>
    have hf : isFull schema index (byte :: read) = false := isFull_room hr (by simp)
    have hn := ih (byte :: read) next (by
      have hl : (byte :: read).length + (rest.length + 1) =
          read.length + ((next :: rest).length + 1) := by simp; omega
      rwa [hl])
    rw [List.reverse_cons, List.append_assoc] at hn
    simp only [List.map_cons, listed_cons_cons, List.append_assoc, List.cons_append]
    refine .cons (byteStep_integerToken ..) (.cons ?_ hn)
    show (if isFull schema index (byte :: read) then _ else _) = _
    rw [hf]
    rfl

-- ---------------------------------------------------------------------
-- Fields

variable {column : Column} {field : Field}

theorem reads_bytesOpen (value : Bytes) (hr : HasRoom schema index value.length) :
    Reads schema ⟨found, .bytesOpen form index⟩
      (listed (value.map fun byte => [integerToken byte.toNat]) ++ [.endArray])
      (take ⟨found, .bytesOpen form index⟩ form index (.bytes value)) := by
  cases value with
  | nil => exact .cons (bytesEnd_room _ form hr) (.nil _)
  | cons byte rest =>
    -- the first byte is read alike after the bracket and after a comma
    have hb := @reads_bytes schema found form index [] byte rest (by simpa using hr)
    cases rest with
    | nil => exact hb
    | cons next rest => exact hb

theorem reads_field (hc : schema[index]? = some column) (hb : column.type.Bounded)
    (ha : column.type.Admits field) :
    Reads schema ⟨found, .value form (some index)⟩ field.tokens
      (take ⟨found, .start⟩ form index field) := by
  obtain ⟨name, type, default⟩ := column
  cases type with
  | integer low high =>
    cases field with
    | integer value =>
      obtain ⟨hl, hh⟩ := ha
      have hi := integer_integerToken hb hl hh
      refine .cons ?_ (.nil _)
      show fieldStep schema _ form index _ = _
      simp only [fieldStep, hc, Option.map_some, hi]
      rfl
    | bytes value => cases ha
  | bytes count =>
    cases field with
    | integer value => cases count <;> cases ha
    | bytes value =>
      have hr : HasRoom schema index value.length := by
        intro expected he
        simp only [count?, hc, Option.map_some] at he
        subst he
        exact ha
      refine .cons ?_ (reads_bytesOpen value hr)
      show fieldStep schema _ form index _ = _
      simp only [fieldStep, hc, Option.map_some]

end Reading

end FabricMemory.Json
