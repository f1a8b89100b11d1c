import FabricMemory.Proofs.Dialogue
import FabricMemory.Proofs.Json.Lexing
import FabricMemory.Proofs.Json.Tally

/-!
# What is read presents a record

What the reader has accepted so far is the front of a document, and tells the fields it has found
(`Traces`); each further token that it accepts keeps that so (`Traces.step`). Hence a text that is
read as fields is a document that presents them (`presents_of_readRecord`).
-/

namespace FabricMemory.Json

-- ---------------------------------------------------------------------
-- Parts with their commas

def ended (parts : List (List Token)) : List Token := parts.flatMap (· ++ [.comma])

@[simp] theorem ended_nil : ended [] = [] := by rfl

theorem ended_append (parts : List (List Token)) (part : List Token) :
    ended parts ++ part = listed (parts ++ [part]) := by
  induction parts with
  | nil => simp [listed_singleton]
  | cons first parts ih =>
    obtain ⟨next, rest, hr⟩ := List.exists_cons_of_ne_nil (l := parts ++ [part]) (by simp)
    rw [List.cons_append, hr, listed_cons_cons, ← hr, ← ih]
    simp [ended]

theorem listed_append_comma {parts : List (List Token)} (h : parts ≠ []) :
    listed parts ++ [.comma] = ended parts := by
  obtain ⟨front, last, rfl⟩ := List.eq_nil_or_concat parts |>.resolve_left h
  rw [List.concat_eq_append, ← ended_append]
  simp [ended]

-- ---------------------------------------------------------------------
-- Values to skip

inductive Before : List Bracket → List Token → Prop
  | bare : Before [] []
  | item {stack : List Bracket} {front : List Token} {items : List (List Token)} :
      Before stack front → (∀ item ∈ items, Value item) →
      Before (.array :: stack) (front ++ .beginArray :: ended items)
  | member {stack : List Bracket} {front : List Token} {entries : List Entry} {key : List Piece} :
      Before stack front → (∀ entry ∈ entries, Value entry.2) →
      Before (.object :: stack)
        (front ++ .beginObject :: (ended (entries.map entryTokens) ++ [.text key none, .colon]))

/-- The front of a value, up to where it is skipped. -/
inductive Inside : List Bracket → Skipping → List Token → Prop
  | value {stack : List Bracket} {front : List Token} :
      Before stack front → Inside stack .value front
  | openedArray {stack : List Bracket} {front : List Token} :
      Before stack front → Inside (.array :: stack) .opened (front ++ [.beginArray])
  | openedObject {stack : List Bracket} {front : List Token} :
      Before stack front → Inside (.object :: stack) .opened (front ++ [.beginObject])
  | afterItem {stack : List Bracket} {front : List Token} {items : List (List Token)} :
      Before stack front → (∀ item ∈ items, Value item) → items ≠ [] →
      Inside (.array :: stack) .after (front ++ .beginArray :: listed items)
  | afterMember {stack : List Bracket} {front : List Token} {entries : List Entry} :
      Before stack front → (∀ entry ∈ entries, Value entry.2) → entries ≠ [] →
      Inside (.object :: stack) .after
        (front ++ .beginObject :: listed (entries.map entryTokens))
  | key {stack : List Bracket} {front : List Token} {entries : List Entry} :
      Before stack front → (∀ entry ∈ entries, Value entry.2) →
      Inside (.object :: stack) .key (front ++ .beginObject :: ended (entries.map entryTokens))
  | colon {stack : List Bracket} {front : List Token} {entries : List Entry} {key : List Piece} :
      Before stack front → (∀ entry ∈ entries, Value entry.2) →
      Inside (.object :: stack) .colon
        (front ++ .beginObject :: (ended (entries.map entryTokens) ++ [.text key none]))
  | done {value : List Token} : Value value → Inside [] .after value

/-- Where skipping stands after these tokens: within a value, or behind it. -/
def Skipped (stage : Stage) (read : List Token) : Prop :=
  (∃ stack skipping, stage = .skip stack skipping ∧ Inside stack skipping read) ∨
    stage = .member ∧ Value read

theorem Inside.skipped {stack : List Bracket} {read : List Token} (h : Inside stack .after read) :
    Skipped (Reading.afterSkipped stack) read := by
  cases h with
  | done hv => exact .inr ⟨rfl, hv⟩
  | afterItem hb hi hn => exact .inl ⟨_, _, rfl, .afterItem hb hi hn⟩
  | afterMember hb he hn => exact .inl ⟨_, _, rfl, .afterMember hb he hn⟩

namespace Before

variable {stack : List Bracket} {front : List Token} {token : Token} {stage : Stage}

theorem filled (h : Before stack front) {value : List Token} (hv : Value value) :
    Skipped (Reading.afterSkipped stack) (front ++ value) := by
  refine Inside.skipped ?_
  cases h with
  | bare => exact .done hv
  | @item stack front items hb hi =>
    rw [List.append_assoc, List.cons_append, ended_append]
    exact .afterItem hb (List.forall_mem_append.mpr ⟨hi, List.forall_mem_singleton.mpr hv⟩)
      (by simp)
  | @member stack front entries key hb he =>
    have hl : ended (entries.map entryTokens) ++ ([.text key none, .colon] ++ value) =
        listed ((entries ++ [(key, value)]).map entryTokens) := by
      rw [List.map_append, List.map_singleton, ← ended_append]
      rfl
    rw [List.append_assoc, List.cons_append, List.append_assoc, hl]
    exact .afterMember hb (List.forall_mem_append.mpr ⟨he, List.forall_mem_singleton.mpr hv⟩)
      (by simp)

theorem skipValue (h : Before stack front) (hs : Reading.skipValue stack token = .ok stage) :
    Skipped stage (front ++ [token]) := by
  cases token with
  | beginArray =>
    cases hs
    exact .inl ⟨_, _, rfl, .openedArray h⟩
  | beginObject =>
    cases hs
    exact .inl ⟨_, _, rfl, .openedObject h⟩
  | endArray | endObject | comma | colon | stray => cases hs
  | word fault =>
    cases fault with
    | none =>
      cases hs
      exact h.filled .word
    | some fault => cases hs
  | number literal =>
    cases literal with
    | ok literal =>
      cases hs
      exact h.filled (.number literal)
    | error stop => cases hs
  | text pieces fault =>
    cases fault with
    | none =>
      cases hs
      exact h.filled (.text pieces)
    | some fault => cases hs

end Before

namespace Inside

variable {stack : List Bracket} {skipping : Skipping} {front read : List Token} {token : Token}
  {stage : Stage}

theorem skipKey {entries : List Entry} (hb : Before stack front)
    (he : ∀ entry ∈ entries, Value entry.2)
    (hs : Reading.skipKey (.object :: stack) token = .ok stage) :
    Skipped stage (front ++ .beginObject :: ended (entries.map entryTokens) ++ [token]) := by
  rw [Reading.skipKey.eq_def] at hs
  split at hs
  · cases hs
    rw [List.append_assoc, List.cons_append]
    exact .inl ⟨_, _, rfl, .colon hb he⟩
  · cases hs
  · cases hs

theorem step (h : Inside stack skipping read)
    (hs : Reading.skipStep stack skipping token = .ok stage) : Skipped stage (read ++ [token]) := by
  cases h with
  | value hb => exact hb.skipValue hs
  | @openedArray stack front hb =>
    by_cases ht : token = .endArray
    · subst ht
      cases hs
      rw [List.append_assoc]
      exact hb.filled (.row (by simp) : Value (rowTokens []))
    · have hs : Reading.skipValue (.array :: stack) token = .ok stage := by
        rw [← hs]
        cases token <;> first | rfl | exact absurd rfl ht
      have hb : Before (.array :: stack) (front ++ .beginArray :: ended []) := .item hb (by simp)
      exact hb.skipValue hs
  | @openedObject stack front hb =>
    by_cases ht : token = .endObject
    · subst ht
      cases hs
      rw [List.append_assoc]
      exact hb.filled (.object (by simp) : Value (objectTokens []))
    · have hs : Reading.skipKey (.object :: stack) token = .ok stage := by
        rw [← hs]
        cases token <;> first | rfl | exact absurd rfl ht
      exact skipKey hb (by simp : ∀ entry ∈ ([] : List Entry), Value entry.2) hs
  | @afterItem stack front items hb hi hn =>
    cases token <;> try cases hs
    · rw [List.append_assoc]
      exact hb.filled (.row hi)
    · rw [List.append_assoc, List.cons_append, listed_append_comma hn]
      exact .inl ⟨_, _, rfl, .value (.item hb hi)⟩
  | @afterMember stack front entries hb he hn =>
    cases token <;> try cases hs
    · rw [List.append_assoc]
      exact hb.filled (.object he)
    · rw [List.append_assoc, List.cons_append, listed_append_comma (by simpa using hn)]
      exact .inl ⟨_, _, rfl, .key hb he⟩
  | key hb he => exact skipKey hb he hs
  | colon hb he =>
    cases token <;> try cases hs
    rw [List.append_assoc, List.cons_append, List.append_assoc]
    exact .inl ⟨_, _, rfl, .value (.member hb he)⟩
  | done hv => cases hs

end Inside

-- ---------------------------------------------------------------------
-- Documents that are read

def Form.next : Form → Nat → Stage
  | .object, _ => .member
  | .row, column => .rowNext (column + 1)

def membersTokens (members : List Member) : List (List Token) :=
  (members.map Member.entry).map entryTokens

theorem byteTokens_cons (byte : UInt8) (read : Bytes) :
    listed (byteTokens (byte :: read).reverse) =
      ended (byteTokens read.reverse) ++ [integerToken byte.toNat] := by
  rw [List.reverse_cons, byteTokens, List.map_append, List.map_singleton, ← ended_append]
  rfl

section

variable (schema : Schema) (found : List (Option Field))

structure Keyed (members : List Member) (key : List Piece) (column : Option Nat) : Prop where
  tells : Tells schema found (.object members)
  formed : (Document.object members).Formed
  spelled : ∃ name, Spells key name ∧
    (schema.findIdx? fun column => column.name.toList = name) = column
  vacant (index : Nat) : column = some index → found[index]? = some none

inductive Awaits : Form → Option Nat → List Token → Prop
  | member {members : List Member} {key : List Piece} {column : Option Nat} :
      Keyed schema found members key column →
      Awaits .object column
        (.beginObject :: (ended (membersTokens members) ++ [.text key none, .colon]))
  | item {items : List (List Token)} :
      Tells schema found (.row items) → (Document.row items).Formed →
      Awaits .row (some items.length) (.beginArray :: ended items)

/-- The front of a document, up to the end of a value. -/
inductive Filled : Stage → List Token → Prop
  | member {members : List Member} :
      Tells schema found (.object members) → (Document.object members).Formed → members ≠ [] →
      Filled .member (.beginObject :: listed (membersTokens members))
  | item {items : List (List Token)} :
      Tells schema found (.row items) → (Document.row items).Formed → items ≠ [] →
      (Document.row items).Within schema →
      Filled (.rowNext items.length) (.beginArray :: listed items)

end

structure AwaitsBytes (schema : Schema) (found : List (Option Field)) (form : Form) (index : Nat)
    (front : List Token) : Prop where
  awaits : Awaits schema found form (some index) front
  column : ∃ column count, schema[index]? = some column ∧ column.type = .bytes count

/-- What the reader may have accepted where it stands. -/
inductive Traces (schema : Schema) : Reading → List Token → Prop
  | start : Traces schema (.initial schema) []
  | members {found : List (Option Field)} :
      Tells schema found (.object []) → Traces schema ⟨found, .members⟩ [.beginObject]
  | key {found : List (Option Field)} {members : List Member} :
      Tells schema found (.object members) → (Document.object members).Formed →
      Traces schema ⟨found, .key⟩ (.beginObject :: ended (membersTokens members))
  | colon {found : List (Option Field)} {members : List Member} {key : List Piece}
      {column : Option Nat} : Keyed schema found members key column →
      Traces schema ⟨found, .colon column⟩
        (.beginObject :: (ended (membersTokens members) ++ [.text key none]))
  | value {found : List (Option Field)} {form : Form} {column : Option Nat} {front : List Token} :
      Awaits schema found form column front → Traces schema ⟨found, .value form column⟩ front
  | filled {found : List (Option Field)} {stage : Stage} {read : List Token} :
      Filled schema found stage read → Traces schema ⟨found, stage⟩ read
  | row {found : List (Option Field)} :
      Tells schema found (.row []) → Traces schema ⟨found, .row⟩ [.beginArray]
  | bytesOpen {found : List (Option Field)} {form : Form} {index : Nat} {front : List Token} :
      AwaitsBytes schema found form index front →
      Traces schema ⟨found, .bytesOpen form index⟩ (front ++ [.beginArray])
  | bytesValue {found : List (Option Field)} {form : Form} {index : Nat} {front : List Token}
      {read : Bytes} : AwaitsBytes schema found form index front →
      Traces schema ⟨found, .bytesValue form index read⟩
        (front ++ .beginArray :: ended (byteTokens read.reverse))
  | bytesNext {found : List (Option Field)} {form : Form} {index : Nat} {front : List Token}
      {read : Bytes} : AwaitsBytes schema found form index front → read ≠ [] →
      Traces schema ⟨found, .bytesNext form index read⟩
        (front ++ .beginArray :: listed (byteTokens read.reverse))
  | skip {found : List (Option Field)} {stack : List Bracket} {skipping : Skipping}
      {front read : List Token} : Awaits schema found .object none front →
      Inside stack skipping read → Traces schema ⟨found, .skip stack skipping⟩ (front ++ read)
  | closed {found : List (Option Field)} {document : Document} :
      Tells schema found document → document.Formed → document.Within schema →
      Traces schema ⟨found, .closed⟩ document.tokens

section

variable {schema : Schema} {found : List (Option Field)} {form : Form} {index : Nat}
  {front read : List Token} {column : Column} {field : Field} {stage : Stage} {token : Token}
  {after : Reading}

theorem ended_member (members : List Member) (key : List Piece) (name : List Char)
    (value : List Token) :
    ended (membersTokens members) ++ ([.text key none, .colon] ++ value) =
      listed (membersTokens (members ++ [⟨key, name, value⟩])) := by
  simp only [membersTokens, List.map_append, List.map_singleton, ← ended_append]
  rfl

theorem formed_snoc {members : List Member} {member : Member}
    (h : (Document.object members).Formed) (hk : Spells member.key member.name)
    (hv : Value member.value) : (Document.object (members ++ [member])).Formed :=
  List.forall_mem_append.mpr ⟨h, List.forall_mem_singleton.mpr ⟨hk, hv⟩⟩

theorem Awaits.skip (h : Awaits schema found .object none front) {value : List Token}
    (hv : Value value) : Filled schema found .member (front ++ value) := by
  cases h with
  | member hk =>
    obtain ⟨ht, hf, ⟨name, hn, hi⟩, -⟩ := hk
    rw [List.cons_append, List.append_assoc, ended_member _ _ name]
    exact .member (ht.skipMember (ne_of_findIdx? hi)) (formed_snoc hf hn hv) (by simp)

theorem Awaits.store (hs : schema.Sound) (h : Awaits schema found form (some index) front)
    (hc : schema[index]? = some column) (ha : column.type.Admits field) :
    Filled schema (found.set index (some field)) (form.next index) (front ++ field.tokens) := by
  cases h with
  | member hk =>
    obtain ⟨ht, hf, ⟨name, hn, hi⟩, hv⟩ := hk
    obtain ⟨column', hc', he⟩ := column_of_findIdx? hi
    obtain rfl := Option.some.inj (hc.symm.trans hc')
    rw [List.cons_append, List.append_assoc, ended_member _ _ name]
    exact .member (ht.storeMember hs hc he (hv index rfl) ha rfl)
      (formed_snoc hf hn field.value_tokens) (by simp)
  | @item items ht hf =>
    have hl : items.length < schema.length := (List.getElem?_eq_some_iff.mp hc).1
    rw [List.cons_append, ended_append]
    have hn : (items ++ [field.tokens]).length = items.length + 1 := by simp
    have hfilled : Filled schema (found.set items.length (some field))
        (.rowNext (items ++ [field.tokens]).length)
        (.beginArray :: listed (items ++ [field.tokens])) := by
      exact .item (ht.storeItem hc ha)
        (List.forall_mem_append.mpr ⟨hf, List.forall_mem_singleton.mpr field.value_tokens⟩)
        (by simp) (by simpa [Document.Within])
    rwa [hn] at hfilled

-- ---------------------------------------------------------------------
-- Steps

theorem sound_of_integer {low high value : Int} (h : token.integer low high = .ok value) :
    token.Sound := by
  rw [Token.integer.eq_def] at h
  split at h
  · rfl
  · cases h

namespace Traces

theorem close {document : Document} (ht : Tells schema found document) (hf : document.Formed)
    (hw : document.Within schema) (h : Reading.close schema ⟨found, stage⟩ = .ok after) :
    Traces schema after document.tokens := by
  obtain ⟨fields, -, h⟩ := bind_eq_ok h
  cases h
  exact .closed ht hf hw

theorem keyStep {members : List Member} (ht : Tells schema found (.object members))
    (hf : (Document.object members).Formed)
    (h : Reading.keyStep schema ⟨found, stage⟩ token = .ok after) :
    Traces schema after (.beginObject :: ended (membersTokens members) ++ [token]) := by
  cases token with
  | text pieces fault =>
    obtain ⟨name, hj, -⟩ := bind_eq_ok h
    obtain ⟨rfl, name, -, hn⟩ := spells_of_joinPieces hj
    rw [Reading.keyStep_spelled hn] at h
    split at h
    · rename_i hi
      cases h
      exact .colon ⟨ht, hf, ⟨name, hn, hi⟩, by simp⟩
    · rename_i index hi
      split at h
      · cases h
      · rename_i hv
        cases h
        refine .colon ⟨ht, hf, ⟨name, hn, hi⟩, fun other ho => ?_⟩
        obtain rfl := Option.some.inj ho
        obtain ⟨column, hc, -⟩ := column_of_findIdx? hi
        obtain ⟨he, -⟩ | ⟨field, he, -⟩ := ht.entry hc
        · exact he
        · simp [he] at hv
  | _ => cases h

theorem stored (hs : schema.Sound) (h : Awaits schema found form (some index) front)
    (hc : schema[index]? = some column) (field : Field) (ha : column.type.Admits field) :
    Traces schema (Reading.take ⟨found, stage⟩ form index field) (front ++ field.tokens) := by
  have hf := h.store hs hc ha
  cases form with
  | object => exact .filled hf
  | row => exact .filled hf

theorem skipped (h : Awaits schema found .object none front) (hs : Skipped stage read) :
    Traces schema ⟨found, stage⟩ (front ++ read) := by
  obtain ⟨stack, skipping, rfl, hi⟩ | ⟨rfl, hv⟩ := hs
  · exact .skip h hi
  · exact .filled (h.skip hv)

theorem fieldStep (hs : schema.Sound) (h : Awaits schema found form (some index) front)
    (hw : token.Sound → ∃ text, Written text token)
    (hstep : Reading.fieldStep schema ⟨found, stage⟩ form index token = .ok after) :
    Traces schema after (front ++ [token]) := by
  rw [Reading.fieldStep.eq_def] at hstep
  cases hc : schema[index]? with
  | none => simp [hc] at hstep
  | some column =>
    obtain ⟨name, type, default⟩ := column
    simp only [hc, Option.map_some] at hstep
    cases type with
    | integer low high =>
      obtain ⟨value, hi, hstep⟩ := bind_eq_ok hstep
      cases hstep
      obtain ⟨text, hw⟩ := hw (sound_of_integer hi)
      obtain ⟨rfl, hb⟩ := eq_integerToken hw hi
      exact stored hs h hc (.integer value) hb
    | bytes count =>
      cases token <;> try cases hstep
      exact .bytesOpen ⟨h, _, _, hc, rfl⟩

theorem byteStep (h : AwaitsBytes schema found form index front) {read : Bytes}
    (hw : token.Sound → ∃ text, Written text token)
    (hstep : Reading.byteStep ⟨found, stage⟩ form index read token = .ok after) :
    Traces schema after
      (front ++ .beginArray :: ended (byteTokens read.reverse) ++ [token]) := by
  obtain ⟨value, hi, hstep⟩ := bind_eq_ok hstep
  cases hstep
  obtain ⟨text, hw⟩ := hw (sound_of_integer hi)
  obtain ⟨rfl, hl, hh⟩ := eq_integerToken hw hi
  have hn : ((UInt8.ofNat value.toNat).toNat : Int) = value := by
    rw [UInt8.toNat_ofNat']
    omega
  have ht : Traces schema ⟨found, .bytesNext form index (UInt8.ofNat value.toNat :: read)⟩ _ :=
    .bytesNext h (by simp)
  rw [byteTokens_cons, hn] at ht
  rwa [List.append_assoc]

theorem bytesEnd (hs : schema.Sound) (h : AwaitsBytes schema found form index front)
    {read : Bytes} (hstep : Reading.bytesEnd schema ⟨found, stage⟩ form index read = .ok after) :
    Traces schema after (front ++ (Field.bytes read.reverse).tokens) := by
  obtain ⟨h, ⟨name, type, default⟩, count, hc, rfl⟩ := h
  rw [Reading.bytesEnd.eq_def, Reading.count?, hc] at hstep
  cases count with
  | none =>
    cases hstep
    exact stored hs h hc (.bytes read.reverse) trivial
  | some count =>
    simp only [Option.map_some] at hstep
    split at hstep
    · rename_i hl
      cases hstep
      exact stored hs h hc (.bytes read.reverse) (by simpa [FieldType.Admits] using hl)
    · cases hstep

theorem filledStep (h : Filled schema found stage read)
    (hstep : Reading.step schema ⟨found, stage⟩ token = .ok after) :
    Traces schema after (read ++ [token]) := by
  cases h with
  | @member members ht hf hn =>
    cases token <;> try cases hstep
    · exact close ht hf trivial hstep
    · rw [List.cons_append, listed_append_comma (by simpa [membersTokens] using hn)]
      exact .key ht hf
  | @item items ht hf hn hl =>
    cases token <;> try cases hstep
    · exact close ht hf hl hstep
    · change (if items.length < schema.length then _ else _) = _ at hstep
      split at hstep
      · cases hstep
        rw [List.cons_append, listed_append_comma hn]
        exact .value (.item ht hf)
      · cases hstep

theorem bytesNextStep (hs : schema.Sound) (h : AwaitsBytes schema found form index front)
    {read : Bytes} (hr : read ≠ [])
    (hstep : Reading.step schema ⟨found, .bytesNext form index read⟩ token = .ok after) :
    Traces schema after
      (front ++ .beginArray :: listed (byteTokens read.reverse) ++ [token]) := by
  cases token <;> try cases hstep
  · rw [List.append_assoc]
    exact bytesEnd hs h hstep
  · change (if Reading.isFull schema index read then _ else _) = _ at hstep
    split at hstep
    · cases hstep
    · cases hstep
      have hn : byteTokens read.reverse ≠ [] := by simpa [byteTokens] using hr
      rw [List.append_assoc, List.cons_append, listed_append_comma hn]
      exact .bytesValue h

/-- Each token that is accepted keeps what has been accepted the front of a document. -/
theorem step (hs : schema.Sound) {state : Reading} (h : Traces schema state read)
    (hw : token.Sound → ∃ text, Written text token)
    (hstep : Reading.step schema state token = .ok after) :
    Traces schema after (read ++ [token]) := by
  cases h with
  | start =>
    cases token <;> try cases hstep
    · exact .row (.initial fun _ _ => rfl)
    · exact .members (.initial fun _ _ => rfl)
  | @members found ht =>
    have hf : (Document.object []).Formed := by simp [Document.Formed]
    by_cases he : token = .endObject
    · subst he
      exact close ht hf trivial hstep
    · have hstep : Reading.keyStep schema ⟨found, .members⟩ token = .ok after := by
        rw [← hstep]
        cases token <;> first | rfl | exact absurd rfl he
      exact keyStep ht hf hstep
  | key ht hf => exact keyStep ht hf hstep
  | colon hk =>
    cases token <;> try cases hstep
    rw [List.cons_append, List.append_assoc]
    exact .value (.member hk)
  | @value found form column front ha =>
    cases column with
    | some index => exact fieldStep hs ha hw hstep
    | none =>
      obtain ⟨stage, hv, hstep⟩ := bind_eq_ok hstep
      cases hstep
      have hskip := Before.bare.skipValue hv
      cases ha with
      | member hk => exact skipped (.member hk) hskip
  | filled hf => exact filledStep hf hstep
  | @row found ht =>
    have hf : (Document.row []).Formed := by simp [Document.Formed]
    by_cases he : token = .endArray
    · subst he
      exact close ht hf (Nat.zero_le _) hstep
    · have hstep : Reading.fieldStep schema ⟨found, .row⟩ .row 0 token = .ok after := by
        rw [← hstep]
        cases token <;> first | rfl | exact absurd rfl he
      exact fieldStep hs (.item ht hf) hw hstep
  | @bytesOpen found form index front hb =>
    by_cases he : token = .endArray
    · subst he
      rw [List.append_assoc]
      exact bytesEnd hs hb hstep
    · have hstep : Reading.byteStep ⟨found, .bytesOpen form index⟩ form index [] token =
          .ok after := by
        rw [← hstep]
        cases token <;> first | rfl | exact absurd rfl he
      exact byteStep hb hw hstep
  | bytesValue hb => exact byteStep hb hw hstep
  | bytesNext hb hr => exact bytesNextStep hs hb hr hstep
  | skip ha hi =>
    obtain ⟨stage, hs, hstep⟩ := bind_eq_ok hstep
    cases hstep
    rw [List.append_assoc]
    exact skipped ha (hi.step hs)
  | closed => cases hstep

theorem run (hs : schema.Sound) {state : Reading} {rest : List Token}
    (h : Traces schema state read) (hw : ∀ token ∈ rest, token.Sound → ∃ text, Written text token)
    (hr : Reading.Reads schema state rest after) : Traces schema after (read ++ rest) := by
  induction rest generalizing state read with
  | nil =>
    cases hr
    rwa [List.append_nil]
  | cons token rest ih =>
    rw [Reading.Reads, List.foldlM_cons] at hr
    obtain ⟨middle, hstep, hr⟩ := bind_eq_ok hr
    rw [List.append_cons]
    exact ih (h.step hs (hw token (.head _)) hstep) (fun other ho => hw other (.tail _ ho)) hr

theorem document_of_closed {state : Reading} (h : Traces schema state read)
    (hc : state.stage = .closed) :
    ∃ document : Document, read = document.tokens ∧ Tells schema state.found document ∧
      document.Formed ∧ document.Within schema := by
  cases h with
  | closed ht hf hw => exact ⟨_, rfl, ht, hf, hw⟩
  | filled hf => cases hf <;> cases hc
  | _ => cases hc

end Traces

end

theorem presents_of_readRecord {schema : Schema} {fields : List Field} {text : List Char}
    (hs : schema.Sound) (h : readRecord schema text = .ok fields) :
    schema.Admits fields ∧
      ∃ document : Document, document.Stands text ∧ Presents schema fields document := by
  obtain ⟨state, hr, h⟩ := bind_eq_ok h
  split at h
  · rename_i hc
    have ht := Traces.start.run hs (fun _ => written_of_mem) hr
    obtain ⟨document, hd, ht, hf, hw⟩ := ht.document_of_closed hc
    obtain ⟨ha, hp⟩ := (ht.fields_eq_ok_iff hs hw).mp h
    rw [List.nil_append] at hd
    exact ⟨ha, document, hf.stands hd, hp⟩
  · cases h

end FabricMemory.Json
