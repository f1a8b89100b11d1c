import FabricMemory.Proofs.Json.Lexing
import FabricMemory.Proofs.Json.Tally

/-!
# What presents a record is read

`readRecord_of_presents`: whatever document presents fields, in whatever order and with whatever
else between them, is read as these fields.
-/

namespace FabricMemory.Json

namespace Reading

variable {schema : Schema} {found : List (Option Field)} {stage : Stage} {stack : List Bracket}

-- ---------------------------------------------------------------------
-- Skipping

def Skips (schema : Schema) (state : Reading) (stack : List Bracket) : Prop :=
  ∀ token, token ≠ .endArray →
    step schema state token = (skipValue stack token).map fun stage => ⟨state.found, stage⟩

theorem skips_value (found : List (Option Field)) (stack : List Bracket) :
    Skips schema ⟨found, .skip stack .value⟩ stack := by
  intro token _
  show (skipValue stack token >>= fun stage => _) = _
  cases skipValue stack token <;> rfl

theorem skips_opened (found : List (Option Field)) (stack : List Bracket) :
    Skips schema ⟨found, .skip (.array :: stack) .opened⟩ (.array :: stack) := by
  intro token ht
  have hs : skipStep (.array :: stack) .opened token = skipValue (.array :: stack) token := by
    cases token <;> first | rfl | exact absurd rfl ht
  show (skipStep (.array :: stack) .opened token >>= fun stage => _) = _
  rw [hs]
  cases skipValue (.array :: stack) token <;> rfl

theorem skips_member (found : List (Option Field)) (form : Form) :
    Skips schema ⟨found, .value form none⟩ [] := by
  intro token _
  show (skipValue [] token >>= fun stage => _) = _
  cases skipValue [] token <;> rfl

theorem reads_items {items : List (List Token)}
    (hi : ∀ item ∈ items, ∀ stage stack, Skips schema ⟨found, stage⟩ stack →
      Reads schema ⟨found, stage⟩ item ⟨found, afterSkipped stack⟩) :
    Reads schema ⟨found, .skip (.array :: stack) .after⟩
      (items.flatMap (.comma :: ·) ++ [.endArray]) ⟨found, afterSkipped stack⟩ := by
  induction items with
  | nil => exact .cons rfl (.nil _)
  | cons item items ih =>
    have hf := hi item (.head _) _ _ (skips_value found (.array :: stack))
    rw [List.flatMap_cons, List.append_assoc]
    exact .cons rfl (hf.append (ih fun part hp => hi part (.tail _ hp)))

theorem reads_entry (stack : List Bracket) {entry : Entry}
    (he : ∀ stage stack, Skips schema ⟨found, stage⟩ stack →
      Reads schema ⟨found, stage⟩ entry.2 ⟨found, afterSkipped stack⟩)
    {skipping : Skipping} (hs : skipping = .opened ∨ skipping = .key) :
    Reads schema ⟨found, .skip (.object :: stack) skipping⟩ (entryTokens entry)
      ⟨found, .skip (.object :: stack) .after⟩ := by
  have hv := he _ _ (skips_value found (.object :: stack))
  obtain rfl | rfl := hs <;> exact .cons rfl (.cons rfl hv)

theorem reads_entries {entries : List Entry}
    (he : ∀ entry ∈ entries, ∀ stage stack, Skips schema ⟨found, stage⟩ stack →
      Reads schema ⟨found, stage⟩ entry.2 ⟨found, afterSkipped stack⟩) :
    Reads schema ⟨found, .skip (.object :: stack) .after⟩
      ((entries.map entryTokens).flatMap (.comma :: ·) ++ [.endObject])
      ⟨found, afterSkipped stack⟩ := by
  induction entries with
  | nil => exact .cons rfl (.nil _)
  | cons entry entries ih =>
    have hf := reads_entry stack (he entry (.head _)) (.inr rfl)
    rw [List.map_cons, List.flatMap_cons, List.append_assoc]
    exact .cons rfl (hf.append (ih fun part hp => he part (.tail _ hp)))

theorem reads_value {value : List Token} (hv : Value value)
    (h : Skips schema ⟨found, stage⟩ stack) :
    Reads schema ⟨found, stage⟩ value ⟨found, afterSkipped stack⟩ := by
  induction hv generalizing stage stack with
  | word | number | text =>
    refine .cons ?_ (.nil _)
    rw [h _ (by simp)]
    rfl
  | @row items hi ih =>
    refine .cons (h _ (by simp)) ?_
    cases items with
    | nil => exact .cons rfl (.nil _)
    | cons item items =>
      rw [listed_cons, List.append_assoc]
      exact (ih item (.head _) (skips_opened found stack)).append
        (reads_items fun part hp _ _ => ih part (.tail _ hp))
  | @object entries hv ih =>
    refine .cons (h _ (by simp)) ?_
    cases entries with
    | nil => exact .cons rfl (.nil _)
    | cons entry entries =>
      rw [List.map_cons, listed_cons, List.append_assoc]
      exact (reads_entry stack (fun _ _ => ih entry (.head _)) (.inl rfl)).append
        (reads_entries fun part hp _ _ => ih part (.tail _ hp))

-- ---------------------------------------------------------------------
-- Objects

variable {fields : List Field}

theorem closes (h : Reading.fields schema found = .ok fields) (stage : Stage) :
    close schema ⟨found, stage⟩ = .ok ⟨found, .closed⟩ := by
  rw [close, h]
  rfl

/-- The next member is read into the fields found, or skipped. -/
theorem reads_nextMember (hs : schema.Sound) (ha : schema.Admits fields) {seen rest : List Member}
    {member : Member} (hk : Spells member.key member.name) (hv : Value member.value)
    (hp : Presents schema fields (.object (seen ++ member :: rest)))
    (ht : Tells schema found (.object seen)) (hstage : stage = .members ∨ stage = .key) :
    ∃ found', Reads schema ⟨found, stage⟩ (entryTokens member.entry) ⟨found', .member⟩ ∧
      Tells schema found' (.object (seen ++ [member])) := by
  have hstep : step schema ⟨found, stage⟩ (.text member.key none) =
      keyStep schema ⟨found, stage⟩ (.text member.key none) := by
    obtain rfl | rfl := hstage <;> rfl
  rw [keyStep_spelled hk] at hstep
  cases hi : schema.findIdx? fun column => column.name.toList = member.name with
  | none =>
    rw [hi] at hstep
    exact ⟨found, .cons hstep (.cons rfl (reads_value hv (skips_member found .object))),
      ht.skipMember (ne_of_findIdx? hi)⟩
  | some index =>
    rw [hi] at hstep
    obtain ⟨column, hc, hn⟩ := column_of_findIdx? hi
    obtain ⟨field, hf, hadm⟩ := ha.field_of_column hc
    -- the member is all that the document gives for the column
    have hg := hp.gives hc hf
    rw [Document.values_object_append, Document.values_object_cons, if_pos hn.symm] at hg
    obtain ⟨hseen, hvalue, -⟩ : (Document.object seen).values index column = [] ∧
        member.value = field.tokens ∧ (Document.object rest).values index column = [] := by
      simpa [List.append_eq_cons_iff] using hg
    have hfound := (ht.vacant_iff hc).mpr hseen
    simp only [hfound, Option.join_some, Option.isSome_none, Bool.false_eq_true, if_false] at hstep
    refine ⟨found.set index (some field), .cons hstep (.cons rfl ?_),
      ht.storeMember hs hc hn hfound hadm hvalue⟩
    rw [show member.entry.2 = field.tokens from hvalue]
    exact reads_field hc (hs.bounded column (List.mem_of_getElem? hc)) hadm

theorem reads_restMembers (hs : schema.Sound) (ha : schema.Admits fields) {seen rest : List Member}
    (hf : (Document.object rest).Formed)
    (hp : Presents schema fields (.object (seen ++ rest)))
    (ht : Tells schema found (.object seen)) :
    ∃ found', Reads schema ⟨found, .member⟩
        (((rest.map Member.entry).map entryTokens).flatMap (.comma :: ·)) ⟨found', .member⟩ ∧
      Tells schema found' (.object (seen ++ rest)) := by
  induction rest generalizing seen found with
  | nil => exact ⟨found, .nil _, by rwa [List.append_nil]⟩
  | cons member rest ih =>
    obtain ⟨hk, hv⟩ := hf member (.head _)
    obtain ⟨found₁, hr, ht⟩ := reads_nextMember hs ha hk hv hp ht (.inr rfl)
    rw [List.append_cons] at hp ⊢
    obtain ⟨found', hr', ht'⟩ := ih (fun other ho => hf other (.tail _ ho)) hp ht
    exact ⟨found', .cons rfl (hr.append hr'), ht'⟩

theorem reads_object (hs : schema.Sound) (ha : schema.Admits fields) {members : List Member}
    (hf : (Document.object members).Formed) (hp : Presents schema fields (.object members)) :
    ∃ found, Reads schema (initial schema) (Document.object members).tokens ⟨found, .closed⟩ ∧
      Reading.fields schema found = .ok fields := by
  have ht : Tells schema (schema.map fun _ => none) (.object []) := .initial fun _ _ => rfl
  cases members with
  | nil =>
    have hfields := (ht.fields_eq_ok_iff hs hp.within).mpr ⟨ha, hp⟩
    exact ⟨_, .cons rfl (.cons (closes hfields _) (.nil _)), hfields⟩
  | cons member rest =>
    obtain ⟨hk, hv⟩ := hf member (.head _)
    obtain ⟨found₁, hr, ht⟩ := reads_nextMember hs ha hk hv hp ht (.inl rfl)
    obtain ⟨found, hr', ht⟩ :=
      reads_restMembers hs ha (fun other ho => hf other (.tail _ ho)) hp ht
    have hfields := (ht.fields_eq_ok_iff hs hp.within).mpr ⟨ha, hp⟩
    refine ⟨found, .cons rfl ?_, hfields⟩
    rw [List.map_cons, List.map_cons, listed_cons]
    exact (hr.append hr').append (.cons (closes hfields _) (.nil _))

-- ---------------------------------------------------------------------
-- Rows

theorem reads_nextItem (hs : schema.Sound) (ha : schema.Admits fields)
    {seen rest : List (List Token)} {item : List Token}
    (hp : Presents schema fields (.row (seen ++ item :: rest)))
    (ht : Tells schema found (.row seen)) :
    ∃ found', Reads schema ⟨found, .value .row (some seen.length)⟩ item
        ⟨found', .rowNext (seen.length + 1)⟩ ∧
      Tells schema found' (.row (seen ++ [item])) := by
  have hl : seen.length < schema.length := by
    have hw : (seen ++ item :: rest).length ≤ schema.length := hp.within
    rw [List.length_append, List.length_cons] at hw
    omega
  have hc : schema[seen.length]? = some schema[seen.length] := by simp [hl]
  obtain ⟨field, hf, hadm⟩ := ha.field_of_column hc
  obtain rfl : item = field.tokens := by simpa [Document.values] using hp.gives hc hf
  exact ⟨found.set seen.length (some field),
    reads_field hc (hs.bounded _ (List.mem_of_getElem? hc)) hadm, ht.storeItem hc hadm⟩

theorem reads_restItems (hs : schema.Sound) (ha : schema.Admits fields)
    {seen rest : List (List Token)} (hp : Presents schema fields (.row (seen ++ rest)))
    (ht : Tells schema found (.row seen)) :
    ∃ found', Reads schema ⟨found, .rowNext seen.length⟩ (rest.flatMap (.comma :: ·))
        ⟨found', .rowNext (seen ++ rest).length⟩ ∧
      Tells schema found' (.row (seen ++ rest)) := by
  induction rest generalizing seen found with
  | nil => exact ⟨found, by rw [List.append_nil]; exact .nil _, by rwa [List.append_nil]⟩
  | cons item rest ih =>
    have hl : seen.length < schema.length := by
      have hw : (seen ++ item :: rest).length ≤ schema.length := hp.within
      rw [List.length_append, List.length_cons] at hw
      omega
    have hcomma : step schema ⟨found, .rowNext seen.length⟩ .comma =
        .ok ⟨found, .value .row (some seen.length)⟩ := by
      show (if seen.length < schema.length then _ else _) = _
      rw [if_pos hl]
    obtain ⟨found₁, hr, ht⟩ := reads_nextItem hs ha hp ht
    rw [List.append_cons] at hp ⊢
    obtain ⟨found', hr', ht'⟩ := ih hp ht
    rw [List.length_append] at hr'
    exact ⟨found', .cons hcomma (hr.append hr'), ht'⟩

theorem reads_first {item : List Token} {after : Reading} (hv : Value item)
    (h : Reads schema ⟨found, .value .row (some 0)⟩ item after) :
    Reads schema ⟨found, .row⟩ item after := by
  cases item with
  | nil => cases hv
  | cons token rest =>
    have hn : token ≠ .endArray := by
      rintro rfl
      exact (hv.ne_closing [] rest).1 (List.append_nil _)
    have hs : step schema ⟨found, .row⟩ token =
        step schema ⟨found, .value .row (some 0)⟩ token := by
      have hf : step schema ⟨found, .row⟩ token = fieldStep schema ⟨found, .row⟩ .row 0 token := by
        cases token <;> first | rfl | exact absurd rfl hn
      rw [hf]
      show _ = fieldStep schema ⟨found, .value .row (some 0)⟩ .row 0 token
      unfold fieldStep
      split <;> rfl
    rw [Reads, List.foldlM_cons, hs]
    exact h

theorem reads_row (hs : schema.Sound) (ha : schema.Admits fields) {items : List (List Token)}
    (hf : (Document.row items).Formed) (hp : Presents schema fields (.row items)) :
    ∃ found, Reads schema (initial schema) (Document.row items).tokens ⟨found, .closed⟩ ∧
      Reading.fields schema found = .ok fields := by
  have ht : Tells schema (schema.map fun _ => none) (.row []) := .initial fun _ _ => rfl
  cases items with
  | nil =>
    have hfields := (ht.fields_eq_ok_iff hs hp.within).mpr ⟨ha, hp⟩
    exact ⟨_, .cons rfl (.cons (closes hfields _) (.nil _)), hfields⟩
  | cons item rest =>
    obtain ⟨found₁, hr, ht⟩ := reads_nextItem hs ha hp ht
    obtain ⟨found, hr', ht⟩ := reads_restItems hs ha hp ht
    have hfields := (ht.fields_eq_ok_iff hs hp.within).mpr ⟨ha, hp⟩
    refine ⟨found, .cons rfl ?_, hfields⟩
    rw [listed_cons]
    exact ((reads_first (hf item (.head _)) hr).append hr').append
      (.cons (closes hfields _) (.nil _))

end Reading

theorem readRecord_of_presents {schema : Schema} {fields : List Field} {document : Document}
    {text : List Char} (hs : schema.Sound) (ha : schema.Admits fields)
    (hd : document.Stands text) (hp : Presents schema fields document) :
    readRecord schema text = .ok fields := by
  obtain ⟨hf, hl⟩ := hd
  have hr : ∃ found, Reading.Reads schema (Reading.initial schema) document.tokens
      ⟨found, .closed⟩ ∧ Reading.fields schema found = .ok fields := by
    cases document with
    | object members => exact Reading.reads_object hs ha hf hp
    | row items => exact Reading.reads_row hs ha hf hp
  obtain ⟨found, hr, hfields⟩ := hr
  rw [readRecord, tokens_of_lexes hl, hr]
  exact hfields

end FabricMemory.Json
