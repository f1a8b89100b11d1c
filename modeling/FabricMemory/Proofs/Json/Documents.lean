import FabricMemory.Proofs.Json.Grammar

/-!
# Documents and their tokens

No value is the beginning of another (`Value.unique`), so that a document is told by its tokens
(`Document.unique`).
-/

namespace FabricMemory.Json

-- ---------------------------------------------------------------------
-- Names

theorem joinPieces_of_spells {pieces : List Piece} {name : List Char} (h : Spells pieces name)
    (done : List Char) : joinPieces none done pieces = .ok (done.reverse ++ name) := by
  induction h generalizing done with
  | done => simp [joinPieces]
  | plain _ ih => simp [joinPieces, ih]
  | unit hc _ ih =>
    rw [joinPieces.eq_def]
    simp [hc, ih]
  | pair hh hh' hl hl' _ ih =>
    rw [joinPieces, if_neg (by omega), if_neg (by omega)]
    simp [hl, hl', ih]

theorem spells_of_joinPieces {fault : Option Fault} {done all : List Char} {pieces : List Piece}
    (h : joinPieces fault done pieces = .ok all) :
    fault = none ∧ ∃ name, all = done.reverse ++ name ∧ Spells pieces name := by
  fun_induction joinPieces fault done pieces with
  | case1 =>
    cases h
    exact ⟨‹_›, [], (List.append_nil _).symm, .done⟩
  | case3 done c pieces ih =>
    obtain ⟨hf, name, rfl, hs⟩ := ih h
    exact ⟨hf, c :: name, by simp, .plain hs⟩
  | case4 done code pieces hc ih =>
    obtain ⟨hf, name, rfl, hs⟩ := ih h
    exact ⟨hf, Char.ofNat code :: name, by simp, .unit hc hs⟩
  | case7 done high hh hh' low pieces hl code ih =>
    obtain ⟨hf, name, rfl, hs⟩ := ih h
    exact ⟨hf, Char.ofNat code :: name, by simp,
      .pair (by omega) (by omega) hl.1 hl.2 hs⟩
  | case2 | case5 | case6 | case8 | case9 => cases h

theorem Spells.unique {pieces : List Piece} {name name' : List Char} (h : Spells pieces name)
    (h' : Spells pieces name') : name = name' := by
  have hj := joinPieces_of_spells h []
  rw [joinPieces_of_spells h' []] at hj
  simpa using hj.symm

-- ---------------------------------------------------------------------
-- Values

section

variable {closing : Token} {parts parts' : List (List Token)} {rest rest' : List Token}

theorem led_unique (hc : closing ≠ .comma)
    (hu : ∀ part ∈ parts, ∀ part' ∈ parts', ∀ r s, part ++ r = part' ++ s → part = part')
    (h : parts.flatMap (.comma :: ·) ++ closing :: rest =
      parts'.flatMap (.comma :: ·) ++ closing :: rest') : parts = parts' := by
  induction parts generalizing parts' with
  | nil =>
    cases parts' with
    | nil => rfl
    | cons => exact absurd (List.cons.inj h).1 hc
  | cons part parts ih =>
    cases parts' with
    | nil => exact absurd (List.cons.inj h).1.symm hc
    | cons part' parts' =>
      rw [List.flatMap_cons, List.flatMap_cons, List.append_assoc, List.append_assoc] at h
      replace h := (List.cons.inj h).2
      obtain rfl := hu part (.head _) part' (.head _) _ _ h
      rw [ih (fun p hp p' hp' => hu p (.tail _ hp) p' (.tail _ hp')) (List.append_cancel_left h)]

theorem listed_unique (hc : closing ≠ .comma)
    (hu : ∀ part ∈ parts, ∀ part' ∈ parts', ∀ r s, part ++ r = part' ++ s → part = part')
    (hn : ∀ part ∈ parts, ∀ r s, part ++ r ≠ closing :: s)
    (hn' : ∀ part ∈ parts', ∀ r s, part ++ r ≠ closing :: s)
    (h : listed parts ++ closing :: rest = listed parts' ++ closing :: rest') : parts = parts' := by
  cases parts with
  | nil =>
    cases parts' with
    | nil => rfl
    | cons part' parts' =>
      rw [listed_cons, List.append_assoc] at h
      exact absurd h.symm (hn' part' (.head _) _ _)
  | cons part parts =>
    rw [listed_cons, List.append_assoc] at h
    cases parts' with
    | nil => exact absurd h (hn part (.head _) _ _)
    | cons part' parts' =>
      rw [listed_cons, List.append_assoc] at h
      obtain rfl := hu part (.head _) part' (.head _) _ _ h
      rw [led_unique hc (fun p hp p' hp' => hu p (.tail _ hp) p' (.tail _ hp'))
        (List.append_cancel_left h)]

end

theorem Value.ne_closing {value : List Token} (h : Value value) (r s : List Token) :
    value ++ r ≠ .endArray :: s ∧ value ++ r ≠ .endObject :: s := by
  cases h <;> simp [rowTokens, objectTokens]

@[simp] theorem rowTokens_append (items : List (List Token)) (rest : List Token) :
    rowTokens items ++ rest = .beginArray :: (listed items ++ .endArray :: rest) := by
  simp [rowTokens]

@[simp] theorem objectTokens_append (entries : List Entry) (rest : List Token) :
    objectTokens entries ++ rest =
      .beginObject :: (listed (entries.map entryTokens) ++ .endObject :: rest) := by
  simp [objectTokens]

theorem entryTokens_injective : Function.Injective entryTokens := by
  rintro ⟨key, value⟩ ⟨key', value'⟩ h
  simpa [entryTokens] using h

section

variable {items items' : List (List Token)} {entries entries' : List Entry} {r s : List Token}

theorem items_unique (hi : ∀ item ∈ items, Value item) (hi' : ∀ item ∈ items', Value item)
    (hu : ∀ item ∈ items, ∀ item' ∈ items', ∀ r s, item ++ r = item' ++ s → item = item')
    (h : rowTokens items ++ r = rowTokens items' ++ s) : items = items' := by
  rw [rowTokens_append, rowTokens_append] at h
  exact listed_unique (by simp) hu (fun item hm r s => ((hi item hm).ne_closing r s).1)
    (fun item hm r s => ((hi' item hm).ne_closing r s).1) (List.cons.inj h).2

theorem entries_unique
    (hu : ∀ entry ∈ entries, ∀ entry' ∈ entries', ∀ r s, entry.2 ++ r = entry'.2 ++ s →
      entry.2 = entry'.2)
    (h : objectTokens entries ++ r = objectTokens entries' ++ s) : entries = entries' := by
  rw [objectTokens_append, objectTokens_append] at h
  refine (List.map_inj_right fun _ _ h => entryTokens_injective h).mp
    (listed_unique (by simp) ?_ ?_ ?_ (List.cons.inj h).2)
  · intro part hm part' hm' r s hr
    obtain ⟨entry, he, rfl⟩ := List.mem_map.mp hm
    obtain ⟨entry', he', rfl⟩ := List.mem_map.mp hm'
    obtain ⟨hk, hr⟩ : entry.1 = entry'.1 ∧ entry.2 ++ r = entry'.2 ++ s := by
      simpa [entryTokens] using hr
    rw [entryTokens, entryTokens, hk, hu entry he entry' he' r s hr]
  all_goals
    intro part hm r s
    obtain ⟨entry, -, rfl⟩ := List.mem_map.mp hm
    simp [entryTokens]

end

/-- No value is the beginning of another. -/
theorem Value.unique {value value' : List Token} (h : Value value) (h' : Value value')
    {r s : List Token} (he : value ++ r = value' ++ s) : value = value' := by
  induction h generalizing value' r s with
  | word =>
    cases h' with
    | word => rfl
    | _ => simp at he
  | number literal =>
    cases h' with
    | number literal' =>
      obtain ⟨rfl, -⟩ : literal = literal' ∧ r = s := by simpa using he
      rfl
    | _ => simp at he
  | text pieces =>
    cases h' with
    | text pieces' =>
      obtain ⟨rfl, -⟩ : pieces = pieces' ∧ r = s := by simpa using he
      rfl
    | _ => simp at he
  | row hi ih =>
    cases h' with
    | row hi' =>
      rw [items_unique hi hi' (fun item hm item' hm' _ _ => ih item hm (hi' item' hm')) he]
    | _ => simp at he
  | object _ ih =>
    cases h' with
    | object hv' =>
      rw [entries_unique (fun entry hm entry' hm' _ _ => ih entry hm (hv' entry' hm')) he]
    | _ => simp at he

theorem rows_unique {items items' : List (List Token)} (hi : ∀ item ∈ items, Value item)
    (hi' : ∀ item ∈ items', Value item) (h : rowTokens items = rowTokens items') :
    items = items' :=
  items_unique hi hi' (fun item hm item' hm' _ _ => (hi item hm).unique (hi' item' hm'))
    (congrArg (· ++ []) h)

-- ---------------------------------------------------------------------
-- Documents

theorem members_unique {members members' : List Member}
    (h : ∀ member ∈ members, Spells member.key member.name)
    (h' : ∀ member ∈ members', Spells member.key member.name)
    (he : members.map Member.entry = members'.map Member.entry) : members = members' := by
  induction members generalizing members' with
  | nil => simpa using he.symm
  | cons member members ih =>
    cases members' with
    | nil => simp at he
    | cons member' members' =>
      obtain ⟨hk, hv, he⟩ : member.key = member'.key ∧ member.value = member'.value ∧
          members.map Member.entry = members'.map Member.entry := by
        simpa [Member.entry, and_assoc] using he
      have hn : member.name = member'.name :=
        (h member (.head _)).unique (hk ▸ h' member' (.head _))
      have hm : member = member' := by
        cases member
        cases member'
        simp_all
      rw [hm, ih (fun m hm => h m (.tail _ hm)) (fun m hm => h' m (.tail _ hm)) he]

theorem Document.unique {document document' : Document} (h : document.Formed)
    (h' : document'.Formed) (he : document.tokens = document'.tokens) : document = document' := by
  cases document with
  | row items =>
    cases document' with
    | row items' => rw [rows_unique h h' he]
    | object members' => simp [Document.tokens, rowTokens, objectTokens] at he
  | object members =>
    cases document' with
    | row items' => simp [Document.tokens, rowTokens, objectTokens] at he
    | object members' =>
      have hm := entries_unique (fun entry he entry' he' r s hr => by
        obtain ⟨member, hm, rfl⟩ := List.mem_map.mp he
        obtain ⟨member', hm', rfl⟩ := List.mem_map.mp he'
        exact (h member hm).2.unique (h' member' hm').2 hr) (congrArg (· ++ []) he)
      rw [members_unique (fun member hm => (h member hm).1) (fun member hm => (h' member hm).1) hm]

-- ---------------------------------------------------------------------
-- Fields

theorem integerToken_injective : Function.Injective integerToken := by
  intro value value' h
  obtain ⟨hn, hw⟩ : (value < 0 ↔ value' < 0) ∧
      digitValues (Nat.toDigits 10 value.natAbs) =
        digitValues (Nat.toDigits 10 value'.natAbs) := by
    simpa [integerToken, integerLiteral] using h
  have ha := congrArg digitsValue hw
  rw [digitsValue_toDigits, digitsValue_toDigits] at ha
  omega

def byteTokens (bytes : Bytes) : List (List Token) :=
  bytes.map fun byte => [integerToken byte.toNat]

theorem value_byteTokens (bytes : Bytes) : ∀ item ∈ byteTokens bytes, Value item := by
  intro item hm
  obtain ⟨byte, -, rfl⟩ := List.mem_map.mp hm
  exact .number _

theorem byteTokens_injective : Function.Injective byteTokens := by
  refine fun _ _ h => (List.map_inj_right fun byte byte' he => ?_).mp h
  have hn := integerToken_injective (List.cons.inj he).1
  exact UInt8.toNat_inj.mp (Int.ofNat_inj.mp hn)

namespace Field

theorem value_tokens (field : Field) : Value field.tokens := by
  cases field with
  | integer value => exact .number _
  | bytes value => exact .row (value_byteTokens value)

theorem tokens_injective : Function.Injective Field.tokens := by
  intro field field' h
  cases field with
  | integer value =>
    cases field' with
    | integer value' => rw [integerToken_injective (List.cons.inj h).1]
    | bytes value' => simp [Field.tokens, integerToken] at h
  | bytes value =>
    cases field' with
    | integer value' => simp [Field.tokens, integerToken] at h
    | bytes value' =>
      have hb := rows_unique (value_byteTokens value) (value_byteTokens value') h
      rw [byteTokens_injective hb]

end Field

end FabricMemory.Json
