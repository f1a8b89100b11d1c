import FabricMemory.Proofs.Json.Recognition

/-!
# Texts that are not read

A flawed document presents no fields, and a text is only one document; what follows a value is read
as a part of the text. So a flawed document is not read (`not_read_of_flawed`), nor is a value with
anything but blanks after it (`not_read_of_trailing`).
-/

namespace FabricMemory.Json

variable {schema : Schema} {fields : List Field} {document : Document}

-- ---------------------------------------------------------------------
-- Flaws

theorem FieldType.Admits.not_exceeds {type : FieldType} {field : Field} (h : type.Admits field) :
    ¬ Exceeds type field.tokens := by
  intro he
  generalize ht : field.tokens = value at he
  cases he with
  | @integer low high value hv =>
    cases field with
    | bytes => exact h
    | integer n =>
      obtain rfl : n = value := integerToken_injective (List.cons.inj ht).1
      obtain ⟨hl, hh⟩ : low ≤ n ∧ n < high := h
      omega
  | count hi hc =>
    cases field with
    | integer => exact h
    | bytes value =>
      obtain rfl := rows_unique (value_byteTokens value) hi ht
      exact hc ((List.length_map _).trans h)
  | element hi hm hv =>
    cases field with
    | integer => simp [Field.tokens, rowTokens, integerToken] at ht
    | bytes value =>
      obtain rfl := rows_unique (value_byteTokens value) hi ht
      obtain ⟨byte, -, hb⟩ := List.mem_map.mp hm
      have hn := integerToken_injective (List.cons.inj hb).1
      have hl := byte.toNat_lt
      omega

theorem Presents.not_flawed (h : Presents schema fields document) (ha : schema.Admits fields) :
    ¬ Flawed schema document := by
  rintro (⟨hc, hd, hv⟩ | ⟨hc, hl⟩ | ⟨hc, hm, he⟩ | hw)
  · obtain ⟨field, hf, -⟩ := ha.field_of_column hc
    obtain hg | ⟨-, hg⟩ := h.gives hc hf
    · simp [hv] at hg
    · simp [hd] at hg
  · obtain ⟨field, hf, -⟩ := ha.field_of_column hc
    obtain hg | ⟨hg, -⟩ := h.gives hc hf <;> simp [hg] at hl
  · obtain ⟨field, hf, hat⟩ := ha.field_of_column hc
    obtain hg | ⟨hg, -⟩ := h.gives hc hf
    · obtain rfl := List.mem_singleton.mp (hg ▸ hm)
      exact hat.not_exceeds he
    · simp [hg] at hm
  · exact hw h.within

theorem Document.Stands.unique {document' : Document} {text : List Char}
    (h : document.Stands text) (h' : document'.Stands text) : document = document' :=
  Document.unique h.1 h'.1 ((tokens_of_lexes h.2).symm.trans (tokens_of_lexes h'.2))

theorem not_read_of_flawed (hs : schema.Sound) {text : List Char} (hd : document.Stands text)
    (hf : Flawed schema document) : readRecord schema text ≠ .ok fields := by
  intro h
  obtain ⟨ha, document', hd', hp⟩ := presents_of_readRecord hs h
  obtain rfl := hd.unique hd'
  exact hp.not_flawed ha hf

-- ---------------------------------------------------------------------
-- What follows a value

theorem cut_more (done : List Token) (text : List Char) :
    ∃ more, cut done text = done.reverse ++ more ∧
      (more = [] → ∀ c ∈ text, c ∈ [' ', '\t', '\n', '\r']) := by
  fun_induction cut done text with
  | case1 done => exact ⟨[], by simp⟩
  | case2 done c rest hc ih =>
    obtain ⟨more, he, hm⟩ := ih
    exact ⟨more, he, fun hn => List.forall_mem_cons.mpr ⟨isSpace_iff.mp hc, hm hn⟩⟩
  | case3 done c rest _ next _ => exact ⟨[next.1], by simp⟩
  | case4 done c rest _ next _ ih =>
    obtain ⟨more, he, -⟩ := ih
    exact ⟨next.1 :: more, by simp [he]⟩

theorem scan_number {front : List Char} {literal : Literal}
    (h : Written front (.number (.ok literal))) (rest : List Char) :
    ∃ c tail, front = c :: tail ∧ isSpace c = false ∧
      ∃ result, (scan c (tail ++ rest)).1 = .number result := by
  cases h with
  | mark hm => simp [marks] at hm
  | number hd =>
    obtain @⟨whole, fraction, exponent, _, _, negative, hw, -, -⟩ := hd
    cases negative with
    | true => exact ⟨'-', _, rfl, rfl, _, rfl⟩
    | false =>
      obtain ⟨c, tail, rfl⟩ := List.exists_cons_of_ne_nil hw.nonempty
      have hc := hw.isDigit c (.head _)
      refine ⟨c, tail ++ (fraction ++ exponent), rfl, isSpace_of_isDigit hc, ?_⟩
      rw [scan_digit hc]
      exact ⟨_, rfl⟩

theorem tokens_number {front : List Char} {found : List Token} {literal : Literal}
    (h : Lexes front (.number (.ok literal) :: found)) (rest : List Char) :
    ∃ result more, tokens (front ++ rest) = .number result :: more := by
  generalize hf : Token.number (.ok literal) :: found = all at h
  induction h with
  | done => cases hf
  | blank hc h ih =>
    rw [tokens, List.cons_append, cut, if_pos (isSpace_iff.mpr hc)]
    exact ih hf
  | @token front text token found' hw _ _ _ =>
    obtain ⟨rfl, -⟩ := List.cons.inj hf
    obtain ⟨c, tail, rfl, hc, result, hn⟩ := scan_number hw (text ++ rest)
    rw [tokens, List.append_assoc, List.cons_append, cut]
    simp only [hc, Bool.false_eq_true, if_false, hn]
    split
    · exact ⟨result, [], rfl⟩
    · obtain ⟨more, he, -⟩ := cut_more [.number result] (scan c (tail ++ (text ++ rest))).2
      exact ⟨result, more, he⟩

theorem Value.number_of_getLast? {value : List Token} (h : Value value)
    {result : Except Stop Literal} (hl : value.getLast? = some (.number result)) :
    ∃ literal, value = [.number (.ok literal)] := by
  cases h with
  | number literal => exact ⟨literal, rfl⟩
  | _ => simp [rowTokens, objectTokens, List.getLast?_cons] at hl

theorem not_read_of_trailing (hs : schema.Sound) {front rest : List Char} {value : List Token}
    (hv : Value value) (hl : Lexes front value)
    (hr : ∃ c ∈ rest, c ∉ [' ', '\t', '\n', '\r']) :
    readRecord schema (front ++ rest) ≠ .ok fields := by
  intro h
  obtain ⟨-, document, ⟨hf, hd⟩, -⟩ := presents_of_readRecord hs h
  have ht := tokens_of_lexes hd
  by_cases hn : ∃ literal, value.getLast? = some (.number literal)
  · obtain ⟨_, hg⟩ := hn
    obtain ⟨literal, rfl⟩ := hv.number_of_getLast? hg
    obtain ⟨result, more, he⟩ := tokens_number hl rest
    cases document <;> simp [he, Document.tokens, rowTokens, objectTokens] at ht
  · obtain ⟨more, he, hm⟩ := cut_more value.reverse rest
    rw [tokens, cut_of_lexes hl [] (fun h => absurd h hn), List.append_nil, he,
      List.reverse_reverse] at ht
    obtain rfl := hv.unique hf.value (ht.trans (List.append_nil _).symm)
    obtain ⟨c, hc, hb⟩ := hr
    exact hb (hm (List.append_right_eq_self.mp ht) c hc)

end FabricMemory.Json
