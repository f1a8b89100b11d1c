import FabricMemory.Json.Reader
import FabricMemory.Proofs.Numeral

/-!
# The tokens of what is written

A record has the same tokens in either writing (`tokens_compact`, `tokens_pretty`). A text
`CutsInto` tokens if it does so wherever it stands, provided that no number at its end goes on in
what follows.
-/

namespace FabricMemory.Json

/-- Nothing that a number could go on with. -/
def Breaks (rest : List Char) : Prop :=
  ∀ c, rest.head? = some c → c.isDigit = false ∧ c ≠ '.' ∧ c ≠ 'e' ∧ c ≠ 'E'

def Stops (rest : List Char) : Prop :=
  ∀ c, rest.head? = some c → c.isDigit = false

theorem Breaks.stops {rest : List Char} (h : Breaks rest) : Stops rest :=
  fun c hc => (h c hc).1

def CutsInto (text : List Char) (found : List Token) : Prop :=
  ∀ done rest, Breaks rest → cut done (text ++ rest) = cut (found.reverse ++ done) rest

theorem Breaks.nil : Breaks [] := by
  intro c h
  cases h

theorem Breaks.cons {c : Char} (h : c.isDigit = false ∧ c ≠ '.' ∧ c ≠ 'e' ∧ c ≠ 'E')
    (rest : List Char) : Breaks (c :: rest) := by
  intro d hd
  obtain rfl := Option.some.inj hd
  exact h

theorem Breaks.append {text rest : List Char} (ht : Breaks text) (hr : Breaks rest) :
    Breaks (text ++ rest) := by
  cases text with
  | nil => exact hr
  | cons c text => exact ht

/-- The character is a token by itself, before which a number ends. -/
structure IsMark (c : Char) (token : Token) : Prop where
  visible : isSpace c = false
  scanned (rest : List Char) : scan c rest = (token, rest)
  sound : token.skipFault = none
  ends : c.isDigit = false ∧ c ≠ '.' ∧ c ≠ 'e' ∧ c ≠ 'E'

namespace IsMark

theorem breaks {c : Char} {token : Token} (h : IsMark c token) (rest : List Char) :
    Breaks (c :: rest) := .cons h.ends rest

theorem comma : IsMark ',' .comma := ⟨by decide, fun _ => rfl, rfl, by decide⟩

theorem colon : IsMark ':' .colon := ⟨by decide, fun _ => rfl, rfl, by decide⟩

theorem beginArray : IsMark '[' .beginArray := ⟨by decide, fun _ => rfl, rfl, by decide⟩

theorem endArray : IsMark ']' .endArray := ⟨by decide, fun _ => rfl, rfl, by decide⟩

theorem beginObject : IsMark '\x7b' .beginObject := ⟨by decide, fun _ => rfl, rfl, by decide⟩

theorem endObject : IsMark '\x7d' .endObject := ⟨by decide, fun _ => rfl, rfl, by decide⟩

end IsMark

namespace CutsInto

variable {text text' : List Char} {found found' : List Token} {c : Char} {token : Token}

theorem nil : CutsInto [] [] := fun _ _ _ => rfl

theorem append (h : CutsInto text found) (h' : CutsInto text' found') (hb : Breaks text') :
    CutsInto (text ++ text') (found ++ found') := by
  intro done rest hr
  rw [List.append_assoc, h done _ (hb.append hr), h' _ rest hr, List.reverse_append,
    List.append_assoc]

theorem space (hc : isSpace c = true) (h : CutsInto text found) : CutsInto (c :: text) found := by
  intro done rest hr
  rw [List.cons_append, cut, if_pos hc]
  exact h done rest hr

theorem scanned (front : List Char) (hc : isSpace c = false)
    (hs : ∀ rest, scan c (front ++ rest) = (token, rest)) (hf : token.skipFault = none)
    (h : CutsInto text found) : CutsInto (c :: (front ++ text)) (token :: found) := by
  intro done rest hr
  rw [List.cons_append, List.append_assoc, cut]
  simp only [hc, Bool.false_eq_true, if_false, hs, hf, Option.isSome_none]
  rw [h (token :: done) rest hr, List.reverse_cons, List.append_assoc]
  rfl

theorem blanks {blank : List Char} (hb : blank.all isSpace = true) (h : CutsInto text found) :
    CutsInto (blank ++ text) found := by
  induction blank with
  | nil => exact h
  | cons c blank ih =>
    rw [List.all_cons, Bool.and_eq_true] at hb
    exact space hb.1 (ih hb.2)

theorem mark (hm : IsMark c token) (h : CutsInto text found) :
    CutsInto (c :: text) (token :: found) :=
  scanned [] hm.visible hm.scanned hm.sound h

theorem spaced {word : String} {blank : List Char} (hw : word.toList = c :: blank)
    (hm : IsMark c token) (hb : blank.all isSpace = true) (h : CutsInto text found) :
    CutsInto (word.toList ++ text) (token :: found) := by
  rw [hw]
  exact mark hm (blanks hb h)

theorem tokens_eq (h : CutsInto text found) : tokens text = found := by
  have hc := h [] [] Breaks.nil
  rw [List.append_nil, List.append_nil] at hc
  rw [tokens, hc, cut, List.reverse_reverse]

end CutsInto

-- ---------------------------------------------------------------------
-- Numbers

def integerLiteral (value : Int) : Literal where
  negative := value < 0
  whole := digitValues (Nat.toDigits 10 value.natAbs)

theorem digitsValue_toDigits (n : Nat) : digitsValue (digitValues (Nat.toDigits 10 n)) = n := by
  rw [digitsValue, digitValues, List.foldl_map]
  have h := Nat.ofDigitChars_ten_toDigits (n := n)
  simp only [Nat.ofDigitChars_eq_foldl, Nat.mul_comm 10] at h
  exact h

theorem value_integerLiteral (value : Int) (hl : -(wordBound 63 : Int) ≤ value)
    (hh : value < wordBound 64) : (integerLiteral value).value = .ok (.integer value) := by
  have hw : wordBound 64 = 2 * wordBound 63 := wordBound_succ 63
  have hn : value.natAbs < wordBound 64 := by omega
  simp only [Literal.value, integerLiteral, digitsValue_toDigits, hn, and_self, if_true]
  by_cases hv : value < 0
  · have hp : 0 < value.natAbs ∧ value.natAbs ≤ wordBound 63 := by omega
    have ha : -(value.natAbs : Int) = value := by omega
    simp only [hv, hp, ha, decide_true, and_self, if_true, Bool.true_eq_false, if_false]
  · have ha : (value.natAbs : Int) = value := by omega
    simp only [hv, ha, decide_false, if_true]

theorem not_leading_zero (n : Nat) :
    ¬ ((Nat.toDigits 10 n).head? = some '0' ∧ (Nat.toDigits 10 n).length > 1) := by
  rintro ⟨hh, hl⟩
  obtain rfl | hn := Nat.eq_zero_or_pos n
  · simp at hl
  · exact Numeral.head?_toDigits_ne (by decide) (by decide) hn hh

theorem isDigit_toDigits {n : Nat} {c : Char} (h : c ∈ Nat.toDigits 10 n) : c.isDigit = true :=
  Nat.isDigit_of_mem_toDigits (by decide) (by decide) h

theorem takeWhile_digits {digits rest : List Char} (hd : ∀ c ∈ digits, c.isDigit = true)
    (hr : Stops rest) : (digits ++ rest).takeWhile Char.isDigit = digits ∧
      (digits ++ rest).dropWhile Char.isDigit = rest := by
  rw [List.takeWhile_append_of_pos hd, List.dropWhile_append_of_pos hd]
  cases rest with
  | nil => simp
  | cons c rest => simp [hr c rfl]

theorem scanFraction_breaks {literal : Literal} {rest : List Char} (hr : Breaks rest) :
    scanFraction literal rest = (.ok literal, rest) := by
  cases rest with
  | nil => rfl
  | cons c rest =>
    obtain ⟨-, hp, he, hE⟩ := hr c rfl
    simp [scanFraction, scanExponent, hp, he, hE]

theorem scanNumberToken_toDigits (negative : Bool) {n : Nat} (first : List Char)
    {tail rest : List Char} (hn : Nat.toDigits 10 n = first ++ tail) (hr : Breaks rest) :
    scanNumberToken negative first (tail ++ rest) =
      (.number (.ok ⟨negative, digitValues (Nat.toDigits 10 n), [], none⟩), rest) := by
  have ht : ∀ c ∈ tail, c.isDigit = true := fun c hc =>
    isDigit_toDigits (n := n) (by rw [hn]; exact List.mem_append_right _ hc)
  obtain ⟨htake, hdrop⟩ := takeWhile_digits ht hr.stops
  rw [scanNumberToken, htake, hdrop, ← hn, scanNumber, if_neg Nat.toDigits_ne_nil,
    if_neg (not_leading_zero n), scanFraction_breaks hr]
  rfl

theorem scan_digit {c : Char} (h : c.isDigit = true) (rest : List Char) :
    scan c rest = scanNumberToken false [c] rest := by
  unfold scan
  split <;> first | exact absurd h (by decide) | rw [if_pos h]

theorem isSpace_of_isDigit {c : Char} (h : c.isDigit = true) : isSpace c = false := by
  have hne {d : Char} (hd : d.isDigit = false) : c ≠ d := by
    rintro rfl
    rw [h] at hd
    cases hd
  simp [isSpace, hne]

namespace CutsInto

theorem number {c : Char} {text : List Char} {literal : Literal} (hc : isSpace c = false)
    (hs : ∀ rest, Breaks rest → scan c (text ++ rest) = (.number (.ok literal), rest)) :
    CutsInto (c :: text) [.number (.ok literal)] := by
  intro done rest hr
  rw [List.cons_append, cut]
  simp [hc, hs rest hr, Token.skipFault]

theorem integer (value : Int) :
    CutsInto (integerText value) [.number (.ok (integerLiteral value))] := by
  unfold integerText
  split
  · rename_i hv
    refine number (by decide) fun rest hr => ?_
    have ht := scanNumberToken_toDigits true [] (List.nil_append _).symm hr (n := value.natAbs)
    simpa [integerLiteral, hv, scan] using ht
  · rename_i hv
    cases hd : Nat.toDigits 10 value.natAbs with
    | nil => exact absurd hd Nat.toDigits_ne_nil
    | cons c tail =>
      have hc : c.isDigit = true := isDigit_toDigits (n := value.natAbs) (by rw [hd]; exact .head _)
      refine number (isSpace_of_isDigit hc) fun rest hr => ?_
      rw [scan_digit hc]
      simpa [integerLiteral, hv] using scanNumberToken_toDigits false [c] hd hr

end CutsInto

-- ---------------------------------------------------------------------
-- Names

/-- A character that stands for itself in a string. -/
def isPlain (c : Char) : Bool := c ≠ '"' && c ≠ '\\' && 0x20 ≤ c.toNat

def nameToken (name : String) : Token := .text (name.toList.map .plain) none

theorem scanText_plain {c : Char} (hc : isPlain c = true) (done : List Piece) (rest : List Char) :
    scanText done (c :: rest) = scanText (.plain c :: done) rest := by
  simp only [isPlain, ne_eq, Bool.and_eq_true, decide_eq_true_eq] at hc
  obtain ⟨⟨hq, hb⟩, hl⟩ := hc
  rw [scanText]
  · exact if_neg (Nat.not_lt.mpr hl)
  · exact hq
  all_goals
    intros
    simp_all

theorem scanText_plains {name : List Char} (hn : name.all isPlain = true)
    (done : List Piece) (rest : List Char) :
    scanText done (name ++ '"' :: rest) = (.text (done.reverse ++ name.map .plain) none, rest) := by
  induction name generalizing done with
  | nil => simp [scanText]
  | cons c name ih =>
    rw [List.all_cons, Bool.and_eq_true] at hn
    rw [List.cons_append, scanText_plain hn.1, ih hn.2]
    simp

theorem CutsInto.quoted {name : String} {text : List Char} {found : List Token}
    (hn : name.toList.all isPlain = true) (h : CutsInto text found) :
    CutsInto (quoted name ++ text) (nameToken name :: found) := by
  have hs (rest : List Char) :
      scan '"' ((name.toList ++ ['"']) ++ rest) = (nameToken name, rest) := by
    rw [List.append_assoc, List.singleton_append]
    exact scanText_plains hn [] rest
  exact scanned _ (by decide) hs rfl h

-- ---------------------------------------------------------------------
-- Records

def listed (parts : List (List Token)) : List Token := (parts.intersperse [.comma]).flatten

def integerToken (value : Int) : Token := .number (.ok (integerLiteral value))

def Field.tokens : Field → List Token
  | .integer value => [integerToken value]
  | .bytes value =>
    .beginArray :: (listed (value.map fun byte => [integerToken byte.toNat]) ++ [.endArray])

def memberTokens (member : String × Field) : List Token :=
  nameToken member.1 :: .colon :: member.2.tokens

def Record.tokens (record : Record) : List Token :=
  .beginObject :: (listed (record.map memberTokens) ++ [.endObject])

namespace CutsInto

theorem separated {α : Type} (separator : String) {text : α → List Char} {found : α → List Token}
    (hs : ∀ {text found}, CutsInto text found →
      CutsInto (separator.toList ++ text) (.comma :: found))
    (hb : ∀ rest, Breaks (separator.toList ++ rest))
    {parts : List α} (h : ∀ part ∈ parts, CutsInto (text part) (found part)) :
    CutsInto (separated separator (parts.map text)) (listed (parts.map found)) := by
  induction parts with
  | nil => exact nil
  | cons part parts ih =>
    cases parts with
    | nil => simpa [Json.separated, listed] using h part (.head _)
    | cons next rest =>
      have hp := h part (.head _)
      have hr := ih fun other ho => h other (.tail _ ho)
      have hc := hp.append (hs hr) (hb _)
      simpa [Json.separated, listed] using hc

theorem compactField (field : Field) : CutsInto field.compact field.tokens := by
  cases field with
  | integer value => exact integer value
  | bytes value =>
    refine mark .beginArray (append ?_ (mark .endArray nil) (IsMark.endArray.breaks _))
    exact separated "," (mark .comma) IsMark.comma.breaks fun byte _ => integer byte.toNat

theorem prettyField (field : Field) : CutsInto field.pretty field.tokens := by
  cases field with
  | integer value => exact integer value
  | bytes value =>
    cases value with
    | nil => exact mark .beginArray (mark .endArray nil)
    | cons byte value =>
      have he : "\n  ]".toList = "\n  ".toList ++ [']'] := by decide
      simp only [Field.pretty, List.append_assoc]
      refine spaced rfl .beginArray (by decide) (append ?_ ?_ ?_)
      · exact separated ",\n    " (spaced rfl .comma (by decide)) IsMark.comma.breaks
          fun byte _ => integer byte.toNat
      · rw [he]
        exact blanks (by decide) (mark .endArray nil)
      · exact .cons (by decide) _

end CutsInto

/-- Names without quotes, backslashes and control characters. -/
def Record.PlainNames (record : Record) : Prop :=
  ∀ member ∈ record, member.1.toList.all isPlain = true

theorem tokens_compact {record : Record} (hn : record.PlainNames) :
    tokens record.compact.toList = record.tokens := by
  apply CutsInto.tokens_eq
  rw [Record.compact, String.toList_ofList]
  refine .mark .beginObject (.append ?_ (.mark .endObject .nil) (IsMark.endObject.breaks _))
  refine .separated "," (.mark .comma) IsMark.comma.breaks fun member hm => ?_
  exact .quoted (hn member hm) (.mark .colon (CutsInto.compactField member.2))

theorem tokens_pretty {record : Record} (hn : record.PlainNames) :
    tokens record.pretty.toList = record.tokens := by
  apply CutsInto.tokens_eq
  have he : "\n\x7d".toList = "\n".toList ++ ['\x7d'] := by decide
  unfold Record.pretty
  simp only [String.toList_ofList, List.append_assoc]
  refine .spaced rfl .beginObject (by decide) (.append ?_ ?_ ?_)
  · refine .separated ",\n  " (.spaced rfl .comma (by decide)) IsMark.comma.breaks
      fun member hm => ?_
    obtain ⟨name, field⟩ := member
    exact .quoted (hn _ hm) (.spaced rfl .colon (by decide) (CutsInto.prettyField field))
  · rw [he]
    exact .blanks (by decide) (.mark .endObject .nil)
  · exact .cons (by decide) _

end FabricMemory.Json
