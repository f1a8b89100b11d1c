import FabricMemory.Proofs.Json.Grammar
import Mathlib.Data.List.Induction

/-!
# Texts are cut as they are written

`tokens` finds the tokens that a text is written in (`tokens_of_lexes`), and where it finds nothing
faulty, the text is written in what it found (`lexes_tokens`).
-/

namespace FabricMemory.Json

-- ---------------------------------------------------------------------
-- Numbers that are written

section

variable {text text' rest : List Char} {parts : List Nat} {power : Option (Bool × List Nat)}

theorem Fraction.stops (h : Fraction text parts) (hr : Stops rest) : Stops (text ++ rest) := by
  cases h with
  | none => exact hr
  | some =>
    intro c hc
    obtain rfl := Option.some.inj hc
    rfl

theorem Exponent.stops (h : Exponent text power) (hr : Stops rest) : Stops (text ++ rest) := by
  cases h with
  | none => exact hr
  | some hl =>
    intro c hc
    obtain rfl := Option.some.inj hc
    rcases hl with rfl | rfl <;> rfl

theorem Sign.scanned {sign digits : List Char} {negative : Bool} (hs : Sign sign negative)
    (hd : Digits digits) (rest : List Char) :
    let text := sign ++ (digits ++ rest)
    decide (text.head? = some '-') = negative ∧
      (if text.head? = some '-' ∨ text.head? = some '+' then text.tail else text) =
        digits ++ rest := by
  cases hs with
  | plus | minus => simp
  | none =>
    obtain ⟨c, digits, rfl⟩ := List.exists_cons_of_ne_nil hd.nonempty
    have hc := hd.isDigit c (.head _)
    have hm : c ≠ '-' := by
      rintro rfl
      exact absurd hc (by decide)
    have hp : c ≠ '+' := by
      rintro rfl
      exact absurd hc (by decide)
    simp [hm, hp]

theorem scanExponent_written (h : Exponent text power) (hr : Breaks rest) {literal : Literal}
    (hl : literal.exponent = none) :
    scanExponent literal (text ++ rest) = (.ok { literal with exponent := power }, rest) := by
  cases h with
  | none =>
    obtain ⟨negative, whole, fraction, exponent⟩ := literal
    obtain rfl : exponent = none := hl
    cases rest with
    | nil => rfl
    | cons c rest =>
      obtain ⟨-, -, he, hE⟩ := hr c rfl
      simp [scanExponent, he, hE]
  | some hletter hs hd =>
    obtain ⟨hn, ht⟩ := hs.scanned hd rest
    obtain ⟨htake, hdrop⟩ := takeWhile_digits hd.isDigit hr.stops
    simp only [List.cons_append, List.append_assoc, scanExponent, if_pos hletter, ht, htake, hdrop,
      if_neg hd.nonempty, hn]

theorem scanFraction_written (hf : Fraction text parts) (he : Exponent text' power)
    (hr : Breaks rest) {literal : Literal} (hl : literal.fraction = [])
    (hx : literal.exponent = none) :
    scanFraction literal (text ++ (text' ++ rest)) =
      (.ok { literal with fraction := parts, exponent := power }, rest) := by
  cases hf with
  | none =>
    have hs := scanExponent_written he hr hx
    obtain ⟨negative, whole, fraction, exponent⟩ := literal
    obtain rfl : fraction = [] := hl
    rw [List.nil_append, ← hs]
    cases he with
    | none =>
      cases rest with
      | nil => rfl
      | cons c rest => simp [scanFraction, (hr c rfl).2.1]
    | @some letter _ _ _ hletter _ _ =>
      have hp : letter ≠ '.' := by
        rintro rfl
        exact absurd hletter (by decide)
      simp [scanFraction, hp]
  | @some digits hd =>
    obtain ⟨htake, hdrop⟩ := takeWhile_digits hd.isDigit (he.stops hr.stops)
    have hl : { literal with fraction := digitValues digits }.exponent = none := hx
    simp only [List.cons_append, scanFraction, if_true, htake, hdrop, if_neg hd.nonempty,
      scanExponent_written he hr hl]

theorem scanNumberToken_written (negative : Bool) {first tail : List Char}
    (hw : Whole (first ++ tail)) (hf : Fraction text parts) (he : Exponent text' power)
    (hr : Breaks rest) :
    scanNumberToken negative first (tail ++ (text ++ (text' ++ rest))) =
      (.number (.ok ⟨negative, digitValues (first ++ tail), parts, power⟩), rest) := by
  have ht : ∀ c ∈ tail, c.isDigit = true := fun c hc =>
    hw.isDigit c (List.mem_append_right _ hc)
  have hz : ¬ ((first ++ tail).head? = some '0' ∧ (first ++ tail).length > 1) := by
    rintro ⟨hh, hl⟩
    rw [hw.alone hh] at hl
    exact absurd hl (by decide)
  obtain ⟨htake, hdrop⟩ := takeWhile_digits ht (hf.stops (he.stops hr.stops))
  have hn : scanFraction ⟨negative, digitValues (first ++ tail), [], none⟩
      (text ++ (text' ++ rest)) = _ := scanFraction_written hf he hr rfl rfl
  simp only [scanNumberToken, htake, hdrop, scanNumber, if_neg hw.nonempty, if_neg hz, hn]
  rfl

end

-- ---------------------------------------------------------------------
-- Numbers that are scanned

theorem stops_dropWhile (text : List Char) : Stops (text.dropWhile Char.isDigit) := by
  intro c hc
  have hd := List.head?_dropWhile_not Char.isDigit text
  rw [hc] at hd
  simpa using hd

theorem digits_takeWhile {text : List Char} (h : text.takeWhile Char.isDigit ≠ []) :
    Digits (text.takeWhile Char.isDigit) :=
  ⟨h, List.all_eq_true.mp List.all_takeWhile⟩

theorem sign_of_head? (text : List Char) :
    ∃ sign, Sign sign (decide (text.head? = some '-')) ∧
      text = sign ++
        (if text.head? = some '-' ∨ text.head? = some '+' then text.tail else text) := by
  by_cases hm : text.head? = some '-'
  · obtain ⟨rest, rfl⟩ := List.head?_eq_some_iff.mp hm
    exact ⟨['-'], .minus, rfl⟩
  · by_cases hp : text.head? = some '+'
    · obtain ⟨rest, rfl⟩ := List.head?_eq_some_iff.mp hp
      exact ⟨['+'], .plus, rfl⟩
    · refine ⟨[], ?_, by simp [hm, hp]⟩
      rw [decide_eq_false hm]
      exact .none

section

variable {literal result : Literal} {text rest : List Char}

theorem exponent_of_scan (h : scanExponent literal text = (.ok result, rest))
    (hl : literal.exponent = none) (hs : Stops text) :
    ∃ front power, text = front ++ rest ∧ Exponent front power ∧
      result = { literal with exponent := power } ∧ Stops rest := by
  obtain ⟨negative, whole, fraction, exponent⟩ := literal
  obtain rfl : exponent = none := hl
  cases text with
  | nil =>
    cases h
    exact ⟨[], none, rfl, .none, rfl, hs⟩
  | cons c text =>
    rw [scanExponent] at h
    split at h
    · rename_i hc
      obtain ⟨sign, hsign, ht⟩ := sign_of_head? text
      revert h
      generalize (if text.head? = some '-' ∨ text.head? = some '+' then text.tail else text) =
        digits at ht
      intro h
      simp only at h
      split at h
      · cases h
      · rename_i hd
        cases h
        refine ⟨c :: (sign ++ digits.takeWhile Char.isDigit), _, ?_,
          .some hc hsign (digits_takeWhile hd), rfl, stops_dropWhile _⟩
        rw [List.cons_append, List.append_assoc, List.takeWhile_append_dropWhile, ← ht]
    · cases h
      exact ⟨[], none, rfl, .none, rfl, hs⟩

theorem parts_of_scan (h : scanFraction literal text = (.ok result, rest))
    (hl : literal.fraction = []) (hx : literal.exponent = none) (hs : Stops text) :
    ∃ front back parts power, text = front ++ (back ++ rest) ∧ Fraction front parts ∧
      Exponent back power ∧ result = { literal with fraction := parts, exponent := power } ∧
      Stops rest := by
  obtain ⟨negative, whole, fraction, exponent⟩ := literal
  obtain rfl : fraction = [] := hl
  obtain rfl : exponent = none := hx
  cases text with
  | nil =>
    cases h
    exact ⟨[], [], [], none, rfl, .none, .none, rfl, hs⟩
  | cons c text =>
    rw [scanFraction] at h
    split at h
    · rename_i hc
      subst hc
      simp only at h
      split at h
      · cases h
      · rename_i hd
        obtain ⟨back, power, ht, hp, rfl, hr⟩ := exponent_of_scan h rfl (stops_dropWhile _)
        refine ⟨'.' :: text.takeWhile Char.isDigit, back, _, power, ?_,
          .some (digits_takeWhile hd), hp, rfl, hr⟩
        rw [List.cons_append, ← ht, List.takeWhile_append_dropWhile]
    · obtain ⟨back, power, ht, hp, rfl, hr⟩ := exponent_of_scan h rfl hs
      exact ⟨[], back, [], power, ht, .none, hp, rfl, hr⟩

theorem number_of_scan {negative : Bool} {whole : List Char}
    (h : scanNumber negative whole text = (.ok result, rest))
    (hd : ∀ c ∈ whole, c.isDigit = true) (hs : Stops text) :
    ∃ front, text = front ++ rest ∧
      Decimal ((if negative then ['-'] else []) ++ (whole ++ front)) result ∧ Stops rest := by
  rw [scanNumber] at h
  split at h
  · cases h
  · rename_i hn
    split at h
    · cases h
    · rename_i hz
      have hw : Whole whole := by
        refine ⟨⟨hn, hd⟩, fun hh => ?_⟩
        obtain ⟨tail, rfl⟩ := List.head?_eq_some_iff.mp hh
        cases tail with
        | nil => rfl
        | cons => simp at hz
      obtain ⟨front, back, parts, power, ht, hp, he, rfl, hr⟩ := parts_of_scan h rfl rfl hs
      exact ⟨front ++ back, by rw [ht, List.append_assoc], .mk negative hw hp he, hr⟩

theorem decimal_of_scan {negative : Bool} {first : List Char} {token : Token}
    (h : scanNumberToken negative first text = (token, rest)) (hs : token.skipFault = none)
    (hd : ∀ c ∈ first, c.isDigit = true) :
    ∃ front literal, text = front ++ rest ∧ token = .number (.ok literal) ∧
      Decimal ((if negative then ['-'] else []) ++ (first ++ front)) literal ∧ Stops rest := by
  rw [scanNumberToken] at h
  generalize hn : scanNumber negative _ _ = scanned at h
  obtain ⟨result, rest⟩ := scanned
  cases h
  cases result with
  | error stop => cases hs
  | ok literal =>
    have hw : ∀ c ∈ first ++ text.takeWhile Char.isDigit, c.isDigit = true := by
      intro c hc
      rcases List.mem_append.mp hc with hc | hc
      · exact hd c hc
      · exact List.all_eq_true.mp List.all_takeWhile c hc
    obtain ⟨front, ht, hl, hr⟩ := number_of_scan hn hw (stops_dropWhile _)
    refine ⟨text.takeWhile Char.isDigit ++ front, literal, ?_, rfl, ?_, hr⟩
    · rw [List.append_assoc, id, ← ht, List.takeWhile_append_dropWhile]
    · rwa [← List.append_assoc first]

end

-- ---------------------------------------------------------------------
-- Words and strings

theorem scanWord_written (word rest : List Char) : scanWord word (word ++ rest) = (none, rest) := by
  induction word with
  | nil => rfl
  | cons c word ih => simp [scanWord, ih]

theorem eq_of_scanWord {word text rest : List Char} (h : scanWord word text = (none, rest)) :
    text = word ++ rest := by
  fun_induction scanWord word text with
  | case1 text =>
    cases h
    rfl
  | case2 | case4 => cases h
  | case3 c word text ih => rw [ih h, List.cons_append]

theorem scanText_written {inner : List Char} {pieces : List Piece} (h : Spelling inner pieces)
    (done : List Piece) (rest : List Char) :
    scanText done (inner ++ '"' :: rest) = (.text (done.reverse ++ pieces) none, rest) := by
  induction h generalizing done with
  | done => simp [scanText]
  | plain hc _ ih =>
    rw [List.cons_append, scanText_plain hc, ih]
    simp
  | @escape c meant _ _ hc _ ih =>
    have hu : c ≠ 'u' := by
      rintro rfl
      cases hc
    rw [List.cons_append, List.cons_append, scanText]
    · simp [hc, ih]
    all_goals
      intros
      simp_all
  | unit hc _ ih =>
    simp [scanText, hc, ih]

theorem scanText_text (done : List Piece) (text : List Char) :
    ∃ pieces fault, (scanText done text).1 = .text pieces fault := by
  fun_induction scanText done text with
  | case4 | case7 | case10 =>
    rename_i ih
    exact ih
  | _ => exact ⟨_, _, rfl⟩

theorem spelling_of_scan {done all : List Piece} {text rest : List Char}
    (h : scanText done text = (.text all none, rest)) :
    ∃ inner pieces, text = inner ++ '"' :: rest ∧ Spelling inner pieces ∧
      all = done.reverse ++ pieces := by
  fun_induction scanText done text with
  | case2 done text =>
    cases h
    exact ⟨[], [], rfl, .done, (List.append_nil _).symm⟩
  | case4 done a b c d text code hc ih =>
    obtain ⟨inner, pieces, rfl, hs, rfl⟩ := ih h
    exact ⟨_, _, rfl, .unit hc hs, by simp⟩
  | case7 done c text _ _ meant hc ih =>
    obtain ⟨inner, pieces, rfl, hs, rfl⟩ := ih h
    exact ⟨_, _, rfl, .escape hc hs, by simp⟩
  | case10 done c text hq hlone _ _ hb hl ih =>
    obtain ⟨inner, pieces, rfl, hs, rfl⟩ := ih h
    have hc : c ≠ '\\' := by
      rintro rfl
      cases inner with
      | nil => exact hb _ _ rfl rfl
      | cons => exact hb _ _ rfl rfl
    have hp : isPlain c = true := by simp [isPlain, hc, Nat.le_of_not_lt hl, show c ≠ '"' from hq]
    exact ⟨_, _, rfl, .plain hp hs, by simp⟩
  | _ => cases h

-- ---------------------------------------------------------------------
-- Tokens

/-- Neither broken off nor foreign to the grammar. -/
def Token.Sound : Token → Prop
  | .stray _ => False
  | token => token.skipFault = none

theorem Token.Sound.skipFault {token : Token} (h : token.Sound) : token.skipFault = none := by
  cases token with
  | stray => exact h.elim
  | _ => exact h

section

variable {front rest rest' : List Char} {token : Token} {c : Char}

theorem scan_written (h : Written front token)
    (hb : (∃ literal, token = .number literal) → Breaks rest) :
    ∃ c tail, front = c :: tail ∧ isSpace c = false ∧ scan c (tail ++ rest) = (token, rest) ∧
      token.Sound := by
  cases h with
  | @mark c token hm =>
    refine ⟨c, [], rfl, ?_⟩
    simp only [marks, List.mem_cons, Prod.mk.injEq, List.not_mem_nil, or_false] at hm
    rcases hm with ⟨rfl, rfl⟩ | ⟨rfl, rfl⟩ | ⟨rfl, rfl⟩ | ⟨rfl, rfl⟩ | ⟨rfl, rfl⟩ | ⟨rfl, rfl⟩ <;>
      exact ⟨rfl, rfl, rfl⟩
  | @word word hw =>
    have ht (tail : String) : scanWordToken tail (tail.toList ++ rest) = (.word none, rest) := by
      rw [scanWordToken, scanWord_written]
      rfl
    simp only [List.mem_cons, List.not_mem_nil, or_false] at hw
    rcases hw with rfl | rfl | rfl
    · exact ⟨'n', "ull".toList, rfl, rfl, ht "ull", rfl⟩
    · exact ⟨'t', "rue".toList, rfl, rfl, ht "rue", rfl⟩
    · exact ⟨'f', "alse".toList, rfl, rfl, ht "alse", rfl⟩
  | number hl =>
    obtain @⟨whole, fraction, exponent, _, _, negative, hw, hf, he⟩ := hl
    replace hb := hb ⟨_, rfl⟩
    cases negative with
    | true =>
      have hw : Whole ([] ++ whole) := hw
      refine ⟨'-', whole ++ (fraction ++ exponent), rfl, rfl, ?_, rfl⟩
      rw [List.append_assoc, List.append_assoc]
      exact scanNumberToken_written true hw hf he hb
    | false =>
      obtain ⟨c, tail, rfl⟩ := List.exists_cons_of_ne_nil hw.nonempty
      have hc := hw.isDigit c (.head _)
      have hw : Whole ([c] ++ tail) := hw
      refine ⟨c, tail ++ (fraction ++ exponent), rfl, isSpace_of_isDigit hc, ?_, rfl⟩
      rw [scan_digit hc, List.append_assoc, List.append_assoc]
      exact scanNumberToken_written false hw hf he hb
  | @text inner pieces hs =>
    refine ⟨'"', _, rfl, rfl, ?_, rfl⟩
    rw [List.append_assoc, List.singleton_append]
    exact scanText_written hs [] rest

structure Begins (text : List Char) (token : Token) (rest : List Char) : Prop where
  written : ∃ front, text = front ++ rest ∧ Written front token
  stops : (∃ literal, token = .number literal) → Stops rest

theorem begins_mark (hm : (c, token) ∈ marks) (hn : ∀ literal, token ≠ .number literal) :
    Begins (c :: rest) token rest :=
  ⟨⟨[c], rfl, .mark hm⟩, fun ⟨literal, hl⟩ => absurd hl (hn literal)⟩

theorem begins_word {tail : String} (h : scanWordToken tail rest = (token, rest'))
    (hs : token.Sound) (hw : String.ofList (c :: tail.toList) ∈ ["null", "true", "false"]) :
    Begins (c :: rest) token rest' := by
  rw [scanWordToken] at h
  generalize hr : scanWord _ _ = scanned at h
  obtain ⟨fault, left⟩ := scanned
  cases h
  obtain rfl : fault = none := hs
  have hw := Written.word hw
  rw [String.toList_ofList] at hw
  exact ⟨⟨c :: tail.toList, congrArg (c :: ·) (eq_of_scanWord hr), hw⟩, by simp⟩

theorem begins_number {negative : Bool} {first : List Char}
    (h : scanNumberToken negative first rest = (token, rest')) (hs : token.Sound)
    (hd : ∀ c ∈ first, c.isDigit = true) (hc : (if negative then ['-'] else []) ++ first = [c]) :
    Begins (c :: rest) token rest' := by
  obtain ⟨front, literal, rfl, rfl, hl, hr⟩ := decimal_of_scan h hs.skipFault hd
  rw [← List.append_assoc, hc] at hl
  exact ⟨⟨c :: front, rfl, .number hl⟩, fun _ => hr⟩

theorem begins_text (h : scanText [] rest = (token, rest')) (hs : token.Sound) :
    Begins ('"' :: rest) token rest' := by
  obtain ⟨pieces, fault, ht⟩ := scanText_text [] rest
  obtain rfl : token = .text pieces fault := by rw [← ht, h]
  obtain rfl : fault = none := hs
  obtain ⟨inner, pieces, rfl, hi, rfl⟩ := spelling_of_scan h
  exact ⟨⟨'"' :: (inner ++ ['"']), by simp, .text hi⟩, by simp⟩

theorem begins_of_scan (h : scan c rest = (token, rest')) (hs : token.Sound) :
    Begins (c :: rest) token rest' := by
  unfold scan at h
  split at h
  case h_7 => exact begins_text h hs
  case h_8 | h_9 | h_10 => exact begins_word h hs (by decide)
  case h_11 => exact begins_number h hs (by simp) rfl
  case h_12 =>
    split at h
    · rename_i hc
      exact begins_number h hs (by simpa using hc) rfl
    · cases h
      exact hs.elim
  all_goals
    cases h
    exact begins_mark (by simp [marks]) (by simp)

end

-- ---------------------------------------------------------------------
-- Texts

theorem isSpace_iff {c : Char} : isSpace c = true ↔ c ∈ [' ', '\t', '\n', '\r'] := by
  simp [isSpace, or_assoc]

theorem eq_nil_of_lexes {found : List Token} (h : Lexes [] found) : found = [] := by
  generalize ht : ([] : List Char) = text at h
  cases h with
  | done => rfl
  | blank => cases ht
  | token hw hb h =>
    obtain ⟨c, tail, rfl, -⟩ := scan_written hw fun _ => Breaks.nil
    cases ht

theorem cut_of_lexes {text : List Char} {found : List Token} (h : Lexes text found)
    (done : List Token) {rest : List Char}
    (hr : (∃ literal, found.getLast? = some (.number literal)) → Breaks rest) :
    cut done (text ++ rest) = cut (found.reverse ++ done) rest := by
  induction h generalizing done with
  | done => rfl
  | blank hc h ih =>
    rw [List.cons_append, cut, if_pos (isSpace_iff.mpr hc)]
    exact ih done hr
  | @token front text token found hw hb h ih =>
    have hb : (∃ literal, token = .number literal) → Breaks (text ++ rest) := by
      rintro ⟨literal, rfl⟩
      cases text with
      | nil =>
        obtain rfl := eq_nil_of_lexes h
        exact hr ⟨literal, rfl⟩
      | cons c text => exact hb ⟨literal, rfl⟩
    obtain ⟨c, tail, rfl, hc, hs, hf⟩ := scan_written hw hb
    have hl : (∃ literal, found.getLast? = some (.number literal)) → Breaks rest := by
      rintro ⟨literal, hl⟩
      exact hr ⟨literal, by simp [List.getLast?_cons, hl]⟩
    rw [List.append_assoc, List.cons_append, cut]
    simp only [hc, Bool.false_eq_true, if_false, hs, hf.skipFault, Option.isSome_none,
      ih (token :: done) hl]
    simp

theorem tokens_of_lexes {text : List Char} {found : List Token} (h : Lexes text found) :
    tokens text = found := by
  have hc := cut_of_lexes h [] fun _ => Breaks.nil
  rw [List.append_nil, List.append_nil] at hc
  rw [tokens, hc, cut, List.reverse_reverse]

/-- No token and no blank starts like the rest of a number. -/
theorem Lexes.breaks {text : List Char} {found : List Token} (h : Lexes text found)
    (hs : Stops text) : Breaks text := by
  intro c hc
  refine ⟨hs c hc, ?_⟩
  cases h with
  | done => cases hc
  | blank hb =>
    obtain rfl := Option.some.inj hc
    simp only [List.mem_cons, List.not_mem_nil, or_false] at hb
    rcases hb with rfl | rfl | rfl | rfl <;> decide
  | token hw _ _ =>
    obtain ⟨first, tail, rfl, -, hf, hs⟩ := scan_written hw fun _ => Breaks.nil
    obtain rfl := Option.some.inj hc
    refine ⟨?_, ?_, ?_⟩ <;>
      · rintro rfl
        obtain ⟨rfl, -⟩ := Prod.mk.inj hf
        exact hs.elim

theorem lexes_of_cut (done : List Token) (text : List Char)
    (h : ∀ token ∈ cut done text, token.Sound) :
    ∃ found, cut done text = done.reverse ++ found ∧ Lexes text found := by
  fun_induction cut done text with
  | case1 done => exact ⟨[], (List.append_nil _).symm, .done⟩
  | case2 done c rest hc ih =>
    obtain ⟨found, he, hl⟩ := ih h
    exact ⟨found, he, .blank (isSpace_iff.mp hc) hl⟩
  | case3 done c rest _ next hf =>
    have hs : next.1.Sound := h next.1 (by simp)
    simp [hs.skipFault] at hf
  | case4 done c rest _ next _ ih =>
    obtain ⟨found, he, hl⟩ := ih h
    have hs : next.1.Sound := h next.1 (by simp [he])
    obtain ⟨⟨front, ht, hw⟩, hb⟩ := begins_of_scan (rfl : scan c rest = (next.1, next.2)) hs
    refine ⟨next.1 :: found, by simp [he], ?_⟩
    rw [ht]
    exact .token hw (fun hn => hl.breaks (hb hn)) hl

theorem lexes_tokens {text : List Char} (h : ∀ token ∈ tokens text, token.Sound) :
    Lexes text (tokens text) := by
  obtain ⟨found, he, hl⟩ := lexes_of_cut [] text h
  rw [tokens, he]
  exact hl

theorem written_of_mem_cut {done : List Token} {text : List Char}
    (hd : ∀ token ∈ done, token.Sound → ∃ front, Written front token) :
    ∀ token ∈ cut done text, token.Sound → ∃ front, Written front token := by
  have hn (c : Char) (rest : List Char) (hs : (scan c rest).1.Sound) :
      ∃ front, Written front (scan c rest).1 := by
    obtain ⟨⟨front, -, hw⟩, -⟩ := begins_of_scan (rfl : scan c rest = (_, _)) hs
    exact ⟨front, hw⟩
  fun_induction cut done text with
  | case1 done => simpa using hd
  | case2 done c rest hc ih => exact ih hd
  | case3 done c rest _ next _ =>
    intro token hm
    rcases List.mem_cons.mp (List.mem_reverse.mp hm) with rfl | hm
    · exact hn c rest
    · exact hd token hm
  | case4 done c rest _ next _ ih => exact ih (List.forall_mem_cons.mpr ⟨hn c rest, hd⟩)

theorem written_of_mem {text : List Char} {token : Token} (h : token ∈ tokens text) :
    token.Sound → ∃ front, Written front token :=
  written_of_mem_cut (by simp) token h

-- ---------------------------------------------------------------------
-- Documents

theorem mem_listed {parts : List (List Token)} {token : Token} (h : token ∈ listed parts) :
    token = .comma ∨ ∃ part ∈ parts, token ∈ part := by
  cases parts with
  | nil => simp [listed] at h
  | cons part parts =>
    rw [listed_cons] at h
    simp only [List.mem_append, List.mem_flatMap, List.mem_cons] at h ⊢
    aesop

theorem Value.sound {value : List Token} (h : Value value) : ∀ token ∈ value, token.Sound := by
  induction h with
  | word | number | text => simp [Token.Sound, Token.skipFault]
  | row _ ih =>
    intro token ht
    simp only [rowTokens, List.mem_cons, List.mem_append, List.not_mem_nil, or_false] at ht
    rcases ht with rfl | ht | rfl
    · rfl
    · obtain rfl | ⟨item, hm, ht⟩ := mem_listed ht
      · rfl
      · exact ih item hm token ht
    · rfl
  | object _ ih =>
    intro token ht
    simp only [objectTokens, List.mem_cons, List.mem_append, List.not_mem_nil, or_false] at ht
    rcases ht with rfl | ht | rfl
    · rfl
    · obtain rfl | ⟨part, hm, ht⟩ := mem_listed ht
      · rfl
      · obtain ⟨entry, he, rfl⟩ := List.mem_map.mp hm
        simp only [entryTokens, List.mem_cons] at ht
        rcases ht with rfl | rfl | ht
        · rfl
        · rfl
        · exact ih entry he token ht
    · rfl

theorem Document.Formed.value {document : Document} (h : document.Formed) :
    Value document.tokens := by
  cases document with
  | row items => exact .row h
  | object members =>
    refine .object fun entry he => ?_
    obtain ⟨member, hm, rfl⟩ := List.mem_map.mp he
    exact (h member hm).2

theorem Document.Formed.stands {document : Document} {text : List Char} (h : document.Formed)
    (ht : Json.tokens text = document.tokens) : document.Stands text := by
  refine ⟨h, ht ▸ lexes_tokens fun token hm => ?_⟩
  rw [ht] at hm
  exact h.value.sound token hm

-- ---------------------------------------------------------------------
-- Integers

theorem digitChar_of_isDigit {c : Char} (h : c.isDigit = true) :
    (c.toNat - 48).digitChar = c ∧ c.toNat - 48 < 10 := by
  have hc : 48 ≤ c.toNat ∧ c.toNat ≤ 57 := by
    simpa [Char.isDigit, UInt32.le_iff_toNat_le] using h
  have hl : c.toNat - 48 < 10 := by omega
  refine ⟨Char.toNat_inj.mp ?_, hl⟩
  rw [Nat.toNat_digitChar_of_lt_ten hl]
  omega

theorem digitsValue_append (front : List Char) (c : Char) :
    digitsValue (digitValues (front ++ [c])) =
      digitsValue (digitValues front) * 10 + (c.toNat - 48) := by
  simp [digitsValue, digitValues]

theorem Whole.toDigits_eq {digits : List Char} (h : Whole digits) :
    Nat.toDigits 10 (digitsValue (digitValues digits)) = digits := by
  induction digits using List.reverseRecOn with
  | nil => exact absurd rfl h.nonempty
  | append_singleton front c ih =>
    obtain ⟨hc, hl⟩ := digitChar_of_isDigit (h.isDigit c (by simp))
    rw [digitsValue_append]
    cases front with
    | nil => simp [digitsValue, digitValues, Nat.toDigits_of_lt_base hl, hc]
    | cons d front =>
      have hz : d ≠ '0' := by
        rintro rfl
        simpa using h.alone rfl
      have hw : Whole (d :: front) :=
        ⟨⟨List.cons_ne_nil _ _, fun e he => h.isDigit e (List.mem_append_left _ he)⟩,
          fun hh => absurd (Option.some.inj hh) hz⟩
      have hp : 0 < digitsValue (digitValues (d :: front)) := by
        refine Nat.pos_of_ne_zero fun hv => ?_
        have hd := ih hw
        rw [hv] at hd
        exact hz (List.cons.inj hd).1.symm
      rw [Nat.mul_comm, ← Nat.toDigits_append_toDigits (by decide) hp hl, ih hw,
        Nat.toDigits_of_lt_base hl, hc]

theorem Decimal.eq_integerLiteral {text : List Char} {literal : Literal} {value : Int}
    (h : Decimal text literal) (hv : literal.value = .ok (.integer value)) :
    literal = integerLiteral value := by
  obtain @⟨whole, _, _, parts, power, negative, hw, -, -⟩ := h
  have hd := hw.toDigits_eq
  simp only [Literal.value] at hv
  generalize digitsValue (digitValues whole) = n at hd hv
  split at hv
  · rename_i hp
    obtain ⟨rfl, rfl, -⟩ := hp
    cases negative with
    | false =>
      obtain rfl : (n : Int) = value := by simpa using hv
      simp [integerLiteral, hd]
    | true =>
      simp only [Bool.true_eq_false, if_false] at hv
      split at hv
      · rename_i hn
        obtain rfl : -(n : Int) = value := by simpa using hv
        simp [integerLiteral, hd, hn.1]
      · cases hv
  · split at hv <;> cases hv

theorem eq_integerToken {front : List Char} {token : Token} {low high value : Int}
    (hw : Written front token) (h : token.integer low high = .ok value) :
    token = integerToken value ∧ low ≤ value ∧ value < high := by
  cases hw with
  | @number _ literal hl =>
    rw [Token.integer] at h
    split at h
    · rename_i n hv
      split at h
      · rename_i hb
        obtain rfl := Except.ok.inj h
        rw [integerToken, hl.eq_integerLiteral hv]
        exact ⟨rfl, hb⟩
      · cases h
    all_goals cases h
  | mark hm =>
    simp only [marks, List.mem_cons, Prod.mk.injEq, List.not_mem_nil, or_false] at hm
    rcases hm with ⟨-, rfl⟩ | ⟨-, rfl⟩ | ⟨-, rfl⟩ | ⟨-, rfl⟩ | ⟨-, rfl⟩ | ⟨-, rfl⟩ <;> cases h
  | word | text => cases h

end FabricMemory.Json
