import Mathlib
import FabricMemory.CommandLine.Run

/-!
# What a command line shows

The parts of a run, and the text of a failure whose causes take one line each (`text_of_lines`).
-/

namespace FabricMemory.CommandLine

-- ---------------------------------------------------------------------
-- Texts of one line

/-- No line ends where the text has been looked through so far, and none is ahead. -/
theorem splitOnAux_newline (seen ahead : List Char) (h : '\n' ∉ ahead) :
    (String.ofList (seen ++ ahead)).splitOnAux "\n" 0 ⟨String.utf8Len seen⟩ 0 [] =
      [String.ofList (seen ++ ahead)] := by
  induction ahead generalizing seen with
  | nil =>
    have he : String.Pos.Raw.atEnd (.ofList (seen ++ [])) ⟨String.utf8Len seen⟩ = true := by
      simp only [String.atEnd_iff, List.append_nil, String.rawEndPos_ofList,
        String.Pos.Raw.mk_le_mk, Nat.le_refl]
    have hx : String.Pos.Raw.extract (.ofList (seen ++ [])) 0 ⟨String.utf8Len seen⟩ =
        .ofList (seen ++ []) := by
      simpa using String.extract_of_valid [] seen []
    rw [String.splitOnAux.eq_def, if_pos he]
    simp only [hx, List.reverse_cons, List.reverse_nil, List.nil_append]
  | cons c ahead ih =>
    have he : ¬ String.Pos.Raw.atEnd (.ofList (seen ++ c :: ahead)) ⟨String.utf8Len seen⟩ =
        true := by
      have hc := c.utf8Size_pos
      simp only [String.atEnd_iff, String.rawEndPos_ofList, String.utf8Len_append,
        String.utf8Len_cons, String.Pos.Raw.mk_le_mk]
      omega
    have hg : ¬ (String.Pos.Raw.get (.ofList (seen ++ c :: ahead)) ⟨String.utf8Len seen⟩ ==
        String.Pos.Raw.get "\n" 0) = true := by
      have hs : String.Pos.Raw.get "\n" 0 = '\n' := String.get_of_valid [] ['\n']
      rw [String.get_of_valid seen (c :: ahead), hs, List.headD_cons, beq_iff_eq]
      rintro rfl
      exact h (.head _)
    have hn : String.Pos.Raw.next (.ofList (seen ++ c :: ahead)) ⟨String.utf8Len seen⟩ =
        ⟨String.utf8Len (seen ++ [c])⟩ := by
      rw [String.next_of_valid, String.utf8Len_append, String.utf8Len_cons, String.utf8Len_nil,
        Nat.zero_add]
    have hu : (⟨String.utf8Len seen⟩ : String.Pos.Raw).unoffsetBy 0 =
        ⟨String.utf8Len seen⟩ := rfl
    have ih := ih (seen ++ [c]) fun hm => h (.tail _ hm)
    rw [List.append_assoc, List.singleton_append] at ih
    rw [String.splitOnAux.eq_def, if_neg he, if_neg hg, hu, hn]
    exact ih

theorem splitOn_newline {text : String} (h : '\n' ∉ text.toList) : text.splitOn "\n" = [text] := by
  have hs := splitOnAux_newline [] text.toList h
  rw [List.nil_append, String.ofList_toList] at hs
  exact hs

-- ---------------------------------------------------------------------
-- Failures

theorem indented_of_line (first other : String) {cause : String} (h : '\n' ∉ cause.toList) :
    Failure.indented first other cause = first ++ cause ++ "\n" := by
  rw [Failure.indented, splitOn_newline h]
  rfl

theorem text_of_lines {context cause source : String} (hc : '\n' ∉ cause.toList)
    (hs : '\n' ∉ source.toList) :
    Failure.text ⟨context, [cause, source]⟩ =
      "Error: " ++ context ++ "\n" ++ ("\nCaused by:\n" ++
        ("    0: " ++ cause ++ "\n" ++ ("    1: " ++ source ++ "\n"))) := by
  have hz : Numeral.decimal 0 = "0" := by decide
  have ho : Numeral.decimal 1 = "1" := by decide
  simp [Failure.text, Failure.causesText, Failure.numbered, indented_of_line, hc, hs, hz, ho,
    String.join_cons, String.append_assoc]

-- ---------------------------------------------------------------------
-- Lines

namespace Report

theorem lines_singleton (text : String) : lines [text] = text ++ "\n" := by
  simp [lines, String.join_cons]

theorem lines_append (texts others : List String) :
    lines (texts ++ others) = lines texts ++ lines others := by
  simp [lines]

theorem lines_cons (text : String) (others : List String) :
    lines (text :: others) = text ++ "\n" ++ lines others := by
  rw [← List.singleton_append, lines_append, lines_singleton]

theorem lines_ne_empty {texts : List String} (h : texts ≠ []) : lines texts ≠ "" := by
  obtain ⟨text, others, rfl⟩ := List.exists_cons_of_ne_nil h
  simp [lines_cons]

end Report

-- ---------------------------------------------------------------------
-- Runs

variable {δ : Type} {script : Script δ Unit} {host : Host δ} {progress : Progress δ}

theorem events_ran (script : Script δ Unit) (host : Host δ) :
    (script.ran host).events = (script.on (.start host)).2.events := by
  unfold Script.ran
  rcases script.on (.start host) with ⟨_ | _, _⟩ <;> rfl

theorem ran_of_ok (h : script.on (.start host) = (.ok (), progress)) :
    script.ran host = ⟨0, progress.output, "", progress.events, progress.link.world⟩ := by
  rw [Script.ran, h]

theorem ran_of_error {failure : Failure} (h : script.on (.start host) = (.error failure, progress)) :
    script.ran host =
      ⟨1, progress.output, failure.text, progress.events, progress.link.world⟩ := by
  rw [Script.ran, h]

end FabricMemory.CommandLine
