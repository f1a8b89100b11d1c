import FabricMemory.FileSystem.Access

/-!
# The path of a child

The path of a child goes through the names of its directory and then through its own
(`steps_child`), however many slashes end the path of the directory.
-/

namespace FabricMemory

namespace Path

-- ---------------------------------------------------------------------
-- Names

def names (bytes : Bytes) : List Name := (split bytes).filter (· ≠ [])

theorem split_ne_nil (bytes : Bytes) : split bytes ≠ [] := by
  fun_induction split bytes <;> simp

theorem split_append_slash (front rest : Bytes) :
    split (front ++ slash :: rest) = split front ++ split rest := by
  induction front with
  | nil => simp [split]
  | cons byte front ih =>
    rw [List.cons_append, split, split, ih]
    split
    · rfl
    · cases hs : split front with
      | nil => exact absurd hs (split_ne_nil front)
      | cons first others => rfl

theorem split_of_notMem {name : Bytes} (h : slash ∉ name) : split name = [name] := by
  induction name with
  | nil => rfl
  | cons byte name ih =>
    obtain ⟨hb, hn⟩ := List.ne_and_not_mem_of_not_mem_cons h
    rw [split, if_neg (Ne.symm hb), ih hn]

theorem names_append_slash (front rest : Bytes) :
    names (front ++ slash :: rest) = names front ++ names rest := by
  rw [names, split_append_slash, List.filter_append]
  rfl

@[simp] theorem names_nil : names [] = [] := by rfl

theorem names_reverse_slash (rest : Bytes) :
    names (slash :: rest).reverse = names rest.reverse := by
  rw [List.reverse_cons, names_append_slash, names_nil, List.append_nil]

theorem names_reverse_dot_slash (rest : Bytes) :
    names (0x2e :: slash :: rest).reverse = names rest.reverse ++ [dot] := by
  rw [List.reverse_cons, List.reverse_cons, List.append_assoc, List.singleton_append,
    names_append_slash]
  rfl

/-- What is the root but for lone dots has no other names. -/
theorem names_of_trimEnd {bytes : Bytes} (h : trimEnd bytes = [slash]) :
    0 ∉ bytes ∧ ∀ name ∈ names bytes, name = dot := by
  have hg (reversed : Bytes) (h : trimEnd.go reversed = [slash]) :
      0 ∉ reversed ∧ ∀ name ∈ names reversed.reverse, name = dot := by
    fun_induction trimEnd.go reversed with
    | case1 => cases h
    | case2 byte =>
      cases h
      exact ⟨by decide, by decide⟩
    | case3 rest ih =>
      obtain ⟨hz, hd⟩ := ih h
      replace hd := names_reverse_slash rest ▸ hd
      refine ⟨by simpa using hz, fun name hn => ?_⟩
      replace hn := names_reverse_dot_slash rest ▸ hn
      exact (List.mem_append.mp hn).elim (hd name) List.eq_of_mem_singleton
    | case4 rest _ ih =>
      obtain ⟨hz, hd⟩ := ih h
      exact ⟨by simpa using hz, names_reverse_slash rest ▸ hd⟩
    | case5 kept _ hb =>
      obtain rfl : kept = [slash] := by simpa using congrArg List.reverse h
      exact absurd rfl (hb slash)
  have hb := hg bytes.reverse h
  simpa using hb

theorem trimEnd_ne_nil {bytes : Bytes} (h : bytes ≠ []) : trimEnd bytes ≠ [] := by
  have hg (reversed : Bytes) (h : reversed ≠ []) : trimEnd.go reversed ≠ [] := by
    fun_induction trimEnd.go reversed <;> simp_all
  exact hg bytes.reverse (by simpa using h)

structure IsName (name : Bytes) : Prop where
  nonempty : name ≠ []
  noSlash : slash ∉ name
  noNul : 0 ∉ name

theorem IsName.names {name : Bytes} (h : IsName name) : names name = [name] := by
  rw [Path.names, split_of_notMem h.noSlash]
  simp [h.nonempty]

theorem eq_of_getLast?_slash {bytes : Bytes} (h : bytes.getLast? = some slash) :
    ∃ front, bytes = front ++ [slash] := by
  obtain ⟨front, rfl⟩ := List.getLast?_eq_some_iff.mp h
  exact ⟨front, rfl⟩

section

variable {name : Name} (hs : slash ∉ name)
include hs

theorem isAbsolute_of_notMem : (Path.mk name).isAbsolute = false :=
  decide_eq_false fun h => hs (List.mem_of_mem_head? h)

theorem bytes_join (directory : Path) :
    (directory.join ⟨name⟩).bytes = directory.bytes ++ name ∧
        (directory.bytes = [] ∨ directory.bytes.getLast? = some slash) ∨
      (directory.join ⟨name⟩).bytes = directory.bytes ++ slash :: name ∧
        directory.bytes ≠ [] ∧ directory.bytes.getLast? ≠ some slash := by
  unfold join
  rw [isAbsolute_of_notMem hs, if_neg Bool.false_ne_true]
  split
  · rename_i h
    exact .inl ⟨rfl, h⟩
  · rename_i h
    exact .inr ⟨rfl, not_or.mp h⟩

theorem getLast?_join (hn : name ≠ []) (directory : Path) :
    (directory.join ⟨name⟩).bytes.getLast? ≠ some slash := by
  intro h
  have hl := List.getLast?_eq_some_getLast hn
  have hg : name.getLast hn = slash := by
    obtain ⟨hb, -⟩ | ⟨hb, -⟩ := bytes_join hs directory
    · simpa [hb, List.getLast?_append, hl] using h
    · simpa [hb, List.getLast?_append, List.getLast?_cons, hl] using h
  exact hs (hg ▸ List.getLast_mem hn)

theorem names_join (directory : Path) :
    names (directory.join ⟨name⟩).bytes = names directory.bytes ++ names name := by
  obtain ⟨hb, h | h⟩ | ⟨hb, -⟩ := bytes_join hs directory
  · rw [hb, h]
    rfl
  · obtain ⟨front, hf⟩ := eq_of_getLast?_slash h
    rw [hb, hf, List.append_assoc, List.singleton_append, names_append_slash, names_append_slash,
      names_nil, List.append_nil]
  · rw [hb, names_append_slash]

theorem isAbsolute_join (directory : Path) :
    (directory.join ⟨name⟩).isAbsolute = directory.isAbsolute := by
  obtain ⟨hb, h | h⟩ | ⟨hb, h, -⟩ := bytes_join hs directory
  · have hn := isAbsolute_of_notMem hs
    rw [isAbsolute] at hn
    rw [isAbsolute, isAbsolute, hb, h, List.nil_append, hn]
    rfl
  · obtain ⟨front, hf⟩ := eq_of_getLast?_slash h
    rw [isAbsolute, isAbsolute, hb, hf]
    cases front <;> rfl
  · obtain ⟨byte, rest, he⟩ := List.exists_cons_of_ne_nil h
    rw [isAbsolute, isAbsolute, hb, he]
    rfl

end

section

variable {directory : Path} {name : String} (hn : IsName (Utf8.encode name))
include hn

theorem bytes_child (directory : Path) :
    (directory.child name).bytes = directory.bytes ++ Utf8.encode name ∧
        (directory.bytes = [] ∨ directory.bytes.getLast? = some slash) ∨
      (directory.child name).bytes = directory.bytes ++ slash :: Utf8.encode name ∧
        directory.bytes ≠ [] :=
  (bytes_join hn.noSlash directory).imp_right fun h => ⟨h.1, h.2.1⟩

theorem names_child :
    names (directory.child name).bytes = names directory.bytes ++ [Utf8.encode name] := by
  rw [← hn.names]
  exact names_join hn.noSlash directory

theorem getLast?_child : (directory.child name).bytes.getLast? ≠ some slash :=
  getLast?_join hn.noSlash hn.nonempty directory

theorem steps_child :
    FileSystem.steps (directory.child name) = names directory.bytes ++ [Utf8.encode name] := by
  rw [FileSystem.steps, if_neg (getLast?_child hn)]
  exact names_child hn

theorem isAbsolute_child : (directory.child name).isAbsolute = directory.isAbsolute :=
  isAbsolute_join hn.noSlash directory

theorem bytes_child_ne_nil : (directory.child name).bytes ≠ [] := by
  obtain ⟨hb, -⟩ | ⟨hb, -⟩ := bytes_child hn directory
  · rw [hb]
    exact List.append_ne_nil_of_right_ne_nil _ hn.nonempty
  · rw [hb]
    simp

theorem noNul_child (hd : 0 ∉ directory.bytes) : 0 ∉ (directory.child name).bytes := by
  have hs : (0 : UInt8) ≠ slash := by decide
  obtain ⟨hb, -⟩ | ⟨hb, -⟩ := bytes_child hn directory
  · simp [hb, hd, hn.noNul]
  · simp [hb, hd, hn.noNul, hs]

end

end Path

end FabricMemory
