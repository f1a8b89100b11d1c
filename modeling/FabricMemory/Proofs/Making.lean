import FabricMemory.Proofs.Write

/-!
# Making directories

A directory that is there is in the way of making it, and making it with all that is missing above
changes nothing (`Enters.makeDirectories`). What was made is entered (`enters_of_makeDirectories`),
and where there was anything to make, children were missing (`resolve_child_missing`).
-/

namespace FabricMemory

namespace FileSystem

variable {files made : FileSystem} {intent : Intent} {place : Place} {directory : Path}
  {child : String}

-- ---------------------------------------------------------------------
-- Slashes at the end

theorem names_slashes {slashes : Bytes} (h : ∀ byte ∈ slashes, byte = Path.slash) :
    Path.names slashes = [] := by
  induction slashes with
  | nil => rfl
  | cons byte rest ih =>
    obtain rfl := h byte (.head _)
    have hs := Path.names_append_slash [] rest
    rw [List.nil_append] at hs
    rw [hs, ih fun other ho => h other (.tail _ ho)]
    rfl

theorem names_append_slashes {front slashes : Bytes} (h : ∀ byte ∈ slashes, byte = Path.slash) :
    Path.names (front ++ slashes) = Path.names front := by
  cases slashes with
  | nil => rw [List.append_nil]
  | cons byte rest =>
    obtain rfl := h byte (.head _)
    rw [Path.names_append_slash, names_slashes fun other ho => h other (.tail _ ho),
      List.append_nil]

/-- What is left of a path without the slashes at its end. A path of slashes alone keeps them. -/
structure Trims (path trimmed : Path) (slashes : Bytes) : Prop where
  bytes : path.bytes = trimmed.bytes ++ slashes
  onlySlashes : ∀ byte ∈ slashes, byte = Path.slash
  ends : trimmed.bytes.getLast? ≠ some Path.slash ∨ Path.names path.bytes = []
  nonempty : path.bytes ≠ [] → trimmed.bytes ≠ []

theorem trims_withoutSlashes (path : Path) :
    ∃ slashes, Trims path (withoutSlashes path) slashes := by
  let isSlash (byte : UInt8) : Bool := byte = Path.slash
  have hs := List.takeWhile_append_dropWhile (p := isSlash) (l := path.bytes.reverse)
  have ht : ∀ byte ∈ path.bytes.reverse.takeWhile isSlash, byte = Path.slash :=
    fun byte hb => of_decide_eq_true (List.all_eq_true.mp List.all_takeWhile byte hb)
  unfold withoutSlashes
  cases hk : path.bytes.reverse.dropWhile isSlash with
  | nil =>
    rw [hk, List.append_nil] at hs
    have hn : Path.names path.bytes = [] := by
      refine names_slashes fun byte hb => ht byte ?_
      rw [hs]
      exact List.mem_reverse.mpr hb
    exact ⟨[], by simp, by simp, .inr hn, id⟩
  | cons byte kept =>
    have hb : byte ≠ Path.slash := by
      have hd := List.head?_dropWhile_not isSlash path.bytes.reverse
      rw [hk] at hd
      exact of_decide_eq_false (by simpa [isSlash] using hd)
    refine ⟨(path.bytes.reverse.takeWhile isSlash).reverse, ?_, ?_, ?_, ?_⟩
    · rw [← List.reverse_append, ← hk, hs, List.reverse_reverse]
    · exact fun other ho => ht other (List.mem_reverse.mp ho)
    · left
      simpa using hb
    · simp

namespace Trims

variable {path trimmed : Path} {slashes : Bytes} (h : Trims path trimmed slashes)
include h

theorem names_eq : Path.names trimmed.bytes = Path.names path.bytes := by
  rw [h.bytes, names_append_slashes h.onlySlashes]

theorem steps_eq : steps trimmed = Path.names path.bytes ∨
    Path.names path.bytes = [] ∧ steps trimmed = [[]] := by
  obtain he | hn := h.ends
  · left
    rw [steps, if_neg he]
    exact h.names_eq
  · obtain hs | hs := steps_cases trimmed
    · exact .inl (hs.trans h.names_eq)
    · rw [h.names_eq, hn] at hs
      exact .inr ⟨hn, hs⟩

theorem noNul_iff : 0 ∉ trimmed.bytes ↔ 0 ∉ path.bytes := by
  have hs : 0 ∉ slashes := fun hm => absurd (h.onlySlashes 0 hm) (by decide)
  rw [h.bytes, List.mem_append]
  simp [hs]

theorem length_le : trimmed.bytes.length ≤ path.bytes.length := by
  rw [h.bytes, List.length_append]
  exact Nat.le_add_right ..

theorem origin_eq : files.origin trimmed = files.origin path := by
  have ha : trimmed.isAbsolute = path.isAbsolute := by
    unfold Path.isAbsolute
    cases ht : trimmed.bytes with
    | nil =>
      have hb : path.bytes = [] := Classical.byContradiction fun hp => h.nonempty hp ht
      rw [hb]
    | cons byte rest => rw [h.bytes, ht, List.cons_append, List.head?_cons, List.head?_cons]
  rw [origin, origin, ha]

end Trims

-- ---------------------------------------------------------------------
-- Making what is there

theorem bytes_ne_nil_of_parent? {path above : Path} (h : path.parent? = some above) :
    path.bytes ≠ [] := by
  intro hb
  rw [Path.parent?, hb] at h
  cases h

theorem Enters.makeDirectory (h : files.Enters directory place) (hb : directory.bytes ≠ []) :
    files.makeDirectory directory = .error (.system Errno.exists_) := by
  obtain ⟨slashes, ht⟩ := trims_withoutSlashes directory
  obtain ⟨hz, left, hp⟩ := h.passes
  have hl : directory.bytes.length < maxPath := by
    obtain ⟨he, -⟩ | hf := h
    · exact absurd he hb
    · exact (resolve_eq_ok (find_eq_ok_iff.mp hf)).2.2
  have hr : ∃ place node,
      files.resolve (withoutSlashes directory) .entry = .ok (.occupied place node) := by
    rw [resolve_eq (ht.nonempty hb) (ht.noNul_iff.mpr hz) (Nat.lt_of_le_of_lt ht.length_le hl),
      ht.origin_eq]
    obtain hs | ⟨-, hs⟩ := ht.steps_eq
    · rw [hs]
      exact hp.walk_entry
    · rw [hs, walk, if_pos (.inl rfl), walk]
      exact ⟨_, _, rfl⟩
  obtain ⟨place, node, hr⟩ := hr
  rw [FileSystem.makeDirectory, hr]
  rfl

theorem Enters.makeDirectories (h : files.Enters directory place) :
    files.makeDirectories directory = (.ok (), files) := by
  rw [FileSystem.makeDirectories]
  split
  · rfl
  · rename_i above hp
    have hb := bytes_ne_nil_of_parent? hp
    have hd : files.isDirectory directory = true := by
      obtain ⟨he, -⟩ | hf := h
      · exact absurd he hb
      · rw [isDirectory, hf]
    rw [h.makeDirectory hb]
    simp [hd, Errno.exists_, Errno.noEntry]

-- ---------------------------------------------------------------------
-- Making what is missing

theorem misses_of_makeDirectories
    (h : files.makeDirectories directory = (.ok (), made)) :
    made = files ∨ directory.bytes ≠ [] ∧
      Misses (files.resolve (withoutSlashes directory) .entry) := by
  rw [FileSystem.makeDirectories] at h
  split at h
  · exact .inl (Prod.mk.inj h).2.symm
  · rename_i above hp
    have hb := bytes_ne_nil_of_parent? hp
    unfold FileSystem.makeDirectory at h
    cases hr : files.resolve (withoutSlashes directory) .entry with
    | ok target =>
      cases target with
      | vacant place => exact .inr ⟨hb, .inl ⟨place, rfl⟩⟩
      | occupied place node =>
        have he : (.system Errno.exists_ : IoError) ≠ .system Errno.noEntry := by decide
        simp [hr, bind, Except.bind, throw, throwThe, MonadExceptOf.throw, he] at h
        exact .inl h.2.symm
    | error e =>
      by_cases he : e = .system Errno.noEntry
      · exact .inr ⟨hb, .inr (by rw [he])⟩
      · simp [hr, bind, Except.bind, he] at h
        exact .inl h.2.symm

theorem resolve_child_missing (hn : Path.IsName (Utf8.encode child))
    (hl : (directory.child child).bytes.length < maxPath) (hb : directory.bytes ≠ [])
    (h : Misses (files.resolve (withoutSlashes directory) .entry)) :
    files.resolve (directory.child child) intent = .error (.system Errno.noEntry) := by
  obtain ⟨slashes, ht⟩ := trims_withoutSlashes directory
  obtain ⟨hz, hw⟩ := resolve_misses (ht.nonempty hb) h
  rw [resolve_child_eq hn (ht.noNul_iff.mp hz) hl]
  rw [ht.origin_eq] at hw
  obtain hs | ⟨-, hs⟩ := ht.steps_eq
  · rw [hs] at hw
    exact walk_missing hn.nonempty hw
  · rw [hs, walk, if_pos (.inl rfl), walk] at hw
    simp [Misses] at hw

theorem enters_of_passes {left : Nat} (hb : directory.bytes ≠ []) (hz : 0 ∉ directory.bytes)
    (hl : directory.bytes.length < maxPath)
    (h : files.Passes maxLinks (files.origin directory) (Path.names directory.bytes) left place) :
    files.Enters directory place := by
  refine .inr (find_eq_ok_iff.mpr ?_)
  rw [resolve_eq hb hz hl]
  obtain hs | hs := steps_cases directory
  · rw [hs, h.walk_eq]
  · rw [hs, (h.append (.dot (.inl rfl) .done)).walk_eq]

theorem enters_of_makeDirectory (h : files.makeDirectory directory = .ok made)
    (hb : directory.bytes ≠ []) (hl : directory.bytes.length < maxPath) :
    ∃ place, made.Enters directory place := by
  obtain ⟨target, hr, h⟩ := bind_eq_ok h
  cases target with
  | occupied place node => cases h
  | vacant place =>
    cases h
    obtain ⟨slashes, ht⟩ := trims_withoutSlashes directory
    obtain ⟨hb', hz, hl'⟩ := resolve_eq_ok hr
    rw [resolve_eq hb' hz hl', ht.origin_eq] at hr
    obtain hs | ⟨-, hs⟩ := ht.steps_eq
    · rw [hs] at hr
      have hw := walk_write hr (.inl rfl) (walk_writable hr (.inl rfl)) (by simp :
        ∀ goal, Node.directory ≠ .link goal)
      obtain ⟨left, hp⟩ := passes_of_walk hw
      exact ⟨place, enters_of_passes hb (ht.noNul_iff.mp hz) hl hp⟩
    · rw [hs, walk, if_pos (.inl rfl), walk] at hr
      cases hr

theorem passes_dots {links : Nat} {names : List Name} (h : ∀ name ∈ names, name = Path.dot) :
    files.Passes links place names links place := by
  induction names with
  | nil => exact .done
  | cons name rest ih =>
    exact .dot (.inr (h name (.head _))) (ih fun other ho => h other (.tail _ ho))

/-- What has nothing above it is the root or the working directory. -/
theorem enters_of_parent?_none (h : directory.parent? = none)
    (hl : directory.bytes.length < maxPath) : ∃ place, files.Enters directory place := by
  by_cases hb : directory.bytes = []
  · exact ⟨_, .inl ⟨hb, rfl⟩⟩
  · have hr : Path.trimEnd directory.bytes = [Path.slash] := by
      simpa [Path.parent?, Path.trimEnd_ne_nil hb] using h
    obtain ⟨hz, hd⟩ := Path.names_of_trimEnd hr
    exact ⟨_, enters_of_passes hb hz hl (passes_dots hd)⟩

theorem enters_of_isDirectory (h : files.isDirectory directory = true) :
    ∃ place, files.Enters directory place := by
  unfold isDirectory at h
  split at h
  · rename_i place hf
    exact ⟨place, .inr hf⟩
  · cases h

theorem enters_of_makeDirectories (h : files.makeDirectories directory = (.ok (), made))
    (hl : directory.bytes.length < maxPath) : ∃ place, made.Enters directory place := by
  rw [FileSystem.makeDirectories] at h
  split at h
  · rename_i hp
    exact enters_of_parent?_none hp hl
  · rename_i above hp
    have hb := bytes_ne_nil_of_parent? hp
    have checked {files : FileSystem} {e : IoError}
        (h : ((if files.isDirectory directory then .ok () else .error e : Except IoError Unit),
          files) = (.ok (), made)) :
        ∃ place, made.Enters directory place := by
      obtain ⟨hd, rfl⟩ := Prod.mk.inj h
      exact enters_of_isDirectory (by simpa using hd)
    split at h
    · rename_i hm
      cases h
      exact enters_of_makeDirectory hm hb hl
    · split at h
      · split at h
        · cases h
        · split at h
          · rename_i hm
            cases h
            exact enters_of_makeDirectory hm hb hl
          · exact checked h
      · exact checked h

end FileSystem

end FabricMemory
