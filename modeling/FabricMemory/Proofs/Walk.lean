import FabricMemory.Proofs.Path

/-!
# Children of a directory

Following a path `Passes` through the directories on its way. Below a directory, a further name is
looked up in the place that the path of the directory has (`Enters.resolve_child`); where the names
of the directory miss, the child is missing too (`walk_missing`).
-/

namespace FabricMemory

namespace FileSystem

variable {files : FileSystem} {intent : Intent} {links : Nat} {start place : Place}
  {names : List Name} {name : Name}

-- ---------------------------------------------------------------------
-- Single steps

/-- A name that is looked up, and not too long for that. -/
structure Proper (name : Name) : Prop where
  noDot : ¬ (name = [] ∨ name = Path.dot)
  noDotDot : name ≠ Path.dotDot
  short : name.length ≤ maxName

section

variable {rest : List Name} (hp : Proper name) (hb : ¬ (intent = .newFile ∧ rest = [[]]))
include hp hb

theorem walk_directory (hn : files.node? (start ++ [name]) = some .directory) :
    files.walk intent links start (name :: rest) =
      files.walk intent links (start ++ [name]) rest := by
  rw [walk, if_neg hp.noDot, if_neg hp.noDotDot, if_neg hb, if_neg (Nat.not_lt.mpr hp.short), hn]

theorem walk_link {goal : Path} (hn : files.node? (start ++ [name]) = some (.link goal))
    (hg : goal.bytes ≠ []) (he : ¬ (rest = [] ∧ intent = .entry)) :
    files.walk intent (links + 1) start (name :: rest) =
      files.walk intent links (if goal.isAbsolute then [] else start) (steps goal ++ rest) := by
  rw [walk, if_neg hp.noDot, if_neg hp.noDotDot, if_neg hb, if_neg (Nat.not_lt.mpr hp.short), hn]
  simp only [if_neg he, if_neg hg]

end

theorem walk_vacant (hp : Proper name) (hn : files.node? (start ++ [name]) = none) :
    files.walk intent links start [name] = .ok (.vacant (start ++ [name])) := by
  rw [walk, if_neg hp.noDot, if_neg hp.noDotDot, if_neg (by simp),
    if_neg (Nat.not_lt.mpr hp.short), hn]
  rfl

theorem walk_file (hp : Proper name) {content : Bytes}
    (hn : files.node? (start ++ [name]) = some (.file content)) :
    files.walk intent links start [name] =
      .ok (.occupied (start ++ [name]) (.file content)) := by
  rw [walk, if_neg hp.noDot, if_neg hp.noDotDot, if_neg (by simp),
    if_neg (Nat.not_lt.mpr hp.short), hn]
  rfl

theorem walk_entry_link (hp : Proper name) {goal : Path}
    (hn : files.node? (start ++ [name]) = some (.link goal)) :
    files.walk .entry links start [name] = .ok (.occupied (start ++ [name]) (.link goal)) := by
  rw [walk, if_neg hp.noDot, if_neg hp.noDotDot, if_neg (by simp),
    if_neg (Nat.not_lt.mpr hp.short), hn]
  rfl

-- ---------------------------------------------------------------------
-- Through directories

/-- Following the names from a place, with so many links allowed, leads through to a directory, with
so many left. -/
inductive Passes (files : FileSystem) : Nat → Place → List Name → Nat → Place → Prop
  | done {links : Nat} {place : Place} : Passes files links place [] links place
  | dot {links left : Nat} {start place : Place} {name : Name} {rest : List Name}
      (hd : name = [] ∨ name = Path.dot) (h : Passes files links start rest left place) :
      Passes files links start (name :: rest) left place
  | up {links left : Nat} {start place : Place} {rest : List Name}
      (h : Passes files links start.dropLast rest left place) :
      Passes files links start (Path.dotDot :: rest) left place
  | directory {links left : Nat} {start place : Place} {name : Name} {rest : List Name}
      (hp : Proper name) (hn : files.node? (start ++ [name]) = some .directory)
      (h : Passes files links (start ++ [name]) rest left place) :
      Passes files links start (name :: rest) left place
  | link {links left : Nat} {start place : Place} {name : Name} {rest : List Name} {goal : Path}
      (hp : Proper name) (hn : files.node? (start ++ [name]) = some (.link goal))
      (hg : goal.bytes ≠ [])
      (h : Passes files links (if goal.isAbsolute then [] else start) (steps goal ++ rest) left
        place) :
      Passes files (links + 1) start (name :: rest) left place

theorem passes_of_walk
    (h : files.walk intent links start names = .ok (.occupied place .directory)) :
    ∃ left, files.Passes links start names left place := by
  fun_induction walk files intent links start names with
  | case1 =>
    cases h
    exact ⟨_, .done⟩
  | case2 _ _ _ _ hd ih =>
    obtain ⟨left, hp⟩ := ih h
    exact ⟨left, .dot hd hp⟩
  | case3 _ _ _ _ ih =>
    obtain ⟨left, hp⟩ := ih h
    exact ⟨left, .up hp⟩
  | case8 _ _ _ _ hd hu _ hl hn ih =>
    obtain ⟨left, hp⟩ := ih h
    exact ⟨left, .directory ⟨hd, hu, Nat.le_of_not_lt hl⟩ hn hp⟩
  | case14 _ _ _ hd hu _ hl goal hn _ links hg ih =>
    obtain ⟨left, hp⟩ := ih h
    exact ⟨left, .link ⟨hd, hu, Nat.le_of_not_lt hl⟩ hn hg (by simpa using hp)⟩
  | _ => cases h

namespace Passes

variable {left : Nat}

theorem walk_append (h : files.Passes links start names left place) (hn : name ≠ []) :
    files.walk intent links start (names ++ [name]) = files.walk intent left place [name] := by
  have hb (rest : List Name) : ¬ (intent = .newFile ∧ rest ++ [name] = [[]]) := by
    rintro ⟨-, h⟩
    cases rest <;> simp_all
  induction h with
  | done => rfl
  | dot hd _ ih => rw [List.cons_append, walk, if_pos hd, ih]
  | up _ ih => rw [List.cons_append, walk, if_neg (by decide), if_pos rfl, ih]
  | directory hp hn _ ih => rw [List.cons_append, walk_directory hp (hb _) hn, ih]
  | link hp hn hg _ ih =>
    rw [List.cons_append, walk_link hp (hb _) hn hg (by simp), ← List.append_assoc, ih]

theorem walk_eq (h : files.Passes links start names left place) :
    files.walk .target links start names = .ok (.occupied place .directory) := by
  induction h with
  | done => rw [walk]
  | dot hd _ ih => rw [walk, if_pos hd, ih]
  | up _ ih => rw [walk, if_neg (by decide), if_pos rfl, ih]
  | directory hp hn _ ih => rw [walk_directory hp (by simp) hn, ih]
  | link hp hn hg _ ih => rw [walk_link hp (by simp) hn hg (by simp), ih]

theorem walk_entry (h : files.Passes links start names left place) :
    ∃ place node, files.walk .entry links start names = .ok (.occupied place node) := by
  induction h with
  | done => exact ⟨_, _, by rw [walk]⟩
  | dot hd _ ih => rwa [walk, if_pos hd]
  | up _ ih => rwa [walk, if_neg (by decide), if_pos rfl]
  | directory hp hn _ ih => rwa [walk_directory hp (by simp) hn]
  | @link _ _ _ _ _ rest goal hp hn hg _ ih =>
    cases rest with
    | nil => exact ⟨_, _, walk_entry_link hp hn⟩
    | cons next rest => rwa [walk_link hp (by simp) hn hg (by simp)]

theorem append {more : List Name} {last : Nat} {goal : Place}
    (h : files.Passes links start names left place) (hm : files.Passes left place more last goal) :
    files.Passes links start (names ++ more) last goal := by
  induction h with
  | done => exact hm
  | dot hd _ ih => exact .dot hd (ih hm)
  | up _ ih => exact .up (ih hm)
  | directory hp hn _ ih => exact .directory hp hn (ih hm)
  | link hp hn hg _ ih => exact .link hp hn hg (List.append_assoc .. ▸ ih hm)

theorem of_append {more : List Name} (h : files.Passes links start (names ++ more) left place) :
    ∃ between goal, files.Passes links start names between goal ∧
      files.Passes between goal more left place := by
  generalize ha : names ++ more = all at h
  induction h generalizing names with
  | done =>
    obtain ⟨rfl, rfl⟩ := List.append_eq_nil_iff.mp ha
    exact ⟨_, _, .done, .done⟩
  | dot hd h ih =>
    rcases List.append_eq_cons_iff.mp ha with ⟨rfl, rfl⟩ | ⟨names, rfl, rfl⟩
    · exact ⟨_, _, .done, .dot hd h⟩
    · obtain ⟨between, goal, hf, hs⟩ := ih rfl
      exact ⟨between, goal, .dot hd hf, hs⟩
  | up h ih =>
    rcases List.append_eq_cons_iff.mp ha with ⟨rfl, rfl⟩ | ⟨names, rfl, rfl⟩
    · exact ⟨_, _, .done, .up h⟩
    · obtain ⟨between, goal, hf, hs⟩ := ih rfl
      exact ⟨between, goal, .up hf, hs⟩
  | directory hp hn h ih =>
    rcases List.append_eq_cons_iff.mp ha with ⟨rfl, rfl⟩ | ⟨names, rfl, rfl⟩
    · exact ⟨_, _, .done, .directory hp hn h⟩
    · obtain ⟨between, goal, hf, hs⟩ := ih rfl
      exact ⟨between, goal, .directory hp hn hf, hs⟩
  | link hp hn hg h ih =>
    rcases List.append_eq_cons_iff.mp ha with ⟨rfl, rfl⟩ | ⟨names, rfl, rfl⟩
    · exact ⟨_, _, .done, .link hp hn hg h⟩
    · obtain ⟨between, goal, hf, hs⟩ := ih (List.append_assoc ..)
      exact ⟨between, goal, .link hp hn hg hf, hs⟩

theorem of_dot {name : Name} (hd : name = [] ∨ name = Path.dot)
    (h : files.Passes links start (name :: names) left place) :
    files.Passes links start names left place := by
  cases h with
  | dot _ h => exact h
  | up h => exact absurd hd (by decide)
  | directory hp _ _ => exact absurd hd hp.noDot
  | link hp _ _ _ => exact absurd hd hp.noDot

theorem node_of_cons (h : files.Passes links start (name :: names) left place)
    (hd : ¬ (name = [] ∨ name = Path.dot)) (hu : name ≠ Path.dotDot) :
    ∃ node, files.node? (start ++ [name]) = some node := by
  cases h with
  | dot hd' => exact absurd hd' hd
  | up => exact absurd rfl hu
  | directory _ hn => exact ⟨_, hn⟩
  | link _ hn => exact ⟨_, hn⟩

theorem of_blank (h : files.Passes links start (names ++ [[]]) left place) :
    files.Passes links start names left place := by
  obtain ⟨between, goal, hf, hs⟩ := h.of_append
  cases hs.of_dot (.inl rfl)
  exact hf

end Passes

/-- Nothing stands at the end of the path, or a name before that is missing. -/
def Misses (resolved : Except IoError Target) : Prop :=
  (∃ place, resolved = .ok (.vacant place)) ∨ resolved = .error (.system Errno.noEntry)

theorem walk_missing (hn : name ≠ []) (h : Misses (files.walk .entry links start names)) :
    files.walk intent links start (names ++ [name]) = .error (.system Errno.noEntry) := by
  have hb (rest : List Name) : ¬ (intent = .newFile ∧ rest ++ [name] = [[]]) := by
    rintro ⟨-, h⟩
    cases rest <;> simp_all
  unfold Misses at h
  fun_induction walk files .entry links start names with
  | case1 => simp at h
  | case2 _ _ _ _ hd ih => rw [List.cons_append, walk, if_pos hd, ih h]
  | case3 _ _ _ hd ih => rw [List.cons_append, walk, if_neg hd, if_pos rfl, ih h]
  | case6 _ _ _ hd hu hl hn' | case7 _ _ _ _ hd hu _ hl hn' =>
    rw [List.cons_append, walk, if_neg hd, if_neg hu, if_neg (hb _), if_neg hl, hn']
    exact if_neg (by simp)
  | case8 _ _ _ _ hd hu _ hl hn' ih =>
    rw [List.cons_append, walk_directory ⟨hd, hu, Nat.le_of_not_lt hl⟩ (hb _) hn', ih h]
  | case13 _ _ _ hd hu _ hl goal hn' _ links hg =>
    rw [List.cons_append, walk, if_neg hd, if_neg hu, if_neg (hb _), if_neg hl, hn']
    simp [hg]
  | case14 _ _ _ hd hu _ hl goal hn' _ links hg ih =>
    rw [List.cons_append, walk_link ⟨hd, hu, Nat.le_of_not_lt hl⟩ (hb _) hn' hg (by simp),
      ← List.append_assoc]
    exact ih (by simpa using h)
  | _ =>
    simp [Errno.noEntry, Errno.isDirectory, Errno.nameTooLong, Errno.notDirectory,
      Errno.tooManyLinks] at h

-- ---------------------------------------------------------------------
-- Children of a directory

def origin (files : FileSystem) (path : Path) : Place :=
  if path.isAbsolute then [] else files.workingDirectory

/-- The path leads to a directory at the place; an empty one stands for the working directory. -/
def Enters (files : FileSystem) (directory : Path) (place : Place) : Prop :=
  directory.bytes = [] ∧ place = files.workingDirectory ∨
    files.find directory = .ok (place, .directory)

variable {directory : Path} {child : String}

theorem find_eq_ok_iff {path : Path} {node : Node} :
    files.find path intent = .ok (place, node) ↔
      files.resolve path intent = .ok (.occupied place node) := by
  unfold find
  cases files.resolve path intent with
  | error e => simp [bind, Except.bind]
  | ok target =>
    cases target <;>
      simp [bind, Except.bind, pure, Except.pure, throw, throwThe, MonadExceptOf.throw]

theorem steps_cases (path : Path) :
    steps path = Path.names path.bytes ∨ steps path = Path.names path.bytes ++ [[]] := by
  unfold steps
  split
  · exact .inr rfl
  · exact .inl rfl

theorem resolve_eq {path : Path} (hb : path.bytes ≠ []) (hz : 0 ∉ path.bytes)
    (hl : path.bytes.length < maxPath) :
    files.resolve path intent =
      files.walk intent maxLinks (files.origin path) (steps path) := by
  rw [resolve, if_neg hb, if_neg hz, if_neg (Nat.not_le.mpr hl)]
  rfl

theorem resolve_eq_ok {path : Path} {target : Target}
    (h : files.resolve path intent = .ok target) :
    path.bytes ≠ [] ∧ 0 ∉ path.bytes ∧ path.bytes.length < maxPath := by
  unfold resolve at h
  split at h
  · cases h
  · rename_i hb
    split at h
    · cases h
    · rename_i hz
      split at h
      · cases h
      · rename_i hl
        exact ⟨hb, hz, Nat.lt_of_not_le hl⟩

theorem resolve_misses {path : Path} (hb : path.bytes ≠ [])
    (h : Misses (files.resolve path .entry)) :
    0 ∉ path.bytes ∧ Misses (files.walk .entry maxLinks (files.origin path) (steps path)) := by
  unfold resolve at h
  rw [if_neg hb] at h
  split at h
  · simp [Misses, IoError.nulInPath] at h
  · rename_i hz
    split at h
    · simp [Misses, Errno.nameTooLong, Errno.noEntry] at h
    · exact ⟨hz, h⟩

theorem resolve_child_eq (hn : Path.IsName (Utf8.encode child)) (hd : 0 ∉ directory.bytes)
    (hl : (directory.child child).bytes.length < maxPath) :
    files.resolve (directory.child child) intent =
      files.walk intent maxLinks (files.origin directory)
        (Path.names directory.bytes ++ [Utf8.encode child]) := by
  rw [resolve_eq (Path.bytes_child_ne_nil hn) (Path.noNul_child hn hd) hl, Path.steps_child hn,
    origin, Path.isAbsolute_child hn]
  rfl

namespace Enters

theorem passes (h : files.Enters directory place) :
    0 ∉ directory.bytes ∧ ∃ left,
      files.Passes maxLinks (files.origin directory) (Path.names directory.bytes) left place := by
  obtain ⟨hb, rfl⟩ | hf := h
  · have ha : directory.isAbsolute = false := by simp [Path.isAbsolute, hb]
    rw [hb, origin, ha]
    exact ⟨by simp, _, .done⟩
  · have hr := find_eq_ok_iff.mp hf
    obtain ⟨hb, hz, hl⟩ := resolve_eq_ok hr
    rw [resolve_eq hb hz hl] at hr
    obtain ⟨left, hp⟩ := passes_of_walk hr
    refine ⟨hz, left, ?_⟩
    obtain hs | hs := steps_cases directory
    · rwa [hs] at hp
    · rw [hs] at hp
      exact hp.of_blank

theorem resolve_child (h : files.Enters directory place) (hn : Path.IsName (Utf8.encode child))
    (hl : (directory.child child).bytes.length < maxPath) :
    ∃ left, ∀ intent, files.resolve (directory.child child) intent =
      files.walk intent left place [Utf8.encode child] := by
  obtain ⟨hz, left, hp⟩ := h.passes
  exact ⟨left, fun intent => by rw [resolve_child_eq hn hz hl, hp.walk_append hn.nonempty]⟩

end Enters

end FileSystem

end FabricMemory
