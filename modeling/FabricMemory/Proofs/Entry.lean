import FabricMemory.Proofs.Attribute
import FabricMemory.Proofs.Making

/-!
# Entries of a directory

The entries of a directory are the nodes one name below its place (`mem_children_iff`). A path has a
child exactly if it leads to a directory with that entry (`hasEntry_child_iff`). What a path leads to
hangs on the places that are looked up on the way, and on nothing else (`resolve_congr`).
-/

namespace FabricMemory

-- ---------------------------------------------------------------------
-- Names

namespace Path

def IsPlain (c : Char) : Prop := c.toNat < 128 ∧ c ≠ '/' ∧ c.toNat ≠ 0

theorem plain_of_mem_toDigits {n : Nat} {c : Char} (h : c ∈ Nat.toDigits 10 n) : IsPlain c := by
  have hd := Nat.isDigit_of_mem_toDigits (by decide) (by decide) h
  obtain ⟨hl, hh⟩ : 48 ≤ c.toNat ∧ c.toNat ≤ 57 := by
    simpa [Char.isDigit, UInt32.le_iff_toNat_le] using hd
  refine ⟨by omega, ?_, by omega⟩
  rintro rfl
  exact absurd hl (by decide)

theorem isName_ofList {text : List Char} (hn : text ≠ []) (h : ∀ c ∈ text, IsPlain c) :
    IsName (Utf8.encode (String.ofList text)) := by
  rw [Utf8.encode_ofList fun c hc => (h c hc).1]
  have hb {c other : Char} (hc : c ∈ text) (he : c.toUInt8 = other.toUInt8)
      (ho : other.toNat < 128) : c = other := by
    have ht := congrArg UInt8.toNat he
    rw [Attribute.toNat_toUInt8 (h c hc).1, Attribute.toNat_toUInt8 ho] at ht
    exact Char.toNat_inj.mp ht
  refine ⟨by simpa using hn, fun hm => ?_, fun hm => ?_⟩
  · obtain ⟨c, hc, he⟩ := List.mem_map.mp hm
    exact (h c hc).2.1 (hb hc he (by decide))
  · obtain ⟨c, hc, he⟩ := List.mem_map.mp hm
    obtain rfl : c = Char.ofNat 0 := hb hc he (by decide)
    exact (h _ hc).2.2 rfl

end Path

namespace FileSystem

variable {files other : FileSystem} {intent : Intent} {links : Nat} {start place : Place}
  {names : List Name} {name : Name}

theorem mem_children_iff :
    name ∈ files.children place ↔ ∃ node, files.node? (place ++ [name]) = some node := by
  have hk (key : Place) :
      (if key.dropLast = place then key.getLast? else none) = some name ↔ key = place ++ [name] := by
    constructor
    · intro h
      split at h
      · rename_i hd
        obtain ⟨front, rfl⟩ := List.getLast?_eq_some_iff.mp h
        rw [← hd, List.dropLast_concat]
      · cases h
    · rintro rfl
      simp
  have hn : place ++ [name] ≠ [] := by simp
  simp only [children, node?, if_neg hn, List.mem_filterMap, hk, ← Option.isSome_iff_exists,
    List.lookup_isSome_iff, beq_iff_eq]
  constructor
  · rintro ⟨entry, hm, he⟩
    exact ⟨entry, hm, he.symm⟩
  · rintro ⟨entry, hm, he⟩
    exact ⟨entry, hm, he.symm⟩

theorem walk_dots {dots : List Name} (hd : ∀ name ∈ dots, name = Path.dot) :
    files.walk intent links start (dots ++ names) = files.walk intent links start names := by
  induction dots with
  | nil => rfl
  | cons name dots ih =>
    obtain ⟨hn, hd⟩ := List.forall_mem_cons.mp hd
    rw [List.cons_append, walk, if_pos (.inr hn), ih hd]

-- ---------------------------------------------------------------------
-- A child of a path

theorem walk_entry_iff (hp : Proper name) :
    (∃ place node, files.walk .entry links start [name] = .ok (.occupied place node)) ↔
      ∃ node, files.node? (start ++ [name]) = some node := by
  cases hn : files.node? (start ++ [name]) with
  | none => simp [walk_vacant hp hn]
  | some node =>
    refine iff_of_true ?_ ⟨node, rfl⟩
    cases node with
    | file content => exact ⟨_, _, walk_file hp hn⟩
    | directory => exact ⟨_, _, by rw [walk_directory hp (by simp) hn, walk]⟩
    | link goal => exact ⟨_, _, walk_entry_link hp hn⟩

theorem passes_or_error (links : Nat) (start : Place) (names : List Name) (name : Name) :
    (∃ left place, files.Passes links start names left place) ∨
      ∃ e, files.walk .entry links start (names ++ [name]) = .error e := by
  have hb (rest : List Name) : ¬ (Intent.entry = .newFile ∧ rest ++ [name] = [[]]) := by simp
  fun_induction walk files .target links start names with
  | case1 => exact .inl ⟨_, _, .done⟩
  | case2 _ _ _ _ hd ih =>
    rw [List.cons_append, walk, if_pos hd]
    obtain ⟨left, place, hr⟩ | he := ih
    · exact .inl ⟨left, place, .dot hd hr⟩
    · exact .inr he
  | case3 _ _ _ hd ih =>
    rw [List.cons_append, walk, if_neg hd, if_pos rfl]
    obtain ⟨left, place, hr⟩ | he := ih
    · exact .inl ⟨left, place, .up hr⟩
    · exact .inr he
  | case8 _ _ _ _ hd hu _ hl hn ih =>
    have hp : Proper _ := ⟨hd, hu, Nat.le_of_not_lt hl⟩
    rw [List.cons_append, walk_directory hp (hb _) hn]
    obtain ⟨left, place, hr⟩ | he := ih
    · exact .inl ⟨left, place, .directory hp hn hr⟩
    · exact .inr he
  | case14 _ _ _ hd hu _ hl goal hn _ links hg ih =>
    have hp : Proper _ := ⟨hd, hu, Nat.le_of_not_lt hl⟩
    simp only [List.append_assoc] at ih
    rw [List.cons_append, walk_link hp (hb _) hn hg (by simp)]
    obtain ⟨left, place, hr⟩ | he := ih
    · exact .inl ⟨left, place, .link hp hn hg (by simpa using hr)⟩
    · exact .inr he
  -- what stops the walk stops one that goes further, too
  | case4 _ _ _ _ _ _ hf => simp at hf
  | case11 _ _ _ _ _ _ _ _ _ _ hf => exact absurd hf.2 (by decide)
  | case5 _ _ _ _ hd hu _ hl =>
    rw [List.cons_append, walk, if_neg hd, if_neg hu, if_neg (hb _), if_pos hl]
    exact .inr ⟨_, rfl⟩
  | case6 _ _ _ hd hu hl hn | case7 _ _ _ _ hd hu _ hl hn | case9 _ _ _ hd hu hl _ hn
  | case10 _ _ _ _ hd hu _ hl _ hn | case12 _ _ _ hd hu _ hl _ hn =>
    rw [List.cons_append, walk, if_neg hd, if_neg hu, if_neg (hb _), if_neg hl, hn]
    exact .inr ⟨_, if_neg (by simp)⟩
  | case13 _ _ _ hd hu _ hl _ hn _ links hg =>
    rw [List.cons_append, walk, if_neg hd, if_neg hu, if_neg (hb _), if_neg hl, hn]
    simp [hg]

theorem hasEntry_iff {path : Path} :
    files.hasEntry path = true ↔
      ∃ place node, files.resolve path .entry = .ok (.occupied place node) := by
  rw [hasEntry]
  constructor
  · intro h
    cases hf : files.find path .entry with
    | ok found => exact ⟨found.1, found.2, find_eq_ok_iff.mp hf⟩
    | error e =>
      rw [hf] at h
      cases h
  · rintro ⟨place, node, hr⟩
    rw [find_eq_ok_iff.mpr hr]
    rfl

theorem hasEntry_of_find {path : Path} (h : files.find path = .ok (place, .directory)) :
    files.hasEntry path = true := by
  have hr := find_eq_ok_iff.mp h
  obtain ⟨hb, hz, hl⟩ := resolve_eq_ok hr
  rw [resolve_eq hb hz hl] at hr
  obtain ⟨left, hp⟩ := passes_of_walk hr
  rw [hasEntry_iff, resolve_eq hb hz hl]
  exact hp.walk_entry

theorem noNul_of_child {directory : Path} {child : String}
    (hn : Path.IsName (Utf8.encode child)) (h : 0 ∉ (directory.child child).bytes) :
    0 ∉ directory.bytes := by
  intro hz
  obtain ⟨hb, -⟩ | ⟨hb, -⟩ := Path.bytes_child hn directory
  · exact h (hb ▸ List.mem_append_left _ hz)
  · exact h (hb ▸ List.mem_append_left _ hz)

theorem length_le_child {directory : Path} {child : String}
    (hn : Path.IsName (Utf8.encode child)) :
    directory.bytes.length ≤ (directory.child child).bytes.length := by
  obtain ⟨hb, -⟩ | ⟨hb, -⟩ := Path.bytes_child hn directory
  · rw [hb, List.length_append]
    exact Nat.le_add_right ..
  · rw [hb, List.length_append]
    exact Nat.le_add_right ..

theorem hasEntry_child_iff {directory : Path} {child : String}
    (hn : Path.IsName (Utf8.encode child)) (hp : Proper (Utf8.encode child))
    (hb : directory.bytes ≠ []) :
    files.hasEntry (directory.child child) = true ↔
      (directory.child child).bytes.length < maxPath ∧
        ∃ place, files.find directory = .ok (place, .directory) ∧
          ∃ node, files.node? (place ++ [Utf8.encode child]) = some node := by
  rw [hasEntry_iff]
  constructor
  · rintro ⟨goal, node, hr⟩
    obtain ⟨-, hz, hl⟩ := resolve_eq_ok hr
    have hz := noNul_of_child hn hz
    rw [resolve_child_eq hn hz hl] at hr
    obtain ⟨left, place, hs⟩ | ⟨e, he⟩ := @passes_or_error files maxLinks
      (files.origin directory) (Path.names directory.bytes) (Utf8.encode child)
    · have he := enters_of_passes hb hz (Nat.lt_of_le_of_lt (length_le_child hn) hl) hs
      rw [hs.walk_append hn.nonempty] at hr
      exact ⟨hl, place, he.resolve_left fun h => hb h.1, (walk_entry_iff hp).mp ⟨_, _, hr⟩⟩
    · rw [he] at hr
      cases hr
  · rintro ⟨hl, place, hf, hc⟩
    obtain ⟨left, hr⟩ := Enters.resolve_child (.inr hf) hn hl
    rw [hr .entry]
    exact (walk_entry_iff hp).mpr hc

-- ---------------------------------------------------------------------
-- Places on the way

/-- The place is looked up on the way along the names. -/
inductive Visits (files : FileSystem) (intent : Intent) :
    Nat → Place → List Name → Place → Prop
  | dot {links : Nat} {start place : Place} {name : Name} {rest : List Name}
      (hd : name = [] ∨ name = Path.dot) (h : Visits files intent links start rest place) :
      Visits files intent links start (name :: rest) place
  | up {links : Nat} {start place : Place} {rest : List Name}
      (h : Visits files intent links start.dropLast rest place) :
      Visits files intent links start (Path.dotDot :: rest) place
  | here {links : Nat} {start : Place} {name : Name} {rest : List Name} (hp : Proper name) :
      Visits files intent links start (name :: rest) (start ++ [name])
  | directory {links : Nat} {start place : Place} {name : Name} {rest : List Name}
      (hp : Proper name) (hn : files.node? (start ++ [name]) = some .directory)
      (h : Visits files intent links (start ++ [name]) rest place) :
      Visits files intent links start (name :: rest) place
  | link {links : Nat} {start place : Place} {name : Name} {rest : List Name} {goal : Path}
      (hp : Proper name) (hn : files.node? (start ++ [name]) = some (.link goal))
      (he : ¬ (rest = [] ∧ intent = .entry))
      (h : Visits files intent links (if goal.isAbsolute then [] else start)
        (steps goal ++ rest) place) :
      Visits files intent (links + 1) start (name :: rest) place

theorem walk_congr
    (h : ∀ place, files.Visits intent links start names place →
      other.node? place = files.node? place) :
    other.walk intent links start names = files.walk intent links start names := by
  fun_induction walk files intent links start names with
  | case1 => rw [walk]
  | case2 _ _ _ _ hd ih => rw [walk, if_pos hd, ih fun place hv => h place (.dot hd hv)]
  | case3 _ _ _ hd ih => rw [walk, if_neg hd, if_pos rfl, ih fun place hv => h place (.up hv)]
  | case4 _ _ _ _ hd hu hf => rw [walk, if_neg hd, if_neg hu, if_pos hf]
  | case5 _ _ _ _ hd hu hf hl => rw [walk, if_neg hd, if_neg hu, if_neg hf, if_pos hl]
  -- from here on the walk looks a place up
  | case6 _ _ _ hd hu hl hn hf | case9 _ _ _ hd hu hl _ hn hf =>
    have hs := h _ (.here ⟨hd, hu, Nat.le_of_not_lt hl⟩)
    rw [walk, if_neg hd, if_neg hu, if_neg hf, if_neg hl, hs, hn]
    rfl
  | case7 _ _ _ _ hd hu hf hl hn hr | case10 _ _ _ _ hd hu hf hl _ hn hr
  | case12 _ _ _ hd hu hf hl _ hn hr =>
    have hs := h _ (.here ⟨hd, hu, Nat.le_of_not_lt hl⟩)
    rw [walk, if_neg hd, if_neg hu, if_neg hf, if_neg hl, hs, hn]
    exact if_neg hr
  | case8 _ _ _ _ hd hu hf hl hn ih =>
    have hp : Proper _ := ⟨hd, hu, Nat.le_of_not_lt hl⟩
    have hs := h _ (.here hp)
    rw [walk_directory hp hf (hs.trans hn), ih fun place hv => h place (.directory hp hn hv)]
  | case11 _ _ _ _ hd hu hf hl _ hn he =>
    have hs := h _ (.here ⟨hd, hu, Nat.le_of_not_lt hl⟩)
    rw [walk, if_neg hd, if_neg hu, if_neg hf, if_neg hl, hs, hn]
    exact if_pos he
  | case13 _ _ _ hd hu hf hl _ hn he _ hg =>
    have hs := h _ (.here ⟨hd, hu, Nat.le_of_not_lt hl⟩)
    rw [walk, if_neg hd, if_neg hu, if_neg hf, if_neg hl, hs, hn]
    simp only [if_neg he, if_pos hg]
  | case14 _ _ _ hd hu hf hl goal hn he _ hg ih =>
    have hp : Proper _ := ⟨hd, hu, Nat.le_of_not_lt hl⟩
    have hs := h _ (.here hp)
    simp only [dite_eq_ite] at ih
    rw [walk_link hp hf (hs.trans hn) hg he, ih fun place hv => h place (.link hp hn he hv)]

def Alike (files other : FileSystem) (intent : Intent) (path : Path) : Prop :=
  ∀ place, files.Visits intent maxLinks (files.origin path) (steps path) place →
    other.node? place = files.node? place

variable {path : Path}

theorem resolve_congr (hw : other.workingDirectory = files.workingDirectory)
    (h : Alike files other intent path) :
    other.resolve path intent = files.resolve path intent := by
  by_cases hp : path.bytes = [] ∨ 0 ∈ path.bytes ∨ maxPath ≤ path.bytes.length
  · unfold resolve
    rcases hp with hb | hz | hl <;> simp [*]
  · have ho : other.origin path = files.origin path := by rw [origin, origin, hw]
    simp only [not_or, Nat.not_le] at hp
    rw [resolve_eq hp.1 hp.2.1 hp.2.2, resolve_eq hp.1 hp.2.1 hp.2.2, ho, walk_congr h]

theorem find_congr (hw : other.workingDirectory = files.workingDirectory)
    (h : Alike files other intent path) : other.find path intent = files.find path intent := by
  rw [find, find, resolve_congr hw h]

end FileSystem

end FabricMemory
