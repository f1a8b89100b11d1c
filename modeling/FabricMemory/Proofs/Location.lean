import Mathlib
import FabricMemory.Proofs.Descent
import FabricMemory.Proofs.Resolver

/-!
# Where a controller is found

A child of a controller's directory `Marks` it if it is shown, is named in UTF-8 and holds the
marker. Main statement (`locate_exact`): the search gives the least such child, and refuses where
there is none, where its path is too long, and below a blind root. Nothing else in the tree matters.
-/

namespace FabricMemory

theorem Utf8.decode?_isSome_iff {bytes : Bytes} :
    (decode? bytes).isSome = true ↔ ∃ text, encode text = bytes := by
  constructor
  · intro h
    obtain ⟨text, ht⟩ := Option.isSome_iff_exists.mp h
    refine ⟨text, ?_⟩
    unfold decode? String.fromUTF8? at ht
    split at ht
    · obtain rfl := Option.some.inj ht
      rfl
    · cases ht
  · rintro ⟨text, rfl⟩
    rw [decode?_encode]
    rfl

namespace ControllerTree

variable {files : FileSystem} {tree : ControllerTree} {directory : Path} {name : Name}
  {index : Nat}

-- ---------------------------------------------------------------------
-- Marked children

structure Marks (files : FileSystem) (directory : Path) (name : Name) : Prop where
  shown : name.head? ≠ some 0x2e
  readable : ∃ text, Utf8.encode text = name
  listed : ∃ place, files.find directory = .ok (place, .directory) ∧
    ∃ node, files.node? (place ++ [name]) = some node
  marked : ∃ place, files.find (directory.join ⟨name⟩) = .ok (place, .directory) ∧
    ∃ node, files.node? (place ++ [Utf8.encode marker]) = some node
  short : ((directory.join ⟨name⟩).child marker).bytes.length < FileSystem.maxPath

structure Least (files : FileSystem) (directory : Path) (name : Name) : Prop where
  marks : Marks files directory name
  le : ∀ other, Marks files directory other → name ≤ other

theorem isName_marker : Path.IsName (Utf8.encode marker) := ⟨by decide, by decide, by decide⟩

theorem proper_marker : FileSystem.Proper (Utf8.encode marker) := ⟨by decide, by decide, by decide⟩

theorem mem_entries_iff :
    name ∈ files.entries directory ↔ ∃ place, files.find directory = .ok (place, .directory) ∧
      ∃ node, files.node? (place ++ [name]) = some node := by
  unfold FileSystem.entries
  split
  · rename_i place hf
    simp [FileSystem.mem_children_iff, hf]
  · rename_i hf
    simp only [List.not_mem_nil, false_iff]
    rintro ⟨place, h, -⟩
    exact hf place h

theorem mem_candidates_iff (hb : directory.bytes ≠ []) :
    name ∈ candidates files directory ↔ Marks files directory name := by
  have hj : (directory.join ⟨name⟩).bytes ≠ [] := Path.join_ne_nil hb _
  rw [candidates, List.mem_mergeSort, List.mem_filter, mem_entries_iff]
  simp only [Bool.and_eq_true, Bool.not_eq_true', Utf8.decode?_isSome_iff,
    FileSystem.hasEntry_child_iff isName_marker proper_marker hj, isHidden, decide_eq_false_iff_not]
  constructor
  · rintro ⟨hl, ⟨hs, hr⟩, hp, hm⟩
    exact ⟨hs, hr, hl, hm, hp⟩
  · rintro ⟨hs, hr, hl, hm, hp⟩
    exact ⟨hl, ⟨hs, hr⟩, hp, hm⟩

theorem pairwise_candidates (files : FileSystem) (directory : Path) :
    (candidates files directory).Pairwise (· ≤ ·) := by
  have h := @List.pairwise_mergeSort Name fun a b => decide (a ≤ b)
  refine (h ?_ ?_ _).imp fun hab => of_decide_eq_true hab
  · intro a b c hab hbc
    exact decide_eq_true (List.le_trans (of_decide_eq_true hab) (of_decide_eq_true hbc))
  · intro a b
    simpa using List.le_total a b

theorem head?_candidates_eq_some_iff (hb : directory.bytes ≠ []) :
    (candidates files directory).head? = some name ↔ Least files directory name := by
  have hm (other : Name) : other ∈ candidates files directory ↔ Marks files directory other :=
    mem_candidates_iff hb
  have hp := pairwise_candidates files directory
  cases hc : candidates files directory with
  | nil =>
    rw [hc] at hm
    exact iff_of_false (by simp) fun h => absurd ((hm name).mpr h.marks) List.not_mem_nil
  | cons first rest =>
    rw [hc] at hm hp
    rw [List.head?_cons, Option.some.injEq]
    constructor
    · rintro rfl
      refine ⟨(hm first).mp (.head _), fun other ho => ?_⟩
      rcases List.mem_cons.mp ((hm other).mpr ho) with rfl | ho
      · exact List.le_refl _
      · exact List.rel_of_pairwise_cons hp ho
    · rintro ⟨hn, hl⟩
      rcases List.mem_cons.mp ((hm name).mpr hn) with rfl | hr
      · rfl
      · exact List.le_antisymm (List.rel_of_pairwise_cons hp hr) (hl first ((hm first).mp (.head _)))

theorem head?_candidates_eq_none_iff (hb : directory.bytes ≠ []) :
    (candidates files directory).head? = none ↔ ∀ name, ¬ Marks files directory name := by
  rw [List.head?_eq_none_iff, List.eq_nil_iff_forall_not_mem]
  exact forall_congr' fun name => not_congr (mem_candidates_iff hb)

-- ---------------------------------------------------------------------
-- The child that is found

theorem attributeDirectory?_eq (hb : ¬ Blind tree.root) :
    tree.attributeDirectory? index =
      (candidates tree.files (spelled tree.root index)).head?.map
        fun name => (spelled tree.root index).join ⟨name⟩ := by
  rw [attributeDirectory?]
  cases hd : tree.directory? index with
  | some directory =>
    rw [(directory?_eq_some hd).2, Option.map_eq_bind]
    rfl
  | none =>
    have he : tree.files.entries (spelled tree.root index) = [] := by
      unfold FileSystem.entries
      split
      · rename_i hf
        rw [directory?_of_find hb hf] at hd
        cases hd
      · rfl
    simp [candidates, he]

theorem attributeDirectory?_of_blind (hb : Blind tree.root) :
    tree.attributeDirectory? index = none := by
  rw [attributeDirectory?, directory?_of_blind tree hb]
  rfl

section

variable {text : String} (ht : Utf8.encode text = tree.root.bytes)
include ht

theorem value_locate_of_blind (hb : Blind tree.root) :
    (tree.locate index).value = .error (.noSuchDevice (.noMarker index)) := by
  rw [value_locate, ← ht, Utf8.decode?_encode, attributeDirectory?_of_blind hb]
  rfl

theorem value_locate_of_unmarked (hb : ¬ Blind tree.root)
    (h : ∀ name, ¬ Marks tree.files (spelled tree.root index) name) :
    (tree.locate index).value = .error (.noSuchDevice (.noMarker index)) := by
  have hc := (head?_candidates_eq_none_iff (spelled_ne_nil hb index)).mpr h
  rw [value_locate, ← ht, Utf8.decode?_encode, attributeDirectory?_eq hb, hc]
  rfl

theorem value_locate_of_least (hb : ¬ Blind tree.root)
    (h : Least tree.files (spelled tree.root index) name) :
    (tree.locate index).value =
      if ((spelled tree.root index).join ⟨name⟩).bytes.length < maxControllerPath then
        .ok ((spelled tree.root index).join ⟨name⟩)
      else .error (.invalidArgument (.longControllerPath ((spelled tree.root index).join ⟨name⟩))) := by
  have hc := (head?_candidates_eq_some_iff (spelled_ne_nil hb index)).mpr h
  rw [value_locate, ← ht, Utf8.decode?_encode, attributeDirectory?_eq hb, hc]
  simp only [Option.isNone_some, Bool.false_eq_true, if_false, Option.map_some, ← Nat.not_lt,
    ite_not]

end

theorem value_locate_of_foreign (h : ∀ text, Utf8.encode text ≠ tree.root.bytes) :
    (tree.locate index).value = .error (.invalidArgument (.rootNotUtf8 tree.root)) := by
  have hd : (Utf8.decode? tree.root.bytes).isNone = true := by
    rw [← Option.not_isSome, Bool.not_eq_true', Bool.eq_false_iff, ne_eq, Utf8.decode?_isSome_iff]
    rintro ⟨text, ht⟩
    exact h text ht
  rw [value_locate, if_pos hd]

theorem exists_least (hb : directory.bytes ≠ []) (h : Marks files directory name) :
    ∃ least, Least files directory least := by
  cases hc : (candidates files directory).head? with
  | none => exact absurd h ((head?_candidates_eq_none_iff hb).mp hc name)
  | some least => exact ⟨least, (head?_candidates_eq_some_iff hb).mp hc⟩

-- ---------------------------------------------------------------------
-- Two trees

structure AlikeFor (files other : FileSystem) (directory : Path) (name : Name) : Prop where
  way : files.Alike other .target directory
  entry : ∀ place, files.find directory = .ok (place, .directory) →
    other.node? (place ++ [name]) = files.node? (place ++ [name])
  marker : files.Alike other .entry ((directory.join ⟨name⟩).child marker)

theorem AlikeFor.marks_iff {other : FileSystem} (h : AlikeFor files other directory name)
    (hb : directory.bytes ≠ []) (hw : other.workingDirectory = files.workingDirectory) :
    Marks other directory name ↔ Marks files directory name := by
  rw [← mem_candidates_iff hb, ← mem_candidates_iff hb, candidates, candidates]
  have hf := FileSystem.find_congr hw h.way
  have hm := FileSystem.find_congr hw h.marker
  have he : name ∈ other.entries directory ↔ name ∈ files.entries directory := by
    rw [mem_entries_iff, mem_entries_iff, hf]
    refine exists_congr fun place => and_congr_right fun hp => ?_
    rw [h.entry place hp]
  simp only [List.mem_mergeSort, List.mem_filter, he, FileSystem.hasEntry, hm]

/-- What two trees have in common for the search to go the same way: for each name, up to the first
that counts, both look the same where the marker is looked for, or the name counts in neither. -/
structure Agrees (tree other : ControllerTree) (index : Nat) : Prop where
  root : other.root = tree.root
  workingDirectory : other.files.workingDirectory = tree.files.workingDirectory
  names : ∀ name, (∀ first, Marks tree.files (spelled tree.root index) first → name ≤ first) →
    AlikeFor tree.files other.files (spelled tree.root index) name ∨
      ¬ Marks tree.files (spelled tree.root index) name ∧
        ¬ Marks other.files (spelled tree.root index) name

namespace Agrees

variable {other : ControllerTree} (h : Agrees tree other index)
include h

theorem marks_iff (hb : ¬ Blind tree.root)
    (hn : ∀ first, Marks tree.files (spelled tree.root index) first → name ≤ first) :
    Marks other.files (spelled tree.root index) name ↔
      Marks tree.files (spelled tree.root index) name := by
  rcases h.names name hn with ha | ⟨ht, ho⟩
  · exact ha.marks_iff (spelled_ne_nil hb index) h.workingDirectory
  · exact iff_of_false ho ht

theorem least (hb : ¬ Blind tree.root)
    (hl : Least tree.files (spelled tree.root index) name) :
    Least other.files (spelled tree.root index) name := by
  refine ⟨(h.marks_iff hb hl.le).mpr hl.marks, fun earlier he => ?_⟩
  rcases List.le_total name earlier with hle | hle
  · exact hle
  · -- what counts in the other tree and is not behind the name counts here, too
    have hn : ∀ first, Marks tree.files (spelled tree.root index) first → earlier ≤ first :=
      fun first hf => List.le_trans hle (hl.le first hf)
    exact hl.le earlier ((h.marks_iff hb hn).mp he)

theorem value_locate_eq : (other.locate index).value = (tree.locate index).value := by
  have hr := h.root
  by_cases hu : ∃ text, Utf8.encode text = tree.root.bytes
  · obtain ⟨text, ht⟩ := hu
    have ho : Utf8.encode text = other.root.bytes := by rw [hr, ht]
    by_cases hb : Blind tree.root
    · have hb' : Blind other.root := by rwa [hr]
      rw [value_locate_of_blind ht hb, value_locate_of_blind ho hb']
    · have hb' : ¬ Blind other.root := by rwa [hr]
      by_cases hm : ∃ name, Marks tree.files (spelled tree.root index) name
      · obtain ⟨name, hm⟩ := hm
        obtain ⟨least, hl⟩ := exists_least (spelled_ne_nil hb index) hm
        have hl' : Least other.files (spelled other.root index) least := by
          rw [hr]
          exact h.least hb hl
        rw [value_locate_of_least ht hb hl, value_locate_of_least ho hb' hl', hr]
      · rw [not_exists] at hm
        have hm' : ∀ name, ¬ Marks other.files (spelled other.root index) name := by
          intro name
          rw [hr, h.marks_iff hb fun first hf => absurd hf (hm first)]
          exact hm name
        rw [value_locate_of_unmarked ht hb hm, value_locate_of_unmarked ho hb' hm']
  · rw [not_exists] at hu
    have hu' : ∀ text, Utf8.encode text ≠ other.root.bytes := by rwa [hr]
    rw [value_locate_of_foreign hu, value_locate_of_foreign hu', hr]

end Agrees

-- ---------------------------------------------------------------------
-- The result

/-- The search gives the least child that counts, spelled from the root. It refuses a root that is
not UTF-8, finds nothing where no child counts or the root is blind, and gives no path of 256 bytes
or more. Trees that agree on the children that count give the same result. -/
theorem locate_exact (tree : ControllerTree) (index : Nat) :
    let directory := spelled tree.root index
    let result := (tree.locate index).value
    ((∀ text, Utf8.encode text ≠ tree.root.bytes) →
      result = .error (.invalidArgument (.rootNotUtf8 tree.root))) ∧
    (∀ text, Utf8.encode text = tree.root.bytes →
      (Blind tree.root → result = .error (.noSuchDevice (.noMarker index))) ∧
      (¬ Blind tree.root →
        (result = .error (.noSuchDevice (.noMarker index)) ↔
          ∀ name, ¬ Marks tree.files directory name) ∧
        ((∃ name, Marks tree.files directory name) → ∃ name, Least tree.files directory name) ∧
        (∀ name, Least tree.files directory name →
          result = if (directory.join ⟨name⟩).bytes.length < 256 then .ok (directory.join ⟨name⟩)
            else .error (.invalidArgument (.longControllerPath (directory.join ⟨name⟩)))) ∧
        (tree.root.bytes ≠ [] →
          (tree.root.child (directoryName index)).bytes.length < FileSystem.maxPath →
          tree.files.find directory = tree.files.find (tree.root.child (directoryName index))))) ∧
    ∀ other, Agrees tree other index → (other.locate index).value = result := by
  intro directory result
  refine ⟨value_locate_of_foreign, fun text ht => ⟨value_locate_of_blind ht, fun hb => ?_⟩,
    fun other h => h.value_locate_eq⟩
  have hn := spelled_ne_nil hb index
  refine ⟨⟨fun h name hm => ?_, value_locate_of_unmarked ht hb⟩, fun ⟨name, hm⟩ =>
    exists_least hn hm, fun name hl => value_locate_of_least ht hb hl, fun hr hl =>
    find_spelled hb hr hl⟩
  obtain ⟨least, hl⟩ := exists_least hn hm
  have hv : result = _ := value_locate_of_least ht hb hl
  rw [h] at hv
  split at hv <;> cases hv

/-- A tree with one controller, with the root at a place and as it is spelled. -/
def alone (place : Place) (root : Path) : ControllerTree :=
  let directory := place ++ [Utf8.encode (directoryName 0)]
  let child := directory ++ [Utf8.encode "dev"]
  ⟨{ nodes := [(place, .directory), (directory, .directory), (child, .directory),
      (child ++ [Utf8.encode marker], .directory)] }, root⟩

theorem locate_exact_alone :
    ((alone [] (Path.ofString "/")).locate 0).value =
      .ok (Path.ofString "/ub_bus_controller0/dev") := by
  have hb : ¬ Blind (Path.ofString "/") := by
    have hs : Path.split (Path.ofString "/").bytes = [[], []] := by decide
    rintro (⟨hm, -, hn⟩ | h)
    · rw [hs] at hm
      rcases List.mem_cons.mp hm with rfl | hm
      · cases hn
      · rw [List.mem_singleton.mp hm] at hn
        cases hn
    · rw [hs, List.replicate_succ] at h
      cases h
  have he : (alone [] (Path.ofString "/")).files.entries (spelled (Path.ofString "/") 0) =
      [Utf8.encode "dev"] := by cbv
  have hm : Marks (alone [] (Path.ofString "/")).files (spelled (Path.ofString "/") 0)
      (Utf8.encode "dev") :=
    ⟨by decide, ⟨_, rfl⟩, ⟨_, by cbv, _, by cbv⟩, ⟨_, by cbv, _, by cbv⟩, by decide⟩
  have hl : Least (alone [] (Path.ofString "/")).files (spelled (Path.ofString "/") 0)
      (Utf8.encode "dev") := by
    refine ⟨hm, fun other ho => ?_⟩
    have ho := mem_entries_iff.mpr ho.listed
    rw [he, List.mem_singleton] at ho
    exact ho ▸ List.le_refl _
  exact (((locate_exact (alone [] (Path.ofString "/")) 0).2.1 "/" rfl).2 hb).2.2.1 _ hl

/-- Below a blind root a child that counts is not found. -/
theorem marked_unseen :
    let special := alone [Utf8.encode ".sys[1]"] (Path.ofString ".sys[1]")
    let blank := alone [] (Path.ofString "./")
    (Marks special.files (special.root.child (directoryName 0)) (Utf8.encode "dev") ∧
      (special.locate 0).value = .error (.noSuchDevice (.noMarker 0))) ∧
    (Marks blank.files (blank.root.child (directoryName 0)) (Utf8.encode "dev") ∧
      (blank.locate 0).value = .error (.noSuchDevice (.noMarker 0))) := by
  intro special blank
  have hs : Blind special.root :=
    .special (List.mem_singleton.mpr rfl : Utf8.encode ".sys[1]" ∈ [Utf8.encode ".sys[1]"])
      (by decide) (by decide)
  have hb : Blind blank.root := .blank (rfl : _ = List.replicate 1 Path.dot ++ [] :: [])
  refine ⟨⟨⟨?_, ?_, ?_, ?_, ?_⟩, value_locate_of_blind rfl hs⟩,
    ⟨⟨?_, ?_, ?_, ?_, ?_⟩, value_locate_of_blind rfl hb⟩⟩
  · decide
  · exact ⟨_, rfl⟩
  · exact ⟨_, by cbv, _, by cbv⟩
  · exact ⟨_, by cbv, _, by cbv⟩
  · decide
  · decide
  · exact ⟨_, rfl⟩
  · exact ⟨_, by cbv, _, by cbv⟩
  · exact ⟨_, by cbv, _, by cbv⟩
  · decide

end ControllerTree

end FabricMemory
