import FabricMemory.Proofs.Spelling

/-!
# The way down to a controller

A search goes down by the path that `spelled` gives (`directory?_eq_some`), and gets there where it
leads to a directory (`directory?_of_find`); below a blind root nothing is found
(`directory?_of_blind`). The path leads to where the root and the name behind it lead as they stand
(`find_spelled`).
-/

namespace FabricMemory

namespace ControllerTree

variable {files : FileSystem} {tree : ControllerTree} {path root : Path} {name : Name}
  {names : List Name} {index : Nat}

def sees (files : FileSystem) (path : Path) (name : Name) : Bool :=
  if name = Path.dot ∨ name = Path.dotDot then files.isDirectory path
  else if isSpecial name then !isHidden name && (files.entries path).contains name
  else files.hasEntry (next path name)

theorem descend_eq :
    descend files path name = if sees files path name then some (next path name) else none := rfl

theorem descend_eq_some_iff {found : Path} :
    descend files path name = some found ↔ sees files path name = true ∧ next path name = found := by
  rw [descend_eq]
  split
  · simp [*]
  · simp [*]

theorem eq_foldl_of_descend {found : Path} (h : names.foldlM (descend files) path = some found) :
    found = names.foldl next path := by
  induction names generalizing path with
  | nil => exact (Option.some.inj h).symm
  | cons name names ih =>
    rw [List.foldlM_cons] at h
    obtain ⟨between, hd, h⟩ := Option.bind_eq_some_iff.mp h
    rw [List.foldl_cons, (descend_eq_some_iff.mp hd).2]
    exact ih h

-- ---------------------------------------------------------------------
-- Blind roots

theorem foldlM_of_mem (hm : name ∈ names) (hd : ∀ path, descend files path name = none) :
    names.foldlM (descend files) path = none := by
  induction names generalizing path with
  | nil => cases hm
  | cons first names ih =>
    rw [List.foldlM_cons]
    cases hm with
    | head => rw [hd]; rfl
    | tail _ hm =>
      cases descend files path first with
      | none => rfl
      | some between => exact ih hm

theorem descend_of_hidden (hh : isHidden name = true) (hs : isSpecial name = true) (path : Path) :
    descend files path name = none := by
  have hn : ¬ (name = Path.dot ∨ name = Path.dotDot) := by
    rintro (rfl | rfl) <;> exact absurd hs (by decide)
  rw [descend_eq, sees, if_neg hn, if_pos hs, hh]
  rfl

theorem foldlM_of_blank (dots : Nat) (rest : List Name) :
    (List.replicate dots Path.dot ++ [] :: rest).foldlM (descend files) ⟨Path.dot⟩ = none := by
  induction dots with
  | zero => rfl
  | succ dots ih =>
    rw [List.replicate_succ, List.cons_append, List.foldlM_cons, descend_eq]
    split
    · exact ih
    · rfl

theorem directory?_of_blind (tree : ControllerTree) (h : Blind tree.root) (index : Nat) :
    tree.directory? index = none := by
  obtain ⟨start, pieces, hr, hw⟩ := exists_route tree.root index
  have ha : tree.directory? index =
      (pieces ++ [Utf8.encode (directoryName index)]).foldlM (descend tree.files) start := by
    rw [directory?, hr]
  rw [ha]
  cases h with
  | @special name hm hh hs =>
    have hn : name ≠ [] := by
      rintro rfl
      cases hs
    have hp : name ∈ pieces.filter (· ≠ []) := by
      rw [hw.names]
      exact List.mem_filter.mpr ⟨hm, by simpa using hn⟩
    exact foldlM_of_mem (List.mem_append_left _ (List.mem_filter.mp hp).1) (descend_of_hidden hh hs)
  | @blank dots rest hb =>
    obtain ⟨ha, -⟩ | ⟨-, rfl, rfl⟩ := hw.start
    · obtain ⟨rest, hr⟩ := anchored_iff.mp ha
      rw [hr] at hb
      cases hb
    · rw [hb, List.append_assoc]
      exact foldlM_of_blank (dots + 1) (rest ++ _)

-- ---------------------------------------------------------------------
-- Directories on the way

/-- The path leads to a directory, and the names lead on from there to another one. -/
def Leads (files : FileSystem) (path : Path) (names : List Name) : Prop :=
  ∃ left place, files.Passes FileSystem.maxLinks (files.origin path)
    (Path.names path.bytes ++ names.filter (· ≠ [])) left place

theorem leads_next_iff (hs : Path.slash ∉ name) :
    Leads files (next path name) names ↔ Leads files path (name :: names) := by
  have ho : files.origin (next path name) = files.origin path := by
    rw [FileSystem.origin, FileSystem.origin, isAbsolute_next hs]
  rw [Leads, Leads, ho, Path.filter_cons hs]
  by_cases hd : path.bytes = Path.dot
  · have hn : Path.names path.bytes = [Path.dot] := by rw [hd]; rfl
    rw [next_of_dot hd, hn]
    constructor
    · rintro ⟨left, place, hp⟩
      exact ⟨left, place, .dot (.inr rfl) hp⟩
    · rintro ⟨left, place, hp⟩
      exact ⟨left, place, hp.of_dot (.inr rfl)⟩
  · rw [next_of_ne_dot hd, Path.names_join hs, List.append_assoc]

theorem Leads.find (h : Leads files path names) (hb : path.bytes ≠ []) (hz : 0 ∉ path.bytes)
    (hl : path.bytes.length < FileSystem.maxPath) :
    ∃ place, files.find path = .ok (place, .directory) ∧ ∃ links left goal,
      files.Passes links place (names.filter (· ≠ [])) left goal := by
  obtain ⟨left, goal, hp⟩ := h
  obtain ⟨links, place, hf, hr⟩ := hp.of_append
  have he := FileSystem.enters_of_passes hb hz hl hf
  exact ⟨place, he.resolve_left fun h => hb h.1, links, left, goal, hr⟩

theorem leads_nil_of_find {place : Place} (h : files.find path = .ok (place, .directory)) :
    Leads files path [] := by
  obtain ⟨-, left, hp⟩ := FileSystem.Enters.passes (.inr h)
  rw [← List.append_nil (Path.names path.bytes)] at hp
  exact ⟨left, place, hp⟩

theorem leads_of_foldl (hs : ∀ name ∈ names, Path.slash ∉ name)
    (h : Leads files (names.foldl next path) []) : Leads files path names := by
  induction names generalizing path with
  | nil => exact h
  | cons name names ih =>
    obtain ⟨hn, hns⟩ := List.forall_mem_cons.mp hs
    exact (leads_next_iff hn).mp (ih hns h)

-- ---------------------------------------------------------------------
-- Seeing them

theorem sees_of_leads (hs : Path.slash ∉ name) (hb : path.bytes ≠ [])
    (h : Sighted path (name :: names)) (hn : ¬ (isHidden name = true ∧ isSpecial name = true))
    (hz : 0 ∉ (next path name).bytes) (hl : (next path name).bytes.length < FileSystem.maxPath)
    (hp : Leads files path (name :: names)) : sees files path name = true := by
  obtain ⟨hg, hz'⟩ := next_grows hs h.ne_nil
  obtain ⟨place, hf, links, left, goal, hr⟩ :=
    hp.find hb (fun h => hz (hz' h)) (Nat.lt_of_le_of_lt hg hl)
  unfold sees
  split
  · rw [FileSystem.isDirectory, hf]
  · rename_i hd
    split
    · -- a special name is looked for among the entries, where the way must lead through it
      rename_i hsp
      have he : name ≠ [] := by
        rintro rfl
        cases hsp
      rw [List.filter_cons_of_pos (by simpa using he)] at hr
      have hm : name ∈ files.children place := FileSystem.mem_children_iff.mpr
        (hr.node_of_cons (fun h => h.elim he (hd ∘ .inl)) (hd ∘ .inr))
      have hh : isHidden name = false := Bool.eq_false_iff.mpr fun hh => hn ⟨hh, hsp⟩
      rw [FileSystem.entries, hf, hh]
      simpa using hm
    · obtain ⟨place, hf, -⟩ := ((leads_next_iff hs).mpr hp).find (h.next hb hs).1 hz hl
      exact FileSystem.hasEntry_of_find hf

theorem foldlM_of_leads (hs : ∀ name ∈ names, Path.slash ∉ name) (hb : path.bytes ≠ [])
    (h : Sighted path names) (hn : ∀ name ∈ names, ¬ (isHidden name = true ∧ isSpecial name = true))
    (hz : 0 ∉ (names.foldl next path).bytes)
    (hl : (names.foldl next path).bytes.length < FileSystem.maxPath)
    (hp : Leads files path names) :
    names.foldlM (descend files) path = some (names.foldl next path) := by
  induction names generalizing path with
  | nil => rfl
  | cons name names ih =>
    obtain ⟨hs, hss⟩ := List.forall_mem_cons.mp hs
    obtain ⟨hn, hns⟩ := List.forall_mem_cons.mp hn
    obtain ⟨hb', h'⟩ := h.next hb hs
    obtain ⟨hg, hz'⟩ := foldl_grows hss hb' h'
    have hd := sees_of_leads hs hb h hn (fun h => hz (hz' h)) (Nat.lt_of_le_of_lt hg hl) hp
    rw [List.foldlM_cons, descend_eq, if_pos hd]
    exact ih hss hb' h' hns hz hl ((leads_next_iff hs).mpr hp)

-- ---------------------------------------------------------------------
-- Arriving

theorem directory?_eq_some {directory : Path} (h : tree.directory? index = some directory) :
    ¬ Blind tree.root ∧ directory = spelled tree.root index := by
  have hb : ¬ Blind tree.root := fun hb => by
    rw [directory?_of_blind tree hb] at h
    cases h
  obtain ⟨start, pieces, hr, hw⟩ := exists_route tree.root index
  rw [directory?, hr] at h
  exact ⟨hb, (eq_foldl_of_descend h).trans (hw.foldl_eq_spelled hb index)⟩

theorem directory?_of_find (hb : ¬ Blind tree.root) {place : Place}
    (h : tree.files.find (spelled tree.root index) = .ok (place, .directory)) :
    tree.directory? index = some (spelled tree.root index) := by
  obtain ⟨start, pieces, hr, hw⟩ := exists_route tree.root index
  have hn := isName_directoryName index
  have he := hw.foldl_eq_spelled hb index
  rw [directory?, hr, ← he]
  rw [← he] at h
  obtain ⟨hs, hz, hl⟩ := FileSystem.resolve_eq_ok (FileSystem.find_eq_ok_iff.mp h)
  refine foldlM_of_leads hw.noSlash_append hw.nonempty ((hw.sighted hb).append hn.nonempty) ?_ hz hl
    (leads_of_foldl hw.noSlash_append (leads_nil_of_find h))
  rintro name hm ⟨hh, hs⟩
  rcases List.mem_append.mp hm with hm | hm
  · exact hb (.special (hw.mem name hm) hh hs)
  · rw [List.mem_singleton.mp hm, isHidden_directoryName] at hh
    cases hh

theorem find_spelled (hb : ¬ Blind root) (hr : root.bytes ≠ []) {intent : FileSystem.Intent}
    (hl : (root.child (directoryName index)).bytes.length < FileSystem.maxPath) :
    files.find (spelled root index) intent =
      files.find (root.child (directoryName index)) intent := by
  have hn := isName_directoryName index
  have hsb := spelled_ne_nil hb index
  have hle : (spelled root index).bytes.length ≤ (root.child (directoryName index)).bytes.length := by
    refine Path.length_le_of_sublist ?_
    rw [split_spelled hb, Path.child, Path.ofString, Path.split_join hr hn.noSlash]
    exact (rootPieces_sublist hr).append (.refl _)
  have hs := Nat.lt_of_le_of_lt hle hl
  suffices h : files.resolve (spelled root index) intent =
      files.resolve (root.child (directoryName index)) intent by
    rw [FileSystem.find, FileSystem.find, h]
  by_cases hz : 0 ∈ root.bytes
  · have hc : 0 ∈ (root.child (directoryName index)).bytes :=
      Classical.byContradiction fun h => FileSystem.noNul_of_child hn h hz
    rw [FileSystem.resolve, FileSystem.resolve, if_neg hsb, if_neg (Path.bytes_child_ne_nil hn),
      if_pos ((noNul_spelled hb index).mpr hz), if_pos hc]
  · obtain ⟨dots, kept, hd, hk, hns⟩ := names_spelled hb index
    have hzs : 0 ∉ (spelled root index).bytes := fun h => hz ((noNul_spelled hb index).mp h)
    rw [FileSystem.resolve_child_eq hn hz hl, FileSystem.resolve_eq hsb hzs hs,
      steps_spelled hb, hns, hk, List.append_assoc, FileSystem.origin, FileSystem.origin,
      isAbsolute_spelled hb hr]
    exact (FileSystem.walk_dots hd).symm

end ControllerTree

end FabricMemory
