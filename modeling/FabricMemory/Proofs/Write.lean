import FabricMemory.FileSystem.Access
import FabricMemory.Proofs.Dialogue
import FabricMemory.Proofs.Walk

/-!
# Writing

A path leads to the same place before and after something is put there (`walk_write`), whatever
links it goes through, and the directories that other paths enter stay where they are
(`Enters.set`).
-/

namespace FabricMemory

namespace FileSystem

variable {files : FileSystem} {intent : Intent} {links : Nat} {start place : Place}
  {names : List Name}

/-- A place that a path may be written to. -/
def Writable (files : FileSystem) (place : Place) : Prop :=
  place ≠ [] ∧ ∀ node, files.node? place = some node → ∃ content, node = .file content

def LeadsTo (target : Target) (place : Place) : Prop :=
  target = .vacant place ∨ ∃ content, target = .occupied place (.file content)

theorem walk_writable {target : Target} (hw : files.walk intent links start names = .ok target)
    (ht : LeadsTo target place) : files.Writable place := by
  fun_induction walk files intent links start names with
  | case1 | case11 =>
    cases hw
    obtain h | ⟨_, h⟩ := ht <;> cases h
  | case4 | case5 | case7 | case10 | case12 | case13 => cases hw
  | case6 _ start name _ _ _ hn =>
    cases hw
    obtain h | ⟨_, h⟩ := ht
    · cases h
      exact ⟨by simp, fun node h => by rw [hn] at h; cases h⟩
    · cases h
  | case9 _ start name _ _ _ content hn =>
    cases hw
    obtain h | ⟨_, h⟩ := ht
    · cases h
    · cases h
      exact ⟨by simp, fun node h => ⟨content, Option.some.inj (h.symm.trans hn)⟩⟩
  | case2 | case3 | case8 | case14 =>
    rename_i ih
    exact ih hw

section

variable {written : Node}

/-- Writing to a place leaves the directories and links on the way there alone. -/
theorem Writable.node?_set (hp : files.Writable place) {name : Name} {node : Node}
    (hn : files.node? (start ++ [name]) = some node) (hf : ∀ content, node ≠ .file content) :
    (files.set place written).node? (start ++ [name]) = some node := by
  have ho : start ++ [name] ≠ place := by
    rintro rfl
    obtain ⟨content, hc⟩ := hp.2 node hn
    exact hf content hc
  rw [FileSystem.node?_set (by simp), if_neg ho, hn]

theorem walk_set {name : Name} (hp : Proper name) (hl : ∀ goal, written ≠ .link goal) :
    (files.set (start ++ [name]) written).walk intent links start [name] =
      .ok (.occupied (start ++ [name]) written) := by
  have hn : (files.set (start ++ [name]) written).node? (start ++ [name]) = some written := by
    rw [FileSystem.node?_set (by simp), if_pos rfl]
  cases written with
  | file content => exact walk_file hp hn
  | directory => rw [walk_directory hp (by simp) hn, walk]
  | link goal => exact absurd rfl (hl goal)

theorem walk_write {target : Target} (hw : files.walk intent links start names = .ok target)
    (ht : LeadsTo target place) (hp : files.Writable place) (hl : ∀ goal, written ≠ .link goal) :
    (files.set place written).walk .target links start names = .ok (.occupied place written) := by
  -- every name but the last leads through a directory or a link, which the write leaves alone
  fun_induction walk files intent links start names with
  | case1 | case11 =>
    cases hw
    obtain h | ⟨_, h⟩ := ht <;> cases h
  | case4 | case5 | case7 | case10 | case12 | case13 => cases hw
  | case2 _ _ _ _ hd ih =>
    rw [walk, if_pos hd]
    exact ih hw
  | case3 _ _ _ hd ih =>
    rw [walk, if_neg hd, if_pos rfl]
    exact ih hw
  | case6 _ start name hd hu hs hn | case9 _ start name hd hu hs _ hn =>
    cases hw
    obtain h | ⟨_, h⟩ := ht <;> cases h
    exact walk_set ⟨hd, hu, Nat.le_of_not_lt hs⟩ hl
  | case8 _ start name rest hd hu _ hs hn ih =>
    rw [walk_directory ⟨hd, hu, Nat.le_of_not_lt hs⟩ (by simp) (hp.node?_set hn (by simp))]
    exact ih hw
  | case14 start name rest hd hu hr hs goal hn he links hg ih =>
    rw [walk_link ⟨hd, hu, Nat.le_of_not_lt hs⟩ (by simp) (hp.node?_set hn (by simp)) hg (by simp)]
    exact ih hw

end

theorem resolve_write {path : Path} {target : Target} {content : Bytes}
    (h : files.resolve path intent = .ok target) (ht : LeadsTo target place) :
    (files.set place (.file content)).resolve path = .ok (.occupied place (.file content)) := by
  unfold resolve at h ⊢
  split at h
  · cases h
  · split at h
    · cases h
    · split at h
      · cases h
      · rename_i he hn hl
        rw [if_neg he, if_neg hn, if_neg hl]
        exact walk_write h ht (walk_writable h ht) (by simp)

theorem readFile_writeFile {after : FileSystem} {path : Path} {content : Bytes}
    (h : files.writeFile path content = .ok after) : after.readFile path = .ok content := by
  have hw : ∃ target place, files.resolve path .newFile = .ok target ∧ LeadsTo target place ∧
      after = files.set place (.file content) := by
    obtain ⟨target, hr, h⟩ := bind_eq_ok h
    refine ⟨target, ?_⟩
    cases target with
    | vacant place => exact ⟨place, hr, .inl rfl, (Except.ok.inj h).symm⟩
    | occupied place node =>
      cases node with
      | file old => exact ⟨place, hr, .inr ⟨old, rfl⟩, (Except.ok.inj h).symm⟩
      | directory => cases h
      | link => cases h
  obtain ⟨target, place, hr, ht, rfl⟩ := hw
  rw [readFile, openRead, find, resolve_write hr ht]
  rfl

theorem readText_writeText {after : FileSystem} {path : Path} {text : String}
    (h : files.writeText path text = .ok after) : after.readText path = .ok text := by
  unfold readText
  simp only [readFile_writeFile h, bind, Except.bind, Utf8.decode?_encode]
  rfl

-- ---------------------------------------------------------------------
-- Other paths

theorem Passes.set {left : Nat} {goal : Place} {written : Node}
    (h : files.Passes links start names left goal) (hw : files.Writable place) :
    (files.set place written).Passes links start names left goal := by
  induction h with
  | done => exact .done
  | dot hd _ ih => exact .dot hd ih
  | up _ ih => exact .up ih
  | directory hp hn _ ih => exact .directory hp (hw.node?_set hn (by simp)) ih
  | link hp hn hg _ ih => exact .link hp (hw.node?_set hn (by simp)) hg ih

theorem Enters.set {directory : Path} {goal : Place} {written : Node}
    (h : files.Enters directory goal) (hw : files.Writable place) :
    (files.set place written).Enters directory goal := by
  obtain ⟨hb, hp⟩ | hf := h
  · exact .inl ⟨hb, hp⟩
  · have hr := find_eq_ok_iff.mp hf
    obtain ⟨hb, hz, hl⟩ := resolve_eq_ok hr
    rw [resolve_eq hb hz hl] at hr
    obtain ⟨left, hp⟩ := passes_of_walk hr
    refine .inr (find_eq_ok_iff.mpr ?_)
    rw [resolve_eq hb hz hl]
    exact (hp.set hw).walk_eq

end FileSystem

end FabricMemory
