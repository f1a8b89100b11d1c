import Mathlib
import FabricMemory.Proofs.Entry
import FabricMemory.Proofs.Store

/-!
# The descriptor directory is a map

Saves and loads in a directory that was empty, or was missing and can be made, go as on a map from
memory ids to descriptors (`accesses_as_map`). The files keep an invariant (`Keeps`) that every save
preserves and every load reads.
-/

namespace FabricMemory

-- ---------------------------------------------------------------------
-- Names of files

namespace Descriptor

def fileName (memId : UInt64) : Name :=
  Utf8.encode ("memdesc_" ++ Numeral.decimal memId.toNat ++ ".json")

def fileText (memId : UInt64) : List Char :=
  "memdesc_".toList ++ (Nat.toDigits 10 memId.toNat ++ ".json".toList)

theorem mem_fileText {memId : UInt64} {c : Char} (h : c ∈ fileText memId) : Path.IsPlain c := by
  have fixed : ∀ c ∈ "memdesc_".toList ++ ".json".toList, Path.IsPlain c := by simp [Path.IsPlain]
  obtain h | h := List.mem_append.mp h
  · exact fixed c (List.mem_append_left _ h)
  · obtain h | h := List.mem_append.mp h
    · exact Path.plain_of_mem_toDigits h
    · exact fixed c (List.mem_append_right _ h)

theorem toList_fileText (memId : UInt64) :
    ("memdesc_" ++ Numeral.decimal memId.toNat ++ ".json").toList = fileText memId := by
  have hd : (Numeral.decimal memId.toNat).toList = Nat.toDigits 10 memId.toNat :=
    String.toList_ofList
  rw [String.toList_append, String.toList_append, hd, List.append_assoc]
  unfold fileText
  rfl

theorem fileName_eq_encode (memId : UInt64) :
    fileName memId = Utf8.encode (String.ofList (fileText memId)) := by
  rw [fileName, ← String.ofList_toList (s := "memdesc_" ++ _ ++ _), toList_fileText]

theorem fileName_eq (memId : UInt64) : fileName memId = (fileText memId).map Char.toUInt8 := by
  rw [fileName_eq_encode]
  exact Utf8.encode_ofList fun c hc => (mem_fileText hc).1

theorem length_decimal_le (memId : UInt64) : (Nat.toDigits 10 memId.toNat).length ≤ 20 := by
  have hm : memId.toNat < 10 ^ 20 := by
    have h := memId.toNat_lt
    omega
  exact (Nat.length_toDigits_le_iff (by decide) (by decide)).mpr hm

theorem length_fileText (memId : UInt64) :
    (fileText memId).length = (Nat.toDigits 10 memId.toNat).length + 13 := by
  unfold fileText
  generalize Nat.toDigits 10 memId.toNat = digits
  simp only [List.length_append]
  have hfront : "memdesc_".toList.length = 8 := by decide
  have hback : ".json".toList.length = 5 := by decide
  omega

theorem length_fileName_le (memId : UInt64) :
    8 < (fileName memId).length ∧ (fileName memId).length ≤ 33 := by
  have hd := length_decimal_le memId
  rw [fileName_eq, List.length_map, length_fileText]
  omega

theorem isName_fileName (memId : UInt64) : Path.IsName (fileName memId) := by
  have hn : fileText memId ≠ [] := by
    refine List.ne_nil_of_length_pos ?_
    rw [length_fileText]
    exact Nat.succ_pos _
  rw [fileName_eq_encode]
  exact Path.isName_ofList hn fun c hc => mem_fileText hc

theorem proper_fileName (memId : UInt64) : FileSystem.Proper (fileName memId) := by
  obtain ⟨hl, hh⟩ := length_fileName_le memId
  have short {name : Name} (hn : name.length ≤ 2) : fileName memId ≠ name := by
    intro he
    rw [he] at hl
    omega
  refine ⟨?_, short (by decide), Nat.le_trans hh (by decide)⟩
  rintro (h | h)
  · exact short (by decide) h
  · exact short (by decide) h

theorem fileName_injective : Function.Injective fileName := by
  intro a b h
  have hd := congrArg Utf8.decode? h
  rw [fileName, fileName, Utf8.decode?_encode, Utf8.decode?_encode] at hd
  replace hd := congrArg String.toList (Option.some.inj hd)
  rw [toList_fileText, toList_fileText] at hd
  unfold fileText at hd
  rw [List.append_cancel_left_eq, List.append_cancel_right_eq] at hd
  have hn : a.toNat = b.toNat := by
    rw [← Nat.ofDigitChars_ten_toDigits (n := a.toNat), hd, Nat.ofDigitChars_ten_toDigits]
  exact UInt64.toNat_inj.mp hn

end Descriptor

-- ---------------------------------------------------------------------
-- Files in a directory

namespace FileSystem

variable {files : FileSystem} {directory : Path} {place other : Place} {child : String}

/-- The text that a place holds, if it holds a file at all, and nothing else is there. -/
def Holds (files : FileSystem) (place : Place) (text : Option String) : Prop :=
  files.node? place = text.map fun text => .file (Utf8.encode text)

theorem Holds.writable {name : Name} {text : Option String}
    (h : files.Holds (place ++ [name]) text) : files.Writable (place ++ [name]) := by
  refine ⟨by simp, fun node hn => ?_⟩
  rw [Holds, hn] at h
  obtain ⟨text, -, rfl⟩ := Option.map_eq_some_iff.mp h.symm
  exact ⟨_, rfl⟩

section

variable (he : files.Enters directory place) (hn : Path.IsName (Utf8.encode child))
  (hp : Proper (Utf8.encode child)) (hl : (directory.child child).bytes.length < maxPath)
  {text : Option String} (hh : files.Holds (place ++ [Utf8.encode child]) text)
include he hn hp hl hh

theorem Enters.readText :
    files.readText (directory.child child) = text.elim (.error (.system Errno.noEntry)) .ok := by
  obtain ⟨left, hr⟩ := he.resolve_child hn hl
  unfold FileSystem.readText readFile openRead find
  rw [hr]
  cases text with
  | none =>
    rw [walk_vacant hp hh]
    rfl
  | some text =>
    rw [walk_file hp hh]
    simp only [bind, Except.bind, pure, Except.pure, OpenFile.read, Utf8.decode?_encode,
      Option.elim_some]

theorem Enters.writeText (new : String) : files.writeText (directory.child child) new =
    .ok (files.set (place ++ [Utf8.encode child]) (.file (Utf8.encode new))) := by
  obtain ⟨left, hr⟩ := he.resolve_child hn hl
  unfold FileSystem.writeText writeFile
  rw [hr]
  cases text with
  | none =>
    rw [walk_vacant hp hh]
    rfl
  | some text =>
    rw [walk_file hp hh]
    rfl

end

theorem node?_eq_none_of_children (h : files.children place = []) (name : Name) :
    files.node? (place ++ [name]) = none := by
  refine Option.eq_none_iff_forall_ne_some.mpr fun node hn => ?_
  have hm : name ∈ files.children place := mem_children_iff.mpr ⟨node, hn⟩
  rw [h] at hm
  cases hm

end FileSystem

-- ---------------------------------------------------------------------
-- What a directory keeps

namespace Descriptor

variable {files : FileSystem} {directory : Path} {place : Place}

structure Keeps (files : FileSystem) (directory : Path) (place : Place)
    (kept : UInt64 → Option Descriptor) : Prop where
  enters : files.Enters directory place
  holds (memId : UInt64) :
    files.Holds (place ++ [fileName memId]) ((kept memId).map fun region => region.record.pretty)

def Fits (directory : Path) (memId : UInt64) : Prop :=
  (filePath directory memId).bytes.length < FileSystem.maxPath

theorem length_filePath (directory : Path) (memId : UInt64) :
    directory.bytes.length < (filePath directory memId).bytes.length ∧
      (filePath directory memId).bytes.length ≤ directory.bytes.length + 34 := by
  obtain ⟨hl, hh⟩ := length_fileName_le memId
  have he : (filePath directory memId).bytes.length =
      directory.bytes.length + (fileName memId).length ∨
        (filePath directory memId).bytes.length =
          directory.bytes.length + (fileName memId).length + 1 := by
    obtain ⟨hb, -⟩ | ⟨hb, -⟩ := Path.bytes_child (isName_fileName memId) directory
    · exact .inl ((congrArg List.length hb).trans List.length_append)
    · exact .inr ((congrArg List.length hb).trans List.length_append)
  omega

theorem Fits.length_lt {directory : Path} {memId : UInt64} (h : Fits directory memId) :
    directory.bytes.length < FileSystem.maxPath :=
  Nat.lt_trans (length_filePath directory memId).1 h

theorem fits_of_length {directory : Path} (h : directory.bytes.length + 34 < FileSystem.maxPath)
    (memId : UInt64) : Fits directory memId :=
  Nat.lt_of_le_of_lt (length_filePath directory memId).2 h

variable {kept : UInt64 → Option Descriptor} {memId : UInt64}

def loaded (kept : Option Descriptor) : Except Error Descriptor :=
  kept.elim (.error (.io (.system Errno.noEntry))) .ok

theorem Keeps.load (h : Keeps files directory place kept) (hf : Fits directory memId) :
    load files directory memId = loaded (kept memId) := by
  rw [Descriptor.load, filePath,
    h.enters.readText (isName_fileName memId) (proper_fileName memId) hf (h.holds memId)]
  cases kept memId with
  | none => rfl
  | some region => exact ofJson_pretty region

theorem Keeps.set (h : Keeps files directory place kept) (memId : UInt64) (region : Descriptor) :
    Keeps
      (files.set (place ++ [fileName memId]) (.file (Utf8.encode region.record.pretty))) directory
      place (Function.update kept memId (some region)) := by
  refine ⟨h.enters.set (h.holds memId).writable, fun other => ?_⟩
  rw [FileSystem.Holds, FileSystem.node?_set (by simp)]
  by_cases ho : other = memId
  · rw [ho, if_pos rfl, Function.update_self]
    rfl
  · have hn : place ++ [fileName other] ≠ place ++ [fileName memId] := by
      intro he
      exact ho (fileName_injective (List.cons.inj (List.append_cancel_left he)).1)
    rw [if_neg hn, Function.update_of_ne ho]
    exact h.holds other

theorem Keeps.writeText (h : Keeps files directory place kept) (hf : Fits directory memId)
    (text : String) : files.writeText (filePath directory memId) text =
      .ok (files.set (place ++ [fileName memId]) (.file (Utf8.encode text))) :=
  h.enters.writeText (isName_fileName memId) (proper_fileName memId) hf (h.holds memId) text

/-- Once made, the directory keeps these descriptors, and loads find them before that too. -/
def Serves (files : FileSystem) (directory : Path) (kept : UInt64 → Option Descriptor) : Prop :=
  ∃ made place, files.makeDirectories directory = (.ok (), made) ∧
    Keeps made directory place kept ∧
    ∀ memId, Fits directory memId → load files directory memId = load made directory memId

theorem Keeps.serves (h : Keeps files directory place kept) : Serves files directory kept :=
  ⟨files, place, h.enters.makeDirectories, h, fun _ _ => rfl⟩

theorem Serves.load (h : Serves files directory kept) (hf : Fits directory memId) :
    Descriptor.load files directory memId = loaded (kept memId) := by
  obtain ⟨made, place, -, hk, hl⟩ := h
  rw [hl memId hf, hk.load hf]

theorem Serves.save (h : Serves files directory kept) (hf : Fits directory memId)
    (region : Descriptor) : ∃ after,
      (region.save files directory memId).value = (.ok (filePath directory memId), after) ∧
        Serves after directory (Function.update kept memId (some region)) := by
  obtain ⟨made, place, hm, hk, -⟩ := h
  have hw := hk.writeText hf region.record.pretty
  exact ⟨_, save_eq_ok_iff.mpr ⟨rfl, made, hm, hw⟩, (hk.set memId region).serves⟩

/-- The directory is there, or can be made with all that is missing above it, and is empty then. -/
structure Fresh (files : FileSystem) (directory : Path) (made : FileSystem) : Prop where
  makes : files.makeDirectories directory = (.ok (), made)
  empty : ∀ place, made.Enters directory place → made.children place = []

theorem Fresh.serves {made : FileSystem} (h : Fresh files directory made)
    (hf : Fits directory memId) : Serves files directory fun _ => none := by
  obtain ⟨place, he⟩ := FileSystem.enters_of_makeDirectories h.makes hf.length_lt
  have hk : Keeps made directory place fun _ => none :=
    ⟨he, fun memId => FileSystem.node?_eq_none_of_children (h.empty place he) _⟩
  refine ⟨made, place, h.makes, hk, fun memId hf => ?_⟩
  obtain rfl | ⟨hb, hr⟩ := FileSystem.misses_of_makeDirectories h.makes
  · rfl
  · rw [hk.load hf, Descriptor.load, filePath, FileSystem.readText, FileSystem.readFile,
      FileSystem.openRead, FileSystem.find,
      FileSystem.resolve_child_missing (isName_fileName memId) hf hb hr]
    rfl

-- ---------------------------------------------------------------------
-- Runs

inductive Access where
  | save (memId : UInt64) (region : Descriptor)
  | load (memId : UInt64)

namespace Access

def memory : Access → UInt64
  | .save memId _ => memId
  | .load memId => memId

def perform (directory : Path) (files : FileSystem) : Access → FileSystem
  | .save memId region => (region.save files directory memId).value.2
  | .load _ => files

def run (directory : Path) (files : FileSystem) (accesses : List Access) : FileSystem :=
  accesses.foldl (perform directory) files

def savedAs? (memId : UInt64) : Access → Option Descriptor
  | .save id region => if id = memId then some region else none
  | .load _ => none

def latest (accesses : List Access) (memId : UInt64) : Option Descriptor :=
  (accesses.filterMap (savedAs? memId)).getLast?

theorem latest_save (earlier : List Access) (memId : UInt64) (region : Descriptor) :
    latest (earlier ++ [.save memId region]) =
      Function.update (latest earlier) memId (some region) := by
  funext other
  by_cases ho : memId = other
  · subst ho
    simp [latest, savedAs?]
  · rw [Function.update_of_ne (Ne.symm ho)]
    simp [latest, savedAs?, ho]

theorem latest_load (earlier : List Access) (memId : UInt64) :
    latest (earlier ++ [.load memId]) = latest earlier := by
  funext other
  simp [latest, savedAs?]

end Access

theorem Serves.perform {earlier : List Access} {access : Access}
    (h : Serves files directory (Access.latest earlier)) (hf : Fits directory access.memory) :
    Serves (access.perform directory files) directory (Access.latest (earlier ++ [access])) := by
  cases access with
  | load memId => rwa [Access.latest_load]
  | save memId region =>
    rw [Access.memory] at hf
    obtain ⟨after, hs, ha⟩ := h.save hf region
    rwa [Access.latest_save, Access.perform, hs]

theorem Serves.run {earlier accesses : List Access}
    (h : Serves files directory (Access.latest earlier))
    (hf : ∀ access ∈ accesses, Fits directory access.memory) :
    Serves (Access.run directory files accesses) directory
      (Access.latest (earlier ++ accesses)) := by
  induction accesses generalizing files earlier with
  | nil => rwa [List.append_nil]
  | cons access rest ih =>
    rw [List.append_cons]
    exact ih (h.perform (hf access (.head _))) fun other ho => hf other (.tail _ ho)

/-- After any saves and loads in a directory that was empty, or missing, a further save gives the
path of its file, and a load gives the descriptor of the latest save under its id, or says that
there is none. A save changes nothing for other ids. -/
theorem accesses_as_map {made : FileSystem} (h : Fresh files directory made)
    (earlier : List Access) (hf : ∀ access ∈ earlier, Fits directory access.memory) :
    let now := Access.run directory files earlier
    ∀ memId, Fits directory memId →
      load now directory memId = loaded (Access.latest earlier memId) ∧
      ∀ region : Descriptor,
        let saved := (region.save now directory memId).value
        saved.1 = .ok (filePath directory memId) ∧
          load saved.2 directory memId = .ok region ∧
          ∀ other ≠ memId, Fits directory other →
            load saved.2 directory other = load now directory other := by
  intro now memId hm
  have hs : Serves files directory (Access.latest []) := h.serves hm
  have hn : Serves now directory (Access.latest earlier) := hs.run hf
  refine ⟨hn.load hm, fun region => ?_⟩
  obtain ⟨after, hs, ha⟩ := hn.save hm region
  intro saved
  rw [show saved = _ from hs]
  refine ⟨rfl, ?_, fun other ho hf => ?_⟩
  · rw [ha.load hm, Function.update_self]
    rfl
  · rw [ha.load hf, Function.update_of_ne ho, hn.load hf]

/-- A directory two levels down that is not there yet. -/
theorem accesses_as_map_missing :
    let directory := Path.ofString "/var/obmm"
    let place := [Utf8.encode "var", Utf8.encode "obmm"]
    let made := (FileSystem.set {} [Utf8.encode "var"] .directory).set place .directory
    let first : Descriptor := { addr := 4096, payload := List.replicate 100 7 }
    let earlier : List Access := [.load 7, .save 7 first, .save 70 first, .load 7, .save 7 {}]
    Fresh {} directory made ∧ (∀ access ∈ earlier, Fits directory access.memory) ∧
      load (Access.run directory {} earlier) directory 7 = .ok {} ∧
      load (Access.run directory {} earlier) directory 70 = .ok first ∧
      load (Access.run directory {} earlier) directory 77 =
        .error (.io (.system Errno.noEntry)) := by
  intro directory place made first earlier
  have hp : made.find directory = .ok (place, .directory) := by cbv
  have h : Fresh {} directory made := by
    refine ⟨by cbv, ?_⟩
    rintro other (⟨hb, -⟩ | ho)
    · exact absurd hb (by decide)
    · cases hp.symm.trans ho
      cbv
  have hf : ∀ memId, Fits directory memId := fits_of_length (by decide)
  have hm := accesses_as_map h earlier fun access _ => hf access.memory
  exact ⟨h, fun access _ => hf access.memory, (hm 7 (hf 7)).1, (hm 70 (hf 70)).1, (hm 77 (hf 77)).1⟩

end Descriptor

end FabricMemory
