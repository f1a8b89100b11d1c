import FabricMemory.Controller.Tree
import FabricMemory.Proofs.Entry

/-!
# How the path of a controller is spelled

`spelled` is the path of a controller's directory below a root: the names of the root and the name
of the directory, one slash between each two, and no dots in front of a relative one. A search that
goes down by the pieces of the root spells this path (`Route.foldl_eq_spelled`), unless the root is
`Blind`. The path has the names of the root (`names_spelled`).
-/

namespace FabricMemory

namespace Path

variable {path : Path} {name : Name}

-- ---------------------------------------------------------------------
-- Pieces

theorem intercalate_split (bytes : Bytes) : [slash].intercalate (split bytes) = bytes := by
  fun_induction split bytes with
  | case1 => rfl
  | case2 rest ih => rw [List.intercalate_cons_of_ne_nil (split_ne_nil rest), ih]; rfl
  | case3 _ rest _ hs => exact absurd hs (split_ne_nil rest)
  | case4 byte rest _ first others hs ih =>
    rw [hs] at ih
    cases others with
    | nil => simpa using ih
    | cons second others => simpa using ih

theorem getLast?_split_of_slash {bytes : Bytes} (h : bytes.getLast? = some slash) :
    (split bytes).getLast? = some [] := by
  obtain ⟨front, rfl⟩ := eq_of_getLast?_slash h
  rw [split_append_slash, List.getLast?_append]
  rfl

theorem length_add_one (bytes : Bytes) :
    bytes.length + 1 = ((split bytes).map (·.length + 1)).sum := by
  fun_induction split bytes with
  | case1 => rfl
  | case2 rest ih => simp [ih, Nat.add_comm]
  | case3 _ rest _ hs => exact absurd hs (split_ne_nil rest)
  | case4 byte rest _ first others hs ih =>
    simp only [hs, List.map_cons, List.sum_cons, List.length_cons] at ih ⊢
    omega

theorem length_le_of_sublist {bytes other : Bytes} (h : (split bytes).Sublist (split other)) :
    bytes.length ≤ other.length := by
  have hs : ((split bytes).map (·.length + 1)).sum ≤ ((split other).map (·.length + 1)).sum := by
    generalize split bytes = pieces at h
    generalize split other = more at h
    induction h with
    | slnil => exact Nat.le_refl _
    | cons _ _ ih => exact Nat.le_trans ih (by simp)
    | cons_cons _ _ ih => simpa using ih
  rw [← length_add_one, ← length_add_one] at hs
  omega

theorem mem_iff_names {bytes : Bytes} {byte : UInt8} (hb : byte ≠ slash) :
    byte ∈ bytes ↔ ∃ name ∈ names bytes, byte ∈ name := by
  have hs : byte ∈ bytes ↔ ∃ name ∈ split bytes, byte ∈ name := by
    fun_induction split bytes with
    | case1 => simp
    | case2 rest ih => simp [hb, ih]
    | case3 _ rest _ hs => exact absurd hs (split_ne_nil rest)
    | case4 first rest _ name others hs ih => simp [ih, hs, or_assoc]
  rw [hs]
  constructor
  · rintro ⟨name, hm, hn⟩
    exact ⟨name, List.mem_filter.mpr ⟨hm, by simpa using List.ne_nil_of_mem hn⟩, hn⟩
  · rintro ⟨name, hm, hn⟩
    exact ⟨name, (List.mem_filter.mp hm).1, hn⟩

theorem join_ne_nil (hb : path.bytes ≠ []) (tail : Path) : (path.join tail).bytes ≠ [] := by
  unfold join
  split
  · rename_i ha
    intro hn
    simp [isAbsolute, hn] at ha
  · split <;> simp [hb]

/-- The pieces of a path, without the empty one behind a slash at its end. -/
def stem (path : Path) : List Name :=
  if path.bytes.getLast? = some slash then (split path.bytes).dropLast else split path.bytes

theorem names_eq_stem (path : Path) : names path.bytes = (stem path).filter (· ≠ []) := by
  rw [stem]
  split
  · rename_i hl
    obtain ⟨front, hf⟩ := eq_of_getLast?_slash hl
    rw [hf, names_append_slash, names_nil, List.append_nil, split_append_slash]
    simp [split, names]
  · rfl

theorem split_join (hb : path.bytes ≠ []) (hs : slash ∉ name) :
    split (path.join ⟨name⟩).bytes = stem path ++ [name] := by
  obtain ⟨hj, hl⟩ | ⟨hj, -, hl⟩ := bytes_join hs path
  · have hl := hl.resolve_left hb
    obtain ⟨front, hf⟩ := eq_of_getLast?_slash hl
    rw [stem, if_pos hl, hj, hf, List.append_assoc, List.singleton_append, split_append_slash,
      split_append_slash, split_of_notMem hs]
    simp [split]
  · rw [stem, if_neg hl, hj, split_append_slash, split_of_notMem hs]

theorem stem_of_name (hs : slash ∉ name) : stem ⟨name⟩ = [name] := by
  rw [stem, if_neg fun h => hs (List.mem_of_getLast? h), split_of_notMem hs]

theorem slash_notMem_of_mem_split {bytes : Bytes} : ∀ name ∈ split bytes, slash ∉ name := by
  fun_induction split bytes with
  | case1 => simp
  | case2 rest ih => simpa using ih
  | case3 _ rest _ hs => exact absurd hs (split_ne_nil rest)
  | case4 byte rest hb first others hs ih =>
    rw [hs] at ih
    obtain ⟨hf, ho⟩ := List.forall_mem_cons.mp ih
    refine List.forall_mem_cons.mpr ⟨?_, ho⟩
    simp [hf, Ne.symm hb]

theorem names_of_notMem (hs : slash ∉ name) : names name = if name = [] then [] else [name] := by
  rw [names, split_of_notMem hs]
  split <;> simp [*]

theorem filter_cons (hs : slash ∉ name) (rest : List Name) :
    (name :: rest).filter (· ≠ []) = names name ++ rest.filter (· ≠ []) := by
  rw [names, split_of_notMem hs, ← List.filter_append]
  rfl

theorem stem_join (hb : path.bytes ≠ []) (hs : slash ∉ name) :
    stem (path.join ⟨name⟩) = stem path ++ names name := by
  rw [names_of_notMem hs]
  split
  · rename_i hn
    subst hn
    rw [List.append_nil]
    obtain ⟨hj, hl⟩ | ⟨hj, -, hl⟩ := bytes_join hs path
    · rw [stem, stem, hj, List.append_nil]
    · have hg : (path.bytes ++ [slash]).getLast? = some slash := by simp
      rw [stem, stem, hj, if_pos hg, if_neg hl, split_append_slash]
      simp [split]
  · rename_i hn
    rw [stem, if_neg (getLast?_join hs hn path), split_join hb hs]

end Path

namespace ControllerTree

variable {path root : Path} {name : Name} {names : List Name} {index : Nat}

-- ---------------------------------------------------------------------
-- Further down

/-- The path of a name below another path; what is in the working directory is spelled by its name
alone. -/
def next (path : Path) (name : Name) : Path :=
  if path.bytes = Path.dot then ⟨name⟩ else path.join ⟨name⟩

/-- No empty name follows the dots that a path through the working directory starts with. -/
def Sighted (path : Path) (names : List Name) : Prop :=
  path.bytes = Path.dot → ∀ dots rest, names ≠ List.replicate dots Path.dot ++ [] :: rest

theorem next_of_dot (h : path.bytes = Path.dot) : next path name = ⟨name⟩ := if_pos h

theorem next_of_ne_dot (h : path.bytes ≠ Path.dot) : next path name = path.join ⟨name⟩ := if_neg h

theorem join_ne_dot (hb : path.bytes ≠ []) (hs : Path.slash ∉ name) (hd : path.bytes ≠ Path.dot) :
    (path.join ⟨name⟩).bytes ≠ Path.dot := by
  intro h
  obtain ⟨byte, rest, hp⟩ := List.exists_cons_of_ne_nil hb
  obtain ⟨hj, -⟩ | ⟨hj, -⟩ := Path.bytes_join hs path
  · rw [hj, hp] at h
    obtain ⟨rfl, hr⟩ := List.cons.inj h
    rw [(List.append_eq_nil_iff.mp hr).1] at hp
    exact hd hp
  · rw [hj, hp] at h
    simpa using (List.cons.inj h).2

theorem Sighted.ne_nil (h : Sighted path (name :: names)) (hd : path.bytes = Path.dot) :
    name ≠ [] := fun he => h hd 0 names (congrArg (· :: names) he)

theorem Sighted.next (h : Sighted path (name :: names)) (hb : path.bytes ≠ [])
    (hs : Path.slash ∉ name) :
    (next path name).bytes ≠ [] ∧ Sighted (next path name) names := by
  by_cases hd : path.bytes = Path.dot
  · rw [next_of_dot hd]
    refine ⟨h.ne_nil hd, fun he dots rest hr => ?_⟩
    refine h hd (dots + 1) rest ?_
    rw [hr, List.replicate_succ, List.cons_append]
    exact congrArg (· :: _) he
  · rw [next_of_ne_dot hd]
    exact ⟨Path.join_ne_nil hb _, fun he => absurd he (join_ne_dot hb hs hd)⟩

theorem Sighted.append (h : Sighted path names) (hn : name ≠ []) :
    Sighted path (names ++ [name]) := by
  intro hd dots rest he
  rcases List.eq_nil_or_concat rest with rfl | ⟨rest, last, rfl⟩
  · exact hn (List.cons.inj (List.append_inj' he rfl).2).1
  · rw [List.concat_eq_append, ← List.cons_append, ← List.append_assoc] at he
    exact h hd dots rest (List.append_inj' he rfl).1

def spelling (path : Path) : List Name := if path.bytes = Path.dot then [] else Path.stem path

theorem spelling_foldl (hs : ∀ name ∈ names, Path.slash ∉ name) (hb : path.bytes ≠ [])
    (h : Sighted path names) :
    spelling (names.foldl next path) =
      if path.bytes = Path.dot then (names.filter (· ≠ [])).dropWhile (· = Path.dot)
      else Path.stem path ++ names.filter (· ≠ []) := by
  induction names generalizing path with
  | nil => by_cases hd : path.bytes = Path.dot <;> simp [spelling, hd]
  | cons name names ih =>
    obtain ⟨hn, hns⟩ := List.forall_mem_cons.mp hs
    obtain ⟨hb', h'⟩ := h.next hb hn
    rw [List.foldl_cons, ih hns hb' h']
    by_cases hd : path.bytes = Path.dot
    · -- still in the working directory, where a dot leads nowhere else
      rw [next_of_dot hd, if_pos hd, List.filter_cons_of_pos (by simpa using h.ne_nil hd)]
      by_cases hn' : name = Path.dot
      · rw [if_pos hn', List.dropWhile_cons_of_pos (by simpa using hn')]
      · rw [if_neg hn', List.dropWhile_cons_of_neg (by simpa using hn'),
          Path.stem_of_name hn]
        rfl
    · rw [next_of_ne_dot hd, if_neg (join_ne_dot hb hn hd), if_neg hd, Path.stem_join hb hn,
        List.append_assoc, Path.filter_cons hn]

theorem isAbsolute_next (hs : Path.slash ∉ name) : (next path name).isAbsolute = path.isAbsolute := by
  by_cases hd : path.bytes = Path.dot
  · have ha : path.isAbsolute = false := by
      rw [Path.isAbsolute, hd]
      rfl
    rw [next_of_dot hd, Path.isAbsolute_of_notMem hs, ha]
  · rw [next_of_ne_dot hd, Path.isAbsolute_join hs]

theorem isAbsolute_foldl (hs : ∀ name ∈ names, Path.slash ∉ name) :
    (names.foldl next path).isAbsolute = path.isAbsolute := by
  induction names generalizing path with
  | nil => rfl
  | cons name names ih =>
    obtain ⟨hn, hns⟩ := List.forall_mem_cons.mp hs
    rw [List.foldl_cons, ih hns, isAbsolute_next hn]

theorem foldl_ne_nil (hs : ∀ name ∈ names, Path.slash ∉ name) (hb : path.bytes ≠ [])
    (h : Sighted path names) : (names.foldl next path).bytes ≠ [] := by
  induction names generalizing path with
  | nil => exact hb
  | cons name names ih =>
    obtain ⟨hn, hns⟩ := List.forall_mem_cons.mp hs
    obtain ⟨hb', h'⟩ := h.next hb hn
    exact ih hns hb' h'

theorem split_next (hb : path.bytes ≠ []) (hn : Path.IsName name) :
    Path.split (next path name).bytes = spelling path ++ [name] := by
  by_cases hd : path.bytes = Path.dot
  · rw [next_of_dot hd, spelling, if_pos hd, Path.split_of_notMem hn.noSlash, List.nil_append]
  · rw [next_of_ne_dot hd, spelling, if_neg hd, Path.split_join hb hn.noSlash]

/-- What grows on the way down: paths get longer, and keep the bytes that they have. -/
theorem next_grows (hs : Path.slash ∉ name)
    (hd : path.bytes = Path.dot → name ≠ []) :
    path.bytes.length ≤ (next path name).bytes.length ∧
      (0 ∈ path.bytes → 0 ∈ (next path name).bytes) := by
  by_cases hp : path.bytes = Path.dot
  · rw [next_of_dot hp, hp]
    exact ⟨List.length_pos_iff.mpr (hd hp), fun h => absurd h (by decide)⟩
  · rw [next_of_ne_dot hp]
    obtain ⟨hj, -⟩ | ⟨hj, -⟩ := Path.bytes_join hs path
    · simp +contextual [hj]
    · simp +contextual [hj]

theorem foldl_grows (hs : ∀ name ∈ names, Path.slash ∉ name) (hb : path.bytes ≠ [])
    (h : Sighted path names) :
    path.bytes.length ≤ (names.foldl next path).bytes.length ∧
      (0 ∈ path.bytes → 0 ∈ (names.foldl next path).bytes) := by
  induction names generalizing path with
  | nil => exact ⟨Nat.le_refl _, id⟩
  | cons name names ih =>
    obtain ⟨hn, hns⟩ := List.forall_mem_cons.mp hs
    obtain ⟨hb', h'⟩ := h.next hb hn
    obtain ⟨hl, hz⟩ := next_grows hn h.ne_nil
    obtain ⟨hl', hz'⟩ := ih hns hb' h'
    exact ⟨Nat.le_trans hl hl', fun h => hz' (hz h)⟩

-- ---------------------------------------------------------------------
-- The path of a controller

/-- The root is spelled from the top of the file system; an empty one is, too. -/
def Anchored (root : Path) : Prop := root.bytes = [] ∨ root.isAbsolute = true

instance (root : Path) : Decidable (Anchored root) := inferInstanceAs (Decidable (_ ∨ _))

/-- The pieces of the root as it is spelled: one of them is empty if it is spelled from the top, and
a relative one does without the dots in front. -/
def rootPieces (root : Path) : List Name :=
  if Anchored root then [] :: Path.names root.bytes
  else (Path.names root.bytes).dropWhile (· = Path.dot)

def spelled (root : Path) (index : Nat) : Path :=
  ⟨[Path.slash].intercalate (rootPieces root ++ [Utf8.encode (directoryName index)])⟩

/-- Roots that nothing is found below: a name is both hidden and special, or an empty name follows
the dots in front of a relative one. -/
inductive Blind (root : Path) : Prop
  | special {name : Name} (hm : name ∈ Path.split root.bytes) (hh : isHidden name = true)
      (hs : isSpecial name = true)
  | blank {dots : Nat} {rest : List Name}
      (h : Path.split root.bytes = List.replicate (dots + 1) Path.dot ++ [] :: rest)

theorem toList_directoryName (index : Nat) :
    (directoryName index).toList = "ub_bus_controller".toList ++ Nat.toDigits 10 index := by
  have hd : (Numeral.decimal index).toList = Nat.toDigits 10 index := String.toList_ofList
  rw [← hd]
  exact String.toList_append

theorem plain_directoryName {c : Char} (h : c ∈ (directoryName index).toList) :
    Path.IsPlain c := by
  have fixed : ∀ c ∈ "ub_bus_controller".toList, Path.IsPlain c := by simp [Path.IsPlain]
  rw [toList_directoryName] at h
  exact (List.mem_append.mp h).elim (fixed c) Path.plain_of_mem_toDigits

theorem isName_directoryName (index : Nat) : Path.IsName (Utf8.encode (directoryName index)) := by
  rw [← String.ofList_toList (s := directoryName index)]
  refine Path.isName_ofList ?_ fun c hc => plain_directoryName hc
  rw [toList_directoryName]
  exact List.append_ne_nil_of_right_ne_nil _ Nat.toDigits_ne_nil

theorem isHidden_directoryName (index : Nat) :
    isHidden (Utf8.encode (directoryName index)) = false := by
  rw [isHidden, ← String.ofList_toList (s := directoryName index),
    Utf8.encode_ofList fun c hc => (plain_directoryName hc).1, toList_directoryName]
  rfl

theorem anchored_iff : Anchored root ↔ ∃ rest, Path.split root.bytes = [] :: rest := by
  obtain ⟨_ | ⟨byte, bytes⟩⟩ := root
  · simp [Anchored, Path.split]
  · by_cases hb : byte = Path.slash
    · simp [Anchored, Path.isAbsolute, Path.split, hb]
    · refine iff_of_false (by simp [Anchored, Path.isAbsolute, hb]) ?_
      rw [Path.split, if_neg hb]
      split <;> simp

theorem sighted_split (h : ¬ Blind root) (ha : ¬ Anchored root) :
    Sighted ⟨Path.dot⟩ (Path.split root.bytes) := by
  intro _ dots rest hs
  cases dots with
  | zero => exact ha (anchored_iff.mpr ⟨rest, hs⟩)
  | succ dots => exact h (.blank hs)

/-- Where a search starts, and the pieces of the root that it goes down by. -/
structure Route (root start : Path) (pieces : List Name) : Prop where
  mem : ∀ name ∈ pieces, name ∈ Path.split root.bytes
  names : pieces.filter (· ≠ []) = Path.names root.bytes
  start : Anchored root ∧ start = ⟨[Path.slash]⟩ ∨
    ¬ Anchored root ∧ start = ⟨Path.dot⟩ ∧ pieces = Path.split root.bytes

theorem exists_route (root : Path) (index : Nat) :
    ∃ start pieces, route root index = (start, pieces ++ [Utf8.encode (directoryName index)]) ∧
      Route root start pieces := by
  obtain ⟨bytes⟩ := root
  cases bytes with
  | nil => exact ⟨_, [], rfl, by simp, rfl, .inl ⟨.inl rfl, rfl⟩⟩
  | cons byte rest =>
    by_cases hb : byte = Path.slash
    · subst hb
      have hs : Path.split (Path.slash :: rest) = [] :: Path.split rest := by
        rw [Path.split, if_pos rfl]
      refine ⟨_, Path.split rest, by simp [route], ?_, ?_, .inl ⟨.inr rfl, rfl⟩⟩
      · intro name hn
        rw [hs]
        exact .tail _ hn
      · rw [Path.names, hs]
        rfl
    · have ha : ¬ Anchored ⟨byte :: rest⟩ := by simp [Anchored, Path.isAbsolute, hb]
      exact ⟨_, Path.split (byte :: rest), by simp [route, hb], fun _ h => h, rfl,
        .inr ⟨ha, rfl, rfl⟩⟩

namespace Route

variable {start : Path} {pieces : List Name} (h : Route root start pieces)
include h

theorem noSlash : ∀ name ∈ pieces, Path.slash ∉ name := fun name hn =>
  Path.slash_notMem_of_mem_split name (h.mem name hn)

theorem noSlash_append : ∀ name ∈ pieces ++ [Utf8.encode (directoryName index)],
    Path.slash ∉ name := by
  intro name hn
  rcases List.mem_append.mp hn with hn | hn
  · exact h.noSlash name hn
  · rw [List.mem_singleton.mp hn]
    exact (isName_directoryName index).noSlash

theorem nonempty : start.bytes ≠ [] := by
  obtain ⟨-, rfl⟩ | ⟨-, rfl, -⟩ := h.start <;> simp [Path.dot]

theorem sighted (hb : ¬ Blind root) : Sighted start pieces := by
  obtain ⟨-, rfl⟩ | ⟨ha, rfl, rfl⟩ := h.start
  · exact fun hd => absurd hd (by decide)
  · exact sighted_split hb ha

theorem spelling_foldl (hb : ¬ Blind root) :
    spelling (pieces.foldl next start) = rootPieces root := by
  rw [ControllerTree.spelling_foldl h.noSlash h.nonempty (h.sighted hb), h.names, rootPieces]
  obtain ⟨ha, rfl⟩ | ⟨ha, rfl, -⟩ := h.start
  · rw [if_pos ha, if_neg (by decide)]
    rfl
  · rw [if_neg ha, if_pos rfl]

theorem split_foldl (hb : ¬ Blind root) (index : Nat) :
    Path.split ((pieces ++ [Utf8.encode (directoryName index)]).foldl next start).bytes =
      rootPieces root ++ [Utf8.encode (directoryName index)] := by
  have hn := foldl_ne_nil h.noSlash h.nonempty (h.sighted hb)
  rw [List.foldl_append, ← h.spelling_foldl hb]
  exact split_next hn (isName_directoryName index)

theorem foldl_eq_spelled (hb : ¬ Blind root) (index : Nat) :
    (pieces ++ [Utf8.encode (directoryName index)]).foldl next start = spelled root index := by
  rw [spelled, ← h.split_foldl hb, Path.intercalate_split]

end Route

-- ---------------------------------------------------------------------
-- The root as it stands

theorem split_spelled (hb : ¬ Blind root) (index : Nat) :
    Path.split (spelled root index).bytes =
      rootPieces root ++ [Utf8.encode (directoryName index)] := by
  obtain ⟨start, pieces, -, hw⟩ := exists_route root index
  rw [← hw.foldl_eq_spelled hb, hw.split_foldl hb]

theorem spelled_ne_nil (hb : ¬ Blind root) (index : Nat) : (spelled root index).bytes ≠ [] := by
  intro he
  have hs := congrArg List.getLast? (split_spelled hb index)
  rw [he, List.getLast?_concat] at hs
  exact (isName_directoryName index).nonempty (Option.some.inj hs).symm

theorem isAbsolute_spelled (hb : ¬ Blind root) (hr : root.bytes ≠ []) (index : Nat) :
    (spelled root index).isAbsolute = root.isAbsolute := by
  obtain ⟨start, pieces, -, hw⟩ := exists_route root index
  rw [← hw.foldl_eq_spelled hb, isAbsolute_foldl hw.noSlash_append]
  obtain ⟨ha, rfl⟩ | ⟨ha, rfl, -⟩ := hw.start
  · rw [ha.resolve_left hr]
    rfl
  · rw [Bool.eq_false_iff.mpr fun h => ha (.inr h)]
    rfl

theorem rootPieces_sublist (hr : root.bytes ≠ []) :
    (rootPieces root).Sublist (Path.stem root) := by
  rw [rootPieces, Path.names_eq_stem]
  split
  · rename_i ha
    obtain ⟨rest, hs⟩ := anchored_iff.mp ha
    have hn : rest ≠ [] := by
      rintro rfl
      have hi := Path.intercalate_split root.bytes
      rw [hs] at hi
      exact hr hi.symm
    obtain ⟨rest', ht⟩ : ∃ rest', Path.stem root = [] :: rest' := by
      rw [Path.stem, hs]
      split
      · exact ⟨_, List.dropLast_cons_of_ne_nil hn⟩
      · exact ⟨_, rfl⟩
    rw [ht]
    exact List.Sublist.cons_cons [] (List.filter_sublist (l := rest'))
  · exact List.dropWhile_sublist _ |>.trans List.filter_sublist

theorem names_spelled (hb : ¬ Blind root) (index : Nat) :
    ∃ dots kept, (∀ name ∈ dots, name = Path.dot) ∧ Path.names root.bytes = dots ++ kept ∧
      Path.names (spelled root index).bytes = kept ++ [Utf8.encode (directoryName index)] := by
  have hn : Path.names (spelled root index).bytes =
      (rootPieces root).filter (· ≠ []) ++ [Utf8.encode (directoryName index)] := by
    rw [Path.names, split_spelled hb, List.filter_append]
    simp [(isName_directoryName index).nonempty]
  have hk : ∀ name ∈ Path.names root.bytes, decide (name ≠ []) = true := fun name hm =>
    (List.mem_filter.mp hm).2
  rw [hn, rootPieces]
  split
  · refine ⟨[], Path.names root.bytes, by simp, rfl, ?_⟩
    rw [List.filter_cons_of_neg (by simp), List.filter_eq_self.mpr hk]
  · refine ⟨(Path.names root.bytes).takeWhile (· = Path.dot), _, ?_,
      List.takeWhile_append_dropWhile.symm, ?_⟩
    · exact fun name hm => of_decide_eq_true (List.all_eq_true.mp List.all_takeWhile name hm)
    · rw [List.filter_eq_self.mpr fun name hm => hk name ((List.dropWhile_sublist _).subset hm)]

theorem noNul_spelled (hb : ¬ Blind root) (index : Nat) :
    0 ∈ (spelled root index).bytes ↔ 0 ∈ root.bytes := by
  have hs : (0 : UInt8) ≠ Path.slash := by decide
  obtain ⟨dots, kept, hd, hr, hn⟩ := names_spelled hb index
  have hdz : ∀ name ∈ dots, 0 ∉ name := by
    intro name hm
    rw [hd name hm]
    decide
  rw [Path.mem_iff_names hs, Path.mem_iff_names hs, hr, hn]
  simp only [List.mem_append, List.mem_singleton, or_and_right, exists_or, exists_eq_left]
  have hn' := (isName_directoryName index).noNul
  constructor
  · rintro (h | h)
    · exact .inr h
    · exact absurd h hn'
  · rintro (⟨name, hm, h⟩ | h)
    · exact absurd h (hdz name hm)
    · exact .inl h

theorem steps_spelled (hb : ¬ Blind root) (index : Nat) :
    FileSystem.steps (spelled root index) = Path.names (spelled root index).bytes := by
  rw [FileSystem.steps, if_neg]
  · rfl
  · intro hl
    have hg := Path.getLast?_split_of_slash hl
    rw [split_spelled hb, List.getLast?_concat] at hg
    exact (isName_directoryName index).nonempty (Option.some.inj hg)

end ControllerTree

end FabricMemory
