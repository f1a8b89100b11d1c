import FabricMemory.CommandLine.Arguments
import FabricMemory.Proofs.Dialogue
import FabricMemory.Proofs.Item

/-!
# What a command line says

`Command.Written` says which command the items after its name write, with each number, each endpoint
and each bit of the flags where it belongs. Main statement (`Invocation.written_of_parse`): a command
line is read as what it writes.
-/

namespace FabricMemory.CommandLine

-- ---------------------------------------------------------------------
-- What items write

/-- The bit that stands for a flag, if the flag was given. -/
def bit (items : List Item) (name : String) (mask : UInt64) : UInt64 :=
  if name ∈ flagNames items then mask else 0

/-- The command of a name that items write, with the options and flags that it knows. -/
inductive Command.Written (items : List Item) :
    (name : String) → (names flags : List String) → Command → Prop
  | controllers (ho : operands items = []) : Written items "controllers" [] [] .controllers
  | resolve {text : String} {eid : Eid} (ho : operands items = [text]) (he : IsEid text eid) :
      Written items "resolve" [] [] (.resolve eid)
  | exportPages {deid : Eid} {seid : Option Eid} {sizes : List UInt64} {flags : ExportFlags}
      (ho : operands items = []) (hd : Optionally IsEid (texts items "eid") (some deid))
      (hs : Optionally IsEid (texts items "seid") seid) (hn : sizes ≠ [])
      (hz : List.Forall₂ IsLong (texts items "size") sizes)
      (hf : flags.bits = bit items "allow-mmap" 1 ||| bit items "remote-numa" 2) :
      Written items "export" ["eid", "seid", "size"] ["allow-mmap", "remote-numa"]
        (.exportPages deid seid sizes flags)
  | endExport {text : String} {memId : UInt64} {flags : UnexportFlags}
      (ho : operands items = [text]) (hm : IsLong text memId)
      (hf : flags.bits = bit items "force" 1) :
      Written items "unexport" [] ["force"] (.endExport memId flags)
  | importRegion {text : String} {memId : UInt64} {scna dcna : Option UInt32}
      {numaHint distance : Option Int32} {flags : ImportFlags} (ho : operands items = [text])
      (hm : IsLong text memId) (hs : Optionally IsWord (texts items "scna") scna)
      (hd : Optionally IsWord (texts items "dcna") dcna)
      (hn : Optionally IsInteger (texts items "numa") numaHint)
      (hb : Optionally IsInteger (texts items "base-dist") distance)
      (hf : flags.bits =
        bit items "allow-mmap" 1 ||| bit items "preimport" 2 ||| bit items "numa-remote" 4) :
      Written items "import" ["scna", "dcna", "numa", "base-dist"]
        ["numa-remote", "preimport", "allow-mmap"]
        (.importRegion memId scna dcna numaHint (distance.getD 0) flags)
  | endImport {text : String} {memId : UInt64} {flags : UnimportFlags}
      (ho : operands items = [text]) (hm : IsLong text memId)
      (hf : flags.bits = bit items "force" 1) :
      Written items "unimport" [] ["force"] (.endImport memId flags)
  | startOf {text : String} {memId : UInt64} (ho : operands items = [text])
      (hm : IsLong text memId) : Written items "query-pa" [] [] (.addressOf memId 0)
  | addressOf {text behind : String} {memId offset : UInt64}
      (ho : operands items = [text, behind]) (hm : IsLong text memId) (hb : IsLong behind offset) :
      Written items "query-pa" [] [] (.addressOf memId offset)
  | regionAt {text : String} {pa : UInt64} (ho : operands items = [text]) (hp : IsLong text pa) :
      Written items "query-memid" [] [] (.regionAt pa)
  | setOwnership {held low high wanted : String} {device : Path} {first last : UInt64}
      {ownership : Ownership} (ho : operands items = [held, low, high, wanted])
      (hd : IsPath held device) (hf : IsLong low first) (hl : IsLong high last)
      (hw : IsOwnership wanted ownership) :
      Written items "ownership" [] [] (.setOwnership device first last ownership)

/-- The paths that items write before the command and after it; those after it count. -/
structure PathOptions.Written (before after : List Item) (paths : PathOptions) : Prop where
  sysfsRoot : paths.sysfsRoot =
    (texts (before ++ after) "sysfs-root").getLast?.map Path.ofString
  device : paths.device = (texts (before ++ after) "device").getLast?.map Path.ofString
  descriptors : paths.descriptors =
    (texts (before ++ after) "desc-dir").getLast?.map Path.ofString

def pathNames : List String := ["sysfs-root", "device", "desc-dir"]

/-- The arguments write options for paths, the name of a command, and what the command needs. -/
inductive Invocation.Written : List String → Invocation → Prop
  | intro {arguments rest names flags : List String} {name : String} {before after : List Item}
      {paths : PathOptions} {command : Command}
      (hb : Itemized pathNames [] arguments before (name :: rest)) (ho : operands before = [])
      (ha : Itemized (pathNames ++ names) flags rest after [])
      (hp : paths.Written before after) (hc : command.Written after name names flags) :
      Written arguments ⟨paths, command⟩

-- ---------------------------------------------------------------------
-- Flags

namespace Tells

variable {grammar : Grammar} {given : Given} {items : List Item}

theorem bit_eq (ht : Tells grammar items given) (name : String) (mask : UInt64) :
    bit items name mask = if given.flags.contains name then mask else 0 := by
  rw [bit, ← ht.flagged]
  exact if_congr List.contains_iff_mem.symm rfl rfl

theorem bits_exports (ht : Tells grammar items given) :
    (given.flagsOf .exports [("allow-mmap", "ALLOW_MMAP"), ("remote-numa", "REMOTE_NUMA")]).bits =
      bit items "allow-mmap" 1 ||| bit items "remote-numa" 2 := by
  simp only [ht.bit_eq, Given.flagsOf, List.filterMap_cons, List.filterMap_nil]
  generalize given.flags.contains "allow-mmap" = mappable
  generalize given.flags.contains "remote-numa" = remote
  cases mappable <;> cases remote <;> rfl

theorem bits_imports (ht : Tells grammar items given) :
    (given.flagsOf .imports [("numa-remote", "NUMA_REMOTE"), ("preimport", "PREIMPORT"),
        ("allow-mmap", "ALLOW_MMAP")]).bits =
      bit items "allow-mmap" 1 ||| bit items "preimport" 2 ||| bit items "numa-remote" 4 := by
  simp only [ht.bit_eq, Given.flagsOf, List.filterMap_cons, List.filterMap_nil]
  generalize given.flags.contains "allow-mmap" = mappable
  generalize given.flags.contains "preimport" = placed
  generalize given.flags.contains "numa-remote" = remote
  cases mappable <;> cases placed <;> cases remote <;> rfl

theorem bits_unexports (ht : Tells grammar items given) :
    (given.flagsOf .unexports [("force", "FORCE")]).bits = bit items "force" 1 := by
  simp only [ht.bit_eq, Given.flagsOf, List.filterMap_cons, List.filterMap_nil]
  cases given.flags.contains "force" <;> rfl

theorem bits_unimports (ht : Tells grammar items given) :
    (given.flagsOf .unimports [("force", "FORCE")]).bits = bit items "force" 1 := ht.bits_unexports

end Tells

-- ---------------------------------------------------------------------
-- Commands

variable {given : Given} {items : List Item} {command : Command}

theorem Tells.no_operands {grammar : Grammar} (ht : Tells grammar items given)
    (hg : grammar.operands.zip given.operands = []) : operands items = [] := by
  have hp := ht.placed
  rw [hg] at hp
  exact List.forall₂_nil_right_iff.mp hp

theorem Tells.sole_operand {α : Type} {grammar : Grammar} {kind : Kind} {value : Value}
    {take : Value → Option α} {writes : String → α → Prop} {taken : α}
    (ht : Tells grammar items given) (hg : grammar.operands.zip given.operands = [(kind, value)])
    (hk : Takes kind take writes) (hv : take value = some taken) :
    ∃ text, operands items = [text] ∧ writes text taken := by
  have hp := ht.placed
  rw [hg] at hp
  obtain ⟨text, rest, ho, hw, hn⟩ := Placed.cons hp hk hv
  obtain rfl := List.forall₂_nil_right_iff.mp hn
  exact ⟨text, ho, hw⟩

namespace CommandRule

theorem written_controllers (ht : Tells controllers.grammar items given) :
    Command.controllers.Written items "controllers" [] [] :=
  .controllers (ht.no_operands rfl)

theorem written_resolve (ht : Tells resolve.grammar items given)
    (hb : resolve.build given = some command) : command.Written items "resolve" [] [] := by
  simp only [resolve] at hb
  split at hb
  · rename_i eid hg
    obtain ⟨text, ho, he⟩ := ht.sole_operand (by rw [hg]; rfl) takes_eid rfl
    cases hb
    exact .resolve ho he
  · cases hb

theorem written_exportPages (ht : Tells exportPages.grammar items given)
    (hb : exportPages.build given = some command) :
    command.Written items "export" ["eid", "seid", "size"] ["allow-mmap", "remote-numa"] := by
  have hd : Optionally IsEid (texts items "eid") (given.value? Value.eid? "eid") :=
    ht.value? rfl rfl takes_eid
  have hs : Optionally IsEid (texts items "seid") (given.value? Value.eid? "seid") :=
    ht.value? rfl rfl takes_eid
  have hz : List.Forall₂ IsLong (texts items "size") (given.values Value.long? "size") :=
    ht.values rfl takes_long
  simp only [exportPages] at hb
  split at hb
  · rename_i deid size sizes he hl
    cases hb
    rw [he] at hd
    rw [hl] at hz
    exact .exportPages (ht.no_operands rfl) hd hs (List.cons_ne_nil _ _) hz ht.bits_exports
  · cases hb

theorem written_endExport (ht : Tells endExport.grammar items given)
    (hb : endExport.build given = some command) :
    command.Written items "unexport" [] ["force"] := by
  simp only [endExport] at hb
  split at hb
  · rename_i memId hg
    obtain ⟨text, ho, hm⟩ := ht.sole_operand (by rw [hg]; rfl) takes_long rfl
    cases hb
    exact .endExport ho hm ht.bits_unexports
  · cases hb

theorem written_importRegion (ht : Tells importRegion.grammar items given)
    (hb : importRegion.build given = some command) :
    command.Written items "import" ["scna", "dcna", "numa", "base-dist"]
      ["numa-remote", "preimport", "allow-mmap"] := by
  have hs : Optionally IsWord (texts items "scna") (given.value? Value.word? "scna") :=
    ht.value? rfl rfl takes_word
  have hd : Optionally IsWord (texts items "dcna") (given.value? Value.word? "dcna") :=
    ht.value? rfl rfl takes_word
  have hn : Optionally IsInteger (texts items "numa") (given.value? Value.integer? "numa") :=
    ht.value? rfl rfl takes_integer
  have hi : Optionally IsInteger (texts items "base-dist")
      (given.value? Value.integer? "base-dist") := ht.value? rfl rfl takes_integer
  simp only [importRegion] at hb
  split at hb
  · rename_i memId hg
    obtain ⟨text, ho, hm⟩ := ht.sole_operand (by rw [hg]; rfl) takes_long rfl
    cases hb
    exact .importRegion ho hm hs hd hn hi ht.bits_imports
  · cases hb

theorem written_endImport (ht : Tells endImport.grammar items given)
    (hb : endImport.build given = some command) :
    command.Written items "unimport" [] ["force"] := by
  simp only [endImport] at hb
  split at hb
  · rename_i memId hg
    obtain ⟨text, ho, hm⟩ := ht.sole_operand (by rw [hg]; rfl) takes_long rfl
    cases hb
    exact .endImport ho hm ht.bits_unimports
  · cases hb

theorem written_addressOf (ht : Tells addressOf.grammar items given)
    (hb : addressOf.build given = some command) : command.Written items "query-pa" [] [] := by
  simp only [addressOf] at hb
  split at hb
  · rename_i memId hg
    obtain ⟨text, ho, hm⟩ := ht.sole_operand (by rw [hg]; rfl) takes_long rfl
    cases hb
    exact .startOf ho hm
  · rename_i memId offset hg
    have hp := ht.placed
    rw [hg] at hp
    obtain ⟨text, _, ho, hm, hp⟩ := Placed.cons hp takes_long rfl
    obtain ⟨behind, _, rfl, hf, hp⟩ := Placed.cons hp takes_long rfl
    obtain rfl := List.forall₂_nil_right_iff.mp hp
    cases hb
    exact .addressOf ho hm hf
  · cases hb

theorem written_regionAt (ht : Tells regionAt.grammar items given)
    (hb : regionAt.build given = some command) : command.Written items "query-memid" [] [] := by
  simp only [regionAt] at hb
  split at hb
  · rename_i pa hg
    obtain ⟨text, ho, hp⟩ := ht.sole_operand (by rw [hg]; rfl) takes_long rfl
    cases hb
    exact .regionAt ho hp
  · cases hb

theorem written_setOwnership (ht : Tells setOwnership.grammar items given)
    (hb : setOwnership.build given = some command) :
    command.Written items "ownership" [] [] := by
  simp only [setOwnership] at hb
  split at hb
  · rename_i device first last ownership hg
    have hp := ht.placed
    rw [hg] at hp
    obtain ⟨held, _, ho, hd, hp⟩ := Placed.cons hp takes_path rfl
    obtain ⟨low, _, rfl, hf, hp⟩ := Placed.cons hp takes_long rfl
    obtain ⟨high, _, rfl, hl, hp⟩ := Placed.cons hp takes_long rfl
    obtain ⟨wanted, _, rfl, hw, hp⟩ := Placed.cons hp takes_ownership rfl
    obtain rfl := List.forall₂_nil_right_iff.mp hp
    cases hb
    exact .setOwnership ho hd hf hl hw
  · cases hb

theorem written_of_build {rule : CommandRule} {name : String} (hr : named? name = some rule)
    (ht : Tells rule.grammar items given) (hb : rule.build given = some command) :
    command.Written items name (rule.options.map (·.name)) rule.flags := by
  obtain rfl : rule.name = name := by simpa using List.find?_some hr
  have hm := List.mem_of_find?_eq_some hr
  simp only [all, List.mem_cons, List.not_mem_nil, or_false] at hm
  rcases hm with rfl | rfl | rfl | rfl | rfl | rfl | rfl | rfl | rfl
  · cases hb
    exact written_controllers ht
  · exact written_resolve ht hb
  · exact written_exportPages ht hb
  · exact written_endExport ht hb
  · exact written_importRegion ht hb
  · exact written_endImport ht hb
  · exact written_addressOf ht hb
  · exact written_regionAt ht hb
  · exact written_setOwnership ht hb

end CommandRule

-- ---------------------------------------------------------------------
-- Command lines

theorem or_eq_getLast {before after : List Item} {name : String} {earlier later : Option Path}
    (hb : Optionally IsPath (texts before name) earlier)
    (ha : Optionally IsPath (texts after name) later) :
    later.or earlier = (texts (before ++ after) name).getLast?.map Path.ofString := by
  rw [texts_append]
  generalize texts before name = first at hb ⊢
  generalize texts after name = last at ha ⊢
  cases ha with
  | given h => simp [h.2]
  | absent =>
    cases hb with
    | given h => simp [h.2]
    | absent => rfl

theorem PathOptions.written_of_given {grammar outer : Grammar} {before after : List Item}
    {earlier later : Given} {more rest : List OptionRule} (ho : outer.options = rules ++ more)
    (hi : grammar.options = rules ++ rest) (hb : Tells outer before earlier)
    (ha : Tells grammar after later) :
    ((ofGiven later).or (ofGiven earlier)).Written before after := by
  have known {grammar : Grammar} {rest : List OptionRule} (h : grammar.options = rules ++ rest)
      {name : String} (hn : name ∈ pathNames) : grammar.rule? name = some (.once name .path) := by
    rw [Grammar.rule?, h]
    simp only [pathNames, List.mem_cons, List.not_mem_nil, or_false] at hn
    rcases hn with rfl | rfl | rfl <;> rfl
  have path {name : String} (hn : name ∈ pathNames) :=
    or_eq_getLast (hb.value? (known ho hn) rfl takes_path) (ha.value? (known hi hn) rfl takes_path)
  exact ⟨path (by decide), path (by decide), path (by decide)⟩

/-- A command line is read as what it writes. -/
theorem Invocation.written_of_parse {arguments : List String} {invocation : Invocation}
    (h : parse arguments = .ok invocation) : invocation.Written arguments := by
  obtain ⟨earlier, he, h⟩ := bind_eq_ok h
  obtain ⟨before, hb, ht⟩ := (Tells.nothing outerGrammar).read he
  split at h
  · cases h
  · rename_i name rest hr
    simp only at h
    split at h
    · cases h
    · split at h
      · cases h
      · rename_i rule hn
        obtain ⟨later, hl, h⟩ := bind_eq_ok h
        obtain ⟨after, ha, hi⟩ := (Tells.nothing rule.grammar).read hl
        split at h
        · rename_i command hz hc
          cases h
          have hs : { later with rest := [] } = later := by rw [← hz]
          rw [hs] at hi
          rw [hz] at ha
          rw [hr] at hb
          have hp := PathOptions.written_of_given (List.append_nil _).symm rfl ht hi
          have hw := CommandRule.written_of_build hn hi hc
          rw [CommandRule.grammar, List.map_append] at ha
          exact .intro hb (ht.no_operands rfl) ha hp hw
        · cases h

end FabricMemory.CommandLine
