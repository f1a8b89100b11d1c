import Mathlib
import FabricMemory.CommandLine.Grammar
import FabricMemory.Proofs.Argument

/-!
# What arguments say

`Itemized` takes arguments apart by their looks alone: options with their texts, flags and operands.
Main statement (`Tells.read`): what a grammar reads of the arguments is what these items write, each
value by its own text. From there on `Tells.value?`, `Tells.values` and `Tells.placed` say where it
comes from.
-/

namespace FabricMemory.CommandLine

open Numeral (Literal Signed)

variable {α : Type}

-- ---------------------------------------------------------------------
-- Items

inductive Item where
  | option (name text : String)
  | flag (name : String)
  | operand (text : String)
deriving DecidableEq

/-- The text does not look like an option. A lone dash does not. -/
def Plain (text : String) : Prop := ∀ c rest, text.toList ≠ '-' :: c :: rest

/-- The items in the arguments, and the arguments left over. The names are those of the options that
have a text, and those of the flags. -/
inductive Itemized (names flags : List String) : List String → List Item → List String → Prop
  | done : Itemized names flags [] [] []
  | over {text : String} {rest : List String} (hp : Plain text) :
      Itemized names flags (text :: rest) [] (text :: rest)
  /-- Everything behind two dashes is an operand. -/
  | separator {rest : List String} : Itemized names flags ("--" :: rest) (rest.map .operand) []
  | operand {text : String} {rest left : List String} {items : List Item} (hp : Plain text)
      (h : Itemized names flags rest items left) :
      Itemized names flags (text :: rest) (.operand text :: items) left
  | flag {name : String} {rest left : List String} {items : List Item} (hn : name ∈ flags)
      (h : Itemized names flags rest items left) :
      Itemized names flags (("--" ++ name) :: rest) (.flag name :: items) left
  | following {name text : String} {rest left : List String} {items : List Item}
      (hn : name ∈ names) (h : Itemized names flags rest items left) :
      Itemized names flags (("--" ++ name) :: text :: rest) (.option name text :: items) left
  | attached {name text : String} {rest left : List String} {items : List Item}
      (hn : name ∈ names) (h : Itemized names flags rest items left) :
      Itemized names flags (("--" ++ name ++ "=" ++ text) :: rest) (.option name text :: items) left

def texts (items : List Item) (name : String) : List String :=
  items.filterMap fun
    | .option key text => if key = name then some text else none
    | _ => none

def flagNames (items : List Item) : List String :=
  items.filterMap fun
    | .flag name => some name
    | _ => none

def operands (items : List Item) : List String :=
  items.filterMap fun
    | .operand text => some text
    | _ => none

@[simp] theorem texts_append (first last : List Item) (name : String) :
    texts (first ++ last) name = texts first name ++ texts last name := List.filterMap_append

@[simp] theorem flagNames_append (first last : List Item) :
    flagNames (first ++ last) = flagNames first ++ flagNames last := List.filterMap_append

@[simp] theorem operands_append (first last : List Item) :
    operands (first ++ last) = operands first ++ operands last := List.filterMap_append

section

variable (key name text : String)

@[simp] theorem texts_flag : texts [.flag name] key = [] := rfl

@[simp] theorem texts_operand : texts [.operand text] key = [] := rfl

@[simp] theorem texts_option :
    texts [.option name text] key = if name = key then [text] else [] := by
  by_cases h : name = key <;> simp [texts, h]

@[simp] theorem flagNames_flag : flagNames [.flag name] = [name] := rfl

@[simp] theorem flagNames_operand : flagNames [.operand text] = [] := rfl

@[simp] theorem flagNames_option : flagNames [.option name text] = [] := rfl

@[simp] theorem operands_flag : operands [.flag name] = [] := rfl

@[simp] theorem operands_operand : operands [.operand text] = [text] := rfl

@[simp] theorem operands_option : operands [.option name text] = [] := rfl

end

-- ---------------------------------------------------------------------
-- What texts write

def IsEid (text : String) (eid : Eid) : Prop := Eid.parse text = .ok eid

def IsLong (text : String) (value : UInt64) : Prop := Literal text.toList value.toNat

def IsWord (text : String) (value : UInt32) : Prop := Literal text.toList value.toNat

def IsInteger (text : String) (value : Int32) : Prop := Signed text.toList value.toInt

def IsOwnership (text : String) : Ownership → Prop
  | .none => text = "none"
  | .read => text = "read" ∨ text = "ro"
  | .readWrite => text = "rw" ∨ text = "write" ∨ text = "readwrite"

def IsPath (text : String) (path : Path) : Prop := text ≠ "" ∧ path = .ofString text

/-- An option that may be left out, with the value that its text writes. -/
inductive Optionally (writes : String → α → Prop) : List String → Option α → Prop
  | absent : Optionally writes [] none
  | given {text : String} {value : α} (h : writes text value) :
      Optionally writes [text] (some value)

-- ---------------------------------------------------------------------
-- Looks of arguments

theorem plain_of_shape {text : String} (h : Shape.ofText text.toList = .plain) : Plain text := by
  intro c rest ht
  rw [ht] at h
  unfold Shape.ofText at h
  split at h
  · cases h
  · split at h <;> cases h
  · cases h
  · rename_i hd
    exact hd c rest rfl

theorem eq_of_separator {text : String} (h : Shape.ofText text.toList = .separator) :
    text = "--" := by
  rw [← String.toList_inj]
  unfold Shape.ofText at h
  split at h
  · assumption
  · split at h <;> cases h
  · cases h
  · cases h

theorem eq_of_long {text name : String} {attached : Option String}
    (h : Shape.ofText text.toList = .long name attached) :
    text =
      match attached with
      | none => "--" ++ name
      | some value => "--" ++ name ++ "=" ++ value := by
  rw [← String.toList_inj]
  unfold Shape.ofText at h
  split at h
  · cases h
  · rename_i body _ ht
    have hb := List.takeWhile_append_dropWhile (p := (· ≠ '=')) (l := body)
    have hd := List.head?_dropWhile_not (· ≠ '=') body
    rw [List.span_eq_takeWhile_dropWhile] at h
    generalize body.takeWhile (· ≠ '=') = front at h hb
    generalize body.dropWhile (· ≠ '=') = back at h hb hd
    cases back with
    | nil =>
      cases h
      simp [ht, ← hb]
    | cons c value =>
      cases h
      simp at hd
      simp [ht, ← hb, hd]
  · cases h
  · cases h

-- ---------------------------------------------------------------------
-- What was given

theorem eq_ok_of_toOption {ε : Type} {result : Except ε α} {value : α}
    (h : result.toOption = some value) : result = .ok value := by
  cases result with
  | ok => exact congrArg Except.ok (Option.some.inj h)
  | error => cases h

namespace Value

inductive Written : Kind → String → Value → Prop
  | path {text : String} {path : Path} (h : IsPath text path) : Written .path text (.path path)
  | eid {text : String} {eid : Eid} (h : IsEid text eid) : Written .eid text (.eid eid)
  | long {text : String} {value : UInt64} (h : IsLong text value) : Written .long text (.long value)
  | word {text : String} {value : UInt32} (h : IsWord text value) : Written .word text (.word value)
  | integer {text : String} {value : Int32} (h : IsInteger text value) :
      Written .integer text (.integer value)
  | ownership {text : String} {ownership : Ownership} (h : IsOwnership text ownership) :
      Written .ownership text (.ownership ownership)

theorem written_of_parse {kind : Kind} {text : String} {value : Value}
    (h : kind.parse text = some value) : Written kind text value := by
  cases kind with
  | path =>
    rw [Kind.parse] at h
    split at h
    · cases h
    · rename_i hn
      cases h
      exact .path ⟨hn, rfl⟩
  | eid =>
    obtain ⟨eid, he, rfl⟩ := Option.map_eq_some_iff.mp h
    exact .eid (eq_ok_of_toOption he)
  | long =>
    obtain ⟨n, -, rfl⟩ := Option.map_eq_some_iff.mp h
    have hr : Kind.long.Reads text (UInt64.ofNat n).toNat := by
      rw [Kind.Reads, h]
      rfl
    exact .long (reads_long_iff.mp hr).1
  | word =>
    obtain ⟨n, -, rfl⟩ := Option.map_eq_some_iff.mp h
    have hr : Kind.word.Reads text (UInt32.ofNat n).toNat := by
      rw [Kind.Reads, h]
      rfl
    exact .word (reads_word_iff.mp hr).1
  | integer =>
    obtain ⟨n, hn, rfl⟩ := Option.map_eq_some_iff.mp h
    obtain ⟨hs, hl, hu⟩ := Numeral.signed_eq_ok (wordBound_pos 31) (eq_ok_of_toOption hn)
    refine .integer ?_
    rwa [IsInteger, Int32.toInt_ofInt_of_le hl hu]
  | ownership =>
    obtain ⟨ownership, ho, rfl⟩ := Option.map_eq_some_iff.mp h
    have ho := eq_ok_of_toOption ho
    refine .ownership ?_
    unfold Ownership.parse at ho
    split at ho
    · cases ho
      assumption
    · split at ho
      · cases ho
        assumption
      · split at ho
        · cases ho
          assumption
        · cases ho

end Value

def Takes (kind : Kind) (take : Value → Option α) (writes : String → α → Prop) : Prop :=
  ∀ text value, Value.Written kind text value → ∃ taken, take value = some taken ∧ writes text taken

theorem takes_path : Takes .path Value.path? IsPath := fun _ _ (.path h) => ⟨_, rfl, h⟩

theorem takes_eid : Takes .eid Value.eid? IsEid := fun _ _ (.eid h) => ⟨_, rfl, h⟩

theorem takes_long : Takes .long Value.long? IsLong := fun _ _ (.long h) => ⟨_, rfl, h⟩

theorem takes_word : Takes .word Value.word? IsWord := fun _ _ (.word h) => ⟨_, rfl, h⟩

theorem takes_integer : Takes .integer Value.integer? IsInteger :=
  fun _ _ (.integer h) => ⟨_, rfl, h⟩

/-- The operand that only one command takes. -/
def Value.ownership? : Value → Option Ownership
  | .ownership value => some value
  | _ => none

theorem takes_ownership : Takes .ownership Value.ownership? IsOwnership :=
  fun _ _ (.ownership h) => ⟨_, rfl, h⟩

namespace Given

variable {take : Value → Option α} {name : String}

theorem values_eq (given : Given) (take : Value → Option α) (name : String) :
    given.values take name = (given.values some name).filterMap take := by
  unfold values
  rw [List.filterMap_filterMap]
  congr 1
  funext ⟨key, value⟩
  by_cases hk : key = name <;> simp [hk]

theorem lookup_eq (given : Given) (name : String) :
    given.options.lookup name = (given.values some name).head? := by
  unfold values
  induction given.options with
  | nil => rfl
  | cons pair options ih =>
    obtain ⟨key, value⟩ := pair
    by_cases hk : key = name
    · simp [hk]
    · have hn : (name == key) = false := beq_eq_false_iff_ne.mpr (Ne.symm hk)
      rw [List.lookup_cons, hn, ih]
      simp [hk]

end Given

theorem zip_concat {kinds : List Kind} {values : List Value} {kind : Kind}
    (h : kinds[values.length]? = some kind) (value : Value) :
    kinds.zip (values ++ [value]) = kinds.zip values ++ [(kind, value)] := by
  induction values generalizing kinds with
  | nil =>
    cases kinds with
    | nil => cases h
    | cons first kinds =>
      obtain rfl : first = kind := Option.some.inj h
      simp
  | cons first values ih =>
    cases kinds with
    | nil => cases h
    | cons other kinds => simpa using ih (by simpa using h)

abbrev Placed (found : List String) (slots : List (Kind × Value)) : Prop :=
  List.Forall₂ (fun text slot => Value.Written slot.1 text slot.2) found slots

theorem Placed.cons {found : List String} {kind : Kind} {value : Value}
    {slots : List (Kind × Value)} {take : Value → Option α} {writes : String → α → Prop} {taken : α}
    (h : Placed found ((kind, value) :: slots)) (hk : Takes kind take writes)
    (hv : take value = some taken) :
    ∃ text rest, found = text :: rest ∧ writes text taken ∧ Placed rest slots := by
  obtain ⟨text, rest, hw, hn, rfl⟩ := List.forall₂_cons_right_iff.mp h
  obtain ⟨other, ho, hw⟩ := hk _ _ hw
  obtain rfl := Option.some.inj (ho.symm.trans hv)
  exact ⟨text, rest, rfl, hw, hn⟩

/-- What was given is what the items write, by the rules of the grammar. -/
structure Tells (grammar : Grammar) (items : List Item) (given : Given) : Prop where
  named {name : String} {rule : OptionRule} (hr : grammar.rule? name = some rule) :
    List.Forall₂ (Value.Written rule.kind) (texts items name) (given.values some name)
  once {name : String} {rule : OptionRule} (hr : grammar.rule? name = some rule)
    (ho : rule.repeats = false) : (texts items name).length ≤ 1
  flagged : given.flags = flagNames items
  placed : Placed (operands items) (grammar.operands.zip given.operands)
  rest : given.rest = []

theorem name_of_rule? {grammar : Grammar} {name : String} {rule : OptionRule}
    (hr : grammar.rule? name = some rule) : rule.name = name := by
  simpa using List.find?_some hr

theorem mem_of_rule? {grammar : Grammar} {name : String} {rule : OptionRule}
    (hr : grammar.rule? name = some rule) : name ∈ grammar.options.map (·.name) :=
  List.mem_map.mpr ⟨rule, List.mem_of_find?_eq_some hr, name_of_rule? hr⟩

namespace Tells

variable {grammar : Grammar} {given final : Given} {items : List Item} {name text : String}
  {rule : OptionRule} {kind : Kind}

theorem nothing (grammar : Grammar) : Tells grammar [] {} := by
  refine ⟨fun _ => .nil, fun _ _ => Nat.zero_le 1, rfl, ?_, rfl⟩
  rw [List.zip_nil_right]
  exact .nil

theorem addFlag (ht : Tells grammar items given) (h : given.addFlag name = .ok final) :
    Tells grammar (items ++ [.flag name]) final := by
  unfold Given.addFlag at h
  split at h
  · cases h
  · cases h
    constructor
    · intro key rule hr
      simpa [Given.values] using ht.named hr
    · intro key rule hr ho
      simpa using ht.once hr ho
    · simp [ht.flagged]
    · simpa using ht.placed
    · exact ht.rest

theorem addOperand (ht : Tells grammar items given) (hk : grammar.nextOperand? given = some kind)
    (h : given.addOperand kind text = .ok final) :
    Tells grammar (items ++ [.operand text]) final := by
  unfold Given.addOperand at h
  split at h
  · cases h
  · rename_i value hv
    cases h
    constructor
    · intro key rule hr
      simpa [Given.values] using ht.named hr
    · intro key rule hr ho
      simpa using ht.once hr ho
    · simpa using ht.flagged
    · have hw : Value.Written (kind, value).1 text (kind, value).2 := Value.written_of_parse hv
      rw [zip_concat hk, operands_append, operands_operand]
      exact List.rel_append ht.placed (.cons hw .nil)
    · exact ht.rest

theorem texts_eq_nil (ht : Tells grammar items given) (hr : grammar.rule? name = some rule)
    (hl : given.options.lookup name = none) : texts items name = [] := by
  rw [given.lookup_eq, List.head?_eq_none_iff] at hl
  have hv := ht.named hr
  rw [hl] at hv
  exact List.forall₂_nil_right_iff.mp hv

theorem addOption (ht : Tells grammar items given) (hr : grammar.rule? name = some rule)
    (h : given.addOption rule text = .ok final) :
    Tells grammar (items ++ [.option name text]) final := by
  obtain rfl := name_of_rule? hr
  unfold Given.addOption at h
  split at h
  · cases h
  · rename_i value hv
    split at h
    · cases h
    · rename_i hl
      cases h
      constructor
      · intro key other ho
        by_cases hk : rule.name = key
        · subst hk
          obtain rfl := Option.some.inj (hr.symm.trans ho)
          have hw := Value.written_of_parse hv
          simpa [Given.values] using List.rel_append (ht.named ho) (List.Forall₂.cons hw .nil)
        · simpa [Given.values, hk] using ht.named ho
      · intro key other ho hs
        by_cases hk : rule.name = key
        · subst hk
          obtain rfl := Option.some.inj (hr.symm.trans ho)
          have hn := ht.texts_eq_nil hr (by
            simpa only [hs, Bool.not_false, Bool.true_and, Option.not_isSome_iff_eq_none] using hl)
          simp [hn]
        · simpa [hk] using ht.once ho hs
      · simpa using ht.flagged
      · simpa using ht.placed
      · exact ht.rest

-- ---------------------------------------------------------------------
-- What values were given

variable {take : Value → Option α} {writes : String → α → Prop}

theorem values_of_written {found : List String} {values : List Value}
    (ht : Takes kind take writes) (h : List.Forall₂ (Value.Written kind) found values) :
    List.Forall₂ writes found (values.filterMap take) := by
  induction h with
  | nil => exact .nil
  | cons h _ ih =>
    obtain ⟨taken, hv, hw⟩ := ht _ _ h
    rw [List.filterMap_cons_some hv]
    exact .cons hw ih

theorem values (ht : Tells grammar items given) (hr : grammar.rule? name = some rule)
    (hk : Takes rule.kind take writes) :
    List.Forall₂ writes (texts items name) (given.values take name) := by
  rw [given.values_eq]
  exact values_of_written hk (ht.named hr)

theorem value? (ht : Tells grammar items given) (hr : grammar.rule? name = some rule)
    (ho : rule.repeats = false) (hk : Takes rule.kind take writes) :
    Optionally writes (texts items name) (given.value? take name) := by
  have hs := ht.once hr ho
  have hv := ht.named hr
  rw [Given.value?, given.lookup_eq]
  generalize texts items name = found at hs hv ⊢
  generalize given.values some name = values at hv ⊢
  cases hv with
  | nil => exact .absent
  | cons h hn =>
    obtain ⟨taken, hv, hw⟩ := hk _ _ h
    cases hn with
    | nil =>
      rw [List.head?_cons, Option.bind_some, hv]
      exact .given hw
    | cons => simp at hs

-- ---------------------------------------------------------------------
-- Reading

theorem readOperands {arguments : List String} (ht : Tells grammar items given)
    (h : grammar.readOperands given arguments = .ok final) :
    Tells grammar (items ++ arguments.map .operand) final := by
  fun_induction Grammar.readOperands grammar given arguments generalizing items with
  | case1 given =>
    cases h
    rwa [List.map_nil, List.append_nil]
  | case2 | case3 => cases h
  | case4 given text rest kind hk next ha ih =>
    rw [List.map_cons, List.append_cons]
    exact ih (ht.addOperand hk ha) h

/-- What is read is what the items in the arguments write. -/
theorem read {arguments : List String} (ht : Tells grammar items given)
    (h : grammar.read given arguments = .ok final) :
    ∃ more, Itemized (grammar.options.map (·.name)) grammar.flags arguments more final.rest ∧
      Tells grammar (items ++ more) { final with rest := [] } := by
  have cleared {next : Given} {items : List Item} (hn : Tells grammar items next) :
      { next with rest := [] } = next := by
    rw [← hn.rest]
  fun_induction Grammar.read grammar given arguments generalizing items with
  | case1 given =>
    cases h
    rw [ht.rest, cleared ht]
    exact ⟨[], .done, by rwa [List.append_nil]⟩
  | case2 given text rest hs =>
    obtain rfl := eq_of_separator hs
    have hn := ht.readOperands h
    rw [hn.rest, cleared hn]
    exact ⟨_, .separator, hn⟩
  | case4 given text rest hs =>
    cases h
    refine ⟨[], .over (plain_of_shape hs), ?_⟩
    rw [List.append_nil]
    exact (cleared ht).symm ▸ ht
  | case6 given text rest hs kind hk next ha ih =>
    obtain ⟨more, hi, hn⟩ := ih (ht.addOperand hk ha) h
    rw [← List.append_cons] at hn
    exact ⟨_, .operand (plain_of_shape hs) hi, hn⟩
  | case8 given text rest name attached hs hr next hl ih =>
    unfold Grammar.longFlag at hl
    split at hl
    · cases hl
    · rename_i ha
      obtain rfl := Option.not_isSome_iff_eq_none.mp ha
      split at hl
      · rename_i hf
        obtain ⟨more, hi, hn⟩ := ih (ht.addFlag hl) h
        rw [← List.append_cons] at hn
        obtain rfl : text = "--" ++ name := eq_of_long hs
        exact ⟨_, .flag (List.contains_iff_mem.mp hf) hi, hn⟩
      · split at hl
        · cases hl
        · split at hl <;> cases hl
  | case10 given text rest name rule hr value next ha hs ih =>
    obtain ⟨more, hi, hn⟩ := ih (ht.addOption hr ha) h
    rw [← List.append_cons] at hn
    obtain rfl : text = "--" ++ name ++ "=" ++ value := eq_of_long hs
    exact ⟨_, .attached (mem_of_rule? hr) hi, hn⟩
  | case13 given text name rule hr value rest next ha hs ih =>
    unfold Given.addFollowing at ha
    split at ha
    · obtain ⟨more, hi, hn⟩ := ih (ht.addOption hr ha) h
      rw [← List.append_cons] at hn
      obtain rfl : text = "--" ++ name := eq_of_long hs
      exact ⟨_, .following (mem_of_rule? hr) hi, hn⟩
    · cases ha
  | case3 | case5 | case7 | case9 | case11 | case12 => cases h

end Tells

end FabricMemory.CommandLine
