import FabricMemory.Controller.Resolver

/-!
# Who owns an endpoint

`Owns` says it without a search: the owner is the controller with the least index whose identifier
is the endpoint, provided that the identifiers below it can be read. `find_eq_ok_iff`: the search
finds the owner, and finds nothing else. What the resolver tells of the owner is what its attributes
say (`attachment_eq_ok_iff`, `primaryCna_eq_ok_iff`).
-/

namespace FabricMemory.ControllerTree

def value? (tree : ControllerTree) (path : Path) (name : String) : Option Int32 :=
  (Attribute.read tree.files (path.child name)).value.toOption

def eid? (tree : ControllerTree) (path : Path) : Option Eid :=
  (tree.value? path eidAttribute).map eidOfAttribute

/-- No controller in the range has the endpoint, and each that is there tells its own. -/
def Disowned (tree : ControllerTree) (eid : Eid) (first last : Nat) : Prop :=
  ∀ index, first ≤ index → index < last → ∀ path, (tree.locate index).value = .ok path →
    ∃ other, tree.eid? path = some other ∧ other ≠ eid

structure Owns (tree : ControllerTree) (eid : Eid) (controller : Controller) : Prop where
  index : controller.index < maxControllers
  located : (tree.locate controller.index).value = .ok controller.path
  own : tree.eid? controller.path = some eid
  below : tree.Disowned eid 0 controller.index

variable {tree : ControllerTree} {eid : Eid}

-- ---------------------------------------------------------------------
-- Places and attributes

theorem value_locate (tree : ControllerTree) (index : Nat) :
    (tree.locate index).value =
      if (Utf8.decode? tree.root.bytes).isNone then
        .error (.invalidArgument (.rootNotUtf8 tree.root))
      else
        match tree.attributeDirectory? index with
        | none => .error (.noSuchDevice (.noMarker index))
        | some path =>
          if maxControllerPath ≤ path.bytes.length then
            .error (.invalidArgument (.longControllerPath path))
          else .ok path := by
  unfold locate
  split
  · rfl
  · cases tree.attributeDirectory? index with
    | none => rfl
    | some path =>
      simp only
      split <;> rfl

theorem value_require {α : Type} (path : Path) (name : String) (accept : Int32 → Option α) :
    (tree.require path name accept).value =
      match (tree.value? path name).bind accept with
      | some value => .ok value
      | none => .error (.noSuchDevice (.unreadable name path)) := by
  simp only [require, value?, Logged.value_bind]
  cases (Attribute.read tree.files (path.child name)).value.toOption.bind accept <;> rfl

theorem require_eq_ok_iff {α : Type} {path : Path} {name : String} {accept : Int32 → Option α}
    {value : α} : (tree.require path name accept).value = .ok value ↔
      (tree.value? path name).bind accept = some value := by
  rw [value_require]
  cases (tree.value? path name).bind accept with
  | none => simp
  | some found => simp

theorem nonNegative?_eq_some_iff {raw : Int32} {value : UInt32} :
    nonNegative? raw = some value ↔ (value.toNat : Int) = raw.toInt := by
  unfold nonNegative?
  split
  · rename_i h
    have hn : 0 ≤ raw.toInt := Int32.le_iff_toInt_le.mp h
    have hu : (raw.toUInt32.toNat : Int) = raw.toInt := by
      rw [Int32.toNat_toUInt32_of_le h]
      exact Int.toNat_of_nonneg hn
    rw [Option.some.injEq, ← UInt32.toNat_inj]
    omega
  · rename_i h
    have hn : ¬ 0 ≤ raw.toInt := fun hn => h (Int32.le_iff_toInt_le.mpr hn)
    simp only [reduceCtorEq, false_iff]
    omega

theorem eidOfAttribute_eq_ofNat_iff {raw : Int32} {n : Nat} (h : n < wordBound 32) :
    eidOfAttribute raw = Eid.ofNat n ↔ raw.toUInt32.toNat = n := by
  have hw : wordBound 32 ≤ wordBound 128 := by decide
  have hr : raw.toUInt32.toNat < wordBound 32 := raw.toUInt32.toNat_lt
  constructor
  · intro he
    have ht := congrArg Eid.toNat he
    rwa [eidOfAttribute, Eid.toNat_ofNat, Eid.toNat_ofNat, Nat.mod_eq_of_lt (by omega),
      Nat.mod_eq_of_lt (by omega)] at ht
  · rintro rfl
    rfl

-- ---------------------------------------------------------------------
-- The search

theorem value_search_cons (index : Nat) (rest : List Nat) :
    (tree.search eid (index :: rest)).value =
      match (tree.locate index).value with
      | .error _ => (tree.search eid rest).value
      | .ok path =>
        match tree.eid? path with
        | none => .error (.noSuchDevice (.unreadable eidAttribute path))
        | some own => if own = eid then .ok ⟨index, path⟩ else (tree.search eid rest).value := by
  rw [search, Logged.value_bind]
  cases (tree.locate index).value with
  | error e => rfl
  | ok path =>
    simp only [Logged.value_bind, value_require, eid?, Option.map_eq_bind]
    cases (tree.value? path eidAttribute).bind (some ∘ eidOfAttribute) with
    | none => rfl
    | some own =>
      by_cases ho : own = eid
      · simp [ho]
      · simp [ho]

theorem Disowned.mono {first second last : Nat} (h : tree.Disowned eid first last)
    (hs : first ≤ second) : tree.Disowned eid second last :=
  fun index hi => h index (Nat.le_trans hs hi)

theorem Disowned.cons {first last : Nat} (h : tree.Disowned eid (first + 1) last)
    (hf : ∀ path, (tree.locate first).value = .ok path →
      ∃ other, tree.eid? path = some other ∧ other ≠ eid) : tree.Disowned eid first last := by
  intro index hi hl
  obtain rfl | hi := Nat.eq_or_lt_of_le hi
  · exact hf
  · exact h index hi hl

structure OwnsIn (tree : ControllerTree) (eid : Eid) (first count : Nat) (controller : Controller) :
    Prop where
  first_le : first ≤ controller.index
  lt : controller.index < first + count
  located : (tree.locate controller.index).value = .ok controller.path
  own : tree.eid? controller.path = some eid
  below : tree.Disowned eid first controller.index

namespace OwnsIn

variable {first count : Nat} {controller : Controller} {path : Path}

theorem first_or (h : tree.OwnsIn eid first count controller)
    (hl : (tree.locate first).value = .ok path) :
    controller = ⟨first, path⟩ ∨ ∃ other, tree.eid? path = some other ∧ other ≠ eid := by
  obtain ⟨index, own⟩ := controller
  obtain rfl | hlt := Nat.eq_or_lt_of_le h.first_le
  · obtain rfl := Except.ok.inj (hl.symm.trans h.located)
    exact .inl rfl
  · exact .inr (h.below first (Nat.le_refl _) hlt path hl)

theorem succ_iff (hf : ∀ path, (tree.locate first).value = .ok path →
      ∃ other, tree.eid? path = some other ∧ other ≠ eid) :
    tree.OwnsIn eid (first + 1) count controller ↔
      tree.OwnsIn eid first (count + 1) controller := by
  constructor
  · rintro ⟨hi, hj, hc, ho, hd⟩
    exact ⟨by omega, by omega, hc, ho, hd.cons hf⟩
  · rintro ⟨hi, hj, hc, ho, hd⟩
    have hn : first ≠ controller.index := by
      rintro rfl
      obtain ⟨other, hp, hne⟩ := hf _ hc
      exact hne (Option.some.inj (hp.symm.trans ho))
    exact ⟨by omega, by omega, hc, ho, hd.mono (Nat.le_succ _)⟩

theorem eq_iff (hl : (tree.locate first).value = .ok path) (hp : tree.eid? path = some eid) :
    tree.OwnsIn eid first (count + 1) controller ↔ (⟨first, path⟩ : Controller) = controller := by
  constructor
  · intro h
    obtain rfl | ⟨other, hs, hne⟩ := h.first_or hl
    · rfl
    · exact absurd (Option.some.inj (hs.symm.trans hp)) hne
  · rintro rfl
    exact ⟨Nat.le_refl _, by simp, hl, hp, fun index hi hj => absurd hj (Nat.not_lt.mpr hi)⟩

theorem not_of_unreadable (hl : (tree.locate first).value = .ok path) (hp : tree.eid? path = none) :
    ¬ tree.OwnsIn eid first count controller := by
  intro h
  obtain rfl | ⟨other, hs, -⟩ := h.first_or hl
  · exact absurd (hp.symm.trans h.own) (by simp)
  · exact absurd (hp.symm.trans hs) (by simp)

end OwnsIn

theorem search_range'_eq_ok_iff {first count : Nat} {controller : Controller} :
    (tree.search eid (List.range' first count)).value = .ok controller ↔
      tree.OwnsIn eid first count controller := by
  -- the start moves on, so what was passed over has to be part of the statement
  induction count generalizing first with
  | zero =>
    simp only [List.range'_zero, search, Logged.value_bind, Logged.value_pure, reduceCtorEq,
      false_iff]
    intro h
    exact absurd h.lt (Nat.not_lt.mpr h.first_le)
  | succ count ih =>
    rw [List.range'_succ, value_search_cons]
    cases hl : (tree.locate first).value with
    | error e => exact ih.trans (OwnsIn.succ_iff fun path hp => by rw [hl] at hp; cases hp)
    | ok path =>
      cases hp : tree.eid? path with
      | none => simp [hp, OwnsIn.not_of_unreadable hl hp]
      | some own =>
        by_cases ho : own = eid
        · subst ho
          simp only [hp, if_true, Except.ok.injEq]
          exact (OwnsIn.eq_iff hl hp).symm
        · simp only [hp, if_neg ho]
          refine ih.trans (OwnsIn.succ_iff fun path' hp' => ⟨own, ?_, ho⟩)
          rw [hl] at hp'
          rw [← Except.ok.inj hp', hp]

theorem find_eq_ok_iff {controller : Controller} :
    (tree.find eid).value = .ok controller ↔ tree.Owns eid controller := by
  rw [find, List.range_eq_range', search_range'_eq_ok_iff]
  constructor
  · rintro ⟨-, hi, hc, ho, hd⟩
    exact ⟨by omega, hc, ho, hd⟩
  · rintro ⟨hi, hc, ho, hd⟩
    exact ⟨Nat.zero_le _, by omega, hc, ho, hd⟩

-- ---------------------------------------------------------------------
-- What is told of the owner

theorem attachment_eq_ok_iff {attachment : Attachment} :
    (tree.attachment eid).value = .ok attachment ↔
      ∃ controller, tree.Owns eid controller ∧
        (tree.value? controller.path ummuAttribute).bind nonNegative? = some attachment.ummuMap ∧
        (tree.value? controller.path numaAttribute).bind (Option.guard (0 ≤ ·)) =
          some attachment.numa := by
  obtain ⟨ummuMap, numa⟩ := attachment
  simp only [← find_eq_ok_iff, ← require_eq_ok_iff, attachment, Logged.value_bind]
  cases (tree.find eid).value with
  | error e => simp
  | ok controller =>
    simp only [Logged.value_bind, Except.ok.injEq, exists_eq_left']
    cases (tree.require controller.path ummuAttribute nonNegative?).value with
    | error e => simp
    | ok ummuMap' =>
      simp only [Logged.value_bind]
      cases (tree.require controller.path numaAttribute (Option.guard (0 ≤ ·))).value with
      | error e => simp
      | ok numa' => simp

theorem primaryCna_eq_ok_iff {cna : UInt32} :
    (tree.primaryCna eid).value = .ok cna ↔
      ∃ controller, tree.Owns eid controller ∧
        (tree.value? controller.path cnaAttribute).bind nonNegative? = some cna := by
  simp only [← find_eq_ok_iff, primaryCna, Logged.value_bind]
  cases (tree.find eid).value with
  | error e => simp
  | ok controller => simp [require_eq_ok_iff]

end FabricMemory.ControllerTree
