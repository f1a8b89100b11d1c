import FabricMemory.Controller.Listing
import FabricMemory.Proofs.Resolver

/-!
# The listing and the resolver

The listing goes on where the search gives up, and keeps values that the resolver turns down. Main
statement (`resolver_agrees`): still, what the resolver tells of an endpoint is what the listing
shows of its owner, and it fails for nothing but the want of a device.
-/

namespace FabricMemory

/-- It fails for nothing but the want of a device. -/
def OnlyAbsent {α : Type} (result : Except Error α) : Prop :=
  ∀ e, result = .error e → ∃ why, e = .noSuchDevice why

namespace OnlyAbsent

variable {α : Type}

theorem ok (a : α) : OnlyAbsent (.ok a) := by
  intro e h
  cases h

theorem absent (why : Absence) : OnlyAbsent (.error (.noSuchDevice why) : Except Error α) := by
  intro e h
  exact ⟨why, (Except.error.inj h).symm⟩

theorem of_error {β : Type} {e : Error} (h : OnlyAbsent (.error e : Except Error α)) :
    OnlyAbsent (.error e : Except Error β) := by
  obtain ⟨why, rfl⟩ := h e rfl
  exact absent why

end OnlyAbsent

namespace ControllerTree

variable {tree : ControllerTree} {eid : Eid}

-- ---------------------------------------------------------------------
-- How the resolver fails

theorem require_onlyAbsent {α : Type} (path : Path) (name : String) (accept : Int32 → Option α) :
    OnlyAbsent (tree.require path name accept).value := by
  rw [value_require]
  split
  · exact .ok _
  · exact .absent _

theorem search_onlyAbsent (eid : Eid) (indices : List Nat) :
    OnlyAbsent (tree.search eid indices).value := by
  induction indices with
  | nil => exact .absent _
  | cons index rest ih =>
    rw [value_search_cons]
    cases (tree.locate index).value with
    | error e => exact ih
    | ok path =>
      cases hp : tree.eid? path with
      | none => simpa [hp] using OnlyAbsent.absent _
      | some own =>
        by_cases ho : own = eid
        · simpa [hp, ho] using OnlyAbsent.ok _
        · simpa [hp, ho] using ih

theorem find_onlyAbsent (eid : Eid) : OnlyAbsent (tree.find eid).value :=
  search_onlyAbsent eid _

theorem primaryCna_onlyAbsent (eid : Eid) : OnlyAbsent (tree.primaryCna eid).value := by
  have hf := tree.find_onlyAbsent eid
  rw [primaryCna, Logged.value_bind]
  generalize (tree.find eid).value = found at hf ⊢
  cases found with
  | error e => exact hf.of_error
  | ok controller => exact tree.require_onlyAbsent controller.path cnaAttribute nonNegative?

theorem attachment_onlyAbsent (eid : Eid) : OnlyAbsent (tree.attachment eid).value := by
  have hf := tree.find_onlyAbsent eid
  rw [attachment, Logged.value_bind]
  generalize (tree.find eid).value = found at hf ⊢
  cases found with
  | error e => exact hf.of_error
  | ok controller =>
    have hu := tree.require_onlyAbsent controller.path ummuAttribute nonNegative?
    simp only [Logged.value_bind]
    generalize (tree.require controller.path ummuAttribute nonNegative?).value = read at hu ⊢
    cases read with
    | error e => exact hu.of_error
    | ok ummuMap =>
      have hn := tree.require_onlyAbsent controller.path numaAttribute (Option.guard (0 ≤ ·))
      simp only [Logged.value_bind]
      generalize (tree.require controller.path numaAttribute (Option.guard (0 ≤ ·))).value = read
        at hn ⊢
      cases read with
      | error e => exact hn.of_error
      | ok numa => exact .ok _

-- ---------------------------------------------------------------------
-- What is listed

def infoAt (tree : ControllerTree) (index : Nat) (path : Path) : ControllerInfo :=
  ⟨index, path, tree.eid? path, tree.value? path ummuAttribute, tree.value? path numaAttribute,
    (tree.value? path cnaAttribute).bind nonNegative?⟩

def info? (tree : ControllerTree) (index : Nat) : Option ControllerInfo :=
  (tree.locate index).value.toOption.map (tree.infoAt index)

theorem value_attribute? (index : Nat) (path : Path) (name : String) :
    (tree.attribute? index path name).value = tree.value? path name := by
  rw [attribute?, value?, Logged.value_bind]
  cases (Attribute.read tree.files (path.child name)).value <;> rfl

theorem value_describe (index : Nat) : (tree.describe index).value = tree.info? index := by
  rw [describe, info?, Logged.value_bind]
  cases (tree.locate index).value with
  | error e => rfl
  | ok path => simp only [Logged.value_bind, value_attribute?]; rfl

theorem value_describeAll (indices : List Nat) :
    (tree.describeAll indices).value = indices.filterMap tree.info? := by
  induction indices with
  | nil => rfl
  | cons index rest ih =>
    simp only [describeAll, Logged.value_bind, Logged.value_pure, value_describe, ih]
    cases h : tree.info? index with
    | none => simp [h]
    | some info => simp [h]

theorem info?_eq_some_iff {index : Nat} {info : ControllerInfo} :
    tree.info? index = some info ↔
      ∃ path, (tree.locate index).value = .ok path ∧ tree.infoAt index path = info := by
  rw [info?, Option.map_eq_some_iff]
  cases (tree.locate index).value with
  | error e => simp [Except.toOption]
  | ok path => simp [Except.toOption]

theorem mem_controllers {info : ControllerInfo} :
    info ∈ tree.controllers.value ↔
      info.index < maxControllers ∧ (tree.locate info.index).value = .ok info.path ∧
        tree.infoAt info.index info.path = info := by
  simp only [controllers, value_describeAll, List.mem_filterMap, List.mem_range,
    info?_eq_some_iff]
  constructor
  · rintro ⟨index, hi, path, hl, rfl⟩
    exact ⟨hi, hl, rfl⟩
  · rintro ⟨hi, hl, he⟩
    exact ⟨info.index, hi, info.path, hl, he⟩

theorem infoAt_mem_controllers {index : Nat} {path : Path} :
    tree.infoAt index path ∈ tree.controllers.value ↔
      index < maxControllers ∧ (tree.locate index).value = .ok path := by
  simp [mem_controllers, infoAt]

theorem indices_describeAll (indices : List Nat) :
    ((tree.describeAll indices).value.map (·.index)).Sublist indices := by
  rw [value_describeAll]
  induction indices with
  | nil => exact .slnil
  | cons index rest ih =>
    cases h : tree.info? index with
    | none =>
      rw [List.filterMap_cons_none h]
      exact ih.cons index
    | some info =>
      obtain ⟨path, -, rfl⟩ := info?_eq_some_iff.mp h
      rw [List.filterMap_cons_some h, List.map_cons]
      exact ih.cons_cons index

theorem pairwise_controllers : (tree.controllers.value.map (·.index)).Pairwise (· < ·) :=
  List.Pairwise.sublist (indices_describeAll _) List.pairwise_lt_range

-- ---------------------------------------------------------------------
-- The owner, as listed

/-- The entry of the owner: those with a smaller index tell an endpoint, and a different one. -/
structure ListedOwner (listed : List ControllerInfo) (eid : Eid) (info : ControllerInfo) :
    Prop where
  mem : info ∈ listed
  own : info.eid? = some eid
  below : ∀ other ∈ listed, other.index < info.index → ∃ own, other.eid? = some own ∧ own ≠ eid

theorem listedOwner_infoAt_iff {controller : Controller} :
    ListedOwner tree.controllers.value eid (tree.infoAt controller.index controller.path) ↔
      tree.Owns eid controller := by
  constructor
  · rintro ⟨hm, ho, hb⟩
    obtain ⟨hi, hl⟩ := infoAt_mem_controllers.mp hm
    refine ⟨hi, hl, ho, fun index _ hlt path hp => ?_⟩
    exact hb (tree.infoAt index path) (infoAt_mem_controllers.mpr ⟨Nat.lt_trans hlt hi, hp⟩) hlt
  · rintro ⟨hi, hl, ho, hd⟩
    refine ⟨infoAt_mem_controllers.mpr ⟨hi, hl⟩, ho, fun other hm hlt => ?_⟩
    obtain ⟨-, hp, he⟩ := mem_controllers.mp hm
    rw [← he]
    exact hd other.index (Nat.zero_le _) hlt other.path hp

theorem ListedOwner.owns {info : ControllerInfo}
    (h : ListedOwner tree.controllers.value eid info) :
    tree.Owns eid ⟨info.index, info.path⟩ ∧ tree.infoAt info.index info.path = info := by
  obtain ⟨-, -, he⟩ := mem_controllers.mp h.mem
  exact ⟨listedOwner_infoAt_iff.mp (he ▸ h), he⟩

theorem ListedOwner.unique {info other : ControllerInfo}
    (h : ListedOwner tree.controllers.value eid info)
    (ho : ListedOwner tree.controllers.value eid other) : info = other := by
  obtain ⟨hw, he⟩ := h.owns
  obtain ⟨hv, hf⟩ := ho.owns
  have hc := (find_eq_ok_iff.mpr hw).symm.trans (find_eq_ok_iff.mpr hv)
  obtain ⟨hi, hp⟩ := Controller.mk.inj (Except.ok.inj hc)
  rw [← he, ← hf, hi, hp]

theorem exists_owns_iff {property : ControllerInfo → Prop} :
    (∃ controller, tree.Owns eid controller ∧
        property (tree.infoAt controller.index controller.path)) ↔
      ∃ info, ListedOwner tree.controllers.value eid info ∧ property info := by
  constructor
  · rintro ⟨controller, h, hp⟩
    exact ⟨_, listedOwner_infoAt_iff.mpr h, hp⟩
  · rintro ⟨info, h, hp⟩
    obtain ⟨hw, he⟩ := h.owns
    exact ⟨_, hw, he.symm ▸ hp⟩

theorem find_eq_ok_iff_listed {controller : Controller} :
    (tree.find eid).value = .ok controller ↔
      ∃ info, ListedOwner tree.controllers.value eid info ∧
        info.index = controller.index ∧ info.path = controller.path := by
  rw [find_eq_ok_iff, ← exists_owns_iff]
  constructor
  · intro h
    exact ⟨controller, h, rfl, rfl⟩
  · rintro ⟨⟨index, path⟩, h, rfl, rfl⟩
    exact h

theorem attachment_eq_ok_iff_listed {attachment : Attachment} :
    (tree.attachment eid).value = .ok attachment ↔
      ∃ info, ListedOwner tree.controllers.value eid info ∧
        (∃ raw, info.ummuMap? = some raw ∧ raw.toInt = attachment.ummuMap.toNat) ∧
        info.numa? = some attachment.numa ∧ 0 ≤ attachment.numa.toInt := by
  rw [attachment_eq_ok_iff, ← exists_owns_iff]
  refine exists_congr fun controller => and_congr_right fun _ => ?_
  simp only [Option.bind_eq_some_iff, nonNegative?_eq_some_iff, Option.guard_eq_some_iff,
    decide_eq_true_eq, Int32.le_iff_toInt_le, infoAt]
  constructor
  · rintro ⟨⟨raw, hr, hu⟩, numa, hn, rfl, hm⟩
    exact ⟨⟨raw, hr, hu.symm⟩, hn, hm⟩
  · rintro ⟨⟨raw, hr, hu⟩, hn, hm⟩
    exact ⟨⟨raw, hr, hu.symm⟩, attachment.numa, hn, rfl, hm⟩

theorem primaryCna_eq_ok_iff_listed {cna : UInt32} :
    (tree.primaryCna eid).value = .ok cna ↔
      ∃ info, ListedOwner tree.controllers.value eid info ∧ info.primaryCna? = some cna := by
  rw [primaryCna_eq_ok_iff, ← exists_owns_iff]
  rfl

/-- An endpoint is resolved to the first of its entries, if those before it all tell their endpoint;
where and through which adapter it is reached is what that entry shows. -/
theorem resolver_agrees (tree : ControllerTree) (eid : Eid) :
    let listed := tree.controllers.value
    ((listed.map (·.index)).Pairwise (· < ·) ∧ ∀ info ∈ listed, info.index < maxControllers) ∧
    (∀ controller, (tree.find eid).value = .ok controller ↔
      ∃ info, ListedOwner listed eid info ∧
        info.index = controller.index ∧ info.path = controller.path) ∧
    (∀ info other, ListedOwner listed eid info → ListedOwner listed eid other → info = other) ∧
    (∀ attachment, (tree.attachment eid).value = .ok attachment ↔
      ∃ info, ListedOwner listed eid info ∧
        (∃ raw, info.ummuMap? = some raw ∧ raw.toInt = attachment.ummuMap.toNat) ∧
        info.numa? = some attachment.numa ∧ 0 ≤ attachment.numa.toInt) ∧
    (∀ cna, (tree.primaryCna eid).value = .ok cna ↔
      ∃ info, ListedOwner listed eid info ∧ info.primaryCna? = some cna) ∧
    OnlyAbsent (tree.find eid).value ∧ OnlyAbsent (tree.attachment eid).value ∧
      OnlyAbsent (tree.primaryCna eid).value :=
  ⟨⟨pairwise_controllers, fun _ hm => (mem_controllers.mp hm).1⟩,
    fun _ => find_eq_ok_iff_listed,
    fun _ _ => ListedOwner.unique,
    fun _ => attachment_eq_ok_iff_listed,
    fun _ => primaryCna_eq_ok_iff_listed,
    find_onlyAbsent eid, attachment_onlyAbsent eid, primaryCna_onlyAbsent eid⟩

end ControllerTree

end FabricMemory
