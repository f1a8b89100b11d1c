import Mathlib
import FabricMemory.Proofs.Attribute
import FabricMemory.Proofs.Listing
import FabricMemory.Proofs.Vetting

/-!
# Which controllers can be reached

Identifiers and channel adapters are numbers of 32 bits, but an attribute is read as a signed one.
Main statement (`reach_iff`): a controller is found by the identifier that it shows, and reached
through the adapter that it shows, exactly if these have 31 bits and so have the identifiers that
are compared before.
-/

namespace FabricMemory.ControllerTree

def Shows (tree : ControllerTree) (path : Path) (name : String) (value : UInt32) : Prop :=
  ∃ content, tree.files.readFile (path.child name) = .ok content ∧ Attribute.Holds content value

/-- A controller that shows its identifier and its channel adapter. Those with a smaller index show
other identifiers. -/
structure Displays (tree : ControllerTree) (controller : Controller) (eid cna : UInt32) : Prop where
  index : controller.index < maxControllers
  located : (tree.locate controller.index).value = .ok controller.path
  nonzero : eid ≠ 0
  showsEid : tree.Shows controller.path eidAttribute eid
  showsCna : tree.Shows controller.path cnaAttribute cna
  below : ∀ index < controller.index, ∀ path, (tree.locate index).value = .ok path →
    ∃ other, tree.Shows path eidAttribute other ∧ other ≠ eid

/-- The identifiers that are shown up to the index have 31 bits. -/
def Legible (tree : ControllerTree) (last : Nat) : Prop :=
  ∀ index ≤ last, ∀ path value, (tree.locate index).value = .ok path →
    tree.Shows path eidAttribute value → value.toNat < wordBound 31

variable {tree : ControllerTree} {path : Path} {value : UInt32}

-- ---------------------------------------------------------------------
-- What is shown and what is read

theorem value?_of_shows {name : String} (h : tree.Shows path name value) :
    tree.value? path name =
      if value.toNat < wordBound 31 then some (Int32.ofInt value.toNat) else none := by
  obtain ⟨content, hr, hc⟩ := h
  rw [value?, Attribute.read_of_readFile hr, Attribute.parse_of_holds hc]
  split <;> rfl

theorem nonNegative?_ofInt (h : value.toNat < wordBound 31) :
    nonNegative? (Int32.ofInt value.toNat) = some value := by
  rw [nonNegative?_eq_some_iff, Int32.toInt_ofInt_of_le (by omega) (by exact_mod_cast h)]

theorem toUInt32_ofInt (value : UInt32) : (Int32.ofInt value.toNat).toUInt32 = value := by
  rw [← UInt32.toNat_inj]
  show (BitVec.ofInt 32 (value.toNat : Int)).toNat = value.toNat
  rw [BitVec.ofInt_natCast, BitVec.toNat_ofNat]
  exact Nat.mod_eq_of_lt value.toNat_lt

theorem eid?_eq_some_iff_of_shows {eid : Eid} (h : tree.Shows path eidAttribute value) :
    tree.eid? path = some eid ↔ value.toNat < wordBound 31 ∧ Eid.ofNat value.toNat = eid := by
  rw [eid?, value?_of_shows h]
  by_cases hv : value.toNat < wordBound 31
  · simp [hv, eidOfAttribute, toUInt32_ofInt]
  · simp [hv]

theorem cna_eq_some_iff_of_shows {cna : UInt32} (h : tree.Shows path cnaAttribute value) :
    (tree.value? path cnaAttribute).bind nonNegative? = some cna ↔
      value.toNat < wordBound 31 ∧ value = cna := by
  rw [value?_of_shows h]
  by_cases hv : value.toNat < wordBound 31
  · simp [hv, nonNegative?_ofInt hv]
  · simp [hv]

theorem ofNat_toNat_inj {first second : UInt32} :
    Eid.ofNat first.toNat = Eid.ofNat second.toNat ↔ first = second := by
  show eidOfAttribute first.toInt32 = _ ↔ _
  rw [eidOfAttribute_eq_ofNat_iff second.toNat_lt]
  exact UInt32.toNat_inj

-- ---------------------------------------------------------------------
-- The owner

theorem Displays.owns_iff {controller owner : Controller} {eid cna : UInt32}
    (h : tree.Displays controller eid cna) :
    tree.Owns (Eid.ofNat eid.toNat) owner ↔
      tree.Legible controller.index ∧ owner = controller := by
  constructor
  · intro ho
    obtain hlt | heq | hgt := Nat.lt_trichotomy owner.index controller.index
    · obtain ⟨other, hs, hne⟩ := h.below _ hlt _ ho.located
      obtain ⟨-, he⟩ := (eid?_eq_some_iff_of_shows hs).mp ho.own
      exact absurd (ofNat_toNat_inj.mp he) hne
    · obtain rfl : owner = controller := by
        obtain ⟨index, path⟩ := owner
        obtain rfl : index = controller.index := heq
        have hp : controller.path = path := Except.ok.inj (h.located.symm.trans ho.located)
        exact congrArg (Controller.mk controller.index) hp.symm
      refine ⟨fun index hi path value hp hs => ?_, rfl⟩
      obtain hlt | rfl := Nat.lt_or_eq_of_le hi
      · obtain ⟨own, he, -⟩ := ho.below index (Nat.zero_le _) hlt path hp
        exact ((eid?_eq_some_iff_of_shows hs).mp he).1
      · obtain rfl := Except.ok.inj (h.located.symm.trans hp)
        exact ((eid?_eq_some_iff_of_shows hs).mp ho.own).1
    · obtain ⟨own, he, hne⟩ := ho.below _ (Nat.zero_le _) hgt _ h.located
      exact absurd ((eid?_eq_some_iff_of_shows h.showsEid).mp he).2.symm hne
  · rintro ⟨hl, rfl⟩
    refine ⟨h.index, h.located, (eid?_eq_some_iff_of_shows h.showsEid).mpr
      ⟨hl _ (Nat.le_refl _) _ _ h.located h.showsEid, rfl⟩, fun index _ hi path hp => ?_⟩
    obtain ⟨other, hs, hne⟩ := h.below index hi path hp
    have hv := hl index (Nat.le_of_lt hi) path other hp hs
    exact ⟨_, (eid?_eq_some_iff_of_shows hs).mpr ⟨hv, rfl⟩, mt ofNat_toNat_inj.mp hne⟩

theorem checkSource_onlyAbsent (seid : Eid) (scna : UInt32) :
    OnlyAbsent (tree.checkSource seid scna).value := by
  have hc := tree.primaryCna_onlyAbsent seid
  rw [checkSource, Logged.value_bind]
  generalize (tree.primaryCna seid).value = found at hc ⊢
  cases found with
  | error e => exact hc.of_error
  | ok cna =>
    by_cases he : cna = scna
    · simpa [he] using OnlyAbsent.ok _
    · simpa [he] using OnlyAbsent.absent _

/-- A controller is found by the identifier that it shows if that and those compared before have 31
bits. If its channel adapter has 31 bits too, it is reached and imports through it are let in. -/
theorem reach_iff {controller : Controller} {eid cna : UInt32}
    (h : tree.Displays controller eid cna) :
    let endpoint := Eid.ofNat eid.toNat
    let reached := tree.Legible controller.index ∧ cna.toNat < wordBound 31
    (∀ found, (tree.find endpoint).value = .ok found ↔
      tree.Legible controller.index ∧ found = controller) ∧
    (∀ found, (tree.primaryCna endpoint).value = .ok found ↔ reached ∧ found = cna) ∧
    (∀ kind (incoming : Incoming kind), incoming.seid = endpoint →
      ((tree.vet incoming).value.verdict = .ok () ↔ reached ∧ incoming.scna = cna)) ∧
    OnlyAbsent (tree.find endpoint).value ∧ OnlyAbsent (tree.primaryCna endpoint).value ∧
      ∀ kind (incoming : Incoming kind), OnlyAbsent (tree.vet incoming).value.verdict := by
  intro endpoint reached
  have hc (found : UInt32) :
      (tree.primaryCna endpoint).value = .ok found ↔ reached ∧ found = cna := by
    simp only [primaryCna_eq_ok_iff, endpoint, h.owns_iff]
    constructor
    · rintro ⟨owner, ⟨hl, rfl⟩, hr⟩
      obtain ⟨hv, rfl⟩ := (cna_eq_some_iff_of_shows h.showsCna).mp hr
      exact ⟨⟨hl, hv⟩, rfl⟩
    · rintro ⟨⟨hl, hv⟩, rfl⟩
      exact ⟨controller, ⟨hl, rfl⟩, (cna_eq_some_iff_of_shows h.showsCna).mpr ⟨hv, rfl⟩⟩
  refine ⟨fun found => find_eq_ok_iff.trans h.owns_iff, hc, fun kind incoming hi => ?_,
    find_onlyAbsent _, primaryCna_onlyAbsent _, fun kind incoming => checkSource_onlyAbsent _ _⟩
  rw [verdict_vet, checkSource_eq_ok_iff, hi]
  exact hc incoming.scna

-- ---------------------------------------------------------------------
-- One controller

theorem displays_sole {written through : String} {eid cna : UInt32} (hz : eid ≠ 0)
    (he : Attribute.Holds (Utf8.encode written) eid)
    (hc : Attribute.Holds (Utf8.encode through) cna) :
    (sole written through).Displays ⟨0, solePath⟩ eid cna where
  index := by decide
  located := locate_sole written through
  nonzero := hz
  showsEid := ⟨_, by cbv, he⟩
  showsCna := ⟨_, by cbv, hc⟩
  below := fun index hi => absurd hi (Nat.not_lt_zero index)

theorem displays_sole_hex : (sole "0x0C\n" "5").Displays ⟨0, solePath⟩ 12 5 := by
  have hx : "0C".toList.map Char.toLower = List.replicate 1 '0' ++ Nat.toDigits 16 12 := by decide
  exact displays_sole (by decide) ⟨_, ['\n'], .hex hx (by decide), .inr rfl, by decide⟩
    ⟨_, [], .decimal, .inl rfl, by decide⟩

theorem reach_iff_sole :
    let tree := sole "0x0C\n" "5"
    tree.Displays ⟨0, solePath⟩ 12 5 ∧
      (tree.find (Eid.ofNat 12)).value = .ok ⟨0, solePath⟩ ∧
      (tree.primaryCna (Eid.ofNat 12)).value = .ok 5 := by
  intro tree
  have hl : tree.Legible 0 := by
    intro index hi path value hp hs
    obtain rfl : index = 0 := Nat.le_zero.mp hi
    obtain rfl := Except.ok.inj ((locate_sole "0x0C\n" "5").symm.trans hp)
    have he : tree.eid? solePath = some (Eid.ofNat 12) := by cbv
    exact ((eid?_eq_some_iff_of_shows hs).mp he).1
  obtain ⟨hf, hc, -⟩ := reach_iff displays_sole_hex
  exact ⟨displays_sole_hex, (hf _).mpr ⟨hl, rfl⟩, (hc _).mpr ⟨⟨hl, by decide⟩, rfl⟩⟩

/-- An identifier and an adapter of 32 bits are not read, and neither is the last digit of a number
that is too long. -/
theorem reach_fails :
    ((sole "2147483648" "5").Displays ⟨0, solePath⟩ 2147483648 5 ∧
      ((sole "2147483648" "5").find (Eid.ofNat 2147483648)).value =
        .error (.noSuchDevice (.unreadable "eid" solePath))) ∧
    ((sole "7" "2147483648").Displays ⟨0, solePath⟩ 7 2147483648 ∧
      ((sole "7" "2147483648").primaryCna (Eid.ofNat 7)).value =
        .error (.noSuchDevice (.unreadable "primary_cna" solePath))) ∧
    let padded := "0x" ++ String.ofList (List.replicate 61 '0') ++ "7"
    ((sole padded "5").find (Eid.ofNat 7)).value ≠ .ok ⟨0, solePath⟩ := by
  refine ⟨⟨?_, ?_⟩, ⟨?_, ?_⟩, ?_⟩
  · exact displays_sole (by decide) ⟨_, [], .decimal, .inl rfl, by decide⟩
      ⟨_, [], .decimal, .inl rfl, by decide⟩
  · have he : (sole "2147483648" "5").eid? solePath = none := by cbv
    rw [find, show List.range maxControllers = 0 :: List.range' 1 7 from rfl, value_search_cons,
      locate_sole]
    simp only [he]
    rfl
  · exact displays_sole (by decide) ⟨_, [], .decimal, .inl rfl, by decide⟩
      ⟨_, [], .decimal, .inl rfl, by decide⟩
  · have ho : (sole "7" "2147483648").Owns (Eid.ofNat 7) ⟨0, solePath⟩ := owns_sole (by cbv)
    have hv : (sole "7" "2147483648").value? solePath cnaAttribute = none := by cbv
    rw [primaryCna, Logged.value_bind, find_eq_ok_iff.mpr ho]
    simp only [value_require, hv]
    rfl
  · intro padded hf
    have he : (sole padded "5").eid? solePath = some Eid.zero := by cbv
    exact absurd (he.symm.trans (find_eq_ok_iff.mp hf).own) (by decide)

end FabricMemory.ControllerTree
