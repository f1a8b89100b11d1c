import FabricMemory.Proofs.Reach

/-!
# The vendor's verdicts

What the resolver makes of attributes that cannot be read, are negative or are too large decides
which error a caller sees. Main statement (`vendor_verdicts`): an export to a nonzero endpoint is
adapted exactly if its owner is `Attached` with a unit that the mask has a bit for; a larger unit is
an invalid argument, anything else the want of a device. What is let in is submitted as it was
judged.
-/

namespace FabricMemory

namespace ControllerTree

/-- The endpoint has an owner, whose unit and node can be read and are not negative. -/
def Attached (tree : ControllerTree) (eid : Eid) (unit numa : Int32) : Prop :=
  ∃ controller, (tree.find eid).value = .ok controller ∧
    (tree.value? controller.path ummuAttribute = some unit ∧ 0 ≤ unit.toInt) ∧
    tree.value? controller.path numaAttribute = some numa ∧ 0 ≤ numa.toInt

/-- The endpoint has an owner, whose channel adapter can be read and is the one given. -/
def ReachedThrough (tree : ControllerTree) (eid : Eid) (cna : UInt32) : Prop :=
  ∃ controller value, (tree.find eid).value = .ok controller ∧
    tree.value? controller.path cnaAttribute = some value ∧ 0 ≤ value.toInt ∧
    value.toInt = cna.toNat

variable {tree : ControllerTree} {eid : Eid} {region : Descriptor} {unit numa : Int32}

-- ---------------------------------------------------------------------
-- Exports

theorem attachment_eq_ok_iff_attached {attachment : Attachment} :
    (tree.attachment eid).value = .ok attachment ↔
      ∃ unit, tree.Attached eid unit attachment.numa ∧ unit.toInt = attachment.ummuMap.toNat := by
  simp only [attachment_eq_ok_iff, Attached, find_eq_ok_iff, Option.bind_eq_some_iff,
    nonNegative?_eq_some_iff, Option.guard_eq_some_iff, decide_eq_true_eq, Int32.le_iff_toInt_le]
  constructor
  · rintro ⟨controller, ho, ⟨unit, hu, he⟩, numa, hn, rfl, hm⟩
    exact ⟨unit, ⟨controller, ho, ⟨hu, by omega⟩, hn, hm⟩, he.symm⟩
  · rintro ⟨unit, ⟨controller, ho, ⟨hu, -⟩, hn, hm⟩, he⟩
    exact ⟨controller, ho, ⟨unit, hu, he.symm⟩, attachment.numa, hn, rfl, hm⟩

theorem adapt_zero (h : region.deid = Eid.zero) :
    tree.adapt region =
      ⟨.error (.invalidArgument .zeroDestination), [⟨.error, "zero-type eid is not allowed"⟩]⟩ := by
  rw [adapt, if_pos (by rw [h]; rfl)]
  rfl

theorem value_adapt (h : region.deid ≠ Eid.zero) :
    (tree.adapt region).value =
      match (tree.attachment region.deid).value with
      | .error e => .error e
      | .ok attachment =>
        (VendorInfo.forUmmu attachment.ummuMap).map fun vendor => ⟨vendor, attachment.numa⟩ := by
  have hz : ¬ region.deid.isZero = true := by simpa [Eid.isZero] using h
  rw [adapt, if_neg hz, Logged.value_bind]
  cases (tree.attachment region.deid).value with
  | error e => rfl
  | ok attachment =>
    simp only [VendorInfo.build_eq]
    cases VendorInfo.forUmmu attachment.ummuMap <;> rfl

theorem adapt_attached (hz : region.deid ≠ Eid.zero) (h : tree.Attached region.deid unit numa) :
    (tree.adapt region).value =
      if unit.toInt ≤ 63 then .ok ⟨⟨VendorInfo.unit unit.toInt.toNat, true⟩, numa⟩
      else .error (.invalidArgument (.maskWidth unit.toInt.toNat)) := by
  have hu : 0 ≤ unit.toInt := by
    obtain ⟨_, -, ⟨-, hu⟩, -⟩ := h
    exact hu
  have hn : unit.toUInt32.toNat = unit.toInt.toNat :=
    Int32.toNat_toUInt32_of_le (Int32.le_iff_toInt_le.mpr hu)
  have ha : (tree.attachment region.deid).value = .ok ⟨unit.toUInt32, numa⟩ :=
    attachment_eq_ok_iff_attached.mpr ⟨unit, h, by simp only [hn]; omega⟩
  rw [value_adapt hz, ha]
  by_cases hl : unit.toInt ≤ 63
  · have hf : VendorInfo.forUmmu unit.toUInt32 = .ok ⟨VendorInfo.unit unit.toInt.toNat, true⟩ :=
      VendorInfo.forUmmu_eq_ok_iff.mpr ⟨by omega, by rw [hn]⟩
    simp only [hf, if_pos hl]
    rfl
  · have hf : ¬ unit.toUInt32 < 64 := by
      rw [UInt32.lt_iff_toNat_lt, hn]
      show ¬ unit.toInt.toNat < 64
      omega
    simp only [VendorInfo.forUmmu, if_neg hf, if_neg hl, hn]
    rfl

theorem adapt_unattached (hz : region.deid ≠ Eid.zero)
    (h : ∀ unit numa, ¬ tree.Attached region.deid unit numa) :
    ∃ why, (tree.adapt region).value = .error (.noSuchDevice why) := by
  have ha := tree.attachment_onlyAbsent region.deid
  rw [value_adapt hz]
  cases hr : (tree.attachment region.deid).value with
  | error e =>
    obtain ⟨why, rfl⟩ := ha e hr
    exact ⟨why, rfl⟩
  | ok attachment =>
    obtain ⟨unit, hu, -⟩ := attachment_eq_ok_iff_attached.mp hr
    exact absurd hu (h unit attachment.numa)

theorem adapt_cases (tree : ControllerTree) (region : Descriptor) :
    region.deid = Eid.zero ∨
      (region.deid ≠ Eid.zero ∧ ∃ unit numa, tree.Attached region.deid unit numa) ∨
      region.deid ≠ Eid.zero ∧ ∀ unit numa, ¬ tree.Attached region.deid unit numa := by
  by_cases hz : region.deid = Eid.zero
  · exact .inl hz
  · by_cases ha : ∃ unit numa, tree.Attached region.deid unit numa
    · exact .inr (.inl ⟨hz, ha⟩)
    · exact .inr (.inr ⟨hz, fun unit numa h => ha ⟨unit, numa, h⟩⟩)

theorem adapt_eq_ok_iff_attached {adaptation : Adaptation} :
    (tree.adapt region).value = .ok adaptation ↔
      region.deid ≠ Eid.zero ∧ ∃ unit, tree.Attached region.deid unit adaptation.numa ∧
        unit.toInt ≤ 63 ∧ adaptation.vendor = ⟨VendorInfo.unit unit.toInt.toNat, true⟩ := by
  constructor
  · intro h
    obtain hz | ⟨hz, unit, numa, ha⟩ | ⟨hz, hn⟩ := tree.adapt_cases region
    · rw [adapt_zero hz] at h
      cases h
    · rw [adapt_attached hz ha] at h
      split at h
      · rename_i hu
        obtain rfl := Except.ok.inj h
        exact ⟨hz, unit, ha, hu, rfl⟩
      · cases h
    · obtain ⟨why, he⟩ := adapt_unattached hz hn
      cases he.symm.trans h
  · rintro ⟨hz, unit, ha, hu, hv⟩
    rw [adapt_attached hz ha, if_pos hu, ← hv]

theorem adapt_eq_invalidArgument_iff :
    (∃ why, (tree.adapt region).value = .error (.invalidArgument why)) ↔
      region.deid = Eid.zero ∨
        ∃ unit numa, tree.Attached region.deid unit numa ∧ 64 ≤ unit.toInt := by
  constructor
  · rintro ⟨why, h⟩
    obtain hz | ⟨hz, unit, numa, ha⟩ | ⟨hz, hn⟩ := tree.adapt_cases region
    · exact .inl hz
    · rw [adapt_attached hz ha] at h
      split at h
      · cases h
      · exact .inr ⟨unit, numa, ha, by omega⟩
    · obtain ⟨why', he⟩ := adapt_unattached hz hn
      cases he.symm.trans h
  · intro h
    by_cases hz : region.deid = Eid.zero
    · exact ⟨_, congrArg Logged.value (adapt_zero hz)⟩
    · obtain ⟨unit, numa, ha, hu⟩ := h.resolve_left hz
      rw [adapt_attached hz ha, if_neg (by omega)]
      exact ⟨_, rfl⟩

theorem adapt_eq_noSuchDevice_iff :
    (∃ why, (tree.adapt region).value = .error (.noSuchDevice why)) ↔
      region.deid ≠ Eid.zero ∧ ∀ unit numa, ¬ tree.Attached region.deid unit numa := by
  constructor
  · rintro ⟨why, h⟩
    obtain hz | ⟨hz, unit, numa, ha⟩ | hn := tree.adapt_cases region
    · rw [adapt_zero hz] at h
      cases h
    · rw [adapt_attached hz ha] at h
      split at h <;> cases h
    · exact hn
  · rintro ⟨hz, hn⟩
    exact adapt_unattached hz hn

/-- Nothing else that goes wrong on the way is told. -/
theorem error_of_adapt {e : Error} (h : (tree.adapt region).value = .error e) :
    (∃ why, e = .invalidArgument why) ∨ ∃ why, e = .noSuchDevice why := by
  obtain hz | ⟨hz, unit, numa, ha⟩ | ⟨hz, hn⟩ := tree.adapt_cases region
  · rw [adapt_zero hz] at h
    exact .inl ⟨_, (Except.error.inj h).symm⟩
  · rw [adapt_attached hz ha] at h
    split at h
    · cases h
    · exact .inl ⟨_, (Except.error.inj h).symm⟩
  · obtain ⟨why, he⟩ := adapt_unattached hz hn
    exact .inr ⟨why, Except.error.inj (h.symm.trans he)⟩

-- ---------------------------------------------------------------------
-- Commands that bring memory in

theorem vet_eq_ok_iff {kind : Incoming.Kind} {incoming : Incoming kind} :
    (tree.vet incoming).value.verdict = .ok () ↔
      tree.ReachedThrough incoming.seid incoming.scna := by
  simp only [verdict_vet, checkSource_eq_ok_iff, primaryCna_eq_ok_iff, ReachedThrough, find_eq_ok_iff,
    Option.bind_eq_some_iff, nonNegative?_eq_some_iff]
  constructor
  · rintro ⟨controller, ho, value, hv, he⟩
    exact ⟨controller, value, ho, hv, by omega, he.symm⟩
  · rintro ⟨controller, value, ho, hv, -, he⟩
    exact ⟨controller, ho, value, hv, he.symm⟩

theorem vet_congr {kind kind' : Incoming.Kind} {command : Incoming kind} {other : Incoming kind'}
    (he : command.seid = other.seid) (hc : command.scna = other.scna) :
    (tree.vet command).value.verdict = (tree.vet other).value.verdict ∧
      (tree.vet command).lines = (tree.vet other).lines := by
  rw [verdict_vet, verdict_vet, vet, vet, he, hc]
  exact ⟨rfl, rfl⟩

end ControllerTree

namespace Host

variable {δ : Type} {root : Path} {backend : Backend δ}

theorem submitVetted_submits_iff (link : Link (Host δ)) {kind : Incoming.Kind}
    (incoming : Incoming kind) (request : Request) :
    let ran := ((Operation.submitVetted incoming).run (peersWith root backend) link).value
    (∃ reply, .submitted request reply ∈ ran.events) ↔
      ((link.world.tree root).vet incoming).value.verdict = .ok () ∧
        request = incoming.request := by
  intro ran
  have hc := carry_carried (peersWith root backend) link (.vetted incoming)
  have he : ran.events = ((ExceptT.run (Operation.carry (.vetted incoming))).run
      (peersWith root backend) link).value.events :=
    (Operation.events_run_bind_pure _ (Operation.submitVetted incoming) Incoming.outputs link).symm
  rw [he, ← approved_vetted_iff]
  exact ⟨fun ⟨reply, hs⟩ => hc.approved hs, hc.submitted⟩

end Host

/-- Whether an export is adapted and whether a command is let in is told by the attributes of the
owner, and so is the error that a caller sees otherwise. A command is let in as it is. -/
theorem vendor_verdicts {δ : Type} (tree : ControllerTree) (backend : Backend δ)
    (cache : ChannelCache) (driver : δ) :
    (∀ region adaptation, (tree.adapt region).value = .ok adaptation ↔
      region.deid ≠ Eid.zero ∧ ∃ unit, tree.Attached region.deid unit adaptation.numa ∧
        unit.toInt ≤ 63 ∧ adaptation.vendor = ⟨VendorInfo.unit unit.toInt.toNat, true⟩) ∧
    (∀ region, (∃ why, (tree.adapt region).value = .error (.invalidArgument why)) ↔
      region.deid = Eid.zero ∨
        ∃ unit numa, tree.Attached region.deid unit numa ∧ 64 ≤ unit.toInt) ∧
    (∀ region, (∃ why, (tree.adapt region).value = .error (.noSuchDevice why)) ↔
      region.deid ≠ Eid.zero ∧ ∀ unit numa, ¬ tree.Attached region.deid unit numa) ∧
    (∀ region e, (tree.adapt region).value = .error e →
      (∃ why, e = .invalidArgument why) ∨ ∃ why, e = .noSuchDevice why) ∧
    (∀ region, region.deid = Eid.zero → ∀ other : ControllerTree,
      tree.adapt region = other.adapt region) ∧
    (∀ kind (incoming : Incoming kind), ((tree.vet incoming).value.verdict = .ok () ↔
        tree.ReachedThrough incoming.seid incoming.scna) ∧
      OnlyAbsent (tree.vet incoming).value.verdict) ∧
    (∀ command window, command.seid = window.seid → command.scna = window.scna →
      (tree.vet (.region command)).value.verdict = (tree.vet (.window window)).value.verdict ∧
        (tree.vet (.region command)).lines = (tree.vet (.window window)).lines) ∧
    (∀ kind (incoming : Incoming kind), (tree.vet incoming).value.incoming = incoming ∧
      ∀ host, ((Host.peersWith tree.root backend).cleanup incoming host).value =
        (incoming, host)) ∧
    ∀ kind (incoming : Incoming kind) request,
      let ran := ((Operation.submitVetted incoming).run (Host.peersWith tree.root backend)
        ⟨cache, ⟨tree.files, driver⟩⟩).value
      (∃ reply, .submitted request reply ∈ ran.events) ↔
        (tree.vet incoming).value.verdict = .ok () ∧ request = incoming.request := by
  refine ⟨fun region adaptation => ControllerTree.adapt_eq_ok_iff_attached,
    fun region => ControllerTree.adapt_eq_invalidArgument_iff,
    fun region => ControllerTree.adapt_eq_noSuchDevice_iff,
    fun region e => ControllerTree.error_of_adapt,
    fun region hz other => ?_,
    fun kind incoming => ⟨ControllerTree.vet_eq_ok_iff, tree.checkSource_onlyAbsent _ _⟩,
    fun command window he hc => ControllerTree.vet_congr he hc,
    fun kind incoming => ⟨tree.incoming_vet incoming, fun host => rfl⟩,
    fun kind incoming request => Host.submitVetted_submits_iff _ incoming request⟩
  rw [ControllerTree.adapt_zero hz, ControllerTree.adapt_zero hz]

end FabricMemory
