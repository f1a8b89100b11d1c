import Mathlib
import FabricMemory.Host
import FabricMemory.Proofs.Course
import FabricMemory.Proofs.Resolver
import FabricMemory.Proofs.VendorInfo

/-!
# Only vetted commands reach the driver

On a host, what is submitted is vouched for by the controllers as they are when the call is made
(`ControllerTree.Vouches`), and it is about the endpoints that the caller named (`Call.Names`),
however the tree changes between the calls and whatever answers behind the channel.
-/

namespace FabricMemory

namespace ControllerTree

/-- An export is about a controller of this tree, in its NUMA node and with its unit in the blob. -/
structure VouchesExport (tree : ControllerTree) (deid : Eid) (numa : Int32)
    (vendor : Option Bytes) : Prop where
  nonzero : deid ≠ Eid.zero
  owner : ∃ controller ummuMap blob info,
    tree.Owns deid controller ∧
    (tree.value? controller.path numaAttribute = some numa ∧ 0 ≤ numa.toInt) ∧
    (tree.value? controller.path ummuAttribute = some ummuMap ∧
      0 ≤ ummuMap.toInt ∧ ummuMap.toInt < 64) ∧
    vendor = some blob ∧ VendorInfo.decode blob = .ok info ∧
    info.mask.toNat = 2 ^ ummuMap.toInt.toNat ∧ info.onChip = true

/-- A source is reached through the channel adapter of its own controller. -/
def VouchesSource (tree : ControllerTree) (seid : Eid) (scna : UInt32) : Prop :=
  ∃ controller cna, tree.Owns seid controller ∧
    tree.value? controller.path cnaAttribute = some cna ∧ cna.toInt = scna.toNat

def Vouches (tree : ControllerTree) : Request → Prop
  | .exportPages command => tree.VouchesExport command.deid command.pxmNuma command.vendor
  | .exportRange command => tree.VouchesExport command.deid command.pxmNuma command.vendor
  | .importRegion command => tree.VouchesSource command.seid command.scna
  | .declareWindow command => tree.VouchesSource command.seid command.scna
  | .endExport _ | .endImport _ | .withdrawWindow _ | .query _ => True

variable {tree : ControllerTree}

theorem adapt_eq_ok_iff {region : Descriptor} {adaptation : Adaptation} :
    (tree.adapt region).value = .ok adaptation ↔
      region.deid ≠ Eid.zero ∧ ∃ attachment, (tree.attachment region.deid).value = .ok attachment ∧
        VendorInfo.forUmmu attachment.ummuMap = .ok adaptation.vendor ∧
        attachment.numa = adaptation.numa := by
  obtain ⟨vendor, numa⟩ := adaptation
  unfold adapt
  by_cases hz : region.deid = Eid.zero
  · simp [Eid.isZero, hz]
  · simp only [Eid.isZero, hz, decide_false, Bool.false_eq_true, if_false, ne_eq,
      not_false_eq_true, true_and, Logged.value_bind]
    cases (tree.attachment region.deid).value with
    | error e => simp
    | ok attachment =>
      cases hu : VendorInfo.forUmmu attachment.ummuMap with
      | error e => simp [hu]
      | ok vendor' => simp [hu]

theorem checkSource_eq_ok_iff {seid : Eid} {scna : UInt32} :
    (tree.checkSource seid scna).value = .ok () ↔ (tree.primaryCna seid).value = .ok scna := by
  unfold checkSource
  rw [Logged.value_bind]
  cases (tree.primaryCna seid).value with
  | error e => simp
  | ok cna =>
    by_cases hc : cna = scna
    · simp [hc]
    · simp [hc]

theorem adapt_vouches {region : Descriptor} {adaptation : Adaptation}
    (h : (tree.adapt region).value = .ok adaptation) :
    tree.VouchesExport region.deid adaptation.numa (some adaptation.vendor.encode) := by
  obtain ⟨hz, attachment, ha, hv, hn⟩ := adapt_eq_ok_iff.mp h
  obtain ⟨controller, ho, hu, hm⟩ := attachment_eq_ok_iff.mp ha
  obtain ⟨ummuMap, hr, hu⟩ := Option.bind_eq_some_iff.mp hu
  obtain ⟨numa, hs, hm⟩ := Option.bind_eq_some_iff.mp hm
  obtain ⟨hlt, hi⟩ := VendorInfo.forUmmu_eq_ok_iff.mp hv
  have hu := nonNegative?_eq_some_iff.mp hu
  obtain ⟨rfl, hg⟩ := Option.guard_eq_some_iff.mp hm
  have hg : 0 ≤ attachment.numa := of_decide_eq_true hg
  refine ⟨hz, controller, ummuMap, _, adaptation.vendor, ho, ⟨?_, ?_⟩, ⟨hr, ?_, ?_⟩, rfl,
    VendorInfo.decode_encode _, ?_, ?_⟩
  · rw [hs, hn]
  · exact hn ▸ Int32.le_iff_toInt_le.mp hg
  · omega
  · omega
  · rw [hi, VendorInfo.toNat_unit hlt]
    congr 1
    omega
  · rw [hi]

theorem vet_vouches {kind : Incoming.Kind} {incoming : Incoming kind}
    (h : (tree.vet incoming).value.verdict = .ok ()) :
    tree.VouchesSource incoming.seid incoming.scna := by
  obtain ⟨controller, ho, hc⟩ := primaryCna_eq_ok_iff.mp (checkSource_eq_ok_iff.mp h)
  obtain ⟨cna, hr, hc⟩ := Option.bind_eq_some_iff.mp hc
  exact ⟨controller, cna, ho, hr, (nonNegative?_eq_some_iff.mp hc).symm⟩

-- ---------------------------------------------------------------------
-- A tree with one controller

def solePath : Path := ⟨Utf8.encode "/ub_bus_controller0/u"⟩

/-- The controller with the index 0 alone, its identifier and channel adapter as written. -/
def sole (eid cna : String) : ControllerTree :=
  let directory := ["ub_bus_controller0", "u"].map Utf8.encode
  let entry (name text : String) := (directory ++ [Utf8.encode name], Node.file (Utf8.encode text))
  { files.nodes := [(directory.take 1, .directory), (directory, .directory), entry "ubc" "",
      entry "eid" eid, entry "ummu_map" "3", entry "numa" "1", entry "primary_cna" cna]
    root := ⟨[Path.slash]⟩ }

theorem locate_sole (eid cna : String) : ((sole eid cna).locate 0).value = .ok solePath := by
  have hn : directoryName 0 = "ub_bus_controller0" := by decide
  have hd : (sole eid cna).attributeDirectory? 0 = some solePath := by
    rw [attributeDirectory?, directory?, route, hn]
    cbv
  rw [value_locate]
  simp only [hd]
  cbv

theorem owns_sole {eid cna : String} {endpoint : Eid}
    (h : (sole eid cna).eid? solePath = some endpoint) :
    (sole eid cna).Owns endpoint ⟨0, solePath⟩ where
  index := by decide
  located := locate_sole eid cna
  own := h
  below := fun index _ hi => absurd hi (Nat.not_lt_zero index)

theorem adapt_sole :
    ((sole "7" "5").adapt { deid := Eid.ofNat 7 }).value = .ok ⟨⟨8, true⟩, 1⟩ :=
  adapt_eq_ok_iff.mpr ⟨by decide, ⟨3, 1⟩,
    attachment_eq_ok_iff.mpr ⟨_, owns_sole (by cbv), by cbv, by cbv⟩, rfl, rfl⟩

end ControllerTree

def Call.Names (registers : Registers) : Call → Request → Prop
  | .exportPages on .., .exportPages command => command.deid = (registers.regions on).deid
  | .exportRange on .., .exportRange command => command.deid = (registers.regions on).deid
  | .importRegion on .., .importRegion command =>
    command.seid = (registers.regions on).seid ∧ command.scna = (registers.regions on).scna
  | .declareWindow on .., .declareWindow command =>
    command.seid = (registers.windows on).seid ∧ command.scna = (registers.windows on).scna
  | .endExport .., .endExport _ | .endImport .., .endImport _
  | .withdrawWindow .., .withdrawWindow _ | .regionAt .., .query _ | .addressOf .., .query _ => True
  | _, _ => False

-- ---------------------------------------------------------------------
-- On a host

namespace Host

variable {δ : Type} {root : Path} {backend : Backend δ} {link after : Link (Host δ)}

theorem files_of_connects {opened : Except Error Unit} {events : List Event}
    (h : Connects (peersWith root backend) link ⟨opened, events, after⟩) :
    after.world.files = link.world.files := by
  cases h with
  | held => rfl
  | opened _ ho => exact congrArg (·.2.files) ho.symm
  | failed _ ho => exact congrArg (·.2.files) ho.symm

section

variable {result : Except Error Reply} {events : List Event}

theorem files_of_carried {submission : Submission}
    (h : Carried (peersWith root backend) link submission ⟨result, events, after⟩) :
    after.world.files = link.world.files := by
  cases h with
  | unadapted ha => exact congrArg (·.2.files) ha.symm
  | adapted ha hs =>
    exact (congrArg (·.2.files) hs.symm).trans (congrArg (·.2.files) ha.symm)
  | rejected hf => exact congrArg (·.2.files) hf.symm
  | vetted hf hs hc =>
    exact (congrArg (·.2.files) hc.symm).trans
      ((congrArg (·.2.files) hs.symm).trans (congrArg (·.2.files) hf.symm))
  | plain hs => exact congrArg (·.2.files) hs.symm

theorem files_of_delivered {prepared : Prepared}
    (h : Delivered (peersWith root backend) link prepared ⟨result, events, after⟩) :
    after.world.files = link.world.files := by
  cases h with
  | misused => rfl
  | unreached hc => exact files_of_connects hc
  | late hc => exact files_of_connects hc
  | carried hc hd => exact (files_of_carried hd).trans (files_of_connects hc)

end

/-- On a host a command is approved if the controllers let it in, and goes out as it is. -/
theorem approved_vetted_iff {kind : Incoming.Kind} {incoming : Incoming kind} {request : Request} :
    Approved (peersWith root backend) link (.vetted incoming) request ↔
      ((link.world.tree root).vet incoming).value.verdict = .ok () ∧
        request = incoming.request := by
  constructor
  · intro h
    obtain ⟨accepted, -, hf⟩ := h.of_vetted
    exact ⟨congrArg Vetted.verdict hf, h.eq_request (fixup_keeps root backend _)⟩
  · rintro ⟨hv, rfl⟩
    exact .of_accepted (fixup_keeps root backend _) hv

theorem vouches_of_approved {registers : Registers} {call : Call} {submission : Submission}
    {request : Request} (hp : call.Prepares registers submission)
    (ha : Approved (peersWith root backend) link submission request) :
    (link.world.tree root).Vouches request ∧ call.Names registers request := by
  cases hp with
  | exportPages =>
    cases ha with
    | adapted ha => exact ⟨ControllerTree.adapt_vouches ha, rfl⟩
  | exportRange =>
    cases ha with
    | adapted ha => exact ⟨ControllerTree.adapt_vouches ha, rfl⟩
  | importRegion =>
    obtain ⟨hv, rfl⟩ := approved_vetted_iff.mp ha
    exact ⟨ControllerTree.vet_vouches hv, rfl, rfl⟩
  | declareWindow =>
    obtain ⟨hv, rfl⟩ := approved_vetted_iff.mp ha
    exact ⟨ControllerTree.vet_vouches hv, rfl, rfl⟩
  | endExport | endImport | withdrawWindow | regionAt | addressOf =>
    cases ha with
    | plain => exact ⟨trivial, trivial⟩

/-- Whatever the driver was ever handed, the controllers vouched for it when the call was made. -/
theorem play_vouches (root : Path) (backend : Backend δ) (session : Session (Host δ))
    (moves : List (Move (Host δ))) (step : Step (Host δ)) (request : Request) (reply : Reply)
    (hm : step ∈ (session.play (peersWith root backend) moves).value.steps)
    (hs : .submitted request reply ∈ step.performed.events) :
    (step.before.link.world.tree root).Vouches request ∧
      step.call.Names step.before.registers request := by
  obtain ⟨submission, opening, middle, hp, hc, ha⟩ := (Session.play_course hm).approved hs
  -- the channel may have been opened meanwhile, which leaves the files alone
  have ht : middle.world.tree root = step.before.link.world.tree root := by
    rw [tree, tree, files_of_connects hc]
  rw [← ht]
  exact vouches_of_approved hp ha

def willing : Backend Unit where
  openChannel _ _ := return (.ok (), ())
  submit _ _ := return ({}, ())
  update _ _ := (none, ())

/-- The only controller owns the endpoint 7. -/
theorem play_vouches_sole :
    let tree := ControllerTree.sole "7" "5"
    let session : Session (Host Unit) :=
      ⟨{ regions := fun _ => { deid := Eid.ofNat 7 } }, ⟨{}, ⟨tree.files, ()⟩⟩⟩
    let moves := [.call (.exportPages "region" [4096] ⟨0⟩)]
    ∃ step ∈ (session.play (peersWith tree.root willing) moves).value.steps,
      ∃ request reply, .submitted request reply ∈ step.performed.events ∧
        (step.before.link.world.tree tree.root).Vouches request ∧
        step.call.Names step.before.registers request := by
  intro tree session moves
  have hs := (session.perform_course (peersWith tree.root willing)
    (.exportPages "region" [4096] ⟨0⟩)).submitted rfl rfl (.adapted (by
      show (ControllerTree.adapt tree _).value = _
      exact ControllerTree.adapt_sole))
  obtain ⟨reply, hs⟩ := hs
  exact ⟨_, .head _, _, reply, hs,
    play_vouches tree.root willing session moves _ _ reply (.head _) hs⟩

end Host

end FabricMemory
