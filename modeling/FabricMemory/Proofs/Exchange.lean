import Mathlib
import FabricMemory.Proofs.Course
import FabricMemory.Proofs.Store

/-!
# A region travels to its importer

The halves meet at the descriptor: what an accepted export leaves of it is what arrives, as text or
through a file (`Conveyed.intact`), and what an import makes of it reaches the driver of the
importing node (`perform_import`).
-/

namespace FabricMemory

variable {σ τ : Type}

-- ---------------------------------------------------------------------
-- The way between the nodes

/-- How the importer gets at a descriptor that the exporter has sent. -/
inductive Conveyed (sent : Descriptor) (memId : UInt64) : Except Error Descriptor → Prop
  | text : Conveyed sent memId (Descriptor.ofJson sent.toJson)
  /-- The file that a save has made, or a copy of it on the importing node. -/
  | file {files after there : FileSystem} {directory directory' path : Path}
      (hs : (sent.save files directory memId).value = (.ok path, after))
      (hc : there.readFile (Descriptor.filePath directory' memId) = after.readFile path) :
      Conveyed sent memId (Descriptor.load there directory' memId)

theorem Conveyed.intact {sent : Descriptor} {memId : UInt64} {arrived : Except Error Descriptor}
    (h : Conveyed sent memId arrived) : arrived = .ok sent := by
  cases h with
  | text => exact sent.ofJson_toJson
  | @file files after there directory directory' path hs hc =>
    have hl : Descriptor.load there directory' memId = Descriptor.load after directory memId := by
      rw [(Descriptor.save_eq_ok_iff.mp hs).1] at hc
      rw [Descriptor.load, Descriptor.load, FileSystem.readText, FileSystem.readText, hc]
    rw [hl]
    exact Descriptor.load_save hs

-- ---------------------------------------------------------------------
-- The export

structure ImportCommand.Maps (command : ImportCommand) (region : Descriptor) (sizes : List UInt64)
    (reply : Reply) : Prop where
  addr : command.addr = reply.uba.getD 0
  length : command.length.toNat = Operation.sizeSum sizes
  tokenid : command.tokenid = reply.tokenid.getD 0
  seid : command.seid = region.seid
  deid : command.deid = region.deid
  payload : command.payload.getD [] = region.payload
  payloadLength : command.payloadLength.toNat = region.payload.length

theorem Operation.importCommand_maps {region received : Descriptor} {sizes : List UInt64}
    {total : UInt64} {reply : Reply} {scna dcna : UInt32} {payloadLength : UInt16}
    (hs : checkSizes sizes = .ok total) (hp : region.payloadLength = .ok payloadLength)
    (hr : received =
      { exported region (UInt64.ofNat (sizeSum sizes)) (reply.uba.getD 0) (reply.tokenid.getD 0)
        with scna := scna, dcna := dcna })
    (flags : ImportFlags) (distance : UInt8) (numaHint : Option Int32) :
    (importCommand received flags distance numaHint payloadLength).Maps region sizes reply := by
  have ht := ((checkSizes_eq_ok_iff ..).mp hs).2
  have hl : (UInt64.ofNat (sizeSum sizes)).toNat = sizeSum sizes :=
    UInt64.toNat_ofNat_of_lt' (ht ▸ total.toNat_lt)
  subst hr
  refine ⟨rfl, hl, rfl, rfl, rfl, ?_, Payload.toNat_of_length hp⟩
  show (Payload.buffer? region.payload).getD [] = region.payload
  unfold Payload.buffer?
  split
  · rename_i he
    rw [he, Option.getD_none]
  · rfl

theorem Session.perform_export {peers : Peers σ} {session : Session σ} {on : String}
    {sizes : List UInt64} {flags : ExportFlags} {request : Request} {reply : Reply}
    (hs : .submitted request reply ∈
      (session.perform peers (.exportPages on sizes flags)).value.events)
    (hr : reply.refusal = none) :
    let region := session.registers.regions on
    let performed := (session.perform peers (.exportPages on sizes flags)).value
    (∃ total, Operation.checkSizes sizes = .ok total) ∧
      (∃ payloadLength, region.payloadLength = .ok payloadLength) ∧
      performed.result = .ok (.exported (reply.memId.getD 0)) ∧
      performed.session.registers.regions on =
        Operation.exported region (UInt64.ofNat (Operation.sizeSum sizes)) (reply.uba.getD 0)
          (reply.tokenid.getD 0) := by
  intro region performed
  have hc := session.perform_course peers (.exportPages on sizes flags)
  obtain ⟨submission, hp, ho, hn⟩ := hc.accepted hs hr
  cases hp with
  | exportPages ht hp =>
    refine ⟨⟨_, ht⟩, ⟨_, hp⟩, ho, ?_⟩
    rw [hn]
    simp [Call.conclude, Registers.setRegion, region, Submission.returned]

-- ---------------------------------------------------------------------
-- The import

def Flags.hasNamed {family : FlagFamily} (flags : Flags family) (name : String) : Bool :=
  (family.bit? name.toList).any fun bit => flags.has (UInt64.ofNat bit)

structure ImportCommand.Obeys (command : ImportCommand) (flags : ImportFlags) (distance : Int32)
    (numaHint : Option Int32) : Prop where
  memId : command.memId = 0
  numaId : command.numaId = numaHint.getD (-1)
  baseDistance : (command.baseDistance.toNat : Int) =
    if flags.hasNamed "NUMA_REMOTE" && !flags.hasNamed "PREIMPORT" then distance.toInt
    else distance.toInt % 256
  flags : command.flags = flags.bits

/-- The channel can be had over this link, and the vendor then agrees to the command. -/
def Peers.Accepts {kind : Incoming.Kind} (peers : Peers σ) (link : Link σ)
    (incoming : Incoming kind) : Prop :=
  let opened := (peers.connect link).value
  opened.value = .ok () ∧ (peers.fixup incoming opened.link.world).value.1.verdict = .ok ()

namespace Operation

theorem checksDistance_eq (flags : ImportFlags) :
    flags.checksDistance = (flags.hasNamed "NUMA_REMOTE" && !flags.hasNamed "PREIMPORT") := by rfl

theorem toNat_of_importDistance {flags : ImportFlags} {distance : Int32} {byte : UInt8}
    (h : importDistance flags distance = .ok byte) :
    (byte.toNat : Int) = if flags.checksDistance then distance.toInt else distance.toInt % 256 := by
  unfold importDistance at h
  split at h
  · rename_i hc
    rw [if_pos hc]
    exact Distance.toNat_of_check h
  · rename_i hc
    obtain rfl := Except.ok.inj h
    rw [if_neg hc]
    exact Distance.toNat_truncate distance

theorem importDistance_isOk {flags : ImportFlags} {distance : Int32}
    (h : flags.checksDistance = true → 0 ≤ distance.toInt ∧ distance.toInt < 256) :
    ∃ byte, importDistance flags distance = .ok byte := by
  unfold importDistance
  split
  · rename_i hc
    exact ⟨_, if_pos (h hc)⟩
  · exact ⟨_, rfl⟩

end Operation

theorem Session.perform_import {peers : Peers σ} {session : Session σ} {on : String}
    {flags : ImportFlags} {distance : Int32} {numaHint : Option Int32} {byte : UInt8}
    {payloadLength : UInt16} (hk : peers.FixupKeeps Incoming.request)
    (hd : Operation.importDistance flags distance = .ok byte)
    (hp : (session.registers.regions on).payloadLength = .ok payloadLength) :
    let performed := (session.perform peers (.importRegion on flags distance numaHint)).value
    let command := Operation.importCommand (session.registers.regions on) flags byte numaHint
      payloadLength
    (peers.Accepts session.link (.region command) →
      ∃ reply, .submitted (.importRegion command) reply ∈ performed.events) ∧
    ∀ request reply, .submitted request reply ∈ performed.events →
      request = .importRegion command := by
  intro performed command
  have hc := session.perform_course peers (.importRegion on flags distance numaHint)
  refine ⟨fun ha => ?_, fun request reply hs => ?_⟩
  · refine hc.submitted ?_ ha.1 (.of_accepted hk ha.2)
    simp only [Call.prepare, hd, hp]
    rfl
  · obtain ⟨submission, _, _, hp', -, ha⟩ := hc.approved hs
    cases hp' with
    | importRegion hd' hp' =>
      -- the checks give one byte and one length, so there is only one command
      obtain rfl := Except.ok.inj (hd.symm.trans hd')
      obtain rfl := Except.ok.inj (hp.symm.trans hp')
      exact ha.eq_request hk

-- ---------------------------------------------------------------------
-- From node to node

theorem Descriptor.save_at_root (region : Descriptor) :
    ∃ after, (region.save {} ⟨[Path.slash]⟩ 7).value =
      (.ok (Descriptor.filePath ⟨[Path.slash]⟩ 7), after) := by
  have hv : ({} : FileSystem).resolve (Descriptor.filePath ⟨[Path.slash]⟩ 7) .newFile =
      .ok (.vacant [Utf8.encode "memdesc_7.json"]) := by cbv
  exact Descriptor.save_of_vacant (by cbv) hv region

namespace Session

/-- A region that one node has exported arrives intact at the driver of a node that imports it,
whichever of the two ways its descriptor takes and whatever the channel adapters are set to, if the
vendor of the importing node lets the command through as it is. -/
theorem exchange_intact (exporter : Peers σ) (importer : Peers τ) (near : Session σ)
    (far : Session τ) (on there : String) (sizes : List UInt64) (exportFlags : ExportFlags)
    (request : Request) (reply : Reply) (arrived : Except Error Descriptor) (scna dcna : UInt32)
    (flags : ImportFlags) (distance : Int32) (numaHint : Option Int32)
    (hk : importer.FixupKeeps Incoming.request)
    (hs : .submitted request reply ∈
      (near.perform exporter (.exportPages on sizes exportFlags)).value.events)
    (hr : reply.refusal = none)
    (ha : Conveyed
      ((near.perform exporter (.exportPages on sizes exportFlags)).value.session.registers.regions
        on)
      (reply.memId.getD 0) arrived)
    (hf : ∀ received, arrived = .ok received →
      far.registers.regions there = { received with scna := scna, dcna := dcna })
    (hd : flags.hasNamed "NUMA_REMOTE" = true → flags.hasNamed "PREIMPORT" = false →
      0 ≤ distance.toInt ∧ distance.toInt < 256) :
    let exported := (near.perform exporter (.exportPages on sizes exportFlags)).value
    let imported := (far.perform importer (.importRegion there flags distance numaHint)).value
    exported.result = .ok (.exported (reply.memId.getD 0)) ∧
    arrived = .ok (exported.session.registers.regions on) ∧
    ∃ command : ImportCommand,
      command.Maps (near.registers.regions on) sizes reply ∧
      command.scna = scna ∧ command.dcna = dcna ∧ command.Obeys flags distance numaHint ∧
      (importer.Accepts far.link (.region command) →
        ∃ answer, .submitted (.importRegion command) answer ∈ imported.events) ∧
      ∀ request answer, .submitted request answer ∈ imported.events →
        request = .importRegion command := by
  intro exported imported
  obtain ⟨⟨total, ht⟩, ⟨payloadLength, hp⟩, ho, he⟩ := perform_export hs hr
  have hi := hf _ ha.intact
  rw [he] at hi
  obtain ⟨byte, hb⟩ : ∃ byte, Operation.importDistance flags distance = .ok byte := by
    refine Operation.importDistance_isOk fun hc => ?_
    rw [Operation.checksDistance_eq, Bool.and_eq_true, Bool.not_eq_true'] at hc
    exact hd hc.1 hc.2
  have hl : (far.registers.regions there).payloadLength = .ok payloadLength := by
    rw [hi]
    exact hp
  have hm := Operation.importCommand_maps ht hp hi flags byte numaHint
  have hw : (far.registers.regions there).scna = scna ∧
      (far.registers.regions there).dcna = dcna := by
    rw [hi]
    exact ⟨rfl, rfl⟩
  exact ⟨ho, ha.intact, _, hm, hw.1, hw.2, ⟨rfl, rfl, Operation.toNat_of_importDistance hb, rfl⟩,
    perform_import hk hb hl⟩

/-- Through the file of the memory id 7, to a remote NUMA node at the distance 255. -/
theorem exchange_intact_obliging :
    let region : Descriptor := { seid := Eid.ofNat 9, deid := Eid.ofNat 5, payload := [1, 2, 255] }
    let near : Session Unit := ⟨{ regions := fun _ => region }, ⟨{}, ()⟩⟩
    let sent : Descriptor := { region with addr := 4096, length := 8192, tokenid := 99 }
    let far : Session Unit := ⟨{ regions := fun _ => { sent with scna := 16 } }, ⟨{}, ()⟩⟩
    let exported := (near.perform obliging (.exportPages "local" [4096, 4096] ⟨1⟩)).value
    let imported := (far.perform obliging (.importRegion "remote" ⟨4⟩ 255 none)).value
    exported.result = .ok (.exported 7) ∧
    ∃ command answer, .submitted (.importRegion command) answer ∈ imported.events ∧
      command.addr = 4096 ∧ command.length.toNat = 8192 ∧ command.seid = Eid.ofNat 9 ∧
      command.payload.getD [] = [1, 2, 255] ∧ (command.baseDistance.toNat : Int) = 255 := by
  intro region near sent far exported imported
  obtain ⟨after, hw⟩ := sent.save_at_root
  have hl := Descriptor.load_save hw
  obtain ⟨he, -, command, hm, -, -, ho, hs, -⟩ :=
    exchange_intact obliging obliging near far "local" "remote" [4096, 4096] ⟨1⟩ _ _ _ 16 0 ⟨4⟩ 255
      none (obliging_fixup_keeps _) (.tail _ (.tail _ (.head _))) rfl (.file hw rfl)
      (fun received hr => by rw [← Except.ok.inj (hl.symm.trans hr)]) (fun _ _ => by decide)
  obtain ⟨answer, hs⟩ := hs ⟨rfl, rfl⟩
  exact ⟨he, command, answer, hs, hm.addr, hm.length, hm.seid, hm.payload, ho.baseDistance⟩

end Session

end FabricMemory
