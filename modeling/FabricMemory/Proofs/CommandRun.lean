import Mathlib
import FabricMemory.Proofs.Accounting
import FabricMemory.Proofs.Payload
import FabricMemory.Proofs.Script
import FabricMemory.Proofs.Store
import FabricMemory.Proofs.Vetting

/-!
# Exports from the command line

A command comes down to one delivery, and `Asks` says what it may ask the driver for. Main statement
(`run_exported`): a command line whose export the driver has accepted stores the descriptor and
prints the memory id, or fails to store it and says so without the id. It withdraws nothing.
-/

namespace FabricMemory

variable {δ α : Type}

/-- What the driver is handed of an export without a payload. -/
structure ExportCommand.Offers (command : ExportCommand) (deid : Eid) (sizes : List UInt64)
    (flags : ExportFlags) : Prop where
  deid : command.deid = deid
  flags : command.flags = flags.bits
  sizes : command.Counts sizes
  payload : Payload.Whole [] command.payloadLength command.payload

/-- What the driver is handed of a stored region. A channel adapter that is given goes before the
stored one. -/
structure ImportCommand.Fetches (command : ImportCommand) (region : Descriptor)
    (scna dcna : Option UInt32) : Prop where
  addr : command.addr = region.addr
  length : command.length = region.length
  tokenid : command.tokenid = region.tokenid
  seid : command.seid = region.seid
  deid : command.deid = region.deid
  scna : command.scna = scna.getD region.scna
  dcna : command.dcna = dcna.getD region.dcna
  payload : Payload.Whole region.payload command.payloadLength command.payload

namespace Host

variable {root : Path}

theorem connect_device (root : Path) {device : Path} (driver : Driver δ) (host : Host δ)
    (h : host.files.openReadWrite device = .ok ()) :
    ((peers root device driver).connect ⟨{}, host⟩).value =
      ⟨.ok (), [.opened true], ⟨⟨1, some ⟨1⟩⟩, host⟩⟩ := by
  refine (Connects.opened rfl ?_).eq_connect.symm
  simp [peers, peersWith, Backend.device, ControlDevice.openAt, h]

theorem submit_device {device : Path} {driver : Driver δ} {request : Request} {host : Host δ} :
    ((peers root device driver).submit request host).value.1 =
      (driver.submit request host.driver).1 := by
  show (ControlDevice.submit driver request host.driver).value.1 = _
  simp only [ControlDevice.submit, Logged.value_bind]
  split <;> rfl

end Host

namespace CommandLine

open Script

variable {config : Config} {driver : Driver δ} {host : Host δ} {request : Request} {reply : Reply}

-- ---------------------------------------------------------------------
-- How commands run

section

variable {progress : Progress δ}

theorem prints_showControllers (found : List ControllerInfo) :
    Prints (showControllers found : Script δ Unit)
      (["UB bus controllers: " ++ Numeral.decimal found.length] ++
        ([""] ++ found.flatMap Report.controllerLines)) :=
  (prints_print _).append ((prints_print _).append (.forM (fun _ => prints_printAll _) found))

theorem prints_showOwner (tree : ControllerTree) (eid : Eid) (owner : Controller) :
    ∃ lines, Prints (showOwner tree eid owner : Script δ Unit)
      (["EID          : " ++ eid.text] ++ lines) :=
  ⟨_, (prints_print _).append
    ((prints_print _).append ((prints_printAll _).append (prints_print _)))⟩

theorem keeps_events_runControllers (config : Config) :
    Keeps Progress.events (runControllers config : Script δ Unit) :=
  keeps_host.bind fun _ => (prints_showControllers _).keeps_events

theorem keeps_events_runResolve (config : Config) (eid : Eid) :
    Keeps Progress.events (runResolve config eid : Script δ Unit) :=
  keeps_host.bind fun _ => (keeps_attempt _ _).bind fun _ =>
    let ⟨_, h⟩ := prints_showOwner ..
    h.keeps_events

theorem events_printing (operation : Operation α) (context : String) (lines : α → List String)
    (progress : Progress δ) :
    ((printing config driver operation context lines).on progress).2.events =
      ((perform config driver operation context).on progress).2.events :=
  Keeps.on_bind (fun _ => (prints_printAll _).keeps_events) _ progress

theorem keeps_events_storeExported (config : Config) (memId : UInt64) (region : Descriptor) :
    Keeps Progress.events (storeExported config memId region : Script δ Unit) :=
  (keeps_events_store memId region).bind fun _ => (prints_printAll _).keeps_events

theorem events_runExport (config : Config) (driver : Driver δ) (deid : Eid) (seid : Option Eid)
    (sizes : List UInt64) (flags : ExportFlags) (progress : Progress δ) :
    let region : Descriptor := { deid := deid, seid := seid.getD Eid.zero }
    ((runExport config driver deid seid sizes flags).on progress).2.events =
      ((perform config driver ((Operation.exportPages sizes flags).returning region)
        ("export to " ++ deid.text)).on progress).2.events :=
  Keeps.on_bind (fun _ => keeps_events_storeExported _ _ _) _ progress

theorem on_runImport_of_error {memId : UInt64} {scna dcna : Option UInt32}
    {numaHint : Option Int32} {distance : Int32} {flags : ImportFlags} {e : Error}
    (h : Descriptor.load progress.link.world.files config.descriptors memId = .error e) :
    ∃ failure, (runImport config driver memId scna dcna numaHint distance flags).on progress =
      (.error failure, progress) := by
  rw [runImport, on_bind_of_ok on_host, h]
  exact ⟨_, rfl⟩

theorem on_runImport_of_ok {memId : UInt64} {scna dcna : Option UInt32} {numaHint : Option Int32}
    {distance : Int32} {flags : ImportFlags} {region : Descriptor}
    (h : Descriptor.load progress.link.world.files config.descriptors memId = .ok region) :
    (runImport config driver memId scna dcna numaHint distance flags).on progress =
      (importLoaded config driver memId
        { region with scna := scna.getD region.scna, dcna := dcna.getD region.dcna } numaHint
        distance flags).on progress := by
  refine (on_bind_of_ok on_host).trans (on_bind_of_ok ?_)
  rw [on_attempt, h]
  rfl

theorem on_runOwnership_of_error {device : Path} {first last : UInt64} {ownership : Ownership}
    {source : IoError} (h : progress.link.world.files.openReadWrite device = .error source) :
    ∃ failure, (runOwnership config driver device first last ownership).on progress =
      (.error failure, progress) := by
  rw [runOwnership, on_bind_of_ok on_host, h]
  exact ⟨_, rfl⟩

theorem on_runOwnership_of_ok {device : Path} {first last : UInt64} {ownership : Ownership}
    (h : progress.link.world.files.openReadWrite device = .ok ()) :
    (runOwnership config driver device first last ownership).on progress =
      (changeOwnership config driver device first last ownership).on progress := by
  rw [runOwnership, on_bind_of_ok on_host, h]

end

-- ---------------------------------------------------------------------
-- What a command asks for

theorem approved_of_perform {operation : Operation α} {prepared : Prepared} {give : Reply → α}
    (h : Submits (ExceptT.run operation) prepared .error fun reply => .ok (give reply))
    {context : String}
    (hs : .submitted request reply ∈
      ((perform config driver operation context).on (.start host)).2.events) :
    ∃ submission link, prepared = .ok (.ok submission) ∧
      Approved (Host.peers config.sysfsRoot config.device driver) link submission request := by
  obtain ⟨result, events, link, hd, hr⟩ := on_perform_submits h config driver context (.start host)
  rw [hr] at hs
  obtain ⟨submission, _, middle, hp, -, ha⟩ := hd.approved hs
  exact ⟨submission, middle, hp, ha⟩

inductive Command.Asks (config : Config) (host : Host δ) : Command → Request → Prop
  | exportPages {deid : Eid} {seid : Option Eid} {sizes : List UInt64} {flags : ExportFlags}
      {command : ExportCommand} (ho : command.Offers deid sizes flags) :
      Asks config host (.exportPages deid seid sizes flags) (.exportPages command)
  | endExport {memId : UInt64} {flags : UnexportFlags} :
      Asks config host (.endExport memId flags) (.endExport ⟨memId, flags.bits⟩)
  | importRegion {memId : UInt64} {scna dcna : Option UInt32} {numaHint : Option Int32}
      {distance : Int32} {flags : ImportFlags} {region : Descriptor} {command : ImportCommand}
      (hl : Descriptor.load host.files config.descriptors memId = .ok region)
      (hf : command.Fetches region scna dcna) (ho : command.Obeys flags distance numaHint) :
      Asks config host (.importRegion memId scna dcna numaHint distance flags)
        (.importRegion command)
  | endImport {memId : UInt64} {flags : UnimportFlags} :
      Asks config host (.endImport memId flags) (.endImport ⟨memId, flags.bits⟩)
  | addressOf {memId offset : UInt64} :
      Asks config host (.addressOf memId offset) (.query
        { keyType := QueryCommand.byOffset, memId := memId, offset := offset })
  | regionAt {pa : UInt64} :
      Asks config host (.regionAt pa) (.query { keyType := QueryCommand.byAddress, pa := pa })

theorem notMem_setOwnership {first last : UInt64} {ownership : Ownership} {context : String} :
    .submitted request reply ∉ ((perform config driver
      (Operation.setOwnership first last ownership) context).on (.start host)).2.events := by
  obtain ⟨link, hr⟩ :=
    on_perform_setOwnership config driver first last ownership context (.start host)
  rw [hr]
  simp

theorem Command.asks_of_submitted {command : Command}
    (hs : .submitted request reply ∈ ((command.run config driver).on (.start host)).2.events) :
    command.Asks config host request := by
  cases command with
  | controllers =>
    rw [run, keeps_events_runControllers] at hs
    cases hs
  | resolve eid =>
    rw [run, keeps_events_runResolve] at hs
    cases hs
  | exportPages deid seid sizes flags =>
    rw [run, events_runExport] at hs
    obtain ⟨submission, link, hp, ha⟩ :=
      approved_of_perform (Operation.exportPages_submits ..).returning hs
    obtain ⟨total, ht, hp⟩ := bind_eq_ok hp
    obtain ⟨payloadLength, hl, hp⟩ := bind_eq_ok hp
    cases hp
    cases ha
    have hs := ((Operation.checkSizes_eq_ok_iff ..).mp ht).1
    exact .exportPages
      ⟨rfl, rfl, Operation.pagesCommand_counts hs .., Payload.whole_of_length hl⟩
  | endExport memId flags =>
    rw [run, events_printing] at hs
    obtain ⟨submission, link, hp, ha⟩ := approved_of_perform (Operation.endExport_submits ..) hs
    obtain ⟨_, -, hp⟩ := bind_eq_ok hp
    cases hp
    cases ha
    exact .endExport
  | importRegion memId scna dcna numaHint distance flags =>
    cases hl : Descriptor.load (Progress.start host).link.world.files config.descriptors memId with
    | error e =>
      obtain ⟨failure, hr⟩ := on_runImport_of_error hl
      rw [run, hr] at hs
      cases hs
    | ok region =>
      rw [run, on_runImport_of_ok hl, importLoaded, events_printing] at hs
      obtain ⟨submission, link, hp, ha⟩ := approved_of_perform (Operation.importRegion_submits ..) hs
      obtain ⟨baseDistance, hd, hp⟩ := bind_eq_ok hp
      obtain ⟨payloadLength, hn, hp⟩ := bind_eq_ok hp
      cases hp
      obtain rfl := (Host.approved_vetted_iff.mp ha).2
      exact .importRegion hl ⟨rfl, rfl, rfl, rfl, rfl, rfl, rfl, Payload.whole_of_length hn⟩
        ⟨rfl, rfl, Operation.toNat_of_importDistance hd, rfl⟩
  | endImport memId flags =>
    rw [run, events_printing] at hs
    obtain ⟨submission, link, hp, ha⟩ := approved_of_perform (Operation.endImport_submits ..) hs
    obtain ⟨_, -, hp⟩ := bind_eq_ok hp
    cases hp
    cases ha
    exact .endImport
  | addressOf memId offset =>
    rw [run, events_printing] at hs
    obtain ⟨submission, link, hp, ha⟩ := approved_of_perform (Operation.addressOf_submits ..) hs
    cases hp
    cases ha
    exact .addressOf
  | regionAt pa =>
    rw [run, events_printing] at hs
    obtain ⟨submission, link, hp, ha⟩ := approved_of_perform (Operation.regionAt_submits ..) hs
    cases hp
    cases ha
    exact .regionAt
  | setOwnership device first last ownership =>
    cases ho : (Progress.start host).link.world.files.openReadWrite device with
    | error source =>
      obtain ⟨failure, hr⟩ := on_runOwnership_of_error ho
      rw [run, hr] at hs
      cases hs
    | ok =>
      rw [run, on_runOwnership_of_ok ho, changeOwnership, events_printing] at hs
      exact absurd hs notMem_setOwnership

theorem asks_of_run {environment : Environment} {arguments : List String}
    (hs : .submitted request reply ∈ (run environment driver host arguments).events) :
    ∃ invocation, Invocation.parse arguments = .ok invocation ∧
      run environment driver host arguments =
        (invocation.command.run (invocation.config environment) driver).ran host ∧
      .submitted request reply ∈
        ((invocation.command.run (invocation.config environment) driver).on
          (.start host)).2.events ∧
      invocation.command.Asks (invocation.config environment) host request := by
  cases hp : Invocation.parse arguments with
  | error stop =>
    simp only [run, hp] at hs
    cases stop <;> cases hs
  | ok invocation =>
    have hn : run environment driver host arguments =
        (invocation.command.run (invocation.config environment) driver).ran host := by
      simp only [run, hp]
    rw [hn, events_ran] at hs
    exact ⟨invocation, rfl, hn, hs, Command.asks_of_submitted hs⟩

-- ---------------------------------------------------------------------
-- Storing what was exported

theorem on_storeExported_of_ok {memId : UInt64} {region : Descriptor} {progress : Progress δ}
    {path : Path} {files : FileSystem}
    (h : (region.save progress.link.world.files config.descriptors memId).value =
      (.ok path, files)) :
    (storeExported config memId region).on progress =
      (.ok (), (progress.withFiles files).printed (Report.exportedLines memId region path)) := by
  have hs : (store config memId region).on progress = (.ok path, progress.withFiles files) := by
    rw [on_store, h]
    rfl
  exact (on_bind_of_ok hs).trans (prints_printAll _ _)

theorem on_storeExported_of_error {memId : UInt64} {region : Descriptor} {progress : Progress δ}
    {e : Error} {files : FileSystem}
    (h : (region.save progress.link.world.files config.descriptors memId).value =
      (.error e, files)) :
    (storeExported config memId region).on progress =
      (.error (.ofError "store descriptor" e), progress.withFiles files) := by
  refine on_bind_of_error ?_
  rw [on_store, h]
  rfl

theorem storeExported_cases (config : Config) (memId : UInt64) (region : Descriptor)
    (progress : Progress δ) :
    let saved := (region.save progress.link.world.files config.descriptors memId).value.1
    ∃ after,
      (∃ path rest, saved = .ok path ∧
        (storeExported config memId region).on progress = (.ok (), after) ∧
        after.output =
          progress.output ++ ("mem_id     : " ++ Numeral.decimal memId.toNat ++ "\n" ++ rest) ∧
        Descriptor.load after.link.world.files config.descriptors memId = .ok region) ∨
      ∃ source, saved = .error (.io source) ∧
        (storeExported config memId region).on progress =
          (.error (.ofError "store descriptor" (.io source)), after) ∧
        after.output = progress.output := by
  intro saved
  rcases hs : (region.save progress.link.world.files config.descriptors memId).value
    with ⟨e | path, files⟩
  · obtain ⟨source, rfl⟩ := Descriptor.io_of_save hs
    exact ⟨_, .inr ⟨source, by simp only [saved, hs], on_storeExported_of_error hs, rfl⟩⟩
  · exact ⟨_, .inl ⟨path, _, by simp only [saved, hs], on_storeExported_of_ok hs,
      by rw [Progress.output_printed, Report.exportedLines, Report.lines_cons]; rfl,
      Descriptor.load_save hs⟩⟩

def exportedRegion (deid : Eid) (seid : Option Eid) (sizes : List UInt64) (reply : Reply) :
    Descriptor :=
  Operation.exported { deid := deid, seid := seid.getD Eid.zero }
    (UInt64.ofNat (Operation.sizeSum sizes)) (reply.uba.getD 0) (reply.tokenid.getD 0)

theorem runExport_delivered (config : Config) (driver : Driver δ) (deid : Eid) (seid : Option Eid)
    (sizes : List UInt64) (flags : ExportFlags) (progress : Progress δ) :
    let region : Descriptor := { deid := deid, seid := seid.getD Eid.zero }
    let script := runExport config driver deid seid sizes flags
    ∃ result events link,
      Delivered (Host.peers config.sysfsRoot config.device driver) progress.link
        (do
          let _ ← Operation.checkSizes sizes
          let payloadLength ← region.payloadLength
          return .ok (.adapted region fun adaptation =>
            .exportPages (Operation.pagesCommand sizes flags region payloadLength adaptation)))
        ⟨result, events, link⟩ ∧
      (script.on progress).2.events = progress.events ++ events ∧
      let delivered : Progress δ :=
        { progress with link := link, events := progress.events ++ events }
      script.on progress =
        match result with
        | .error e => (.error (.ofError ("export to " ++ deid.text) e), delivered)
        | .ok reply => (storeExported config (reply.memId.getD 0)
          (exportedRegion deid seid sizes reply)).on delivered := by
  intro region script
  obtain ⟨result, events, link, hd, hr⟩ := on_perform_submits
    (Operation.exportPages_submits sizes flags region).returning config driver
    ("export to " ++ deid.text) progress
  refine ⟨result, events, link, hd, ?_, ?_⟩
  · rw [events_runExport, hr]
  · show (runExport config driver deid seid sizes flags).on progress = _
    rw [runExport, on_bind, hr]
    cases result <;> rfl

theorem runExport_accepted {deid : Eid} {seid : Option Eid} {sizes : List UInt64}
    {flags : ExportFlags}
    (hs : .submitted request reply ∈
      ((runExport config driver deid seid sizes flags).on (.start host)).2.events)
    (hr : reply.refusal = none) :
    let script := runExport config driver deid seid sizes flags
    (∃ delivered, delivered.link.world.files = host.files ∧ delivered.output = "" ∧
      script.on (.start host) = (storeExported config (reply.memId.getD 0)
        (exportedRegion deid seid sizes reply)).on delivered) ∧
    ∀ other answer, .submitted other answer ∈ (script.on (.start host)).2.events →
      other = request ∧ answer = reply := by
  obtain ⟨result, events, link, hd, he, hn⟩ :=
    runExport_delivered config driver deid seid sizes flags (.start host)
  rw [Progress.events_start, List.nil_append] at he
  rw [he] at hs
  obtain rfl : result = .ok reply := by
    obtain ⟨submission, _, _, hp, -⟩ := hd.approved hs
    have hv := (hp ▸ hd).settled hs
    obtain ⟨total, -, hp⟩ := bind_eq_ok hp
    obtain ⟨payloadLength, -, hp⟩ := bind_eq_ok hp
    cases hp
    rw [hv, (reply.verdict_eq_ok_iff _).mpr hr]
    rfl
  refine ⟨⟨_, Host.files_of_delivered hd, rfl, hn⟩, fun other answer ho => ?_⟩
  rw [he] at ho
  exact hd.only hs ho

/-- A command line whose export was accepted stores the descriptor and prints the memory id, or
fails for what kept it from storing and shows no id. In neither case is the export withdrawn. -/
theorem run_exported {environment : Environment} {arguments : List String}
    {command : ExportCommand}
    (hs : .submitted (.exportPages command) reply ∈
      (run environment driver host arguments).events)
    (hr : reply.refusal = none) :
    let ran := run environment driver host arguments
    let memId := reply.memId.getD 0
    ∃ invocation deid seid sizes flags,
      Invocation.parse arguments = .ok invocation ∧
      invocation.command = .exportPages deid seid sizes flags ∧
      (∀ request answer, .submitted request answer ∈ ran.events →
        request = .exportPages command ∧ answer = reply) ∧
      let directory := (invocation.config environment).descriptors
      let region := exportedRegion deid seid sizes reply
      let saved := (region.save host.files directory memId).value.1
      (∃ path rest, saved = .ok path ∧ ran.code = 0 ∧ ran.errors = "" ∧
        ran.output = "mem_id     : " ++ Numeral.decimal memId.toNat ++ "\n" ++ rest ∧
        Descriptor.load ran.host.files directory memId = .ok region) ∨
      ∃ source, saved = .error (.io source) ∧ ran.code = 1 ∧ ran.output = "" ∧
        ran.errors = (Failure.ofError "store descriptor" (.io source)).text := by
  intro ran memId
  obtain ⟨⟨paths, asked⟩, hp, hn, hs, ha⟩ := asks_of_run hs
  cases ha with
  | @exportPages deid seid sizes flags =>
    obtain ⟨⟨delivered, hf, hq, he⟩, ho⟩ := runExport_accepted hs hr
    refine ⟨_, deid, seid, sizes, flags, hp, rfl, fun request answer hm => ?_, ?_⟩
    · simp only [ran, hn, events_ran] at hm
      exact ho request answer hm
    · have hc := storeExported_cases
        (Invocation.config ⟨paths, .exportPages deid seid sizes flags⟩ environment) memId
        (exportedRegion deid seid sizes reply) delivered
      rw [hf, hq] at hc
      obtain ⟨after, ⟨path, rest, hv, ht, hw, hl⟩ | ⟨source, hv, ht, hw⟩⟩ := hc
      · rw [show ran = _ from hn.trans (ran_of_ok (he.trans ht))]
        refine .inl ⟨path, rest, hv, rfl, rfl, ?_, hl⟩
        rw [hw, String.empty_append]
      · rw [show ran = _ from hn.trans (ran_of_error (he.trans ht))]
        exact .inr ⟨source, hv, rfl, hw, rfl⟩

def answering (reply : Reply) : Driver Unit where
  submit _ state := (reply, state)
  update _ state := (none, state)

/-- An export to the only controller, one of whose files stands for the device. -/
def exportingTo (directory : String) : List String :=
  ["--sysfs-root", "/", "--device", "/ub_bus_controller0/u/ubc", "--desc-dir", directory, "export",
    "--eid", "7", "--size", "4096"]

def soleHost : Host Unit := ⟨(ControllerTree.sole "7" "5").files, ()⟩

def soleConfig (directory : String) : Config :=
  ⟨.ofString "/", .ofString "/ub_bus_controller0/u/ubc", .ofString directory⟩

def soleExport (directory : String) (reply : Reply) : Script Unit Unit :=
  runExport (soleConfig directory) (answering reply) (Eid.ofNat 7) none [4096] ⟨0⟩

def soleInvocation (directory : String) : Invocation :=
  ⟨⟨some (.ofString "/"), some (.ofString "/ub_bus_controller0/u/ubc"),
    some (.ofString directory)⟩, .exportPages (Eid.ofNat 7) none [4096] ⟨0⟩⟩

theorem run_sole {directory : String} {reply : Reply}
    (hp : Invocation.parse (exportingTo directory) = .ok (soleInvocation directory)) :
    run [] (answering reply) soleHost (exportingTo directory) =
      (soleExport directory reply).ran soleHost := by
  simp only [run, hp]
  rfl

theorem submitted_sole (directory : String) (reply : Reply) :
    ∃ command, .submitted (.exportPages command) reply ∈
      ((soleExport directory reply).on (.start soleHost)).2.events := by
  let config := soleConfig directory
  obtain ⟨result, events, link, hd, he, -⟩ := runExport_delivered config (answering reply)
    (Eid.ofNat 7) none [4096] ⟨0⟩ (.start soleHost)
  rw [Progress.link_start] at hd
  have ho : soleHost.files.openReadWrite config.device = .ok () := by cbv
  have hc := Host.connect_device config.sysfsRoot (answering reply) soleHost ho
  obtain ⟨answer, hs⟩ := Delivered.submitted hd (by rw [hc]) (.adapted (by
    rw [hc]
    exact ControllerTree.adapt_sole))
  obtain ⟨world, rfl⟩ := hd.answered hs
  rw [Host.submit_device] at hs
  rw [soleExport, he]
  exact ⟨_, hs⟩

theorem save_at_sole {region : Descriptor} :
    ∃ path after, (region.save soleHost.files (.ofString "/") 7).value = (.ok path, after) := by
  have hv : soleHost.files.resolve (Descriptor.filePath (.ofString "/") 7) .newFile =
      .ok (.vacant [Utf8.encode "memdesc_7.json"]) := by cbv
  exact ⟨_, Descriptor.save_of_vacant (by cbv) hv region⟩

theorem save_at_file {region : Descriptor} {memId : UInt64} :
    (region.save soleHost.files (.ofString "/ub_bus_controller0/u/numa") memId).value.1 =
      .error (.io (.system Errno.exists_)) := by
  have hm : soleHost.files.makeDirectories (.ofString "/ub_bus_controller0/u/numa") =
      (.error (.system Errno.exists_), soleHost.files) := by cbv
  rw [Descriptor.save, hm]
  rfl

/-- The root serves as the directory of descriptors. -/
theorem run_exported_stored :
    let ran := run [] (answering { memId := some 7 }) soleHost (exportingTo "/")
    (∃ command, .submitted (.exportPages command) { memId := some 7 } ∈ ran.events) ∧
      ran.code = 0 ∧ ran.errors = "" ∧ ∃ region : Descriptor, region.deid = Eid.ofNat 7 ∧
        region.length = 4096 ∧ Descriptor.load ran.host.files (.ofString "/") 7 = .ok region := by
  intro ran
  have hp : Invocation.parse (exportingTo "/") = .ok (soleInvocation "/") := by decide +kernel
  obtain ⟨command, hs⟩ := submitted_sole "/" { memId := some 7 }
  rw [← events_ran, ← run_sole hp] at hs
  obtain ⟨invocation, deid, seid, sizes, flags, hi, hc, -, hr⟩ := run_exported hs rfl
  obtain rfl := Except.ok.inj (hi.symm.trans hp)
  cases hc
  obtain ⟨path, rest, -, hz, he, -, hl⟩ | ⟨source, hv, -⟩ := hr
  · exact ⟨⟨command, hs⟩, hz, he, _, rfl, rfl, hl⟩
  · obtain ⟨path, after, hk⟩ := save_at_sole
    cases (congrArg Prod.fst hk).symm.trans hv

/-- In place of the directory there is a file. The driver has accepted the export, but nothing that
is shown tells the memory id, and nothing is withdrawn. -/
theorem run_exported_lost :
    let ran := run [] (answering { memId := some 4711 }) soleHost
      (exportingTo "/ub_bus_controller0/u/numa")
    (∃ command, .submitted (.exportPages command) { memId := some 4711 } ∈ ran.events) ∧
      (∀ command reply, .submitted (.endExport command) reply ∉ ran.events) ∧ ran.code = 1 ∧
      ¬ "4711".toList <:+: ran.output.toList ∧ ¬ "4711".toList <:+: ran.errors.toList := by
  intro ran
  have hp : Invocation.parse (exportingTo "/ub_bus_controller0/u/numa") =
      .ok (soleInvocation "/ub_bus_controller0/u/numa") := by decide +kernel
  obtain ⟨command, hs⟩ :=
    submitted_sole "/ub_bus_controller0/u/numa" { memId := some 4711 }
  obtain ⟨⟨delivered, hf, hq, he⟩, ho⟩ := runExport_accepted hs rfl
  have hc := storeExported_cases (soleConfig "/ub_bus_controller0/u/numa") 4711
    (exportedRegion (Eid.ofNat 7) none [4096] { memId := some 4711 }) delivered
  rw [hf, hq] at hc
  obtain ⟨after, ⟨path, rest, hk, -⟩ | ⟨source, hk, ht, hw⟩⟩ := hc
  · cases save_at_file.symm.trans hk
  · obtain ⟨⟨⟩⟩ := save_at_file.symm.trans hk
    have hn := he.trans ht
    have hr := (run_sole hp).trans (ran_of_error hn)
    rw [soleExport, hn] at hs
    rw [hn] at ho
    simp only [ran, hr, hw]
    refine ⟨⟨command, hs⟩, fun _ reply hm => ?_, trivial, by decide +kernel, ?_⟩
    · cases (ho _ reply hm).1
    · rw [Failure.ofError, Error.source?, Option.toList,
        text_of_lines (by decide +kernel) (by decide +kernel)]
      decide +kernel

end CommandLine

end FabricMemory
