import Mathlib
import FabricMemory.Proofs.CommandRun
import FabricMemory.Proofs.Invocation

/-!
# Output of the command line

A command line prints if and only if it succeeds. One that asks a driver for something asks once at
most, and where it succeeds the driver has accepted what the arguments write and it is the driver's
answer that is shown (`run_all_or_nothing`).
-/

namespace FabricMemory

variable {δ α : Type}

namespace CommandLine

open Script

variable {config : Config} {driver : Driver δ} {host : Host δ}

-- ---------------------------------------------------------------------
-- What every command keeps to

namespace Command

/-- All that a command prints comes after what may fail. -/
theorem allOrNothing (config : Config) (driver : Driver δ) (command : Command) :
    AllOrNothing (command.run config driver) := by
  cases command with
  | controllers =>
    exact .bind keeps_host fun _ => (prints_showControllers _).allOrNothing (by simp)
  | resolve eid =>
    refine .bind keeps_host fun host => .bind (keeps_attempt _ _) fun owner => ?_
    obtain ⟨lines, h⟩ := prints_showOwner (host.tree config.sysfsRoot) eid owner
    exact h.allOrNothing (by simp)
  | exportPages deid seid sizes flags =>
    exact .bind (keeps_output_perform _) fun _ => .bind (keeps_output_store _ _) fun _ =>
      (prints_printAll _).allOrNothing (by simp [Report.exportedLines])
  | importRegion memId scna dcna numaHint distance flags =>
    exact .bind keeps_host fun _ => .bind (keeps_attempt _ _) fun _ => .printing _ (by simp)
  | setOwnership device first last ownership =>
    refine .bind keeps_host fun host => ?_
    cases host.files.openReadWrite device with
    | error source => exact .throw _
    | ok => exact .printing _ (by simp)
  | endExport | endImport | addressOf | regionAt => exact .printing _ (by simp)

/-- What is read beforehand and what is stored or shown afterwards asks the driver for nothing. -/
theorem asksOnce (config : Config) (driver : Driver δ) (command : Command) :
    AsksOnce (command.run config driver) := by
  cases command with
  | controllers => exact .of_keeps (keeps_events_runControllers config)
  | resolve eid => exact .of_keeps (keeps_events_runResolve config eid)
  | exportPages deid seid sizes flags =>
    exact (AsksOnce.perform (Operation.exportPages_submits ..).returning).bind_right
      fun _ => keeps_events_storeExported _ _ _
  | endExport memId flags => exact .printing (Operation.endExport_submits ..)
  | importRegion memId scna dcna numaHint distance flags =>
    exact .bind_left keeps_host fun _ => .bind_left (keeps_attempt _ _) fun _ =>
      .printing (Operation.importRegion_submits ..)
  | endImport memId flags => exact .printing (Operation.endImport_submits ..)
  | addressOf memId offset => exact .printing (Operation.addressOf_submits ..)
  | regionAt pa => exact .printing (Operation.regionAt_submits ..)
  | setOwnership device first last ownership =>
    refine .bind_left keeps_host fun host => ?_
    cases host.files.openReadWrite device with
    | error source => exact .of_keeps fun _ => rfl
    | ok =>
      exact (AsksOnce.setOwnership first last ownership).bind_right fun _ =>
        (prints_printAll _).keeps_events

-- ---------------------------------------------------------------------
-- What a driver has accepted

def asksDriver : Command → Bool
  | .controllers | .resolve _ => false
  | _ => true

def answerLines (config : Config) (reply : Reply) : Command → List String
  | .exportPages _ _ sizes _ =>
    ["mem_id     : " ++ Numeral.decimal (reply.memId.getD 0).toNat,
     "uba        : " ++ Numeral.hex (reply.uba.getD 0).toNat,
     "length     : " ++ Numeral.hex (Operation.sizeSum sizes),
     "tokenid    : " ++ Numeral.decimal (reply.tokenid.getD 0).toNat,
     "descriptor : " ++
        (Descriptor.filePath config.descriptors (reply.memId.getD 0)).display]
  | .endExport memId _ => ["Unexported " ++ Numeral.decimal memId.toNat]
  | .importRegion _ _ _ numaHint _ _ =>
    ["mem_id : " ++ Numeral.decimal (reply.memId.getD 0).toNat,
     "numa   : " ++
        Numeral.decimalInt (reply.numaId.getD (numaHint.getD Operation.noNode)).toInt]
  | .endImport memId _ => ["Unimported " ++ Numeral.decimal memId.toNat]
  | .addressOf _ _ => [Numeral.hex (reply.pa.getD 0).toNat]
  | .regionAt _ =>
    ["mem_id " ++ Numeral.decimal (reply.memId.getD 0).toNat ++ " offset " ++
      Numeral.hex (reply.offset.getD 0).toNat]
  | .controllers | .resolve _ | .setOwnership .. => []

def wantedState : Ownership → UInt64
  | .none => 9
  | .read => 0
  | .readWrite => 4

/-- What a driver has accepted of a command, made of the arguments, and what is then printed. The
reply is the driver's own. -/
inductive Accepted (config : Config) (driver : Driver δ) (host : Host δ) :
    Command → Event → List String → Prop
  | submitted {command : Command} {request : Request} {reply : Reply} {state : δ}
      (ha : command.Asks config host request) (hs : reply = (driver.submit request state).1)
      (hr : reply.refusal = none) :
      Accepted config driver host command (.submitted request reply)
        (command.answerLines config reply)
  | updated {device : Path} {first last : UInt64} {ownership : Ownership} {state : δ}
      {range : RangeUpdate} (ho : host.files.openReadWrite device = .ok ())
      (hr : range = ⟨first, last, wantedState ownership, 0⟩)
      (hu : (driver.update range state).1 = none) :
      Accepted config driver host (.setOwnership device first last ownership)
        (.updated range none)
        [device.display ++ " " ++ Operation.rangeText first last ++ ": " ++ ownership.text]

def Fulfilled (config : Config) (driver : Driver δ) (host : Host δ) (command : Command)
    (events : List Event) (output : String) : Prop :=
  ∃ event shown, asked events = [event] ∧ command.Accepted config driver host event shown ∧
    output = Report.lines shown

variable {command : Command} {after : Progress δ} {prepared : Prepared} {reply : Reply}
  {events : List Event} {link : Link (Host δ)}

def Shows (config : Config) (command : Command) (prepared : Prepared) : Prop :=
  ∀ submission reply, prepared = .ok (.ok submission) →
    command.answerLines config (submission.settled reply) = command.answerLines config reply

theorem fulfilled_of_delivered
    (hd : Delivered (Host.peers config.sysfsRoot config.device driver) ⟨{}, host⟩ prepared
      ⟨.ok reply, events, link⟩)
    (hp : command.Shows config prepared)
    (ho : (command.run config driver).on (.start host) = (.ok (), after))
    (he : after.events = events)
    (hl : after.output = Report.lines (command.answerLines config reply)) :
    Fulfilled config driver host command after.events after.output := by
  obtain ⟨submission, request, reply, rfl, ha, hr, rfl⟩ := hd.asked_of_ok
  have hm := mem_of_asked ha
  obtain ⟨world, hw⟩ := hd.answered hm
  rw [Host.submit_device] at hw
  have hs := hd.returned_eq hm (Host.fixup_keeps _ _ _) (Host.cleanup_keeps _ _ _)
  rw [hs, hp _ _ rfl] at hl
  rw [← he] at ha hm
  exact ⟨_, _, ha, .submitted (asks_of_submitted (by rwa [ho])) hw hr, hl⟩

theorem fulfilled_of_printing {operation : Operation α} {give : Reply → α} {context : String}
    {lines : α → List String}
    (h : Submits (ExceptT.run operation) prepared .error fun reply => .ok (give reply))
    (hp : command.Shows config prepared)
    (hr : (command.run config driver).on (.start host) =
      (printing config driver operation context lines).on (.start host))
    (hl : ∀ reply, lines (give reply) = command.answerLines config reply)
    (ho : (command.run config driver).on (.start host) = (.ok (), after)) :
    Fulfilled config driver host command after.events after.output := by
  obtain ⟨result, events, link, hd, hn⟩ := on_perform_submits h config driver context (.start host)
  cases result with
  | error e => cases (hr.trans (on_bind_of_error hn)).symm.trans ho
  | ok reply =>
    cases (hr.trans ((on_bind_of_ok hn).trans (prints_printAll _ _))).symm.trans ho
    refine fulfilled_of_delivered hd hp ho rfl ?_
    rw [← hl]
    exact String.empty_append

theorem fulfilled_of_exportPages {deid : Eid} {seid : Option Eid} {sizes : List UInt64}
    {flags : ExportFlags}
    (ho : (run config driver (.exportPages deid seid sizes flags)).on (.start host) =
      (.ok (), after)) :
    Fulfilled config driver host (.exportPages deid seid sizes flags) after.events
      after.output := by
  obtain ⟨result, events, link, hd, -, hr⟩ :=
    runExport_delivered config driver deid seid sizes flags (.start host)
  cases result with
  | error e => cases hr.symm.trans ho
  | ok reply =>
    have hs := hr.symm.trans ho
    rcases hv : ((exportedRegion deid seid sizes reply).save link.world.files config.descriptors
      (reply.memId.getD 0)).value with ⟨e | path, files⟩
    · cases (on_storeExported_of_error hv).symm.trans hs
    · cases (on_storeExported_of_ok hv).symm.trans hs
      obtain ⟨rfl, -⟩ := Descriptor.save_eq_ok_iff.mp hv
      obtain ⟨submission, request, _, hp, -⟩ := hd.asked_of_ok
      obtain ⟨total, ht, -⟩ := bind_eq_ok hp
      have hl : (UInt64.ofNat (Operation.sizeSum sizes)).toNat = Operation.sizeSum sizes := by
        rw [← ((Operation.checkSizes_eq_ok_iff ..).mp ht).2, UInt64.ofNat_toNat]
      refine fulfilled_of_delivered hd (fun submission reply hp => ?_) ho rfl ?_
      · obtain ⟨_, -, hp⟩ := bind_eq_ok hp
        obtain ⟨_, -, hp⟩ := bind_eq_ok hp
        cases hp
        rfl
      rw [answerLines, ← hl]
      exact String.empty_append

theorem fulfilled_of_setOwnership {device : Path} {first last : UInt64} {ownership : Ownership}
    (hd : host.files.openReadWrite device = .ok ())
    (ho : (changeOwnership config driver device first last ownership).on (.start host) =
      (.ok (), after)) :
    Fulfilled config driver host (.setOwnership device first last ownership) after.events
      after.output := by
  obtain ⟨link, hr⟩ := on_perform_setOwnership config driver first last ownership
    ("set " ++ Operation.rangeText first last ++ " to " ++ ownership.text) (.start host)
  cases hu : (driver.update (Operation.rangeUpdate first last ownership) host.driver).1 with
  | some source =>
    simp only [Progress.link_start, hu] at hr
    cases (on_bind_of_error hr).symm.trans ho
  | none =>
    simp only [Progress.link_start, hu] at hr
    cases ((on_bind_of_ok hr).trans (prints_printAll _ _)).symm.trans ho
    have hr : Operation.rangeUpdate first last ownership =
        ⟨first, last, wantedState ownership, 0⟩ := by
      cases ownership <;> rfl
    exact ⟨_, _, rfl, .updated hd hr hu, String.empty_append⟩

theorem fulfilled_of_ok (hc : command.asksDriver)
    (ho : (command.run config driver).on (.start host) = (.ok (), after)) :
    Fulfilled config driver host command after.events after.output := by
  cases command with
  | controllers | resolve => cases hc
  | exportPages => exact fulfilled_of_exportPages ho
  | endExport =>
    exact fulfilled_of_printing (Operation.endExport_submits ..) (fun _ _ _ => rfl) rfl
      (fun _ => rfl) ho
  | importRegion memId scna dcna numaHint distance flags =>
    cases hl : Descriptor.load (Progress.start host).link.world.files config.descriptors memId with
    | error e =>
      obtain ⟨failure, hr⟩ := on_runImport_of_error hl
      cases hr.symm.trans ho
    | ok region =>
      refine fulfilled_of_printing (Operation.importRegion_submits ..) (fun submission reply hp => ?_)
        (on_runImport_of_ok hl) (fun _ => rfl) ho
      obtain ⟨_, -, hp⟩ := bind_eq_ok hp
      obtain ⟨_, -, hp⟩ := bind_eq_ok hp
      cases hp
      rfl
  | endImport =>
    exact fulfilled_of_printing (Operation.endImport_submits ..) (fun _ _ _ => rfl) rfl
      (fun _ => rfl) ho
  | addressOf =>
    refine fulfilled_of_printing (Operation.addressOf_submits ..) (fun _ _ hp => ?_) rfl
      (fun _ => rfl) ho
    cases hp
    rfl
  | regionAt =>
    refine fulfilled_of_printing (Operation.regionAt_submits ..) (fun _ _ hp => ?_) rfl
      (fun _ => rfl) ho
    cases hp
    rfl
  | setOwnership device first last ownership =>
    cases hd : (Progress.start host).link.world.files.openReadWrite device with
    | error source =>
      obtain ⟨failure, hr⟩ := on_runOwnership_of_error hd
      cases hr.symm.trans ho
    | ok => exact fulfilled_of_setOwnership hd ((on_runOwnership_of_ok hd).symm.trans ho)

end Command

-- ---------------------------------------------------------------------
-- Whole command lines

/-- A command line prints if and only if it ends with code 0. Its command is the one that the
arguments write. Where that asks a driver for something, the command line either ends with code 0,
having asked once and been accepted, and shows the answer, or it ends with code 1 and has asked once
at most. -/
theorem run_all_or_nothing (environment : Environment) (driver : Driver δ) (host : Host δ)
    (arguments : List String) :
    let ran := run environment driver host arguments
    (ran.output ≠ "" ↔ ran.code = 0) ∧
      ∀ invocation, Invocation.parse arguments = .ok invocation →
        invocation.Written arguments ∧
        (invocation.command.asksDriver →
          (ran.code = 0 ∧ invocation.command.Fulfilled (invocation.config environment) driver host
            ran.events ran.output) ∨
          (ran.code = 1 ∧ (asked ran.events).length ≤ 1)) := by
  intro ran
  cases hp : Invocation.parse arguments with
  | error stop =>
    refine ⟨?_, fun invocation hi => nomatch hi⟩
    simp only [ran, run, hp]
    cases stop with
    | usage => simp
    | help | version => exact iff_of_true (Report.lines_ne_empty (by simp)) rfl
  | ok invocation =>
    have hr : ran =
        (invocation.command.run (invocation.config environment) driver).ran host := by
      simp only [ran, run, hp]
    refine ⟨?_, ?_⟩
    · rw [hr]
      exact (invocation.command.allOrNothing ..).ran host
    · rintro _ ⟨⟩
      refine ⟨Invocation.written_of_parse hp, fun hc => ?_⟩
      rcases hs : (invocation.command.run (invocation.config environment) driver).on
        (.start host) with ⟨failure | ⟨⟩, after⟩
      · obtain ⟨events, he, hl⟩ := invocation.command.asksOnce (invocation.config environment)
          driver (.start host)
        rw [hs, Progress.events_start, List.nil_append] at he
        rw [hr, ran_of_error hs]
        exact .inr ⟨rfl, by rwa [he]⟩
      · rw [hr, ran_of_ok hs]
        exact .inl ⟨rfl, Command.fulfilled_of_ok hc hs⟩

theorem run_all_or_nothing_exported :
    let ran := run [] (answering { memId := some 7 }) soleHost (exportingTo "/")
    ran.output ≠ "" ∧ ran.code = 0 ∧
      (∃ command : ExportCommand, command.Offers (Eid.ofNat 7) [4096] ⟨0⟩ ∧
        asked ran.events = [.submitted (.exportPages command) { memId := some 7 }]) ∧
      ran.output = Report.lines
        ["mem_id     : 7", "uba        : 0x0", "length     : 0x1000", "tokenid    : 0",
          "descriptor : /memdesc_7.json"] := by
  intro ran
  have hp : Invocation.parse (exportingTo "/") = .ok (soleInvocation "/") := by decide +kernel
  obtain ⟨command, hs⟩ := submitted_sole "/" { memId := some 7 }
  obtain ⟨⟨delivered, hf, -, he⟩, -⟩ := runExport_accepted hs rfl
  have hv : ∃ path files, ((exportedRegion (Eid.ofNat 7) none [4096] { memId := some 7 }).save
      delivered.link.world.files (soleConfig "/").descriptors 7).value = (.ok path, files) := by
    rw [hf]
    exact save_at_sole
  obtain ⟨path, files, hv⟩ := hv
  have hr : ran = _ := (run_sole hp).trans (ran_of_ok (he.trans (on_storeExported_of_ok hv)))
  have hz : ran.code = 0 := by rw [hr]
  obtain ⟨hi, hc⟩ := run_all_or_nothing [] (answering { memId := some 7 }) soleHost
    (exportingTo "/")
  obtain ⟨-, event, shown, ha, hx, ho⟩ | ⟨hn, -⟩ := (hc _ hp).2 rfl
  · rw [← events_ran, ← run_sole hp] at hs
    have hm : .submitted (.exportPages command) { memId := some 7 } ∈ asked ran.events :=
      List.mem_filter.mpr ⟨hs, rfl⟩
    rw [ha, List.mem_singleton] at hm
    subst hm
    cases hx with
    | submitted hq =>
      cases hq with
      | exportPages hq =>
        refine ⟨hi.mpr hz, hz, ⟨command, hq, ha⟩, ho.trans (congrArg Report.lines ?_)⟩
        decide +kernel
  · cases hz.symm.trans hn

end CommandLine

end FabricMemory
