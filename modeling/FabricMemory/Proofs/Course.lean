import FabricMemory.Proofs.Delivery
import FabricMemory.Session

/-!
# How a call goes

`Call.prepare` says what a call checks before the channel is asked for, what only then, and what it
submits; `Call.conclude` what it makes of what comes back. `perform_course`: a call runs a `Course`
made of these, and nothing else happens. Only setting an ownership goes past the channel.
-/

namespace FabricMemory

variable {σ β : Type}

namespace Call

def prepare (registers : Registers) : Call → Option Prepared
  | .exportPages on sizes flags => some do
    let region := registers.regions on
    let _ ← Operation.checkSizes sizes
    let payloadLength ← region.payloadLength
    return .ok (.adapted region fun adaptation =>
      .exportPages (Operation.pagesCommand sizes flags region payloadLength adaptation))
  | .exportRange on pid va length flags => some do
    let region := registers.regions on
    let payloadLength ← region.payloadLength
    return .ok (.adapted region fun adaptation =>
      .exportRange (Operation.rangeCommand pid va length flags region payloadLength adaptation))
  | .importRegion on flags distance numaHint => some do
    let region := registers.regions on
    let distance ← Operation.importDistance flags distance
    let payloadLength ← region.payloadLength
    return .ok (.vetted (.region
      (Operation.importCommand region flags distance numaHint payloadLength)))
  | .endExport memId flags => some do
    Operation.checkMemId memId
    return .ok (.plain (.endExport ⟨memId, flags.bits⟩))
  | .endImport memId flags => some do
    Operation.checkMemId memId
    return .ok (.plain (.endImport ⟨memId, flags.bits⟩))
  | .declareWindow on flags => some do
    let window := registers.windows on
    let distance ← Distance.check window.baseDistance
    return do
      let payloadLength ← window.payloadLength
      return .vetted (.window (Operation.windowCommand window flags distance payloadLength))
  | .withdrawWindow on flags => some (.ok do
    let window := registers.windows on
    let payloadLength ← window.payloadLength
    let distance := Distance.truncate window.baseDistance
    return .plain (.withdrawWindow (Operation.windowCommand window flags distance payloadLength)))
  | .regionAt pa =>
    some (.ok (.ok (.plain (.query { keyType := QueryCommand.byAddress, pa := pa }))))
  | .addressOf memId offset =>
    some (.ok (.ok (.plain (.query
      { keyType := QueryCommand.byOffset, memId := memId, offset := offset }))))
  | .setOwnership .. => none

/-- What a call gives, and the registers as it leaves them, once the driver has accepted and by what
has come back. -/
def conclude (registers : Registers) (reply : Reply) : Call → Outcome × Registers
  | .exportPages on sizes _ =>
    (.exported (reply.memId.getD 0), registers.setRegion on
      (Operation.exported (registers.regions on) (UInt64.ofNat (Operation.sizeSum sizes))
        (reply.uba.getD 0) (reply.tokenid.getD 0)))
  | .exportRange on _ _ length _ =>
    (.exported (reply.memId.getD 0), registers.setRegion on
      (Operation.exported (registers.regions on) length (reply.uba.getD 0)
        (reply.tokenid.getD 0)))
  | .importRegion _ _ _ numaHint =>
    (.imported ⟨reply.memId.getD 0, reply.numaId.getD (numaHint.getD Operation.noNode)⟩, registers)
  | .declareWindow on _ =>
    let window := registers.windows on
    (.done, registers.setWindow on { window with numaId := reply.numaId.getD window.numaId })
  | .regionAt _ => (.region (reply.memId.getD 0) (reply.offset.getD 0), registers)
  | .addressOf .. => (.address (reply.pa.getD 0), registers)
  | .endExport .. | .endImport .. | .withdrawWindow .. | .setOwnership .. => (.done, registers)

inductive Prepares (registers : Registers) : Call → Submission → Prop
  | exportPages {on : String} {sizes : List UInt64} {flags : ExportFlags} {total : UInt64}
      {payloadLength : UInt16} (hs : Operation.checkSizes sizes = .ok total)
      (hp : (registers.regions on).payloadLength = .ok payloadLength) :
      Prepares registers (.exportPages on sizes flags)
        (.adapted (registers.regions on) fun adaptation => .exportPages
          (Operation.pagesCommand sizes flags (registers.regions on) payloadLength adaptation))
  | exportRange {on : String} {pid : Int32} {va length : UInt64} {flags : ExportFlags}
      {payloadLength : UInt16}
      (hp : (registers.regions on).payloadLength = .ok payloadLength) :
      Prepares registers (.exportRange on pid va length flags)
        (.adapted (registers.regions on) fun adaptation => .exportRange (Operation.rangeCommand
          pid va length flags (registers.regions on) payloadLength adaptation))
  | importRegion {on : String} {flags : ImportFlags} {distance : Int32} {numaHint : Option Int32}
      {baseDistance : UInt8} {payloadLength : UInt16}
      (hd : Operation.importDistance flags distance = .ok baseDistance)
      (hp : (registers.regions on).payloadLength = .ok payloadLength) :
      Prepares registers (.importRegion on flags distance numaHint)
        (.vetted (.region (Operation.importCommand (registers.regions on) flags baseDistance
          numaHint payloadLength)))
  | endExport {memId : UInt64} {flags : UnexportFlags} (hm : memId ≠ 0) :
      Prepares registers (.endExport memId flags) (.plain (.endExport ⟨memId, flags.bits⟩))
  | endImport {memId : UInt64} {flags : UnimportFlags} (hm : memId ≠ 0) :
      Prepares registers (.endImport memId flags) (.plain (.endImport ⟨memId, flags.bits⟩))
  | declareWindow {on : String} {flags : WindowFlags} {baseDistance : UInt8}
      {payloadLength : UInt16}
      (hd : Distance.check (registers.windows on).baseDistance = .ok baseDistance)
      (hp : (registers.windows on).payloadLength = .ok payloadLength) :
      Prepares registers (.declareWindow on flags)
        (.vetted (.window (Operation.windowCommand (registers.windows on) flags baseDistance
          payloadLength)))
  | withdrawWindow {on : String} {flags : WindowFlags} {payloadLength : UInt16}
      (hp : (registers.windows on).payloadLength = .ok payloadLength) :
      Prepares registers (.withdrawWindow on flags)
        (.plain (.withdrawWindow (Operation.windowCommand (registers.windows on) flags
          (Distance.truncate (registers.windows on).baseDistance) payloadLength)))
  | regionAt {pa : UInt64} :
      Prepares registers (.regionAt pa) (.plain (.query
        { keyType := QueryCommand.byAddress, pa := pa }))
  | addressOf {memId offset : UInt64} :
      Prepares registers (.addressOf memId offset) (.plain (.query
        { keyType := QueryCommand.byOffset, memId := memId, offset := offset }))

theorem checkMemId_ne {memId : UInt64} {u : Unit} (h : Operation.checkMemId memId = .ok u) :
    memId ≠ 0 := by
  rintro rfl
  cases h

theorem prepares {registers : Registers} {call : Call} {submission : Submission}
    (h : call.prepare registers = some (.ok (.ok submission))) :
    call.Prepares registers submission := by
  cases call with
  | exportPages on sizes flags =>
    obtain ⟨total, hs, h⟩ := bind_eq_ok (Option.some.inj h)
    obtain ⟨payloadLength, hp, h⟩ := bind_eq_ok h
    cases h
    exact .exportPages hs hp
  | exportRange on pid va length flags =>
    obtain ⟨payloadLength, hp, h⟩ := bind_eq_ok (Option.some.inj h)
    cases h
    exact .exportRange hp
  | importRegion on flags distance numaHint =>
    obtain ⟨baseDistance, hd, h⟩ := bind_eq_ok (Option.some.inj h)
    obtain ⟨payloadLength, hp, h⟩ := bind_eq_ok h
    cases h
    exact .importRegion hd hp
  | endExport memId flags =>
    obtain ⟨_, hm, h⟩ := bind_eq_ok (Option.some.inj h)
    cases h
    exact .endExport (checkMemId_ne hm)
  | endImport memId flags =>
    obtain ⟨_, hm, h⟩ := bind_eq_ok (Option.some.inj h)
    cases h
    exact .endImport (checkMemId_ne hm)
  | declareWindow on flags =>
    obtain ⟨baseDistance, hd, h⟩ := bind_eq_ok (Option.some.inj h)
    obtain ⟨payloadLength, hp, h⟩ := bind_eq_ok (Except.ok.inj h)
    cases h
    exact .declareWindow hd hp
  | withdrawWindow on flags =>
    obtain ⟨payloadLength, hp, h⟩ := bind_eq_ok (Except.ok.inj (Option.some.inj h))
    cases h
    exact .withdrawWindow hp
  | regionAt pa =>
    cases h
    exact .regionAt
  | addressOf memId offset =>
    cases h
    exact .addressOf
  | setOwnership => cases h

theorem Prepares.prepare {registers : Registers} {call : Call} {submission : Submission}
    (h : call.Prepares registers submission) :
    call.prepare registers = some (.ok (.ok submission)) := by
  cases h with
  | exportPages hs hp =>
    simp only [Call.prepare, hs, hp]
    rfl
  | exportRange hp | withdrawWindow hp =>
    simp only [Call.prepare, hp]
    rfl
  | importRegion hd hp | declareWindow hd hp =>
    simp only [Call.prepare, hd, hp]
    rfl
  | endExport hm | endImport hm =>
    simp only [Call.prepare, Operation.checkMemId, if_neg hm]
    rfl
  | regionAt | addressOf => rfl

end Call

def Move.call? : Move σ → Option Call
  | .call made => some made
  | .change _ => none

inductive Course (peers : Peers σ) (session : Session σ) (call : Call) : Performed σ → Prop
  | failed {prepared : Prepared} {e : Error} {events : List Event} {after : Link σ}
      (hp : call.prepare session.registers = some prepared)
      (hd : Delivered peers session.link prepared ⟨.error e, events, after⟩) :
      Course peers session call ⟨.error e, events, ⟨session.registers, after⟩⟩
  | succeeded {prepared : Prepared} {reply : Reply} {events : List Event} {after : Link σ}
      (hp : call.prepare session.registers = some prepared)
      (hd : Delivered peers session.link prepared ⟨.ok reply, events, after⟩) :
      Course peers session call
        ⟨.ok (call.conclude session.registers reply).1, events,
          ⟨(call.conclude session.registers reply).2, after⟩⟩
  | updated {first last : UInt64} {ownership : Ownership} {world : σ}
      (hc : call = .setOwnership first last ownership)
      (hu : peers.update (Operation.rangeUpdate first last ownership) session.link.world =
        (none, world)) :
      Course peers session call
        ⟨.ok .done, [.updated (Operation.rangeUpdate first last ownership) none],
          ⟨session.registers, ⟨session.link.cache, world⟩⟩⟩
  | refused {first last : UInt64} {ownership : Ownership} {source : IoError} {world : σ}
      (hc : call = .setOwnership first last ownership)
      (hu : peers.update (Operation.rangeUpdate first last ownership) session.link.world =
        (some source, world)) :
      Course peers session call
        ⟨.error (.driver RangeUpdate.requestName source),
          [.updated (Operation.rangeUpdate first last ownership) (some source)],
          ⟨session.registers, ⟨session.link.cache, world⟩⟩⟩

theorem Course.approved {peers : Peers σ} {session : Session σ} {call : Call}
    {performed : Performed σ} {request : Request} {reply : Reply}
    (h : Course peers session call performed) (hs : .submitted request reply ∈ performed.events) :
    ∃ submission opening middle, call.Prepares session.registers submission ∧
      Connects peers session.link ⟨.ok (), opening, middle⟩ ∧
      Approved peers middle submission request := by
  cases h with
  | failed hp hd | succeeded hp hd =>
    obtain ⟨submission, opening, middle, rfl, hc, ha⟩ := hd.approved hs
    exact ⟨submission, opening, middle, call.prepares hp, hc, ha⟩
  | updated | refused => simp at hs

theorem Course.submitted {peers : Peers σ} {session : Session σ} {call : Call}
    {performed : Performed σ} {submission : Submission} {request : Request}
    (h : Course peers session call performed)
    (hp : call.prepare session.registers = some (.ok (.ok submission)))
    (ho : (peers.connect session.link).value.value = .ok ())
    (ha : Approved peers (peers.connect session.link).value.link submission request) :
    ∃ reply, .submitted request reply ∈ performed.events := by
  cases h with
  | failed hp' hd | succeeded hp' hd =>
    obtain rfl := Option.some.inj (hp'.symm.trans hp)
    exact hd.submitted ho ha
  | updated hc | refused hc =>
    subst hc
    cases hp

theorem Course.accepted {peers : Peers σ} {session : Session σ} {call : Call}
    {performed : Performed σ} {request : Request} {reply : Reply}
    (h : Course peers session call performed) (hs : .submitted request reply ∈ performed.events)
    (hr : reply.refusal = none) :
    ∃ submission, call.Prepares session.registers submission ∧
      let returned := submission.returned performed.events reply
      performed.result = .ok (call.conclude session.registers returned).1 ∧
        performed.session.registers = (call.conclude session.registers returned).2 := by
  have hv := (reply.verdict_eq_ok_iff request.name).mpr hr
  cases h with
  | failed hp hd =>
    obtain ⟨submission, _, _, rfl, -⟩ := hd.approved hs
    have he := hd.settled hs
    rw [hv] at he
    cases he
  | succeeded hp hd =>
    obtain ⟨submission, _, _, rfl, -⟩ := hd.approved hs
    have he := hd.settled hs
    rw [hv] at he
    cases he
    exact ⟨submission, call.prepares hp, rfl, rfl⟩
  | updated | refused => simp at hs

/-- The reply to what a call submits is the driver's own. -/
theorem Course.answered {peers : Peers σ} {session : Session σ} {call : Call}
    {performed : Performed σ} {request : Request} {reply : Reply}
    (h : Course peers session call performed) (hs : .submitted request reply ∈ performed.events) :
    ∃ world, reply = (peers.submit request world).value.1 := by
  cases h with
  | failed hp hd | succeeded hp hd => exact hd.answered hs
  | updated | refused => simp at hs

theorem Course.succeeds {peers : Peers σ} {session : Session σ} {call : Call}
    {performed : Performed σ} {request : Request} {reply : Reply}
    (h : Course peers session call performed) (hs : .submitted request reply ∈ performed.events)
    (hd : ∀ request world, (peers.submit request world).value.1.refusal = none) :
    ∃ returned, performed.result = .ok (call.conclude session.registers returned).1 := by
  obtain ⟨world, rfl⟩ := h.answered hs
  obtain ⟨submission, -, ho, -⟩ := h.accepted hs (hd request world)
  exact ⟨_, ho⟩

theorem Course.of_prepare {peers : Peers σ} {session : Session σ} {call : Call}
    {performed : Performed σ} {prepared : Prepared} (h : Course peers session call performed)
    (hp : call.prepare session.registers = some prepared) :
    ∃ result, Delivered peers session.link prepared
        ⟨result, performed.events, performed.session.link⟩ ∧
      performed.result = result.map (fun reply => (call.conclude session.registers reply).1) ∧
      performed.session.registers =
        match result with
        | .ok reply => (call.conclude session.registers reply).2
        | .error _ => session.registers := by
  cases h with
  | failed hp' hd | succeeded hp' hd =>
    obtain rfl := Option.some.inj (hp'.symm.trans hp)
    exact ⟨_, hd, rfl, rfl⟩
  | updated hc | refused hc =>
    subst hc
    cases hp

-- ---------------------------------------------------------------------
-- Operations

namespace Registers

@[simp] theorem setRegion_self (registers : Registers) (name : String) :
    registers.setRegion name (registers.regions name) = registers := by
  cases registers
  simp only [setRegion, mk.injEq, and_true]
  funext other
  split
  · rename_i h
    rw [h]
  · rfl

@[simp] theorem setWindow_self (registers : Registers) (name : String) :
    registers.setWindow name (registers.windows name) = registers := by
  cases registers
  simp only [setWindow, mk.injEq, true_and]
  funext other
  split
  · rename_i h
    rw [h]
  · rfl

end Registers

namespace Operation

theorem exportPages_submits (sizes : List UInt64) (flags : ExportFlags) (region : Descriptor) :
    Submits ((exportPages sizes flags).on region)
      (do
        let _ ← checkSizes sizes
        let payloadLength ← region.payloadLength
        return .ok (.adapted region fun adaptation =>
          .exportPages (pagesCommand sizes flags region payloadLength adaptation)))
      (fun e => (.error e, region))
      fun reply => (.ok (reply.memId.getD 0),
        exported region (UInt64.ofNat (sizeSum sizes)) (reply.uba.getD 0)
          (reply.tokenid.getD 0)) := by
  simp only [exportPages, InPlace.on_get_bind, InPlace.on_lift_bind, run_check]
  refine .check fun total hs => .check fun payloadLength hp => .connected rfl fun reply => ?_
  have ht : UInt64.ofNat (sizeSum sizes) = total := by
    rw [← ((checkSizes_eq_ok_iff ..).mp hs).2, UInt64.ofNat_toNat]
  rw [ht]
  exact .log .done

theorem exportRange_submits (pid : Int32) (va length : UInt64) (flags : ExportFlags)
    (region : Descriptor) :
    Submits ((exportRange pid va length flags).on region)
      (do
        let payloadLength ← region.payloadLength
        return .ok (.adapted region fun adaptation =>
          .exportRange (rangeCommand pid va length flags region payloadLength adaptation)))
      (fun e => (.error e, region))
      fun reply => (.ok (reply.memId.getD 0),
        exported region length (reply.uba.getD 0) (reply.tokenid.getD 0)) := by
  simp only [exportRange, InPlace.on_get_bind, InPlace.on_lift_bind, run_check]
  exact .check fun payloadLength hp => .connected rfl fun reply => .log .done

theorem declareWindow_submits (flags : WindowFlags) (window : Window) :
    Submits ((declareWindow flags).on window)
      (do
        let distance ← Distance.check window.baseDistance
        return do
          let payloadLength ← window.payloadLength
          return .vetted (.window (windowCommand window flags distance payloadLength)))
      (fun e => (.error e, window))
      fun reply => (.ok (), { window with numaId := reply.numaId.getD window.numaId }) := by
  simp only [declareWindow, InPlace.on_get_bind, InPlace.on_lift_bind, run_check]
  refine .check fun distance hd => ?_
  cases window.payloadLength with
  | error e => exact .connected rfl fun reply => .done
  | ok payloadLength =>
    refine .vetted (fun reply =>
      let window := { window with numaId := reply.numaId.getD window.numaId }
      .ask (.log ⟨.info, declaredText window⟩) fun _ => .done (.ok (), window)) ?_
      fun reply => .log .done
    rintro ⟨command⟩
    rfl

theorem importRegion_submits (region : Descriptor) (flags : ImportFlags) (distance : Int32)
    (numaHint : Option Int32) :
    Submits (ExceptT.run (importRegion region flags distance numaHint))
      (do
        let distance ← importDistance flags distance
        let payloadLength ← region.payloadLength
        return .ok (.vetted (.region
          (importCommand region flags distance numaHint payloadLength))))
      .error
      fun reply => .ok ⟨reply.memId.getD 0, reply.numaId.getD (numaHint.getD noNode)⟩ := by
  simp only [importRegion, run_bind, run_check]
  refine .check fun distance hd => .check fun payloadLength hp => .vetted (fun reply =>
    let imported : Imported := ⟨reply.memId.getD 0, reply.numaId.getD (numaHint.getD noNode)⟩
    .ask (.log ⟨.info, importedText region imported⟩) fun _ => .done (.ok imported)) ?_
    fun reply => .log .done
  rintro ⟨command⟩
  rfl

theorem endExport_submits (memId : UInt64) (flags : UnexportFlags) :
    Submits (ExceptT.run (endExport memId flags))
      (do
        checkMemId memId
        return .ok (.plain (.endExport ⟨memId, flags.bits⟩)))
      .error fun _ => .ok () := by
  simp only [endExport, run_bind, run_check]
  exact .check fun _ _ => .connected rfl fun reply => .log .done

theorem endImport_submits (memId : UInt64) (flags : UnimportFlags) :
    Submits (ExceptT.run (endImport memId flags))
      (do
        checkMemId memId
        return .ok (.plain (.endImport ⟨memId, flags.bits⟩)))
      .error fun _ => .ok () := by
  simp only [endImport, run_bind, run_check]
  exact .check fun _ _ => .connected rfl fun reply => .log .done

theorem withdrawWindow_submits (window : Window) (flags : WindowFlags) :
    Submits (ExceptT.run (withdrawWindow window flags))
      (.ok do
        let payloadLength ← window.payloadLength
        let distance := Distance.truncate window.baseDistance
        return .plain (.withdrawWindow (windowCommand window flags distance payloadLength)))
      .error fun _ => .ok () := by
  simp only [withdrawWindow, run_bind, run_check]
  cases window.payloadLength with
  | error e => exact .connected rfl fun reply => .done
  | ok payloadLength => exact .connected rfl fun reply => .log .done

theorem regionAt_submits (pa : UInt64) :
    Submits (ExceptT.run (regionAt pa))
      (.ok (.ok (.plain (.query { keyType := QueryCommand.byAddress, pa := pa }))))
      .error fun reply => .ok (reply.memId.getD 0, reply.offset.getD 0) := by
  simp only [regionAt, run_bind]
  exact .connected rfl fun reply => .done

theorem addressOf_submits (memId offset : UInt64) :
    Submits (ExceptT.run (addressOf memId offset))
      (.ok (.ok (.plain (.query
        { keyType := QueryCommand.byOffset, memId := memId, offset := offset }))))
      .error fun reply => .ok (reply.pa.getD 0) := by
  simp only [addressOf, run_bind]
  exact .connected rfl fun reply => .done

end Operation

-- ---------------------------------------------------------------------
-- Calls

theorem Submits.lifted {operation : Operation β} {prepared : Prepared} {give : Reply → β}
    (h : Submits (ExceptT.run operation) prepared .error fun reply => .ok (give reply))
    (outcome : β → Outcome) (registers : Registers) :
    Submits (InPlace.on (liftM operation >>= fun b => pure (outcome b)) registers) prepared
      (fun e => (.error e, registers)) fun reply => (.ok (outcome (give reply)), registers) := by
  rw [InPlace.on_lift_bind]
  exact h.bind (fun e => rfl) fun reply => .done

theorem Submits.returning {ρ : Type} {procedure : InPlace ρ β} {value : ρ} {prepared : Prepared}
    {give : Reply → β} {left : Reply → ρ}
    (h : Submits (procedure.on value) prepared (fun e => (.error e, value))
      fun reply => (.ok (give reply), left reply)) :
    Submits (ExceptT.run (procedure.returning value)) prepared .error
      fun reply => .ok (give reply, left reply) :=
  h.bind (fun _ => rfl) fun _ => .done

theorem Submits.placed {ρ : Type} {procedure : InPlace ρ β} {get : Registers → ρ}
    {put : Registers → ρ → Registers} {registers : Registers} {prepared : Prepared}
    {give : Reply → β} {after : Reply → ρ}
    (h : Submits (procedure.on (get registers)) prepared
      (fun e => (.error e, get registers)) fun reply => (.ok (give reply), after reply))
    (hg : put registers (get registers) = registers) (outcome : β → Outcome) :
    Submits (InPlace.on (procedure.within get put >>= fun b => pure (outcome b)) registers) prepared
      (fun e => (.error e, registers))
      fun reply => (.ok (outcome (give reply)), put registers (after reply)) := by
  rw [InPlace.on_bind, InPlace.on_within, Dialogue.bind_assoc]
  refine h.bind (fun e => ?_) fun reply => .done
  show Dialogue.done _ = _
  rw [hg]

theorem Call.operation_submits (registers : Registers) (call : Call) {prepared : Prepared}
    (hp : call.prepare registers = some prepared) :
    Submits (call.operation.on registers) prepared (fun e => (.error e, registers))
      fun reply =>
        (.ok (call.conclude registers reply).1, (call.conclude registers reply).2) := by
  cases call with
  | exportPages on sizes flags =>
    obtain rfl := Option.some.inj hp
    exact (Operation.exportPages_submits ..).placed (registers.setRegion_self on) Outcome.exported
  | exportRange on pid va length flags =>
    obtain rfl := Option.some.inj hp
    exact (Operation.exportRange_submits ..).placed (registers.setRegion_self on) Outcome.exported
  | importRegion on flags distance numaHint =>
    obtain rfl := Option.some.inj hp
    rw [Call.operation, InPlace.on_get_bind]
    exact (Operation.importRegion_submits ..).lifted Outcome.imported registers
  | endExport memId flags =>
    obtain rfl := Option.some.inj hp
    exact (Operation.endExport_submits ..).lifted (fun _ => Outcome.done) registers
  | endImport memId flags =>
    obtain rfl := Option.some.inj hp
    exact (Operation.endImport_submits ..).lifted (fun _ => Outcome.done) registers
  | declareWindow on flags =>
    obtain rfl := Option.some.inj hp
    exact (Operation.declareWindow_submits ..).placed (registers.setWindow_self on) fun _ => .done
  | withdrawWindow on flags =>
    obtain rfl := Option.some.inj hp
    rw [Call.operation, InPlace.on_get_bind]
    exact (Operation.withdrawWindow_submits ..).lifted (fun _ => Outcome.done) registers
  | regionAt pa =>
    obtain rfl := Option.some.inj hp
    exact (Operation.regionAt_submits ..).lifted (fun found => Outcome.region found.1 found.2)
      registers
  | addressOf memId offset =>
    obtain rfl := Option.some.inj hp
    exact (Operation.addressOf_submits ..).lifted Outcome.address registers
  | setOwnership first last ownership => cases hp

-- ---------------------------------------------------------------------
-- Every call takes its course

theorem Operation.run_setOwnership (first last : UInt64) (ownership : Ownership) :
    ∃ line : LogLine, ∃ finish : Option IoError → Dialogue (Except Error Unit),
      ExceptT.run (setOwnership first last ownership) =
          .ask (.log line) (fun _ => .ask (.update (rangeUpdate first last ownership)) finish) ∧
        (finish none).Says (.ok ()) ∧
        ∀ source, (finish (some source)).Says (.error (.driver RangeUpdate.requestName source)) :=
  ⟨_, _, rfl, .done, fun _ => .log .done⟩

namespace Session

theorem perform_course (peers : Peers σ) (session : Session σ) (call : Call) :
    Course peers session call (session.perform peers call).value := by
  unfold perform
  simp only [Logged.value_bind, Logged.value_pure]
  cases hp : call.prepare session.registers with
  | some prepared =>
    rw [(call.operation_submits session.registers hp).run]
    have hd := deliver_delivered peers session.link prepared
    generalize ((ExceptT.run (Operation.deliver prepared)).run peers session.link).value = ran
      at hd ⊢
    obtain ⟨e | reply, events, after⟩ := ran
    · exact .failed hp hd
    · exact .succeeded hp hd
  | none =>
    -- an ownership, which no channel carries
    cases call with
    | setOwnership first last ownership =>
      obtain ⟨line, finish, hr, ho, he⟩ := Operation.run_setOwnership first last ownership
      rw [Call.operation, InPlace.on_lift_bind, hr, Dialogue.value_run_either, InPlace.on_pure]
      rcases hu : peers.update (Operation.rangeUpdate first last ownership) session.link.world
        with ⟨_ | source, world⟩
      · simpa [Dialogue.run, Peers.answer, hu, ho.run] using Course.updated rfl hu
      · simpa [Dialogue.run, Peers.answer, hu, (he _).run] using Course.refused rfl hu
    | _ => cases hp

-- ---------------------------------------------------------------------
-- Runs

@[simp] theorem value_play_nil (peers : Peers σ) (session : Session σ) :
    (session.play peers []).value = ⟨[], session⟩ := by rfl

@[simp] theorem value_play_change (peers : Peers σ) (session : Session σ) (change : σ → σ)
    (rest : List (Move σ)) :
    (session.play peers (.change change :: rest)).value =
      ((session.changeWorld change).play peers rest).value := by rfl

@[simp] theorem value_play_call (peers : Peers σ) (session : Session σ) (call : Call)
    (rest : List (Move σ)) :
    (session.play peers (.call call :: rest)).value =
      let performed := (session.perform peers call).value
      let played := (performed.session.play peers rest).value
      ⟨⟨call, session, performed⟩ :: played.steps, played.session⟩ := by rfl

theorem calls_play (peers : Peers σ) (session : Session σ) (moves : List (Move σ)) :
    (session.play peers moves).value.steps.map (·.call) = moves.filterMap Move.call? := by
  induction moves generalizing session with
  | nil => rfl
  | cons move rest ih =>
    cases move with
    | change change =>
      rw [value_play_change, ih]
      rfl
    | call call =>
      rw [value_play_call, List.map_cons, ih]
      rfl

theorem play_performed {peers : Peers σ} {session : Session σ} {moves : List (Move σ)}
    {step : Step σ} (h : step ∈ (session.play peers moves).value.steps) :
    step.performed = (step.before.perform peers step.call).value := by
  induction moves generalizing session with
  | nil => simp at h
  | cons move rest ih =>
    cases move with
    | change change => exact ih h
    | call call =>
      rw [value_play_call, List.mem_cons] at h
      obtain rfl | h := h
      · rfl
      · exact ih h

theorem play_course {peers : Peers σ} {session : Session σ} {moves : List (Move σ)}
    {step : Step σ} (h : step ∈ (session.play peers moves).value.steps) :
    Course peers step.before step.call step.performed := by
  rw [play_performed h]
  exact perform_course ..

/-- Nodes whose vendor agrees and whose driver exports at 4096 under the memory id 7. -/
def obliging : Peers Unit where
  openChannel _ := return (.ok (), ())
  adapt _ _ := return (.ok ⟨⟨8, true⟩, 1⟩, ())
  fixup incoming _ := return (⟨.ok (), incoming⟩, ())
  cleanup incoming _ := return (incoming, ())
  submit _ _ := return ({ uba := some 4096, memId := some 7, tokenid := some 99 }, ())
  update _ _ := (none, ())

theorem obliging_fixup_keeps {α : Type} (view : ∀ {kind : Incoming.Kind}, Incoming kind → α) :
    obliging.FixupKeeps view := fun _ _ => rfl

end Session

end FabricMemory
