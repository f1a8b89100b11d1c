import FabricMemory.Proofs.Course

/-!
# What calls write

A call writes the region or the window it works on in place, and only once the driver has accepted
(`Step.Framed`). A failed call writes nothing, whatever the driver wrote before it refused. What a
register holds after a run is therefore told by the accepted calls on it alone. The node of a window
goes through the vendor's hands: it is the driver's choice (`Step.Chosen`) where the vendor leaves it
to the driver (`Peers.LeavesNode`).
-/

namespace FabricMemory

variable {σ : Type}

def Event.reply? : Event → Option Reply
  | .submitted _ reply => some reply
  | _ => none

namespace Call

def region? : Call → Option String
  | .exportPages on .. | .exportRange on .. => some on
  | _ => none

def window? : Call → Option String
  | .declareWindow on .. => some on
  | _ => none

def writeRegion (reply : Reply) (region : Descriptor) : Call → Descriptor
  | .exportPages _ sizes _ =>
    { region with
      addr := reply.uba.getD 0
      tokenid := reply.tokenid.getD 0
      length := UInt64.ofNat (Operation.sizeSum sizes)
      scna := 0
      dcna := 0 }
  | .exportRange _ _ _ length _ =>
    { region with
      addr := reply.uba.getD 0
      tokenid := reply.tokenid.getD 0
      length := length
      scna := 0
      dcna := 0 }
  | _ => region

def writeWindow (returned : Reply) (window : Window) : Call → Window
  | .declareWindow .. => { window with numaId := returned.numaId.getD window.numaId }
  | _ => window

end Call

def Incoming.numaId {kind : Incoming.Kind} : Incoming kind → Int32
  | .region command => command.numaId
  | .window command => command.numaId

/-- The vendor leaves the NUMA node of a command to the driver, as a host's does
(`Host.fixup_keeps`, `Host.cleanup_keeps`). -/
structure Peers.LeavesNode (peers : Peers σ) : Prop where
  fixup : peers.FixupKeeps Incoming.numaId
  cleanup : peers.CleanupKeeps Incoming.numaId

namespace Step

def accepted (step : Step σ) : Bool := step.performed.result.isOk

def reply (step : Step σ) : Reply := (step.performed.events.findSome? Event.reply?).getD {}

/-- What came back of the command of the step: if it was vetted, its outputs as the vendor left
them. -/
def returned (step : Step σ) : Reply :=
  (step.performed.events.findSome? Event.outputs?).getD step.reply

/-- An accepted call writes what it works on in place, from what came back, and nothing else. What
comes back of an export is the driver's reply. -/
structure Framed (step : Step σ) : Prop where
  regions (name : String) : step.performed.session.registers.regions name =
    if step.call.region? = some name then
      step.call.writeRegion step.reply (step.before.registers.regions name)
    else step.before.registers.regions name
  windows (name : String) : step.performed.session.registers.windows name =
    if step.call.window? = some name then
      step.call.writeWindow step.returned (step.before.registers.windows name)
    else step.before.registers.windows name
  /-- The length is the sum itself, not the sum cut off. -/
  length (on : String) (sizes : List UInt64) (flags : ExportFlags)
    (h : step.call = .exportPages on sizes flags) :
    (step.performed.session.registers.regions on).length.toNat = Operation.sizeSum sizes
  reply (hc : step.call.region?.isSome ∨ step.call.window?.isSome) :
    ∃ request, .submitted request step.reply ∈ step.performed.events ∧ step.reply.refusal = none

/-- The node of a declared window is the driver's choice. A driver that makes none leaves it. -/
def Chosen (step : Step σ) : Prop :=
  ∀ name, step.call.window? = some name →
    (step.performed.session.registers.windows name).numaId =
      step.reply.numaId.getD (step.before.registers.windows name).numaId

def writesRegion (name : String) (step : Step σ) : Bool :=
  step.accepted && step.call.region? == some name

def writesWindow (name : String) (step : Step σ) : Bool :=
  step.accepted && step.call.window? == some name

end Step

-- ---------------------------------------------------------------------
-- The driver's reply

theorem Reply.eq_of_verdict {reply returned returned' : Reply} {request : String}
    (h : (reply.verdict request).map (fun _ => returned) = .ok returned') :
    returned' = returned ∧ reply.refusal = none := by
  cases hv : reply.verdict request with
  | error e => simp [hv, Except.map] at h
  | ok _ =>
    rw [hv] at h
    exact ⟨(Except.ok.inj h).symm, (reply.verdict_eq_ok_iff request).mp hv⟩

section

variable {peers : Peers σ} {link after : Link σ} {events : List Event} {returned : Reply}

theorem Connects.findSome?_reply {opened : Except Error Unit}
    (h : Connects peers link ⟨opened, events, after⟩) :
    events.findSome? Event.reply? = none := by
  cases h <;> rfl

theorem Carried.replied {submission : Submission}
    (h : Carried peers link submission ⟨.ok returned, events, after⟩) :
    ∃ reply, events.findSome? Event.reply? = some reply ∧ reply.refusal = none ∧
      returned = submission.returned events reply := by
  generalize hr : (Except.ok returned : Except Error Reply) = result at h
  cases h with
  | unadapted => cases hr
  | rejected => cases hr
  | adapted | vetted | plain =>
    obtain ⟨rfl, hn⟩ := Reply.eq_of_verdict hr.symm
    exact ⟨_, rfl, hn, rfl⟩

theorem Delivered.replied {prepared : Prepared}
    (h : Delivered peers link prepared ⟨.ok returned, events, after⟩) :
    ∃ submission reply, prepared = .ok (.ok submission) ∧
      events.findSome? Event.reply? = some reply ∧ reply.refusal = none ∧
      returned = submission.returned events reply := by
  cases h with
  | carried hc hd =>
    obtain ⟨reply, hr, hn, hv⟩ := hd.replied
    refine ⟨_, reply, rfl, ?_, hn, ?_⟩
    · rw [List.findSome?_append, hc.findSome?_reply, Option.none_or, hr]
    · rw [hc.returned_append, hv]

theorem Carried.node {kind : Incoming.Kind} {incoming : Incoming kind} (hk : peers.LeavesNode)
    (h : Carried peers link (.vetted incoming) ⟨.ok returned, events, after⟩) :
    ∃ reply, events.findSome? Event.reply? = some reply ∧
      returned.numaId = some (reply.numaId.getD incoming.numaId) := by
  generalize hr : (Except.ok returned : Except Error Reply) = result at h
  cases h with
  | rejected => cases hr
  | @vetted _ _ accepted left reply middle later world hf hs hc =>
    obtain ⟨rfl, -⟩ := Reply.eq_of_verdict hr.symm
    refine ⟨reply, rfl, ?_⟩
    have ha : accepted.numaId = incoming.numaId := by
      simpa only [hf] using hk.fixup incoming link.world
    have hl : left.numaId = (accepted.answered reply).numaId := by
      simpa only [hc] using hk.cleanup (accepted.answered reply) later
    calc left.outputs.numaId
        = some left.numaId := by cases left <;> rfl
      _ = some (reply.numaId.getD accepted.numaId) := by rw [hl]; cases accepted <;> rfl
      _ = some (reply.numaId.getD incoming.numaId) := by rw [ha]

theorem Delivered.node {kind : Incoming.Kind} {incoming : Incoming kind} (hk : peers.LeavesNode)
    (h : Delivered peers link (.ok (.ok (.vetted incoming))) ⟨.ok returned, events, after⟩) :
    ∃ reply, events.findSome? Event.reply? = some reply ∧
      returned.numaId = some (reply.numaId.getD incoming.numaId) := by
  cases h with
  | carried hc hd =>
    obtain ⟨reply, hr, hn⟩ := hd.node hk
    refine ⟨reply, ?_, hn⟩
    rw [List.findSome?_append, hc.findSome?_reply, Option.none_or, hr]

end

theorem mem_of_findSome?_reply {events : List Event} {reply : Reply}
    (h : events.findSome? Event.reply? = some reply) :
    ∃ request, .submitted request reply ∈ events := by
  obtain ⟨event, hm, he⟩ := List.exists_of_findSome?_eq_some h
  cases event with
  | submitted request reply' =>
    obtain rfl := Option.some.inj he
    exact ⟨request, hm⟩
  | _ => cases he

-- ---------------------------------------------------------------------
-- One call

namespace Call

theorem conclude_regions (registers : Registers) (returned : Reply) (call : Call) (name : String) :
    (call.conclude registers returned).2.regions name =
      if call.region? = some name then call.writeRegion returned (registers.regions name)
      else registers.regions name := by
  cases call with
  | exportPages on | exportRange on =>
    by_cases hn : on = name
    · subst hn
      simp [conclude, region?, writeRegion, Registers.setRegion, Operation.exported]
    · simp [conclude, region?, Registers.setRegion, hn, Ne.symm hn]
  | _ => simp [conclude, region?, Registers.setWindow]

theorem conclude_windows (registers : Registers) (returned : Reply) (call : Call) (name : String) :
    (call.conclude registers returned).2.windows name =
      if call.window? = some name then call.writeWindow returned (registers.windows name)
      else registers.windows name := by
  cases call with
  | declareWindow on =>
    by_cases hn : on = name
    · subst hn
      simp [conclude, window?, writeWindow, Registers.setWindow]
    · simp [conclude, window?, Registers.setWindow, hn, Ne.symm hn]
  | _ => simp [conclude, window?, Registers.setRegion]

theorem Prepares.returned_of_region? {registers : Registers} {call : Call}
    {submission : Submission} (h : call.Prepares registers submission) {name : String}
    (hn : call.region? = some name) (events : List Event) (reply : Reply) :
    submission.returned events reply = reply := by
  cases h with
  | exportPages | exportRange => rfl
  | _ => cases hn

theorem Prepares.returned_of_window? {registers : Registers} {call : Call}
    {submission : Submission} (h : call.Prepares registers submission) {name : String}
    (hn : call.window? = some name) (events : List Event) (reply : Reply) :
    submission.returned events reply = (events.findSome? Event.outputs?).getD reply := by
  cases h with
  | declareWindow => rfl
  | _ => cases hn

theorem Prepares.sizeSum_lt {registers : Registers} {on : String} {sizes : List UInt64}
    {flags : ExportFlags} {submission : Submission}
    (h : Prepares registers (.exportPages on sizes flags) submission) :
    Operation.sizeSum sizes < wordBound 64 := by
  cases h with
  | @exportPages _ _ _ total _ hs =>
    rw [← ((Operation.checkSizes_eq_ok_iff ..).mp hs).2]
    exact total.toNat_lt

end Call

theorem Course.registers_of_error {peers : Peers σ} {session : Session σ} {call : Call}
    {performed : Performed σ} {e : Error} (h : Course peers session call performed)
    (he : performed.result = .error e) : performed.session.registers = session.registers := by
  cases h with
  | failed => rfl
  | succeeded => cases he
  | updated => rfl
  | refused => rfl

/-- The call fails, and nothing of it reaches the driver. -/
structure Step.Barred (step : Step σ) : Prop where
  failed : ∃ e, step.performed.result = .error e
  silent : ∀ request reply, .submitted request reply ∉ step.performed.events

theorem Course.error_of_silent {peers : Peers σ} {session : Session σ} {call : Call}
    {performed : Performed σ} (h : Course peers session call performed)
    (hp : (call.prepare session.registers).isSome = true)
    (hs : ∀ request reply, .submitted request reply ∉ performed.events) :
    ∃ e, performed.result = .error e := by
  cases h with
  | failed | refused => exact ⟨_, rfl⟩
  | succeeded _ hd =>
    obtain ⟨_, _, -, hr, -⟩ := hd.replied
    obtain ⟨request, hm⟩ := mem_of_findSome?_reply hr
    exact absurd hm (hs _ _)
  | updated hc =>
    subst hc
    cases hp

theorem Course.framed {peers : Peers σ} {step : Step σ}
    (h : Course peers step.before step.call step.performed) (ha : step.accepted) : step.Framed := by
  obtain ⟨call, before, performed⟩ := step
  change Course peers before call performed at h
  cases h with
  | failed => cases ha
  | refused => cases ha
  | updated hc =>
    subst hc
    refine ⟨fun name => rfl, fun name => rfl, fun on sizes flags h => ?_, fun h => ?_⟩
    · cases h
    · obtain h | h := h <;> cases h
  | @succeeded prepared returned events after hp hd =>
    obtain ⟨submission, reply, rfl, hr, hn, rfl⟩ := hd.replied
    have hp := Call.prepares hp
    have hs : (events.findSome? Event.reply?).getD {} = reply := by rw [hr, Option.getD_some]
    refine ⟨fun name => ?_, fun name => ?_, fun on sizes flags h => ?_, fun _ => ?_⟩
    · simp only [Step.reply, hs, Call.conclude_regions]
      by_cases hc : call.region? = some name
      · rw [hp.returned_of_region? hc]
      · simp only [if_neg hc]
    · simp only [Step.returned, Step.reply, hs, Call.conclude_windows]
      by_cases hc : call.window? = some name
      · rw [hp.returned_of_window? hc]
      · simp only [if_neg hc]
    · obtain rfl : call = _ := h
      simp only [Call.conclude_regions, Call.region?, if_true, Call.writeRegion]
      exact UInt64.toNat_ofNat_of_lt' hp.sizeSum_lt
    · simp only [Step.reply, hs]
      obtain ⟨request, hm⟩ := mem_of_findSome?_reply hr
      exact ⟨request, hm, hn⟩

theorem Course.chosen {peers : Peers σ} {step : Step σ}
    (h : Course peers step.before step.call step.performed) (ha : step.accepted)
    (hk : peers.LeavesNode) : step.Chosen := by
  obtain ⟨call, before, performed⟩ := step
  change Course peers before call performed at h
  intro name hw
  cases h with
  | failed => cases ha
  | refused => cases ha
  | updated hc =>
    subst hc
    cases hw
  | @succeeded prepared returned events after hp hd =>
    obtain ⟨submission, reply, rfl, hr, -⟩ := hd.replied
    have hs : (events.findSome? Event.reply?).getD {} = reply := by rw [hr, Option.getD_some]
    have hp := Call.prepares hp
    cases hp with
    | declareWindow =>
      obtain ⟨reply', hr', hv⟩ := hd.node hk
      obtain rfl := Option.some.inj (hr.symm.trans hr')
      obtain rfl := Option.some.inj hw
      simp only [Step.reply, hs, Call.conclude_windows, Call.window?, if_true, Call.writeWindow, hv]
      rfl
    | _ => cases hw

-- ---------------------------------------------------------------------
-- Runs

section

variable {peers : Peers σ} {step : Step σ}

theorem Step.error_of_not_accepted (h : step.accepted = false) :
    ∃ e, step.performed.result = .error e := by
  unfold accepted at h
  cases hr : step.performed.result with
  | error e => exact ⟨e, rfl⟩
  | ok outcome =>
    rw [hr] at h
    cases h

theorem Course.regions (h : Course peers step.before step.call step.performed) (name : String) :
    step.performed.session.registers.regions name =
      if step.writesRegion name then
        step.call.writeRegion step.reply (step.before.registers.regions name)
      else step.before.registers.regions name := by
  cases ha : step.accepted with
  | false =>
    obtain ⟨e, he⟩ := step.error_of_not_accepted ha
    simp [h.registers_of_error he, Step.writesRegion, ha]
  | true => simp [(h.framed ha).regions, Step.writesRegion, ha]

theorem Course.windows (h : Course peers step.before step.call step.performed) (name : String) :
    step.performed.session.registers.windows name =
      if step.writesWindow name then
        step.call.writeWindow step.returned (step.before.registers.windows name)
      else step.before.registers.windows name := by
  cases ha : step.accepted with
  | false =>
    obtain ⟨e, he⟩ := step.error_of_not_accepted ha
    simp [h.registers_of_error he, Step.writesWindow, ha]
  | true => simp [(h.framed ha).windows, Step.writesWindow, ha]

end

namespace Session

/-- What is seen of the registers after a run, when it is known which calls write it and how. -/
theorem view_play {τ : Type} {peers : Peers σ} (view : Registers → τ) {writes : Step σ → Bool}
    {write : τ → Step σ → τ}
    (hv : ∀ step : Step σ, Course peers step.before step.call step.performed →
      view step.performed.session.registers =
        if writes step then write (view step.before.registers) step
        else view step.before.registers)
    (session : Session σ) (moves : List (Move σ)) :
    let played := (session.play peers moves).value
    view played.session.registers =
      (played.steps.filter writes).foldl write (view session.registers) := by
  induction moves generalizing session with
  | nil => rfl
  | cons move rest ih =>
    cases move with
    | change change => exact ih (session.changeWorld change)
    | call call =>
      -- the first call is the first step of the fold, if it writes at all
      have hs := hv ⟨call, session, _⟩ (session.perform_course peers call)
      simp only [value_play_call, ih, List.filter_cons]
      rw [hs]
      split
      · rw [List.foldl_cons]
      · rfl

/-- A failed call of a run leaves the registers as they were, an accepted one writes what it works
on and nothing else. After the run a register holds what the accepted calls on it have made of it,
one after the other. A declared window gets the node that the driver chose, unless the vendor has a
node of its own. -/
theorem play_framed (peers : Peers σ) (session : Session σ) (moves : List (Move σ)) :
    let played := (session.play peers moves).value
    (∀ step ∈ played.steps,
      (∀ e, step.performed.result = .error e →
        step.performed.session.registers = step.before.registers) ∧
      ∀ outcome, step.performed.result = .ok outcome →
        step.Framed ∧ (peers.LeavesNode → step.Chosen)) ∧
    (∀ name, played.session.registers.regions name =
      (played.steps.filter (·.writesRegion name)).foldl
        (fun region step => step.call.writeRegion step.reply region)
        (session.registers.regions name)) ∧
    ∀ name, played.session.registers.windows name =
      (played.steps.filter (·.writesWindow name)).foldl
        (fun window step => step.call.writeWindow step.returned window)
        (session.registers.windows name) := by
  refine ⟨fun step hs => ⟨fun e he => ?_, fun outcome ho => ?_⟩, fun name => ?_, fun name => ?_⟩
  · exact (play_course hs).registers_of_error he
  · have ha : step.accepted := by
      rw [Step.accepted, ho]
      rfl
    exact ⟨(play_course hs).framed ha, (play_course hs).chosen ha⟩
  · exact view_play (·.regions name) (fun step hc => hc.regions name) session moves
  · exact view_play (·.windows name) (fun step hc => hc.windows name) session moves

/-- A driver that places windows at the node 3. -/
theorem play_framed_placed :
    let peers : Peers Unit :=
      { obliging with submit := fun _ _ => return ({ numaId := some 3 }, ()) }
    let session : Session Unit := ⟨{ windows := fun _ => { numaId := -1 } }, ⟨{}, ()⟩⟩
    let played := (session.play peers [.call (.declareWindow "window" ⟨0⟩)]).value
    (∃ step ∈ played.steps, step.Framed ∧ step.Chosen) ∧
      (played.session.registers.windows "window").numaId = 3 := by
  intro peers session played
  obtain ⟨hs, -, -⟩ := play_framed peers session [.call (.declareWindow "window" ⟨0⟩)]
  let call : Call := .declareWindow "window" ⟨0⟩
  let step : Step Unit := ⟨call, session, (session.perform peers call).value⟩
  have hm : step ∈ played.steps := .head _
  have hv : Course peers session call step.performed := session.perform_course peers call
  have hb : Distance.check 0 = .ok _ := if_pos (by decide)
  have hp : Call.Prepares session.registers call _ := .declareWindow hb rfl
  obtain ⟨_, ho⟩ := hv.submitted hp.prepare rfl (.of_accepted (obliging_fixup_keeps _) rfl)
  obtain ⟨_, ho⟩ := hv.succeeds ho fun _ _ => rfl
  obtain ⟨hf, hc⟩ := (hs step hm).2 _ ho
  have hc := hc ⟨fun _ _ => rfl, fun _ _ => rfl⟩
  obtain ⟨_, ha, -⟩ := hf.reply (.inr rfl)
  obtain ⟨_, hr⟩ := hv.answered ha
  have hn : (step.performed.session.registers.windows "window").numaId = _ := hc "window" rfl
  rw [hr] at hn
  refine ⟨⟨step, hm, hf, hc⟩, ?_⟩
  simp only [played, value_play_call, value_play_nil]
  rw [hn]
  rfl

end Session

end FabricMemory
