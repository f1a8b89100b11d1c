import Mathlib
import FabricMemory.Proofs.Attempts
import FabricMemory.Proofs.Frame
import FabricMemory.Proofs.Reach

/-!
# Windows are withdrawn as they were declared

A declaration checks the distance and is judged by the vendor; a withdrawal takes the window as it
is and asks nobody but the driver. Main statement (`declared_withdraws`): for as long as the caller
keeps a declared window, it can be withdrawn, with the command of its declaration as the driver has
answered it, if the vendor has left that command alone.
-/

namespace FabricMemory

variable {σ : Type}

theorem Distance.truncate_of_check {value : Int32} {byte : UInt8} (h : check value = .ok byte) :
    truncate value = byte := by
  unfold check at h
  split at h
  · exact Except.ok.inj h
  · cases h

theorem Call.Prepares.withdrawal {registers : Registers} {on : String} {flags : WindowFlags}
    {window : Window} {distance : UInt8} {payloadLength : UInt16} {reply : Reply}
    (hd : Distance.check window.baseDistance = .ok distance)
    (hp : window.payloadLength = .ok payloadLength)
    (hw : registers.windows on = { window with numaId := reply.numaId.getD window.numaId }) :
    Call.Prepares registers (.withdrawWindow on flags) (.plain (.withdrawWindow
      ((Operation.windowCommand window flags distance payloadLength).answered reply))) := by
  have hl : (registers.windows on).payloadLength = .ok payloadLength := by
    rw [hw]
    exact hp
  have h : Call.Prepares registers (.withdrawWindow on flags) _ := .withdrawWindow hl
  rw [hw, Distance.truncate_of_check hd] at h
  exact h

-- ---------------------------------------------------------------------
-- The two calls

theorem Connects.isOpen {peers : Peers σ} {link after : Link σ} {events : List Event}
    (h : Connects peers link ⟨.ok (), events, after⟩) : after.cache.isOpen = true := by
  cases h with
  | held h => exact h
  | opened => rfl

theorem Delivered.isOpen {peers : Peers σ} {link after : Link σ} {prepared : Prepared}
    {reply : Reply} {events : List Event}
    (h : Delivered peers link prepared ⟨.ok reply, events, after⟩) :
    after.cache.isOpen = true := by
  cases h with
  | carried hc hd =>
    rw [hd.noOpening.2]
    exact hc.isOpen

structure Declared (window : Window) (on : String) (flags : WindowFlags)
    (performed : Performed σ) (command : WindowCommand) (reply : Reply) : Prop where
  only (request : Request) (answer : Reply) : .submitted request answer ∈ performed.events ↔
    request = .declareWindow command ∧ answer = reply
  distance : (command.baseDistance.toNat : Int) = window.baseDistance.toInt
  placed : performed.session.registers.windows on =
    { window with numaId := (command.answered reply).numaId }
  withdrawal (registers : Registers)
    (h : registers.windows on = performed.session.registers.windows on) :
    Call.Prepares registers (.withdrawWindow on flags)
      (.plain (.withdrawWindow (command.answered reply)))
  isOpen : performed.session.link.cache.isOpen = true

section

variable {peers : Peers σ} {session : Session σ} {on : String} {flags : WindowFlags}
  {performed : Performed σ}

theorem Course.declared {outcome : Outcome} (hf : peers.FixupKeeps Incoming.request)
    (hc : peers.CleanupKeeps Incoming.numaId)
    (h : Course peers session (.declareWindow on flags) performed)
    (ho : performed.result = .ok outcome) :
    ∃ command reply, Declared (session.registers.windows on) on flags performed command reply := by
  cases h with
  | failed => cases ho
  | updated hc | refused hc => cases hc
  | @succeeded prepared returned events after hp hd =>
    obtain ⟨submission, reply, rfl, hr, -⟩ := hd.replied
    obtain ⟨request, hs⟩ := mem_of_findSome?_reply hr
    obtain ⟨_, _, _, ⟨⟩, -, ha⟩ := hd.approved hs
    cases Call.prepares hp with
    | declareWindow hb hl =>
      obtain rfl := ha.eq_request hf
      obtain ⟨reply', hr', hn⟩ := hd.node ⟨hf.of_request _, hc⟩
      obtain rfl := Option.some.inj (hr.symm.trans hr')
      have hw := Call.conclude_windows session.registers returned (.declareWindow on flags) on
      rw [Call.window?, if_pos rfl, Call.writeWindow, hn, Option.getD_some] at hw
      refine ⟨_, _, fun request answer => ⟨hd.only hs, ?_⟩, Distance.toNat_of_check hb, hw,
        fun registers hk => .withdrawal hb hl (hk.trans hw), hd.isOpen⟩
      rintro ⟨rfl, rfl⟩
      exact hs

theorem Course.submits_plain {call : Call} {request : Request}
    (h : Course peers session call performed)
    (hp : call.Prepares session.registers (.plain request))
    (ho : session.link.cache.isOpen = true) :
    ∃ reply, performed.events = [.submitted request reply] ∧
      performed.result = (reply.verdict request.name).map
        fun _ => (call.conclude session.registers reply).1 := by
  obtain ⟨result, hd, hr, -⟩ := h.of_prepare hp.prepare
  generalize performed.session.link = after at hd
  generalize performed.events = events at hd
  cases hd with
  | unreached hc => cases (hc.noOpening ho).1
  | carried hc hd =>
    obtain ⟨-, rfl⟩ := hc.noOpening ho
    cases hd with
    | @plain _ reply =>
      refine ⟨reply, rfl, hr.trans ?_⟩
      cases reply.verdict request.name <;> rfl

theorem Course.registers_of_withdrawal
    (h : Course peers session (.withdrawWindow on flags) performed) :
    performed.session.registers = session.registers := by
  obtain ⟨result, -, -, hr⟩ := h.of_prepare rfl
  rw [hr]
  cases result <;> rfl

end

namespace Session

/-- Whatever happens after a window was declared, for as long as the caller keeps it as it was left
a withdrawal submits, at once and unjudged, the command of the declaration as the driver has
answered it. The distance of both is the caller's own. -/
theorem declared_withdraws (peers : Peers σ) (hf : peers.FixupKeeps Incoming.request)
    (hc : peers.CleanupKeeps Incoming.numaId) (session : Session σ) (on : String)
    (flags : WindowFlags) (moves : List (Move σ)) (outcome : Outcome)
    (hd : (session.perform peers (.declareWindow on flags)).value.result = .ok outcome)
    (hk :
      let declared := (session.perform peers (.declareWindow on flags)).value.session
      (declared.play peers moves).value.session.registers.windows on =
        declared.registers.windows on) :
    let declared := (session.perform peers (.declareWindow on flags)).value
    let later := (declared.session.play peers moves).value.session
    let withdrawn := (later.perform peers (.withdrawWindow on flags)).value
    (∃ command reply answer,
      (∀ request other, .submitted request other ∈ declared.events ↔
        request = .declareWindow command ∧ other = reply) ∧
      (command.baseDistance.toNat : Int) = (session.registers.windows on).baseDistance.toInt ∧
      declared.session.registers.windows on =
        { session.registers.windows on with numaId := (command.answered reply).numaId } ∧
      withdrawn.events = [.submitted (.withdrawWindow (command.answered reply)) answer] ∧
      withdrawn.result = (answer.verdict "undeclare_preimport").map fun _ => .done) ∧
    ∀ before : Session σ,
      (before.perform peers (.withdrawWindow on flags)).value.session.registers =
        before.registers := by
  intro declared later withdrawn
  refine ⟨?_, fun before => (before.perform_course peers _).registers_of_withdrawal⟩
  obtain ⟨command, reply, h⟩ := (session.perform_course peers _).declared hf hc hd
  have ho : later.link.cache.isOpen = true := play_stays_open h.isOpen moves
  obtain ⟨answer, he, hr⟩ :=
    (later.perform_course peers _).submits_plain (h.withdrawal later.registers hk) ho
  exact ⟨command, reply, answer, h.only, h.distance, h.placed, he, hr⟩

end Session

namespace Host

/-- A channel to a driver that accepts everything and places windows at the node 3. -/
def placing : Backend Unit where
  openChannel _ _ := return (.ok (), ())
  submit _ _ := return ({ numaId := some 3 }, ())
  update _ _ := (none, ())

/-- The distance is the largest there is, and the controllers are gone when the window goes. -/
theorem declared_withdraws_placing :
    let tree := ControllerTree.sole "7" "5"
    let window : Window :=
      { seid := Eid.ofNat 7, scna := 5, baseDistance := 255, numaId := -1, payload := [1, 2] }
    let session : Session (Host Unit) :=
      ⟨{ windows := fun _ => window }, ⟨{}, ⟨tree.files, ()⟩⟩⟩
    let peers := peersWith tree.root placing
    let moves := [.change fun host => { host with files := {} }]
    let declared := (session.perform peers (.declareWindow "window" ⟨0⟩)).value
    let later := (declared.session.play peers moves).value.session
    let withdrawn := (later.perform peers (.withdrawWindow "window" ⟨0⟩)).value
    declared.result = .ok .done ∧
      ∃ command reply answer, .submitted (.declareWindow command) reply ∈ declared.events ∧
        (command.baseDistance.toNat : Int) = 255 ∧
        withdrawn.events = [.submitted (.withdrawWindow (command.answered reply)) answer] := by
  intro tree window session peers moves
  have hc : (tree.primaryCna (Eid.ofNat 7)).value = .ok 5 :=
    ControllerTree.primaryCna_eq_ok_iff.mpr ⟨_, ControllerTree.owns_sole (by cbv), by cbv⟩
  have hb : Distance.check (session.registers.windows "window").baseDistance = .ok _ :=
    if_pos (by decide)
  have hl : (session.registers.windows "window").payloadLength = .ok 2 := by rfl
  have hp : Call.Prepares session.registers (.declareWindow "window" ⟨0⟩) _ := .declareWindow hb hl
  have hv := session.perform_course peers (.declareWindow "window" ⟨0⟩)
  obtain ⟨_, hs⟩ := hv.submitted hp.prepare rfl
    (approved_vetted_iff.mpr ⟨ControllerTree.checkSource_eq_ok_iff.mpr hc, rfl⟩)
  obtain ⟨_, hd⟩ := hv.succeeds hs fun _ _ => rfl
  have hk (before : Session (Host Unit)) :
      (before.play peers moves).value.session.registers = before.registers := by rfl
  obtain ⟨⟨command, reply, answer, ho, hn, -, he, -⟩, -⟩ :=
    Session.declared_withdraws peers (fixup_keeps _ _ _) (cleanup_keeps _ _ _) session "window" ⟨0⟩
      moves _ hd (by intro _; rw [hk])
  exact ⟨hd, command, reply, answer, (ho ..).mpr ⟨rfl, rfl⟩, hn.trans (by decide), he⟩

end Host

end FabricMemory
