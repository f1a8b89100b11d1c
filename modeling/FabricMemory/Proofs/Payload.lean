import FabricMemory.Proofs.Discipline
import FabricMemory.Proofs.Exchange
import FabricMemory.Proofs.Frame

/-!
# Payloads are handed on whole

Five calls take a payload along, of a region or of a window, and the driver is handed it by address
and 16-bit length (`Payload.Whole`). A payload that the length cannot tell does not go out at all.
Main statement: `play_payloads`. Two of the five go through the vendor's hands first, which is where
a command could lose its payload.
-/

namespace FabricMemory

variable {σ : Type}

namespace Payload

variable {payload : Bytes} {n : UInt16} {buffer : Option Bytes}

/-- The length and the address tell the whole payload. Without a payload there is no address. -/
structure Whole (payload : Bytes) (length : UInt16) (buffer : Option Bytes) : Prop where
  length : length.toNat = payload.length
  null : buffer = none ↔ payload = []
  bytes : payload ≠ [] → buffer = some payload

theorem whole_of_length (h : length payload = .ok n) : Whole payload n (buffer? payload) where
  length := toNat_of_length h
  null := buffer?_eq_none_iff
  bytes hp := if_neg hp

theorem Whole.length_le (h : Whole payload n buffer) : payload.length ≤ maxPayload := by
  rw [← h.length]
  exact Nat.le_of_lt_succ n.toNat_lt

end Payload

def Request.Carries (payload : Bytes) : Request → Prop
  | .exportPages command => Payload.Whole payload command.payloadLength command.payload
  | .exportRange command => Payload.Whole payload command.payloadLength command.payload
  | .importRegion command => Payload.Whole payload command.payloadLength command.payload
  | .declareWindow command => Payload.Whole payload command.payloadLength command.payload
  | .withdrawWindow command => Payload.Whole payload command.payloadLength command.payload
  | .endExport _ | .endImport _ | .query _ => False

/-- What a command says of the payload: the length and the address. -/
def Incoming.payload {kind : Incoming.Kind} : Incoming kind → UInt16 × Option Bytes
  | .region command => (command.payloadLength, command.payload)
  | .window command => (command.payloadLength, command.payload)

theorem Incoming.carries_iff {kind : Incoming.Kind} {incoming : Incoming kind} {payload : Bytes} :
    incoming.request.Carries payload ↔
      Payload.Whole payload incoming.payload.1 incoming.payload.2 := by
  cases incoming <;> rfl

def Submission.Carries (payload : Bytes) : Submission → Prop
  | .adapted _ request => ∀ adaptation, (request adaptation).Carries payload
  | .vetted incoming => incoming.request.Carries payload
  | .plain request => request.Carries payload

theorem Approved.carries {peers : Peers σ} {link : Link σ} {submission : Submission}
    {request : Request} {payload : Bytes} (h : Approved peers link submission request)
    (hc : submission.Carries payload)
    (hk : request.manner = .vetted → peers.FixupKeeps Incoming.payload) :
    request.Carries payload := by
  cases h with
  | adapted => exact hc _
  | plain => exact hc
  | @vetted kind incoming accepted hf =>
    have hm : accepted.request.manner = .vetted := by cases accepted <;> rfl
    have hv : accepted.payload = incoming.payload := by
      simpa only [hf] using hk hm incoming link.world
    rw [Incoming.carries_iff, hv]
    exact Incoming.carries_iff.mp hc

namespace Call

def payload? (registers : Registers) : Call → Option Bytes
  | .exportPages on .. | .exportRange on .. | .importRegion on .. =>
    some (registers.regions on).payload
  | .declareWindow on _ | .withdrawWindow on _ => some (registers.windows on).payload
  | .endExport .. | .endImport .. | .regionAt _ | .addressOf .. | .setOwnership .. => none

variable {registers : Registers} {call : Call} {payload : Bytes}

theorem prepare_isSome_of_payload? (h : call.payload? registers = some payload) :
    (call.prepare registers).isSome = true := by
  cases call with
  | setOwnership => cases h
  | _ => rfl

theorem Prepares.carries {submission : Submission} (h : call.Prepares registers submission)
    (hp : call.payload? registers = some payload) :
    submission.Carries payload ∧ payload.length ≤ maxPayload := by
  cases h with
  | exportPages _ hl | exportRange hl =>
    obtain rfl := Option.some.inj hp
    have hw := Payload.whole_of_length hl
    exact ⟨fun _ => hw, hw.length_le⟩
  | importRegion _ hl | declareWindow _ hl | withdrawWindow hl =>
    obtain rfl := Option.some.inj hp
    have hw := Payload.whole_of_length hl
    exact ⟨hw, hw.length_le⟩
  | endExport | endImport | regionAt | addressOf => cases hp

end Call

-- ---------------------------------------------------------------------
-- What the vendor is handed

section

variable {peers : Peers σ} {link after : Link σ} {result : Except Error Reply}
  {events : List Event} {kind : Incoming.Kind} {incoming left : Incoming kind} {accepted : Bool}

theorem Carried.of_fixedUp {submission : Submission}
    (h : Carried peers link submission ⟨result, events, after⟩)
    (hf : .fixedUp incoming left accepted ∈ events) : submission = .vetted incoming := by
  cases h with
  | unadapted | adapted | plain => simp at hf
  | rejected | vetted =>
    obtain hf | hf := List.mem_cons.mp hf
    · cases hf
      rfl
    · simp at hf

theorem Delivered.of_fixedUp {prepared : Prepared}
    (h : Delivered peers link prepared ⟨result, events, after⟩)
    (hf : .fixedUp incoming left accepted ∈ events) : prepared = .ok (.ok (.vetted incoming)) := by
  have hn {opened : Except Error Unit} {opening : List Event} {middle : Link σ}
      (hc : Connects peers link ⟨opened, opening, middle⟩) :
      .fixedUp incoming left accepted ∉ opening := by
    cases hc <;> simp
  cases h with
  | misused => cases hf
  | unreached hc | late hc => exact absurd hf (hn hc)
  | carried hc hd =>
    obtain hf | hf := List.mem_append.mp hf
    · exact absurd hf (hn hc)
    · rw [hd.of_fixedUp hf]

theorem Course.of_fixedUp {session : Session σ} {call : Call} {performed : Performed σ}
    (h : Course peers session call performed)
    (hf : .fixedUp incoming left accepted ∈ performed.events) :
    call.Prepares session.registers (.vetted incoming) := by
  cases h with
  | failed hp hd | succeeded hp hd => exact Call.prepares (hd.of_fixedUp hf ▸ hp)
  | updated | refused => simp at hf

end

namespace Session

theorem exists_withdrawal (registers : Registers) :
    let payload := (registers.windows "window").payload
    let moves := [.call (.withdrawWindow "window" ⟨0⟩)]
    ∃ step ∈ (play obliging ⟨registers, ⟨{}, ()⟩⟩ moves).value.steps,
      step.call.payload? step.before.registers = some payload ∧
        (payload.length ≤ maxPayload →
          ∃ request reply, .submitted request reply ∈ step.performed.events) := by
  intro payload moves
  refine ⟨_, .head _, rfl, fun h => ?_⟩
  have hl : (registers.windows "window").payloadLength = .ok _ := if_pos h
  have hp : Call.Prepares registers (.withdrawWindow "window" ⟨0⟩) _ := .withdrawWindow hl
  exact ⟨_, (perform_course obliging _ _).submitted hp.prepare rfl .plain⟩

/-- Whatever the driver is handed for a call that takes a payload along carries all of it, and so
does what the vendor is handed. A command that is vetted then goes out with the payload that the
vendor leaves it. A call whose payload is too long fails, and hands the driver nothing. -/
theorem play_payloads (peers : Peers σ) (session : Session σ) (moves : List (Move σ))
    (step : Step σ) (payload : Bytes) (hs : step ∈ (session.play peers moves).value.steps)
    (hp : step.call.payload? step.before.registers = some payload) :
    (∀ request reply, .submitted request reply ∈ step.performed.events →
      (request.manner = .vetted → peers.FixupKeeps Incoming.payload) → request.Carries payload) ∧
    (∀ kind (incoming left : Incoming kind) accepted,
      .fixedUp incoming left accepted ∈ step.performed.events →
      incoming.request.Carries payload) ∧
    (maxPayload < payload.length → step.Barred) := by
  have hc := play_course hs
  refine ⟨fun request reply hr hk => ?_, fun kind incoming left accepted hf => ?_, fun hl => ?_⟩
  · obtain ⟨submission, _, _, hq, -, ha⟩ := hc.approved hr
    exact ha.carries (hq.carries hp).1 hk
  · exact ((hc.of_fixedUp hf).carries hp).1
  · have hn : ∀ request reply, .submitted request reply ∉ step.performed.events := by
      intro request reply hr
      obtain ⟨submission, _, _, hq, -⟩ := hc.approved hr
      exact absurd (hq.carries hp).2 (Nat.not_le.mpr hl)
    exact ⟨hc.error_of_silent (Call.prepare_isSome_of_payload? hp) hn, hn⟩

/-- The longest payload is carried, and one byte more does not go out. -/
theorem play_payloads_longest :
    let registers (length : Nat) : Registers :=
      { windows := fun _ => { payload := List.replicate length 165 } }
    let moves := [.call (.withdrawWindow "window" ⟨0⟩)]
    let steps (length : Nat) :=
      (play obliging ⟨registers length, ⟨{}, ()⟩⟩ moves).value.steps
    (∃ step ∈ steps maxPayload, ∃ request reply,
      .submitted request reply ∈ step.performed.events ∧
        request.Carries (List.replicate maxPayload 165)) ∧
      ∃ step ∈ steps (maxPayload + 1), step.Barred := by
  intro registers moves steps
  constructor
  · obtain ⟨step, hm, hp, hs⟩ := exists_withdrawal (registers maxPayload)
    obtain ⟨request, reply, hs⟩ := hs (Nat.le_of_eq List.length_replicate)
    obtain ⟨hc, -⟩ := play_payloads obliging _ moves step _ hm hp
    exact ⟨step, hm, request, reply, hs, hc request reply hs fun _ => obliging_fixup_keeps _⟩
  · obtain ⟨step, hm, hp, -⟩ := exists_withdrawal (registers (maxPayload + 1))
    obtain ⟨-, -, hb⟩ := play_payloads obliging _ moves step _ hm hp
    refine ⟨step, hm, hb ?_⟩
    exact Nat.lt_of_lt_of_eq (Nat.lt_succ_self maxPayload) List.length_replicate.symm

end Session

end FabricMemory
