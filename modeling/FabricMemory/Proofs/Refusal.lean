import FabricMemory.Proofs.Discipline
import FabricMemory.Proofs.Exchange

/-!
# Arguments that are refused

`Call.Refused` lists the arguments that a call does not take. They are refused before anyone is
asked, save for the payload of a window: that one is looked at only once the channel is there, so a
channel that cannot be opened is what the caller hears of (`refusal_opens`). Main statement:
`perform_refused`.
-/

namespace FabricMemory

variable {σ α β : Type}

-- ---------------------------------------------------------------------
-- Checks

def Refuses (checked : Except Error α) : Prop := ∃ why, checked = .error (.invalidArgument why)

theorem Refuses.bind {checked : Except Error α} (h : Refuses checked) (next : α → Except Error β) :
    Refuses (checked >>= next) := by
  obtain ⟨why, rfl⟩ := h
  exact ⟨why, rfl⟩

/-- A check before another one can only be the first to fail. -/
theorem Picky.refuses_bind {checked : Except Error α} (h : Picky checked)
    {next : α → Except Error β} (hn : ∀ a, Refuses (next a)) : Refuses (checked >>= next) := by
  cases checked with
  | ok a => exact hn a
  | error e =>
    obtain ⟨why, rfl, -⟩ := h e rfl
    exact ⟨why, rfl⟩

theorem Picky.refuses_of_not_ok {checked : Except Error α} (h : Picky checked)
    (hn : ∀ a, checked ≠ .ok a) : Refuses checked := by
  cases checked with
  | ok a => exact absurd rfl (hn a)
  | error e =>
    obtain ⟨why, rfl, -⟩ := h e rfl
    exact ⟨why, rfl⟩

theorem Payload.refuses_length {payload : Bytes} (h : maxPayload < payload.length) :
    Refuses (length payload) :=
  ⟨_, if_neg (Nat.not_le.mpr h)⟩

def Distance.InRange (value : Int32) : Prop := 0 ≤ value.toInt ∧ value.toInt ≤ 255

theorem Distance.check_eq_ok {value : Int32} (h : InRange value) :
    check value = .ok (truncate value) :=
  if_pos ⟨h.1, Int.lt_add_one_of_le h.2⟩

theorem Distance.refuses_check {value : Int32} (h : ¬ InRange value) : Refuses (check value) :=
  ⟨_, if_neg fun hr => h ⟨hr.1, Int.le_of_lt_add_one hr.2⟩⟩

namespace Operation

/-- The distance of an import counts: its node is remote and no declared window holds it. -/
def DistanceCounts (flags : ImportFlags) : Prop :=
  flags.hasNamed "NUMA_REMOTE" = true ∧ flags.hasNamed "PREIMPORT" = false

theorem refuses_importDistance {flags : ImportFlags} {distance : Int32}
    (hc : DistanceCounts flags) (hd : ¬ Distance.InRange distance) :
    Refuses (importDistance flags distance) := by
  have hc : flags.checksDistance = true := by
    rw [checksDistance_eq, hc.1, hc.2]
    rfl
  rw [importDistance, if_pos hc]
  exact Distance.refuses_check hd

theorem refuses_checkSizes {sizes : List UInt64}
    (h : maxLocalNodes < sizes.length ∨ wordBound 64 ≤ sizeSum sizes) :
    Refuses (checkSizes sizes) := by
  refine (checkSizes_picky sizes).refuses_of_not_ok fun total ht => ?_
  obtain ⟨hl, hs⟩ := (checkSizes_eq_ok_iff sizes total).mp ht
  have hb : total.toNat < wordBound 64 := total.toNat_lt
  omega

end Operation

-- ---------------------------------------------------------------------
-- Calls

namespace Call

def Refused (registers : Registers) : Call → Prop
  | .exportPages on sizes _ =>
    (maxLocalNodes < sizes.length ∨ wordBound 64 ≤ Operation.sizeSum sizes) ∨
      maxPayload < (registers.regions on).payload.length
  | .exportRange on .. => maxPayload < (registers.regions on).payload.length
  | .importRegion on flags distance _ =>
    (Operation.DistanceCounts flags ∧ ¬ Distance.InRange distance) ∨
      maxPayload < (registers.regions on).payload.length
  | .endExport memId _ | .endImport memId _ => memId = 0
  | .declareWindow on _ =>
    ¬ Distance.InRange (registers.windows on).baseDistance ∨
      maxPayload < (registers.windows on).payload.length
  | .withdrawWindow on _ => maxPayload < (registers.windows on).payload.length
  | .regionAt _ | .addressOf .. | .setOwnership .. => False

/-- Nothing is wrong with a window but its payload. -/
def RefusedLate (registers : Registers) : Call → Prop
  | .declareWindow on _ =>
    Distance.InRange (registers.windows on).baseDistance ∧
      maxPayload < (registers.windows on).payload.length
  | .withdrawWindow on _ => maxPayload < (registers.windows on).payload.length
  | _ => False

variable {registers : Registers} {call : Call}

theorem prepare_refused (h : call.Refused registers) (hl : ¬ call.RefusedLate registers) :
    ∃ why, call.prepare registers = some (.error (.invalidArgument why)) := by
  suffices hr : ∃ prepared, call.prepare registers = some prepared ∧ Refuses prepared by
    obtain ⟨_, hp, why, rfl⟩ := hr
    exact ⟨why, hp⟩
  cases call with
  | exportPages on sizes flags =>
    refine ⟨_, rfl, ?_⟩
    obtain hs | hp := h
    · exact (Operation.refuses_checkSizes hs).bind _
    · exact (Operation.checkSizes_picky sizes).refuses_bind fun _ =>
        (Payload.refuses_length hp).bind _
  | exportRange on pid va length flags =>
    exact ⟨_, rfl, (Payload.refuses_length h).bind _⟩
  | importRegion on flags distance numaHint =>
    refine ⟨_, rfl, ?_⟩
    obtain ⟨hc, hd⟩ | hp := h
    · exact (Operation.refuses_importDistance hc hd).bind _
    · exact (Operation.importDistance_picky flags distance).refuses_bind fun _ =>
        (Payload.refuses_length hp).bind _
  | endExport memId flags | endImport memId flags =>
    obtain rfl : memId = 0 := h
    exact ⟨_, rfl, _, rfl⟩
  | declareWindow on flags =>
    have hd : ¬ Distance.InRange (registers.windows on).baseDistance := by
      intro hd
      obtain h | hp := h
      · exact h hd
      · exact hl ⟨hd, hp⟩
    exact ⟨_, rfl, (Distance.refuses_check hd).bind _⟩
  | withdrawWindow on flags => exact absurd h hl
  | regionAt | addressOf | setOwnership => cases h

theorem prepare_refusedLate (h : call.RefusedLate registers) :
    ∃ why, call.prepare registers = some (.ok (.error (.invalidArgument why))) := by
  suffices hr : ∃ late, call.prepare registers = some (.ok late) ∧ Refuses late by
    obtain ⟨_, hp, why, rfl⟩ := hr
    exact ⟨why, hp⟩
  cases call with
  | declareWindow on flags =>
    obtain ⟨hd, hp⟩ := h
    obtain ⟨why, hp⟩ := Payload.refuses_length hp
    refine ⟨_, ?_, why, rfl⟩
    simp only [prepare, Window.payloadLength, Distance.check_eq_ok hd, hp]
    rfl
  | withdrawWindow on flags => exact ⟨_, rfl, (Payload.refuses_length h).bind _⟩
  | _ => cases h

end Call

section

variable {peers : Peers σ} {session : Session σ} {call : Call} {performed : Performed σ}

theorem Course.eq_of_misused {e : Error} (h : Course peers session call performed)
    (hp : call.prepare session.registers = some (.error e)) :
    performed = ⟨.error e, [], session⟩ := by
  cases h with
  | failed hp' hd =>
    obtain rfl := Option.some.inj (hp'.symm.trans hp)
    cases hd
    rfl
  | succeeded hp' hd =>
    obtain rfl := Option.some.inj (hp'.symm.trans hp)
    cases hd
  | updated hc | refused hc =>
    subst hc
    cases hp

theorem Course.eq_of_late {e : Error} (h : Course peers session call performed)
    (hp : call.prepare session.registers = some (.ok (.error e))) :
    let opened := (peers.connect session.link).value
    performed = ⟨opened.value.bind fun _ => .error e, opened.events,
      ⟨session.registers, opened.link⟩⟩ := by
  cases h with
  | failed hp' hd =>
    obtain rfl := Option.some.inj (hp'.symm.trans hp)
    cases hd with
    | unreached hc | late hc =>
      rw [← hc.eq_connect]
      rfl
  | succeeded hp' hd =>
    obtain rfl := Option.some.inj (hp'.symm.trans hp)
    cases hd
  | updated hc | refused hc =>
    subst hc
    cases hp

end

-- ---------------------------------------------------------------------
-- What the caller hears of

namespace Call

/-- A call with arguments that it does not take is refused for them before anyone is asked, whoever
the peers are and whatever the cache holds. Only where nothing but the payload of a window is wrong
is the channel asked for first, and then nothing is judged or submitted. -/
theorem perform_refused (registers : Registers) (call : Call) (h : call.Refused registers) :
    (¬ call.RefusedLate registers → ∃ why, ∀ (peers : Peers σ) (link : Link σ),
      (Session.perform peers ⟨registers, link⟩ call).value =
        ⟨.error (.invalidArgument why), [], ⟨registers, link⟩⟩) ∧
    (call.RefusedLate registers → ∃ why, ∀ (peers : Peers σ) (link : Link σ),
      let opened := (peers.connect link).value
      (Session.perform peers ⟨registers, link⟩ call).value =
        ⟨opened.value.bind fun _ => .error (.invalidArgument why), opened.events,
          ⟨registers, opened.link⟩⟩) := by
  constructor
  · intro hl
    obtain ⟨why, hp⟩ := prepare_refused h hl
    exact ⟨why, fun peers link => (Session.perform_course peers _ call).eq_of_misused hp⟩
  · intro hl
    obtain ⟨why, hp⟩ := prepare_refusedLate hl
    exact ⟨why, fun peers link => (Session.perform_course peers _ call).eq_of_late hp⟩

/-- Two sizes of 2^63 bytes are as many bytes as 64 bits cannot tell. -/
theorem perform_refused_sizes :
    let call := .exportPages "region" [UInt64.ofNat (wordBound 63), UInt64.ofNat (wordBound 63)] ⟨1⟩
    call.Refused {} ∧ ∃ why, ∀ (peers : Peers Unit) (link : Link Unit),
      (Session.perform peers ⟨{}, link⟩ call).value =
        ⟨.error (.invalidArgument why), [], ⟨{}, link⟩⟩ := by
  intro call
  have h : call.Refused {} := .inl (.inr (by decide))
  exact ⟨h, (perform_refused {} call h).1 fun hl => hl⟩

end Call

def unreachable (e : Error) : Peers Unit where
  openChannel _ := return (.error e, ())
  adapt _ _ := return (.error e, ())
  fixup incoming _ := return (⟨.error e, incoming⟩, ())
  cleanup incoming _ := return (incoming, ())
  submit _ _ := return ({}, ())
  update _ _ := (none, ())

theorem perform_unreachable {registers : Registers} {call : Call} (e : Error)
    (h : call.RefusedLate registers) :
    let performed := (Session.perform (unreachable e) ⟨registers, ⟨{}, ()⟩⟩ call).value
    performed.result = .error e ∧ performed.events = [.opened false] := by
  obtain ⟨why, hp⟩ := Call.prepare_refusedLate h
  have he := (Session.perform_course (unreachable e) ⟨registers, ⟨{}, ()⟩⟩ call).eq_of_late hp
  intro performed
  rw [show performed = _ from he]
  exact ⟨rfl, rfl⟩

/-- For a window with a payload of 65536 bytes the channel is opened before it is refused, and where
it cannot be opened that is the error. -/
theorem refusal_opens :
    let e : Error := .deviceOpen ⟨[]⟩ (.system Errno.noEntry)
    let registers : Registers := { windows := fun _ => { payload := List.replicate 65536 0 } }
    let declare : Call := .declareWindow "window" ⟨0⟩
    let withdraw : Call := .withdrawWindow "window" ⟨0⟩
    let perform := Session.perform (unreachable e) ⟨registers, ⟨{}, ()⟩⟩
    (declare.Refused registers ∧ (perform declare).value.result = .error e ∧
      (perform declare).value.events = [.opened false]) ∧
    withdraw.Refused registers ∧ (perform withdraw).value.result = .error e ∧
      (perform withdraw).value.events = [.opened false] := by
  intro e registers declare withdraw perform
  have hp : maxPayload < (registers.windows "window").payload.length := by
    rw [List.length_replicate]
    decide
  have hd : Distance.InRange (registers.windows "window").baseDistance :=
    ⟨show (0 : Int) ≤ (0 : Int32).toInt by decide, show (0 : Int32).toInt ≤ 255 by decide⟩
  exact ⟨⟨.inr hp, perform_unreachable e ⟨hd, hp⟩⟩, hp, perform_unreachable e hp⟩

end FabricMemory
