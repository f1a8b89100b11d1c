import FabricMemory.Proofs.Frame
import FabricMemory.Proofs.Refusal

/-!
# The account of an export

An export gives a number of bytes for each local NUMA node. Their total is taken within 64 bits and
the driver is handed one slot for each node (`ExportCommand.Counts`); the two sums are the same
number. Main statement: `export_accounts`.
-/

namespace FabricMemory

variable {σ : Type}

namespace Operation

-- ---------------------------------------------------------------------
-- Sums

theorem sizeSum_append (first rest : List UInt64) :
    sizeSum (first ++ rest) = sizeSum first + sizeSum rest := by
  induction first with
  | nil => simp [sizeSum]
  | cons size first ih => simp [sizeSum, ih, Nat.add_assoc]

theorem sizeSum_zeros (count : Nat) : sizeSum (List.replicate count 0) = 0 := by
  induction count with
  | zero => rfl
  | succ count ih => simpa [List.replicate_succ, sizeSum] using ih

theorem sizeSum_take_le (sizes : List UInt64) (count : Nat) :
    sizeSum (sizes.take count) ≤ sizeSum sizes := by
  have h := sizeSum_append (sizes.take count) (sizes.drop count)
  rw [List.take_append_drop] at h
  omega

/-- No total on the way to one of 64 bits is cut off. -/
theorem totalSize_take {sizes : List UInt64} (h : sizeSum sizes < wordBound 64) (count : Nat) :
    ∃ total, totalSize (sizes.take count) = some total ∧
      total.toNat = sizeSum (sizes.take count) := by
  have hn : (UInt64.ofNat (sizeSum (sizes.take count))).toNat = sizeSum (sizes.take count) := by
    refine UInt64.toNat_ofNat_of_lt' ?_
    exact Nat.lt_of_le_of_lt (sizeSum_take_le sizes count) h
  exact ⟨_, (totalSize_eq_some_iff ..).mpr hn, hn⟩

-- ---------------------------------------------------------------------
-- Sizes that are turned down

def Uncountable (sizes : List UInt64) : Prop :=
  maxLocalNodes < sizes.length ∨ wordBound 64 ≤ sizeSum sizes
deriving Decidable

/-- What is wrong with such sizes; their number is looked at first. -/
def sizesFault (sizes : List UInt64) : Misuse :=
  if maxLocalNodes < sizes.length then .tooManySizes sizes.length else .sizesOverflow

theorem checkSizes_of_uncountable {sizes : List UInt64} (h : Uncountable sizes) :
    checkSizes sizes = .error (.invalidArgument (sizesFault sizes)) := by
  unfold checkSizes sizesFault
  split
  · rfl
  · rename_i hl
    have hs : totalSize sizes = none := by
      cases ht : totalSize sizes with
      | none => rfl
      | some total =>
        have hn := (totalSize_eq_some_iff sizes total).mp ht
        have hb : total.toNat < wordBound 64 := total.toNat_lt
        obtain hm | hm := h
        · exact absurd hm hl
        · omega
    rw [hs]

theorem checkSizes_of_countable {sizes : List UInt64} (h : ¬ Uncountable sizes) :
    ∃ total, checkSizes sizes = .ok total ∧ total.toNat = sizeSum sizes := by
  obtain ⟨hl, hs⟩ := not_or.mp h
  obtain ⟨total, -, ht⟩ := totalSize_take (Nat.lt_of_not_le hs) sizes.length
  rw [List.take_length] at ht
  exact ⟨total, (checkSizes_eq_ok_iff ..).mpr ⟨Nat.le_of_not_lt hl, ht⟩, ht⟩

-- ---------------------------------------------------------------------
-- Slots

theorem toList_sizeSlots {sizes : List UInt64} (h : sizes.length ≤ maxLocalNodes) :
    (sizeSlots sizes).toList = sizes ++ List.replicate (maxLocalNodes - sizes.length) 0 := by
  refine List.ext_getElem ?_ fun node hn _ => ?_
  · simp
    omega
  · rw [Vector.getElem_toList]
    by_cases hg : node < sizes.length
    · simp [sizeSlots, List.getElem_append_left hg, hg]
    · simp [sizeSlots, List.getElem_append_right (Nat.le_of_not_lt hg), hg]

end Operation

/-- The driver is handed one slot for each size and zero in the slots that are left. As numbers,
the slots add up to what the sizes add up to. -/
structure ExportCommand.Counts (command : ExportCommand) (sizes : List UInt64) : Prop where
  given (node : Nat) (hn : node < maxLocalNodes) (hg : node < sizes.length) :
    command.sizes[node] = sizes[node]
  left (node : Nat) (hn : node < maxLocalNodes) (hg : sizes.length ≤ node) :
    command.sizes[node] = 0
  length : command.length.toNat = maxLocalNodes
  total : Operation.sizeSum command.sizes.toList = Operation.sizeSum sizes

theorem Operation.pagesCommand_counts {sizes : List UInt64} (h : sizes.length ≤ maxLocalNodes)
    (flags : ExportFlags) (region : Descriptor) (payloadLength : UInt16)
    (adaptation : Adaptation) :
    (pagesCommand sizes flags region payloadLength adaptation).Counts sizes where
  given node hn hg := by simp [pagesCommand, sizeSlots, hg]
  left node hn hg := by simp [pagesCommand, sizeSlots, hg]
  length := by rfl
  total := by
    show sizeSum (sizeSlots sizes).toList = sizeSum sizes
    simp [toList_sizeSlots h, sizeSum_append, sizeSum_zeros]

-- ---------------------------------------------------------------------
-- Calls

/-- The channel can be had over this link, and the vendor then has its part of the export. -/
def Peers.Adapts (peers : Peers σ) (link : Link σ) (region : Descriptor) : Prop :=
  let opened := (peers.connect link).value
  opened.value = .ok () ∧
    ∃ adaptation, (peers.adapt region opened.link.world).value.1 = .ok adaptation

section

variable {peers : Peers σ} {session : Session σ} {on : String} {sizes : List UInt64}
  {flags : ExportFlags} {performed : Performed σ}

theorem Course.counts {request : Request} {reply : Reply}
    (h : Course peers session (.exportPages on sizes flags) performed)
    (hs : .submitted request reply ∈ performed.events) :
    ∃ command, request = .exportPages command ∧ command.Counts sizes := by
  obtain ⟨submission, _, _, hp, -, ha⟩ := h.approved hs
  cases hp with
  | exportPages ht hp =>
    cases ha with
    | adapted =>
      have hl := ((Operation.checkSizes_eq_ok_iff ..).mp ht).1
      exact ⟨_, rfl, Operation.pagesCommand_counts hl ..⟩

theorem Course.submits_countable (h : Course peers session (.exportPages on sizes flags) performed)
    (hc : ¬ Operation.Uncountable sizes)
    (hp : (session.registers.regions on).payload.length ≤ maxPayload)
    (ha : peers.Adapts session.link (session.registers.regions on)) :
    ∃ request reply, .submitted request reply ∈ performed.events := by
  obtain ⟨total, hs, -⟩ := Operation.checkSizes_of_countable hc
  have hn : (session.registers.regions on).payloadLength = .ok _ := if_pos hp
  obtain ⟨ho, adaptation, ha⟩ := ha
  exact ⟨_, h.submitted (Call.Prepares.exportPages hs hn).prepare ho (.adapted ha)⟩

theorem Course.sums_slots {outcome : Outcome}
    (h : Course peers session (.exportPages on sizes flags) performed)
    (ho : performed.result = .ok outcome) :
    ∃ command reply, .submitted (.exportPages command) reply ∈ performed.events ∧
      (performed.session.registers.regions on).length.toNat =
        Operation.sizeSum command.sizes.toList := by
  let step : Step σ := ⟨.exportPages on sizes flags, session, performed⟩
  have hf : step.Framed := by
    refine Course.framed h ?_
    simp [step, Step.accepted, ho, Except.isOk, Except.toBool]
  obtain ⟨request, hs, -⟩ := hf.reply (.inl rfl)
  obtain ⟨command, rfl, hn⟩ := h.counts hs
  exact ⟨command, _, hs, (hf.length on sizes flags rfl).trans hn.total.symm⟩

end

/-- Sizes that cannot be counted are refused before anyone is asked. Of all others no total on the
way is cut off, and the driver is handed each of them in its slot; what an export has given is, as a
number, the sum of all the slots. -/
theorem Session.export_accounts (peers : Peers σ) (session : Session σ) (on : String)
    (sizes : List UInt64) (flags : ExportFlags) :
    let performed := (session.perform peers (.exportPages on sizes flags)).value
    (Operation.Uncountable sizes →
      performed = ⟨.error (.invalidArgument (Operation.sizesFault sizes)), [], session⟩) ∧
    (¬ Operation.Uncountable sizes →
      (∀ count, ∃ total, Operation.totalSize (sizes.take count) = some total ∧
        total.toNat = Operation.sizeSum (sizes.take count)) ∧
      ((session.registers.regions on).payload.length ≤ maxPayload →
        peers.Adapts session.link (session.registers.regions on) →
        ∃ request reply, .submitted request reply ∈ performed.events)) ∧
    (∀ request reply, .submitted request reply ∈ performed.events →
      ∃ command, request = .exportPages command ∧ command.Counts sizes) ∧
    ∀ outcome, performed.result = .ok outcome →
      ∃ command reply, .submitted (.exportPages command) reply ∈ performed.events ∧
        (performed.session.registers.regions on).length.toNat =
          Operation.sizeSum command.sizes.toList := by
  intro performed
  have hc := session.perform_course peers (.exportPages on sizes flags)
  refine ⟨fun hu => ?_, fun hu => ⟨fun count => ?_, hc.submits_countable hu⟩,
    fun request reply => hc.counts, fun outcome ho => ?_⟩
  · refine hc.eq_of_misused ?_
    simp only [Call.prepare, Operation.checkSizes_of_uncountable hu]
    rfl
  · exact Operation.totalSize_take (Nat.lt_of_not_le (not_or.mp hu).2) count
  · exact hc.sums_slots ho

/-- Sizes that fill 64 bits are counted to the last byte; one byte more is refused. -/
theorem Session.export_accounts_full :
    let session : Session Unit := ⟨{}, ⟨{}, ()⟩⟩
    let half := UInt64.ofNat (wordBound 63)
    let perform sizes := (session.perform obliging (.exportPages "region" sizes ⟨1⟩)).value
    (∃ command reply,
      .submitted (.exportPages command) reply ∈ (perform [half, half - 1]).events ∧
        ((perform [half, half - 1]).session.registers.regions "region").length.toNat =
          Operation.sizeSum command.sizes.toList) ∧
      perform [half, half] = ⟨.error (.invalidArgument .sizesOverflow), [], session⟩ := by
  intro session half perform
  obtain ⟨-, hc, -, hl⟩ := export_accounts obliging session "region" [half, half - 1] ⟨1⟩
  obtain ⟨hu, -⟩ := export_accounts obliging session "region" [half, half] ⟨1⟩
  obtain ⟨request, reply, hs⟩ := (hc (by decide)).2 (Nat.zero_le _) ⟨rfl, _, rfl⟩
  obtain ⟨_, ho⟩ := (session.perform_course obliging _).succeeds hs fun _ _ => rfl
  exact ⟨hl _ ho, hu (.inr (by decide))⟩

end FabricMemory
