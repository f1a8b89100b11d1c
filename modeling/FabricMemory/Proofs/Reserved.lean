import Mathlib
import FabricMemory.Proofs.Frame
import FabricMemory.Proofs.Vetting

/-!
# The reserved endpoint

Zero is reserved, but only exports keep to that. The search compares zero like any other endpoint,
so a controller whose identifier reads 0 owns it (`reserved_resolves`), and imports from it are let
through. Main statement (`play_reserved`): without such a controller zero is not resolved and no
command about it is submitted, and exports to it never are.
-/

namespace FabricMemory

namespace ControllerTree

/-- No controller has an identifier that reads 0. -/
def Unreserved (tree : ControllerTree) : Prop :=
  ∀ index < maxControllers, ∀ path, (tree.locate index).value = .ok path →
    tree.value? path eidAttribute ≠ some 0

structure Unresolved (tree : ControllerTree) (eid : Eid) : Prop where
  find : ∀ controller, (tree.find eid).value ≠ .ok controller
  attachment : ∀ attachment, (tree.attachment eid).value ≠ .ok attachment
  primaryCna : ∀ cna, (tree.primaryCna eid).value ≠ .ok cna

variable {tree : ControllerTree} {eid : Eid}

theorem unresolved_of_not_owns (h : ∀ controller, ¬ tree.Owns eid controller) :
    tree.Unresolved eid where
  find controller hf := h controller (find_eq_ok_iff.mp hf)
  attachment attachment ha := by
    obtain ⟨controller, ho, -⟩ := attachment_eq_ok_iff.mp ha
    exact h controller ho
  primaryCna cna hc := by
    obtain ⟨controller, ho, -⟩ := primaryCna_eq_ok_iff.mp hc
    exact h controller ho

theorem Owns.value?_zero {controller : Controller} (h : tree.Owns Eid.zero controller) :
    tree.value? controller.path eidAttribute = some 0 := by
  obtain ⟨raw, hr, he⟩ := Option.map_eq_some_iff.mp h.own
  have hz : raw.toUInt32 = Int32.toUInt32 0 :=
    UInt32.toNat_inj.mp ((eidOfAttribute_eq_ofNat_iff (by decide)).mp he)
  rw [hr]
  exact congrArg (some ∘ Int32.ofUInt32) hz

theorem Unreserved.not_owns (h : tree.Unreserved) (controller : Controller) :
    ¬ tree.Owns Eid.zero controller :=
  fun ho => h controller.index ho.index controller.path ho.located ho.value?_zero

theorem attributeDirectory?_sole {eid cna : String} {index : Nat} (hi : index < maxControllers)
    (hz : index ≠ 0) : (sole eid cna).attributeDirectory? index = none := by
  unfold maxControllers at hi
  interval_cases index
  · exact absurd rfl hz
  all_goals
    rw [attributeDirectory?, directory?, route]
    cbv

theorem sole_unreserved : (sole "7" "5").Unreserved := by
  intro index hi path hl
  by_cases hz : index = 0
  · subst hz
    obtain rfl := Except.ok.inj ((locate_sole "7" "5").symm.trans hl)
    have hv : (sole "7" "5").value? solePath eidAttribute = some 7 := by cbv
    rw [hv]
    decide
  · rw [value_locate, attributeDirectory?_sole hi hz] at hl
    split at hl <;> cases hl

end ControllerTree

namespace Call

/-- The endpoint that the vendor judges a call by. -/
def endpoint? (registers : Registers) : Call → Option Eid
  | .exportPages on .. | .exportRange on .. => some (registers.regions on).deid
  | .importRegion on .. => some (registers.regions on).seid
  | .declareWindow on .. => some (registers.windows on).seid
  | _ => none

def isExport : Call → Bool
  | .exportPages .. | .exportRange .. => true
  | _ => false

theorem owned_of_vouches {tree : ControllerTree} {registers : Registers} {call : Call}
    {request : Request} {eid : Eid} (hv : tree.Vouches request) (hn : call.Names registers request)
    (he : call.endpoint? registers = some eid) :
    (call.isExport = true → eid ≠ Eid.zero) ∧ ∃ controller, tree.Owns eid controller := by
  cases call with
  | exportPages on sizes flags =>
    cases request with
    | exportPages command =>
      obtain rfl : command.deid = eid := hn.trans (Option.some.inj he)
      obtain ⟨controller, _, _, _, ho, -⟩ := hv.owner
      exact ⟨fun _ => hv.nonzero, controller, ho⟩
    | _ => cases hn
  | exportRange on pid va length flags =>
    cases request with
    | exportRange command =>
      obtain rfl : command.deid = eid := hn.trans (Option.some.inj he)
      obtain ⟨controller, _, _, _, ho, -⟩ := hv.owner
      exact ⟨fun _ => hv.nonzero, controller, ho⟩
    | _ => cases hn
  | importRegion on flags distance numaHint =>
    cases request with
    | importRegion command =>
      obtain rfl : command.seid = eid := hn.1.trans (Option.some.inj he)
      obtain ⟨controller, _, ho, -⟩ := hv
      exact ⟨nofun, controller, ho⟩
    | _ => cases hn
  | declareWindow on flags =>
    cases request with
    | declareWindow command =>
      obtain rfl : command.seid = eid := hn.1.trans (Option.some.inj he)
      obtain ⟨controller, _, ho, -⟩ := hv
      exact ⟨nofun, controller, ho⟩
    | _ => cases hn
  | _ => cases he

theorem prepare_isSome_of_endpoint? {registers : Registers} {call : Call} {eid : Eid}
    (h : call.endpoint? registers = some eid) : (call.prepare registers).isSome = true := by
  cases call with
  | setOwnership => cases h
  | _ => rfl

end Call

namespace Host

variable {δ : Type} {root : Path} {backend : Backend δ}

theorem owned_of_submitted {step : Step (Host δ)} {request : Request} {reply : Reply} {eid : Eid}
    (hc : Course (peersWith root backend) step.before step.call step.performed)
    (hs : .submitted request reply ∈ step.performed.events)
    (he : step.call.endpoint? step.before.registers = some eid) :
    (step.call.isExport = true → eid ≠ Eid.zero) ∧
      ∃ controller, (step.before.link.world.tree root).Owns eid controller := by
  obtain ⟨submission, opening, middle, hp, ho, ha⟩ := hc.approved hs
  obtain ⟨hv, hn⟩ := vouches_of_approved hp ha
  rw [tree, files_of_connects ho] at hv
  exact Call.owned_of_vouches hv hn he

/-- Zero is resolved only where a controller's identifier reads 0. Without one no command about it
is submitted, and an export to it never is. -/
theorem play_reserved (root : Path) (backend : Backend δ) (session : Session (Host δ))
    (moves : List (Move (Host δ))) :
    (∀ tree : ControllerTree, tree.Unreserved → tree.Unresolved Eid.zero) ∧
    ∀ step ∈ (session.play (peersWith root backend) moves).value.steps,
      step.call.endpoint? step.before.registers = some Eid.zero →
      step.call.isExport = true ∨ (step.before.link.world.tree root).Unreserved →
      step.Barred := by
  refine ⟨fun tree hu => ControllerTree.unresolved_of_not_owns hu.not_owns,
    fun step hm he hx => ?_⟩
  have hc := Session.play_course hm
  have hs : ∀ request reply, .submitted request reply ∉ step.performed.events := by
    intro request reply hs
    obtain ⟨hz, controller, ho⟩ := owned_of_submitted hc hs he
    obtain hx | hu := hx
    · exact hz hx rfl
    · exact hu.not_owns controller ho
  exact ⟨hc.error_of_silent (Call.prepare_isSome_of_endpoint? he) hs, hs⟩

theorem play_reserved_sole :
    let tree := ControllerTree.sole "7" "5"
    let session : Session (Host Unit) :=
      ⟨{ regions := fun _ => { seid := Eid.zero, scna := 5 } }, ⟨{}, ⟨tree.files, ()⟩⟩⟩
    let moves := [.call (.importRegion "region" ⟨0⟩ 0 none)]
    tree.Unresolved Eid.zero ∧
      ∃ step ∈ (session.play (peersWith tree.root willing) moves).value.steps, step.Barred := by
  intro tree session moves
  have hu : tree.Unreserved := ControllerTree.sole_unreserved
  obtain ⟨ht, hp⟩ := play_reserved tree.root willing session moves
  exact ⟨ht tree hu, _, .head _, hp _ (.head _) rfl (.inr hu)⟩

/-- A controller whose identifier reads 0 is found for zero, and an import from there goes through
its channel adapter. -/
theorem reserved_resolves :
    let tree := ControllerTree.sole "0" "5"
    let session : Session (Host Unit) :=
      ⟨{ regions := fun _ => { seid := Eid.zero, scna := 5 } }, ⟨{}, ⟨tree.files, ()⟩⟩⟩
    let call := .importRegion "region" ⟨0⟩ 0 none
    (tree.find Eid.zero).value = .ok ⟨0, ControllerTree.solePath⟩ ∧
      (tree.attachment Eid.zero).value = .ok ⟨3, 1⟩ ∧
      (tree.primaryCna Eid.zero).value = .ok 5 ∧
      ∃ request reply, .submitted request reply ∈
        (session.perform (peersWith tree.root willing) call).value.events := by
  intro tree session call
  have ho : tree.Owns Eid.zero ⟨0, ControllerTree.solePath⟩ := ControllerTree.owns_sole (by cbv)
  have hc : (tree.primaryCna Eid.zero).value = .ok 5 :=
    ControllerTree.primaryCna_eq_ok_iff.mpr ⟨_, ho, by cbv⟩
  refine ⟨ControllerTree.find_eq_ok_iff.mpr ho,
    ControllerTree.attachment_eq_ok_iff.mpr ⟨_, ho, by cbv, by cbv⟩, hc, ?_⟩
  have hv := session.perform_course (peersWith tree.root willing) call
  obtain ⟨reply, hs⟩ := hv.submitted rfl rfl
    (approved_vetted_iff.mpr ⟨ControllerTree.checkSource_eq_ok_iff.mpr hc, rfl⟩)
  exact ⟨_, reply, hs⟩

end Host

end FabricMemory
