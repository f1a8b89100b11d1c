import FabricMemory.Operation.Export
import FabricMemory.Operation.Import
import FabricMemory.Operation.Query
import FabricMemory.Operation.Range
import FabricMemory.Operation.Window
import FabricMemory.Peers

/-!
# Sessions

A session keeps descriptors and windows under names and runs calls on them. Each call works on the
one it names in place. Between calls the world may change by itself.
-/

namespace FabricMemory

inductive Call where
  | exportPages (on : String) (sizes : List UInt64) (flags : ExportFlags)
  | exportRange (on : String) (pid : Int32) (va length : UInt64) (flags : ExportFlags)
  | importRegion (on : String) (flags : ImportFlags) (distance : Int32) (numaHint : Option Int32)
  | endExport (memId : UInt64) (flags : UnexportFlags)
  | endImport (memId : UInt64) (flags : UnimportFlags)
  | declareWindow (on : String) (flags : WindowFlags)
  | withdrawWindow (on : String) (flags : WindowFlags)
  | regionAt (pa : UInt64)
  | addressOf (memId offset : UInt64)
  | setOwnership (first last : UInt64) (ownership : Ownership)
deriving DecidableEq

inductive Outcome where
  | done
  | exported (memId : UInt64)
  | imported (region : Operation.Imported)
  | region (memId offset : UInt64)
  | address (pa : UInt64)
deriving DecidableEq

structure Registers where
  regions : String → Descriptor := fun _ => {}
  windows : String → Window := fun _ => {}

namespace Registers

def setRegion (registers : Registers) (name : String) (region : Descriptor) : Registers :=
  { registers with
    regions := fun other => if other = name then region else registers.regions other }

def setWindow (registers : Registers) (name : String) (window : Window) : Registers :=
  { registers with
    windows := fun other => if other = name then window else registers.windows other }

end Registers

def Call.operation : Call → InPlace Registers Outcome
  | .exportPages on sizes flags => do
    return .exported (← (Operation.exportPages sizes flags).within (·.regions on) (·.setRegion on))
  | .exportRange on pid va length flags => do
    let memId ← (Operation.exportRange pid va length flags).within (·.regions on) (·.setRegion on)
    return .exported memId
  | .importRegion on flags distance numaHint => do
    return .imported (← Operation.importRegion ((← get).regions on) flags distance numaHint)
  | .endExport memId flags => do
    Operation.endExport memId flags
    return .done
  | .endImport memId flags => do
    Operation.endImport memId flags
    return .done
  | .declareWindow on flags => do
    (Operation.declareWindow flags).within (·.windows on) (·.setWindow on)
    return .done
  | .withdrawWindow on flags => do
    Operation.withdrawWindow ((← get).windows on) flags
    return .done
  | .regionAt pa => do
    let found ← Operation.regionAt pa
    return .region found.1 found.2
  | .addressOf memId offset => do
    return .address (← Operation.addressOf memId offset)
  | .setOwnership first last ownership => do
    Operation.setOwnership first last ownership
    return .done

structure Session (σ : Type) where
  registers : Registers := {}
  link : Link σ

structure Performed (σ : Type) where
  result : Except Error Outcome
  events : List Event
  session : Session σ

inductive Move (σ : Type) where
  | call (call : Call)
  | change (change : σ → σ)

structure Step (σ : Type) where
  call : Call
  before : Session σ
  performed : Performed σ

structure Played (σ : Type) where
  steps : List (Step σ)
  session : Session σ

def Played.events {σ : Type} (played : Played σ) : List Event :=
  played.steps.flatMap fun step => step.performed.events

namespace Session

variable {σ : Type}

def perform (peers : Peers σ) (session : Session σ) (call : Call) : Logged (Performed σ) := do
  let ran ← (call.operation.on session.registers).run peers session.link
  let (result, registers) := ran.value
  return ⟨result, ran.events, registers, ran.link⟩

def changeWorld (session : Session σ) (change : σ → σ) : Session σ :=
  { session with link := { session.link with world := change session.link.world } }

def play (peers : Peers σ) (session : Session σ) : List (Move σ) → Logged (Played σ)
  | [] => return ⟨[], session⟩
  | .change change :: rest => play peers (session.changeWorld change) rest
  | .call call :: rest => do
    let performed ← session.perform peers call
    let played ← play peers performed.session rest
    return { played with steps := ⟨call, session, performed⟩ :: played.steps }

end Session

end FabricMemory
