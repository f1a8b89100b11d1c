import FabricMemory.Channel
import FabricMemory.Dialogue

/-!
# Answering an operation

`Peers` are the parties an operation talks to, each a step on a world they share. `Dialogue.run`
lets them answer and keeps what happened as a list of events, apart from the log lines.
-/

namespace FabricMemory

structure Peers (σ : Type) where
  openChannel : σ → Logged (Except Error Unit × σ)
  adapt : Descriptor → σ → Logged (Except Error Adaptation × σ)
  fixup {kind : Incoming.Kind} : Incoming kind → σ → Logged (Vetted kind × σ)
  cleanup {kind : Incoming.Kind} : Incoming kind → σ → Logged (Incoming kind × σ)
  submit : Request → σ → Logged (Reply × σ)
  update : RangeUpdate → σ → Option IoError × σ

/-- What happened between an operation and its peers. A command that passed through the vendor's
hands is there as it was handed over and as it was left. -/
inductive Event where
  | opened (success : Bool)
  | adapted (region : Descriptor) (accepted : Bool)
  | released (vendor : VendorInfo)
  | fixedUp {kind : Incoming.Kind} (incoming left : Incoming kind) (accepted : Bool)
  | cleanedUp {kind : Incoming.Kind} (incoming left : Incoming kind)
  | submitted (request : Request) (reply : Reply)
  | updated (range : RangeUpdate) (refusal : Option IoError)
deriving DecidableEq

structure Link (σ : Type) where
  cache : ChannelCache
  world : σ

structure Answered (σ α : Type) where
  value : α
  events : List Event
  link : Link σ

namespace Peers

variable {σ : Type}

/-- The opener is called only where the cache holds no channel. -/
def connect (peers : Peers σ) (link : Link σ) : Logged (Answered σ (Except Error Unit)) := do
  let (channel, cache, world) ← link.cache.get peers.openChannel link.world
  let events := if link.cache.isOpen then [] else [.opened channel.isOk]
  return ⟨channel.map fun _ => (), events, cache, world⟩

def answer (peers : Peers σ) (link : Link σ) :
    (question : Ask) → Logged (Answered σ question.Answer)
  | .log line => ⟨⟨(), [], link⟩, [line]⟩
  | .connect => peers.connect link
  | .adapt region => do
    let (adapted, world) ← peers.adapt region link.world
    return ⟨adapted, [.adapted region adapted.isOk], link.cache, world⟩
  | .release vendor => do
    Logged.log .trace ("Releasing vendor info " ++ vendor.text)
    return ⟨(), [.released vendor], link⟩
  | .fixup incoming => do
    let (vetted, world) ← peers.fixup incoming link.world
    return ⟨vetted, [.fixedUp incoming vetted.incoming vetted.verdict.isOk], link.cache, world⟩
  | .cleanup incoming => do
    let (left, world) ← peers.cleanup incoming link.world
    return ⟨left, [.cleanedUp incoming left], link.cache, world⟩
  | .submit request => do
    let (reply, world) ← peers.submit request link.world
    return ⟨reply, [.submitted request reply], link.cache, world⟩
  | .update range =>
    let (refusal, world) := peers.update range link.world
    return ⟨refusal, [.updated range refusal], link.cache, world⟩

end Peers

namespace Dialogue

variable {σ α β : Type}

def run (peers : Peers σ) : Dialogue α → Link σ → Logged (Answered σ α)
  | .done value, link => return ⟨value, [], link⟩
  | .ask question next, link => do
    let first ← peers.answer link question
    let rest ← (next first.value).run peers first.link
    return ⟨rest.value, first.events ++ rest.events, rest.link⟩

theorem run_bind (peers : Peers σ) (x : Dialogue α) (f : α → Dialogue β) (link : Link σ) :
    (x >>= f).run peers link = (do
      let first ← x.run peers link
      let rest ← (f first.value).run peers first.link
      return ⟨rest.value, first.events ++ rest.events, rest.link⟩ : Logged (Answered σ β)) := by
  induction x generalizing link with
  | done value => simp [run, Logged.ext_iff]
  | ask question next ih =>
    simp [run, ih, Logged.ext_iff]

end Dialogue

def Operation.run {σ α : Type} (peers : Peers σ) (operation : Operation α) (link : Link σ) :
    Logged (Answered σ (Except Error α)) :=
  Dialogue.run peers (ExceptT.run operation) link

end FabricMemory
