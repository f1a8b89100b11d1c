import FabricMemory.Error
import FabricMemory.Log

/-!
# The shared control channel

The channel is opened on first use and then kept. An attempt that fails leaves the cache as it was,
apart from the count of attempts, so that the next use tries again.
-/

namespace FabricMemory

/-- An open channel, known by the attempt that opened it. -/
structure Channel where
  attempt : Nat
deriving DecidableEq, Repr

structure ChannelCache where
  /-- How often the opener was called. -/
  attempts : Nat := 0
  slot : Option Channel := none
deriving DecidableEq, Repr

namespace ChannelCache

def isOpen (cache : ChannelCache) : Bool := cache.slot.isSome

/-- Holds a channel from the start, which no attempt opened. -/
def preopened : ChannelCache := ⟨0, some ⟨0⟩⟩

def text (cache : ChannelCache) : String :=
  "ChannelCache \x7b open: " ++ (if cache.isOpen then "true" else "false") ++ ", .. \x7d"

variable {σ : Type}

def get (opener : σ → Logged (Except Error Unit × σ)) (cache : ChannelCache) (world : σ) :
    Logged (Except Error Channel × ChannelCache × σ) :=
  match cache.slot with
  | some channel => return (.ok channel, cache, world)
  | none => do
    let (opened, world) ← opener world
    let attempts := cache.attempts + 1
    match opened with
    | .ok () => return (.ok ⟨attempts⟩, ⟨attempts, some ⟨attempts⟩⟩, world)
    | .error e => return (.error e, ⟨attempts, none⟩, world)

/-- The opener of a cache that holds a channel from the start; it is never called. -/
def noOpener (world : σ) : Logged (Except Error Unit × σ) :=
  return (.error (.invalidArgument .noOpener), world)

end ChannelCache

end FabricMemory
