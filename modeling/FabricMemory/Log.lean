/-!
# Log lines

A computation that writes log lines is `Logged`: its value together with the lines in order. The
value of a composition does not depend on the lines (`value_bind`).
-/

namespace FabricMemory

inductive Level where
  | trace | debug | info | warn | error
deriving DecidableEq, Repr

def Level.name : Level → String
  | .trace => "TRACE"
  | .debug => "DEBUG"
  | .info => "INFO"
  | .warn => "WARN"
  | .error => "ERROR"

structure LogLine where
  level : Level
  text : String
deriving DecidableEq, Repr

structure Logged (α : Type) where
  value : α
  lines : List LogLine := []

namespace Logged

instance : Monad Logged where
  pure value := ⟨value, []⟩
  bind x next := ⟨(next x.value).value, x.lines ++ (next x.value).lines⟩

variable {α β : Type}

theorem ext_iff {x y : Logged α} : x = y ↔ x.value = y.value ∧ x.lines = y.lines := by
  cases x
  cases y
  simp

@[simp] theorem value_pure (a : α) : (pure a : Logged α).value = a := rfl

@[simp] theorem lines_pure (a : α) : (pure a : Logged α).lines = [] := rfl

@[simp] theorem value_bind (x : Logged α) (next : α → Logged β) :
    (x >>= next).value = (next x.value).value := rfl

@[simp] theorem lines_bind (x : Logged α) (next : α → Logged β) :
    (x >>= next).lines = x.lines ++ (next x.value).lines := rfl

def log (level : Level) (text : String) : Logged Unit := ⟨(), [⟨level, text⟩]⟩

@[simp] theorem value_log (level : Level) (text : String) : (log level text).value = () := rfl

end Logged

end FabricMemory
