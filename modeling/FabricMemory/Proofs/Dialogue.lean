import FabricMemory.Peers

/-!
# Laws of dialogues

Operations are chains of checks and questions. `Dialogue.either` goes on with the value of one part
or with its error, and every chain can be written with it alone (`Operation.run_bind`,
`InPlace.on_lift_bind`). `Dialogue.Says` holds of a dialogue that asks for nothing but log lines.
-/

namespace FabricMemory

variable {σ ρ τ α β γ : Type}

instance : LawfulMonad Dialogue :=
  LawfulMonad.mk' _ (fun x => Dialogue.bind_done x) (fun _ _ => rfl) Dialogue.bind_assoc

theorem bind_eq_ok {ε α β : Type} {x : Except ε α} {f : α → Except ε β} {b : β}
    (h : x >>= f = .ok b) : ∃ a, x = .ok a ∧ f a = .ok b := by
  cases x with
  | ok a => exact ⟨a, rfl, h⟩
  | error e => cases h

namespace Dialogue

theorem pure_eq_done (a : α) : (pure a : Dialogue α) = .done a := by rfl

-- ---------------------------------------------------------------------
-- Going on after an error

def either (x : Dialogue (Except Error α)) (stop : Error → Dialogue β) (next : α → Dialogue β) :
    Dialogue β :=
  x >>= fun result =>
    match result with
    | .ok a => next a
    | .error e => stop e

@[simp] theorem either_ok (a : α) (stop : Error → Dialogue β) (next : α → Dialogue β) :
    (done (.ok a)).either stop next = next a := by rfl

@[simp] theorem either_error (e : Error) (stop : Error → Dialogue β) (next : α → Dialogue β) :
    (done (.error e)).either stop next = stop e := by rfl

theorem either_either (x : Dialogue (Except Error α)) (stop : Error → Dialogue (Except Error β))
    (next : α → Dialogue (Except Error β)) (stop' : Error → Dialogue γ) (next' : β → Dialogue γ) :
    (x.either stop next).either stop' next' =
      x.either (fun e => (stop e).either stop' next') fun a => (next a).either stop' next' := by
  unfold either
  rw [bind_assoc]
  congr 1
  funext result
  cases result <;> rfl

theorem either_bind (x : Dialogue (Except Error α)) (stop : Error → Dialogue β)
    (next : α → Dialogue β) (f : β → Dialogue γ) :
    x.either stop next >>= f = x.either (fun e => stop e >>= f) fun a => next a >>= f := by
  unfold either
  rw [bind_assoc]
  congr 1
  funext result
  cases result <;> rfl

-- ---------------------------------------------------------------------
-- Dialogues that only write log lines

inductive Says : Dialogue α → α → Prop
  | done : Says (.done a) a
  | log {next : Ask.Answer (.log line) → Dialogue α} (h : Says (next ()) a) :
    Says (.ask (.log line) next) a

theorem Says.bind {x : Dialogue α} {f : α → Dialogue β} (hx : Says x a) (hf : Says (f a) b) :
    Says (x >>= f) b := by
  induction hx with
  | done => exact hf
  | log _ ih => exact .log (ih hf)

theorem Says.run {x : Dialogue α} (h : Says x a) (peers : Peers σ) (link : Link σ) :
    (x.run peers link).value = ⟨a, [], link⟩ := by
  induction h with
  | done => rfl
  | log _ ih => simp [Dialogue.run, Peers.answer, ih]

-- ---------------------------------------------------------------------
-- What a run gives

theorem value_run_ask (peers : Peers σ) (question : Ask) (next : question.Answer → Dialogue α)
    (link : Link σ) :
    ((Dialogue.ask question next).run peers link).value =
      let first := (peers.answer link question).value
      let rest := ((next first.value).run peers first.link).value
      ⟨rest.value, first.events ++ rest.events, rest.link⟩ := by
  rfl

theorem value_run_ask_done (peers : Peers σ) (link : Link σ) (question : Ask) :
    ((Dialogue.ask question .done).run peers link).value = (peers.answer link question).value := by
  rw [value_run_ask]
  simp [run]

theorem value_run_either (peers : Peers σ) (x : Dialogue (Except Error α))
    (stop : Error → Dialogue β) (next : α → Dialogue β) (link : Link σ) :
    ((x.either stop next).run peers link).value =
      let first := (x.run peers link).value
      let rest :=
        match first.value with
        | .ok a => ((next a).run peers first.link).value
        | .error e => ((stop e).run peers first.link).value
      ⟨rest.value, first.events ++ rest.events, rest.link⟩ := by
  rw [either, run_bind]
  simp only [Logged.value_bind, Logged.value_pure]
  cases (x.run peers link).value.value <;> rfl

end Dialogue

-- ---------------------------------------------------------------------
-- Chains of operations

namespace Operation

theorem run_check (result : Except Error α) : ExceptT.run (check result) = .done result := by rfl

theorem run_settle (verdict : Except Error Unit) (a : α) :
    ExceptT.run (check verdict >>= fun _ => pure a) = .done (verdict.map fun _ => a) := by
  cases verdict <;> rfl

theorem run_bind (x : Operation α) (f : α → Operation β) :
    ExceptT.run (x >>= f) =
      (ExceptT.run x).either (fun e => .done (.error e)) fun a => ExceptT.run (f a) := by
  rw [ExceptT.run_bind, Dialogue.either]
  congr 1
  funext result
  cases result <;> rfl

theorem events_run_bind_pure (peers : Peers σ) (x : Operation α) (f : α → β) (link : Link σ) :
    ((ExceptT.run (x >>= fun a => pure (f a))).run peers link).value.events =
      ((ExceptT.run x).run peers link).value.events := by
  rw [run_bind, Dialogue.value_run_either]
  generalize ((ExceptT.run x).run peers link).value = ran
  obtain ⟨e | a, events, after⟩ := ran <;> exact List.append_nil events

end Operation

namespace InPlace

theorem on_pure (a : α) (value : ρ) : InPlace.on (pure a) value = .done (.ok a, value) := by rfl

theorem on_get_bind (f : ρ → InPlace ρ β) (value : ρ) :
    InPlace.on (get >>= f) value = (f value).on value := by rfl

theorem on_lift_bind (x : Operation α) (f : α → InPlace ρ β) (value : ρ) :
    InPlace.on (liftM x >>= f) value =
      (ExceptT.run x).either (fun e => .done (.error e, value)) fun a => (f a).on value := by
  show (ExceptT.run x >>= fun result => Dialogue.done (result, value)) >>= _ = _
  rw [Dialogue.bind_assoc, Dialogue.either]
  congr 1
  funext result
  cases result <;> rfl

theorem on_bind (p : InPlace ρ α) (f : α → InPlace ρ β) (value : ρ) :
    InPlace.on (p >>= f) value = p.on value >>= fun (result, after) =>
      match result with
      | .ok a => (f a).on after
      | .error e => .done (.error e, after) := by
  show p.on value >>= _ = _
  congr 1
  funext (result, after)
  cases result <;> rfl

theorem on_within (p : InPlace ρ α) (get : τ → ρ) (put : τ → ρ → τ) (whole : τ) :
    (p.within get put).on whole =
      p.on (get whole) >>= fun (result, part) => .done (result, put whole part) := by rfl

end InPlace

end FabricMemory
