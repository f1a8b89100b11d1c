import Mathlib
import FabricMemory.Proofs.Course
import FabricMemory.Proofs.Report

/-!
# Scripts

How the steps of a command run, and what they leave as it is. A command is written so that all its
printing comes after the last step that can fail; `AllOrNothing` is what that gives.
-/

namespace FabricMemory

variable {δ α β γ : Type}

def Event.asksDriver : Event → Bool
  | .submitted .. | .updated .. => true
  | _ => false

def asked (events : List Event) : List Event := events.filter Event.asksDriver

theorem asked_append (events more : List Event) :
    asked (events ++ more) = asked events ++ asked more := List.filter_append ..

theorem mem_of_asked {event : Event} {events : List Event} (h : asked events = [event]) :
    event ∈ events :=
  List.mem_of_mem_filter (h ▸ List.mem_singleton_self event)

section

variable {σ : Type} {peers : Peers σ} {link after : Link σ} {prepared : Prepared}
  {result : Except Error Reply} {events : List Event}

theorem Connects.asked {opened : Except Error Unit}
    (h : Connects peers link ⟨opened, events, after⟩) : asked events = [] := by
  cases h <;> rfl

/-- A delivery asks the driver at most once, and what it gives is then the driver's verdict. -/
theorem Delivered.asked_cases (h : Delivered peers link prepared ⟨result, events, after⟩) :
    (asked events = [] ∧ ∃ e, result = .error e) ∨
      ∃ submission request reply, prepared = .ok (.ok submission) ∧
        asked events = [.submitted request reply] ∧
        result = (reply.verdict request.name).map fun _ => submission.returned events reply := by
  cases h with
  | misused => exact .inl ⟨rfl, _, rfl⟩
  | unreached hc | late hc => exact .inl ⟨hc.asked, _, rfl⟩
  | carried hc hd =>
    rw [asked_append, hc.asked, List.nil_append]
    simp only [hc.returned_append]
    cases hd with
    | unadapted | rejected => exact .inl ⟨rfl, _, rfl⟩
    | adapted | vetted | plain => exact .inr ⟨_, _, _, rfl, rfl, rfl⟩

theorem Delivered.asked_of_ok {returned : Reply}
    (h : Delivered peers link prepared ⟨.ok returned, events, after⟩) :
    ∃ submission request reply, prepared = .ok (.ok submission) ∧
      asked events = [.submitted request reply] ∧ reply.refusal = none ∧
      returned = submission.returned events reply := by
  obtain ⟨-, e, he⟩ | ⟨submission, request, reply, hp, ha, hv⟩ := h.asked_cases
  · cases he
  · cases hr : reply.verdict request.name with
    | error e =>
      rw [hr] at hv
      cases hv
    | ok =>
      rw [hr] at hv
      cases hv
      exact ⟨submission, request, reply, hp, ha, (reply.verdict_eq_ok_iff _).mp hr, rfl⟩

end

namespace CommandLine

-- ---------------------------------------------------------------------
-- Steps

namespace Progress

theorem printed_nil (progress : Progress δ) : progress.printed [] = progress := by
  simp [printed, Report.lines]

theorem printed_append (progress : Progress δ) (lines more : List String) :
    progress.printed (lines ++ more) = (progress.printed lines).printed more := by
  simp [printed, Report.lines_append, String.append_assoc]

end Progress

namespace Script

variable {config : Config} {driver : Driver δ} {progress after : Progress δ} {script : Script δ α}
  {next : α → Script δ β} {value : α} {failure : Failure} {context : String} {lines : List String}

theorem on_bind (script : Script δ α) (next : α → Script δ β) (progress : Progress δ) :
    (script >>= next).on progress =
      match script.on progress with
      | (.ok value, after) => (next value).on after
      | (.error failure, after) => (.error failure, after) := by
  show (match script.on progress with
    | (result, after) => StateT.run (ExceptT.bindCont next result) after) = _
  rcases script.on progress with ⟨failure | value, after⟩ <;> rfl

theorem on_bind_of_ok (h : script.on progress = (.ok value, after)) :
    (script >>= next).on progress = (next value).on after := by
  rw [on_bind, h]

theorem on_bind_of_error (h : script.on progress = (.error failure, after)) :
    (script >>= next).on progress = (.error failure, after) := by
  rw [on_bind, h]

theorem on_host : (host : Script δ (Host δ)).on progress = (.ok progress.link.world, progress) :=
  rfl

theorem on_attempt (context : String) (result : Except Error α) (progress : Progress δ) :
    (attempt context result).on progress =
      (result.mapError (Failure.ofError context), progress) := by
  cases result <;> rfl

def Prints (script : Script δ Unit) (lines : List String) : Prop :=
  ∀ progress, script.on progress = (.ok (), progress.printed lines)

theorem Prints.nil : Prints (pure () : Script δ Unit) [] := by
  intro progress
  rw [Progress.printed_nil]
  rfl

theorem Prints.append {first second : Script δ Unit} {more : List String}
    (h : first.Prints lines) (hs : second.Prints more) :
    (first >>= fun _ => second).Prints (lines ++ more) := by
  intro progress
  rw [on_bind_of_ok (h progress), hs, Progress.printed_append]

theorem prints_print (line : String) : (print line : Script δ Unit).Prints [line] := fun _ => rfl

theorem Prints.forM {step : γ → Script δ Unit} {texts : γ → List String}
    (h : ∀ value, (step value).Prints (texts value)) (values : List γ) :
    Prints (values.forM step) (values.flatMap texts) := by
  induction values with
  | nil => exact .nil
  | cons value values ih =>
    rw [List.flatMap_cons]
    exact (h value).append ih

theorem prints_printAll (lines : List String) : Prints (printAll lines : Script δ Unit) lines := by
  have h : Prints (lines.forM print : Script δ Unit) (lines.flatMap fun line => [line]) :=
    .forM prints_print lines
  rwa [List.flatMap_singleton'] at h

-- ---------------------------------------------------------------------
-- Operations

theorem on_perform (config : Config) (driver : Driver δ) (operation : Operation α)
    (context : String) (progress : Progress δ) :
    (perform config driver operation context).on progress =
      let ran :=
        (operation.run (Host.peers config.sysfsRoot config.device driver) progress.link).value
      (ran.value.mapError (Failure.ofError context),
        { progress with link := ran.link, events := progress.events ++ ran.events }) := by
  show (attempt context _).on _ = _
  rw [on_attempt]

theorem on_perform_submits {operation : Operation α} {prepared : Prepared} {give : Reply → α}
    (h : Submits (ExceptT.run operation) prepared .error fun reply => .ok (give reply))
    (config : Config) (driver : Driver δ) (context : String) (progress : Progress δ) :
    ∃ result events link,
      Delivered (Host.peers config.sysfsRoot config.device driver) progress.link prepared
        ⟨result, events, link⟩ ∧
      (perform config driver operation context).on progress =
        ((result.map give).mapError (Failure.ofError context),
          { progress with link := link, events := progress.events ++ events }) := by
  have hd := deliver_delivered (Host.peers config.sysfsRoot config.device driver) progress.link
    prepared
  rw [on_perform, Operation.run, h.run]
  generalize (Dialogue.run _ _ _).value = ran at hd ⊢
  obtain ⟨e | reply, events, link⟩ := ran
  · exact ⟨_, _, _, hd, rfl⟩
  · exact ⟨_, _, _, hd, rfl⟩

theorem on_perform_setOwnership (config : Config) (driver : Driver δ) (first last : UInt64)
    (ownership : Ownership) (context : String) (progress : Progress δ) :
    let range := Operation.rangeUpdate first last ownership
    let refusal := (driver.update range progress.link.world.driver).1
    ∃ link,
      (perform config driver (Operation.setOwnership first last ownership) context).on progress =
        (match refusal with
          | none => .ok ()
          | some source => .error (.ofError context (.driver RangeUpdate.requestName source)),
          { progress with
            link := link
            events := progress.events ++ [.updated range refusal] }) := by
  intro range refusal
  obtain ⟨line, finish, hr, ho, he⟩ := Operation.run_setOwnership first last ownership
  have hp : ((Host.peers config.sysfsRoot config.device driver).update range
      progress.link.world).1 = refusal := rfl
  rw [on_perform, Operation.run, hr]
  generalize refusal = refusal at hp ⊢
  rcases hu : (Host.peers config.sysfsRoot config.device driver).update range
    progress.link.world with ⟨_ | source, world⟩
  · obtain rfl : none = refusal := by rw [← hp, hu]
    exact ⟨⟨progress.link.cache, world⟩, by
      simp [Dialogue.value_run_ask, Peers.answer, range, hu, ho.run, Except.mapError]⟩
  · obtain rfl : some source = refusal := by rw [← hp, hu]
    exact ⟨⟨progress.link.cache, world⟩, by
      simp [Dialogue.value_run_ask, Peers.answer, range, hu, (he source).run, Except.mapError]⟩

theorem on_store (config : Config) (memId : UInt64) (region : Descriptor)
    (progress : Progress δ) :
    (store config memId region).on progress =
      let (saved, files) :=
        (region.save progress.link.world.files config.descriptors memId).value
      (saved.mapError (Failure.ofError "store descriptor"), progress.withFiles files) := by
  show (attempt "store descriptor" _).on _ = _
  rw [on_attempt]

-- ---------------------------------------------------------------------
-- What steps leave as it is

/-- The script leaves a part of what has been done as it was. -/
def Keeps (part : Progress δ → γ) (script : Script δ α) : Prop :=
  ∀ progress, part (script.on progress).2 = part progress

variable {part : Progress δ → γ}

theorem Keeps.eq {result : Except Failure α} (h : Keeps part script)
    (hs : script.on progress = (result, after)) : part after = part progress := by
  rw [← h progress, hs]

theorem Keeps.on_bind (h : ∀ value, Keeps part (next value)) (script : Script δ α)
    (progress : Progress δ) :
    part ((script >>= next).on progress).2 = part (script.on progress).2 := by
  rw [Script.on_bind]
  rcases script.on progress with ⟨failure | value, after⟩
  · rfl
  · exact h value after

theorem Keeps.bind (h : Keeps part script) (hn : ∀ value, Keeps part (next value)) :
    Keeps part (script >>= next) :=
  fun progress => (Keeps.on_bind hn script progress).trans (h progress)

theorem keeps_attempt (context : String) (result : Except Error α) :
    Keeps part (attempt context result) := by
  intro progress
  rw [on_attempt]

theorem keeps_host : Keeps part (host : Script δ (Host δ)) := fun _ => rfl

theorem keeps_output_perform (operation : Operation α) :
    Keeps Progress.output (perform config driver operation context) := by
  intro progress
  rw [on_perform]

theorem keeps_output_store (memId : UInt64) (region : Descriptor) :
    Keeps Progress.output (store config memId region : Script δ Path) := by
  intro progress
  rw [on_store]
  rfl

theorem keeps_events_store (memId : UInt64) (region : Descriptor) :
    Keeps Progress.events (store config memId region : Script δ Path) := by
  intro progress
  rw [on_store]
  rfl

theorem Prints.keeps_events {script : Script δ Unit} (h : script.Prints lines) :
    Keeps Progress.events script := by
  intro progress
  rw [h progress, Progress.events_printed]

-- ---------------------------------------------------------------------
-- Printing at the end

/-- The script has printed nothing when it fails, and something when it does not. -/
structure AllOrNothing (script : Script δ α) : Prop where
  nothing {progress after : Progress δ} {failure : Failure}
    (h : script.on progress = (.error failure, after)) : after.output = progress.output
  all {progress after : Progress δ} {value : α} (h : script.on progress = (.ok value, after)) :
    ∃ lines, lines ≠ [] ∧ after.output = progress.output ++ Report.lines lines

theorem Prints.allOrNothing {script : Script δ Unit} (h : script.Prints lines) (hl : lines ≠ []) :
    AllOrNothing script where
  nothing he := by cases (h _).symm.trans he
  all ho := by
    cases (h _).symm.trans ho
    exact ⟨lines, hl, rfl⟩

theorem AllOrNothing.throw (failure : Failure) : AllOrNothing (throw failure : Script δ α) where
  nothing h := by
    cases h
    rfl
  all h := nomatch h

theorem AllOrNothing.bind (h : Keeps Progress.output script)
    (hn : ∀ value, AllOrNothing (next value)) : AllOrNothing (script >>= next) := by
  constructor
  · intro progress after failure he
    rcases hs : script.on progress with ⟨first | value, middle⟩
    · cases (on_bind_of_error hs).symm.trans he
      exact h.eq hs
    · rw [← h.eq hs]
      exact (hn value).nothing ((on_bind_of_ok hs).symm.trans he)
  · intro progress after last ho
    rcases hs : script.on progress with ⟨failure | value, middle⟩
    · cases (on_bind_of_error hs).symm.trans ho
    · rw [← h.eq hs]
      exact (hn value).all ((on_bind_of_ok hs).symm.trans ho)

theorem AllOrNothing.printing (operation : Operation α) {lines : α → List String}
    (hl : ∀ value, lines value ≠ []) :
    AllOrNothing (printing config driver operation context lines) :=
  .bind (keeps_output_perform operation) fun value => (prints_printAll _).allOrNothing (hl value)

theorem AllOrNothing.ran {script : Script δ Unit} (h : AllOrNothing script) (host : Host δ) :
    (script.ran host).output ≠ "" ↔ (script.ran host).code = 0 := by
  rcases hs : script.on (.start host) with ⟨failure | ⟨⟩, after⟩
  · rw [ran_of_error hs, h.nothing hs]
    simp
  · obtain ⟨lines, hl, ho⟩ := h.all hs
    rw [ran_of_ok hs, ho]
    simpa using Report.lines_ne_empty hl

-- ---------------------------------------------------------------------
-- Asking at most once

def AsksOnce (script : Script δ α) : Prop :=
  ∀ progress, ∃ events, (script.on progress).2.events = progress.events ++ events ∧
    (asked events).length ≤ 1

theorem AsksOnce.of_keeps (h : Keeps Progress.events script) : AsksOnce script :=
  fun progress => ⟨[], by rw [h, List.append_nil], Nat.zero_le 1⟩

theorem AsksOnce.bind_left (h : Keeps Progress.events script)
    (hn : ∀ value, AsksOnce (next value)) : AsksOnce (script >>= next) := by
  intro progress
  rcases hs : script.on progress with ⟨failure | value, middle⟩
  · rw [on_bind_of_error hs]
    exact ⟨[], by rw [h.eq hs, List.append_nil], Nat.zero_le 1⟩
  · rw [on_bind_of_ok hs, ← h.eq hs]
    exact hn value middle

theorem AsksOnce.bind_right (h : AsksOnce script)
    (hn : ∀ value, Keeps Progress.events (next value)) : AsksOnce (script >>= next) := by
  intro progress
  rw [Keeps.on_bind hn]
  exact h progress

theorem AsksOnce.perform {operation : Operation α} {prepared : Prepared} {give : Reply → α}
    (h : Submits (ExceptT.run operation) prepared .error fun reply => .ok (give reply)) :
    AsksOnce (perform config driver operation context) := by
  intro progress
  obtain ⟨result, events, link, hd, hr⟩ := on_perform_submits h config driver context progress
  refine ⟨events, by rw [hr], ?_⟩
  obtain ⟨ha, -⟩ | ⟨_, _, _, -, ha, -⟩ := hd.asked_cases <;> simp [ha]

theorem AsksOnce.printing {operation : Operation α} {prepared : Prepared} {give : Reply → α}
    (h : Submits (ExceptT.run operation) prepared .error fun reply => .ok (give reply))
    {lines : α → List String} : AsksOnce (printing config driver operation context lines) :=
  (AsksOnce.perform h).bind_right fun _ => (prints_printAll _).keeps_events

theorem AsksOnce.setOwnership (first last : UInt64) (ownership : Ownership) :
    AsksOnce
      (Script.perform config driver (Operation.setOwnership first last ownership) context) := by
  intro progress
  obtain ⟨link, hr⟩ :=
    on_perform_setOwnership config driver first last ownership context progress
  exact ⟨[_], by rw [hr], List.length_filter_le ..⟩

end Script

end CommandLine

end FabricMemory
