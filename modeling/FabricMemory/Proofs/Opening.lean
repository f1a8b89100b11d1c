import FabricMemory.Proofs.Attempts
import FabricMemory.Proofs.Discipline

/-!
# Opening the channel late

The channel is opened by the first operation that needs it, and tried again by the next one for as
long as that fails. Nobody but the opener can tell: without the operations that had to do without a
channel, a run is the run over a channel that is there from the start (`Session.play_opens_late`).
-/

namespace FabricMemory

variable {σ τ α : Type}

-- ---------------------------------------------------------------------
-- Calls that have to do without

section

variable {peers : Peers σ} {link after : Link σ} {events : List Event}

theorem Connects.notMem_failed (h : Connects peers link ⟨.ok (), events, after⟩) :
    .opened false ∉ events := by
  cases h <;> simp

theorem Delivered.unopened {prepared : Prepared} {result : Except Error Reply}
    (h : Delivered peers link prepared ⟨result, events, after⟩) (hf : .opened false ∈ events) :
    ∃ e, result = .error e ∧ Connects peers link ⟨.error e, events, after⟩ := by
  cases h with
  | misused => cases hf
  | unreached hc => exact ⟨_, rfl, hc⟩
  | late hc => exact absurd hf hc.notMem_failed
  | carried hc hd =>
    obtain hf | hf := List.mem_append.mp hf
    · exact absurd hf hc.notMem_failed
    · exact absurd rfl (List.filter_eq_nil_iff.mp hd.noOpening.1 _ hf)

theorem Course.unopened {session : Session σ} {call : Call} {performed : Performed σ}
    (h : Course peers session call performed) (hf : .opened false ∈ performed.events) :
    ∃ e world, (peers.openChannel session.link.world).value = (.error e, world) ∧
      performed = ⟨.error e, [.opened false], session.registers,
        ⟨session.link.cache.attempts + 1, none⟩, world⟩ := by
  cases h with
  | failed hp hd =>
    obtain ⟨e, he, hc⟩ := hd.unopened hf
    cases he
    cases hc with
    | failed _ ho => exact ⟨_, _, ho, rfl⟩
  | succeeded hp hd =>
    obtain ⟨e, he, -⟩ := hd.unopened hf
    cases he
  | updated | refused => simp at hf

end

-- ---------------------------------------------------------------------
-- Nothing else fails for want of an opener

/-- It does not fail for want of an opener. -/
def Supplied (checked : Except Error α) : Prop := checked ≠ .error (.invalidArgument .noOpener)

namespace Supplied

variable {β : Type} {checked : Except Error α}

theorem ok (a : α) : Supplied (.ok a) := by
  intro h
  cases h

theorem of_error {e : Error} (h : Supplied (.error e : Except Error α)) :
    Supplied (.error e : Except Error β) :=
  fun he => h (congrArg Except.error (Except.error.inj he))

theorem map (f : α → β) (h : Supplied checked) : Supplied (checked.map f) := by
  cases checked with
  | ok a => exact .ok (f a)
  | error e => exact h.of_error

theorem misuse {why : Misuse} (h : why ≠ .noOpener) :
    Supplied (.error (.invalidArgument why) : Except Error α) := by
  intro he
  exact h (Error.invalidArgument.inj (Except.error.inj he))

theorem verdict (reply : Reply) (request : String) : Supplied (reply.verdict request) := by
  unfold Reply.verdict
  split <;> simp [Supplied]

end Supplied

theorem Call.Suits.supplied {call : Call} {prepared : Prepared} (h : call.Suits prepared) :
    Supplied (prepared >>= id) := by
  cases h with
  | misused _ hw | late _ hw => exact .misuse hw
  | carried => exact .ok _

def Event.isRejection : Event → Bool
  | .adapted _ accepted | .fixedUp _ _ accepted => !accepted
  | _ => false

section

variable {peers : Peers σ} {link after : Link σ} {events : List Event}

theorem Carried.supplied {submission : Submission} {result : Except Error Reply}
    (h : Carried peers link submission ⟨result, events, after⟩)
    (hr : events.any Event.isRejection = false) : Supplied result := by
  cases h with
  | unadapted | rejected => simp [Event.isRejection] at hr
  | adapted | vetted | plain => exact (Supplied.verdict _ _).map _

theorem Delivered.supplied {prepared : Prepared} {result : Except Error Reply}
    (h : Delivered peers link prepared ⟨result, events, after⟩) (hp : Supplied (prepared >>= id))
    (ho : link.cache.isOpen = true) (hr : events.any Event.isRejection = false) :
    Supplied result := by
  cases h with
  | misused => exact Supplied.of_error hp
  | unreached hc => cases (hc.noOpening ho).1
  | late hc => exact Supplied.of_error hp
  | carried hc hd =>
    rw [List.any_append, Bool.or_eq_false_iff] at hr
    exact hd.supplied hr.2

theorem Course.supplied {session : Session σ} {call : Call} {performed : Performed σ}
    (h : Course peers session call performed) (ho : session.link.cache.isOpen = true)
    (hr : performed.events.any Event.isRejection = false) : Supplied performed.result := by
  cases h with
  | failed hp hd => exact (hd.supplied (Call.prepare_suits hp).supplied ho hr).of_error
  | succeeded | updated => exact .ok _
  | refused => simp [Supplied]

end

-- ---------------------------------------------------------------------
-- Two runs of one dialogue

/-- What a dialogue has come to over a channel opened late, and over one that was there. -/
structure Agrees (late : Answered (Nat × τ) α) (early : Answered τ α) : Prop where
  value : late.value = early.value
  events : late.events.filter (!·.isOpening) = early.events
  world : late.link.world.2 = early.link.world
  isOpen : early.link.cache.isOpen = true

section

variable (script : Nat → Except Error Unit) (peers : Peers τ) {late : Link (Nat × τ)}
  {early : Link τ}

theorem connect_agrees (hw : late.world.2 = early.world) (hc : early.cache.isOpen = true) :
    .opened false ∈ ((peers.scripted script).connect late).value.events ∨
      Agrees ((peers.scripted script).connect late).value
        (peers.preopened.connect early).value := by
  have he : Connects peers.preopened early _ := .held hc
  have hl := connect_connects (peers.scripted script) late
  rw [← he.eq_connect]
  generalize ((peers.scripted script).connect late).value = answered at hl
  cases hl with
  | held => exact .inr ⟨rfl, rfl, hw, hc⟩
  | @opened world _ ho =>
    have hn : (late.world.1 + 1, late.world.2) = world := congrArg Prod.snd ho
    exact .inr ⟨rfl, rfl, by rw [← hn, ← hw], hc⟩
  | failed => exact .inl (.head _)

theorem answer_agrees (hw : late.world.2 = early.world) (hc : early.cache.isOpen = true)
    (question : Ask) :
    .opened false ∈ ((peers.scripted script).answer late question).value.events ∨
      Agrees ((peers.scripted script).answer late question).value
        (peers.preopened.answer early question).value := by
  cases question with
  | connect => exact connect_agrees script peers hw hc
  | _ =>
    obtain ⟨cache, n, world⟩ := late
    obtain rfl : world = _ := hw
    exact .inr ⟨rfl, rfl, rfl, hc⟩

theorem Dialogue.run_agrees (x : Dialogue α) (hw : late.world.2 = early.world)
    (hc : early.cache.isOpen = true) :
    .opened false ∈ (x.run (peers.scripted script) late).value.events ∨
      Agrees (x.run (peers.scripted script) late).value (x.run peers.preopened early).value := by
  induction x generalizing late early with
  | done value => exact .inr ⟨rfl, rfl, hw, hc⟩
  | ask question next ih =>
    rw [value_run_ask, value_run_ask]
    obtain hf | ha := answer_agrees script peers hw hc question
    · exact .inl (List.mem_append_left _ hf)
    · simp only [ha.value]
      obtain hf | hr := ih (peers.preopened.answer early question).value.value ha.world ha.isOpen
      · exact .inl (List.mem_append_right _ hf)
      · refine .inr ⟨hr.value, ?_, hr.world, hr.isOpen⟩
        rw [List.filter_append, ha.events, hr.events]

end

namespace Step

def unopened (step : Step σ) : Bool := step.performed.events.contains (.opened false)

/-- What others than the opener see of a step. -/
structure Account where
  call : Call
  result : Except Error Outcome
  events : List Event
  registers : Registers

def account (step : Step σ) : Account where
  call := step.call
  result := step.performed.result
  events := step.performed.events.filter (!·.isOpening)
  registers := step.performed.session.registers

end Step

namespace Session

/-- The same but for the opener: `early` has had its channel from the start. -/
structure Matches (late : Session (Nat × τ)) (early : Session τ) : Prop where
  registers : late.registers = early.registers
  world : late.link.world.2 = early.link.world
  isOpen : early.link.cache.isOpen = true

section

variable (script : Nat → Except Error Unit) (peers : Peers τ) {late : Session (Nat × τ)}
  {early : Session τ}

theorem perform_matches (h : late.Matches early) (call : Call) :
    let performed := (late.perform (peers.scripted script) call).value
    let performed' := (early.perform peers.preopened call).value
    .opened false ∈ performed.events ∨
      performed.result = performed'.result ∧
        performed.events.filter (!·.isOpening) = performed'.events ∧
        performed.session.Matches performed'.session := by
  rw [value_perform, value_perform, ← h.registers]
  obtain hf | ha := (call.operation.on late.registers).run_agrees script peers
    h.world h.isOpen
  · exact .inl hf
  · exact .inr ⟨congrArg Prod.fst ha.value, ha.events, congrArg Prod.snd ha.value, ha.world,
      ha.isOpen⟩

theorem Matches.unopened (h : late.Matches early) {call : Call}
    (hf : .opened false ∈ (late.perform (peers.scripted script) call).value.events) :
    (late.perform (peers.scripted script) call).value.session.Matches early := by
  obtain ⟨e, world, ho, hp⟩ := (late.perform_course (peers.scripted script) call).unopened hf
  rw [hp]
  exact ⟨h.registers, (congrArg (·.2.2) ho).symm.trans h.world, h.isOpen⟩

theorem play_matches (h : late.Matches early) (calls : List Call) :
    let played := (late.play (peers.scripted script) (calls.map .call)).value
    let kept := played.steps.filter (!·.unopened)
    let replayed := (early.play peers.preopened (kept.map fun step => .call step.call)).value
    replayed.steps.map Step.account = kept.map Step.account ∧
      played.session.Matches replayed.session := by
  induction calls generalizing late early with
  | nil => exact ⟨rfl, h⟩
  | cons call rest ih =>
    rw [List.map_cons, value_play_call]
    by_cases hf : .opened false ∈ (late.perform (peers.scripted script) call).value.events
    · -- the call is dropped
      have hu : Step.unopened ⟨call, late, (late.perform (peers.scripted script) call).value⟩ :=
        List.contains_iff_mem.mpr hf
      simp only [List.filter_cons, hu, Bool.not_true, Bool.false_eq_true, if_false]
      exact ih (h.unopened script peers hf)
    · obtain hf' | ⟨hr, he, hm⟩ := perform_matches script peers h call
      · exact absurd hf' hf
      · have hu : Step.unopened ⟨call, late, (late.perform (peers.scripted script) call).value⟩ =
            false := by
          simpa [Step.unopened] using hf
        obtain ⟨ha, hs⟩ := ih hm
        simp only [List.filter_cons, hu, Bool.not_false, if_true, List.map_cons, value_play_call]
        refine ⟨?_, hs⟩
        rw [ha]
        congr 1
        simp only [Step.account, ← hr, ← he, ← hm.registers, List.filter_filter, Bool.and_self]

end

/-- The opener is called until it succeeds and never again, once in a call at most, and a call that
it fails ends with its error and leaves the channel closed. Without these calls the run goes, step
by step, as it does over a channel that is there from the start, whose opener is never called. -/
theorem play_opens_late (script : Nat → Except Error Unit) (peers : Peers τ)
    (registers : Registers) (world : τ) (calls : List Call) :
    let late : Session (Nat × τ) := ⟨registers, {}, 0, world⟩
    let played := (late.play (peers.scripted script) (calls.map .call)).value
    let attempts := played.session.link.world.1
    let kept := played.steps.filter (!·.unopened)
    let early : Session τ := ⟨registers, .preopened, world⟩
    let replayed := (early.play peers.preopened (kept.map fun step => .call step.call)).value
    played.steps.map (·.call) = calls ∧
    (played.events.filter Event.isOpening =
        (List.range attempts).map (fun k => .opened (script k).isOk) ∧
      (∀ k, k + 1 < attempts → ∃ e, script k = .error e) ∧
      (played.session.link.cache.isOpen = true ↔ .opened true ∈ played.events)) ∧
    (∀ step ∈ played.steps,
      Tries script step.before.link step.performed.session.link
        (step.performed.events.filter Event.isOpening) ∧
      (step.unopened → ∃ e, script step.before.link.world.1 = .error e ∧
        step.performed.result = .error e)) ∧
    (replayed.steps.map Step.account = kept.map Step.account ∧
      replayed.session.registers = played.session.registers ∧
      replayed.session.link.world = played.session.link.world.2) ∧
    ∀ moves,
      let held := early.play peers.preopened moves
      held.value.events.filter Event.isOpening = [] ∧
      (∀ opener, early.play (peers.withOpener opener) moves = held) ∧
      ∀ step ∈ held.value.steps, step.performed.events.any Event.isRejection = false →
        step.performed.result ≠ .error (.invalidArgument .noOpener) := by
  intro late played attempts kept early replayed
  refine ⟨?_, ?_, fun step hs => ⟨?_, fun hu => ?_⟩, ?_,
    fun moves => ⟨?_, fun opener => ?_, fun step hs hr => ?_⟩⟩
  · rw [calls_play]
    simp [List.filterMap_map, Function.comp_def, Move.call?]
  · obtain ⟨count, hl, he, -, hf, ho⟩ := play_attempts script peers late calls
    obtain rfl : attempts = count := hl.trans (Nat.zero_add count)
    refine ⟨?_, fun k hk => ?_, ?_⟩
    · rw [List.range_eq_range']
      exact he
    · obtain ⟨e, hs⟩ := hf k hk
      rw [Nat.zero_add] at hs
      exact ⟨e, hs⟩
    · exact ho.trans (or_iff_right Bool.false_ne_true)
  · exact (play_course hs).tries
  · obtain ⟨e, world, ho, hp⟩ := (play_course hs).unopened (List.contains_iff_mem.mp hu)
    exact ⟨e, congrArg Prod.fst ho, by rw [hp]⟩
  · have hm : late.Matches early := ⟨rfl, rfl, rfl⟩
    obtain ⟨ha, hs⟩ := play_matches script peers hm calls
    exact ⟨ha, hs.registers.symm, hs.world.symm⟩
  · exact play_noOpening rfl moves
  · exact play_withOpener peers.preopened opener rfl moves
  · exact (play_course hs).supplied (play_isOpen rfl moves step hs) hr

end Session

end FabricMemory
