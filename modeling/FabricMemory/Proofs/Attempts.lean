import FabricMemory.Proofs.Course

/-!
# How often the channel is opened

The opener goes by a script, one entry for each attempt. A call makes one attempt at most, and only
while the channel is not open (`Course.tries`); a run makes attempts until one succeeds
(`Session.play_attempts`). Over a channel that is open the opener does not matter
(`Session.play_withOpener`).
-/

namespace FabricMemory

variable {σ τ α : Type}

namespace Peers

/-- The opener goes by a script, one entry for each attempt. What the others answer hangs on what
they were asked, and on nothing else. -/
def scripted (script : Nat → Except Error Unit) (peers : Peers τ) : Peers (Nat × τ) where
  openChannel world := return (script world.1, world.1 + 1, world.2)
  adapt region world := do
    let (adapted, rest) ← peers.adapt region world.2
    return (adapted, world.1, rest)
  fixup incoming world := do
    let (vetted, rest) ← peers.fixup incoming world.2
    return (vetted, world.1, rest)
  cleanup incoming world := do
    let (left, rest) ← peers.cleanup incoming world.2
    return (left, world.1, rest)
  submit request world := do
    let (reply, rest) ← peers.submit request world.2
    return (reply, world.1, rest)
  update range world :=
    let (refusal, rest) := peers.update range world.2
    (refusal, world.1, rest)

def withOpener (peers : Peers τ) (opener : τ → Logged (Except Error Unit × τ)) : Peers τ :=
  { peers with openChannel := opener }

def preopened (peers : Peers τ) : Peers τ := peers.withOpener ChannelCache.noOpener

end Peers

def Event.isOpening : Event → Bool
  | .opened _ => true
  | _ => false

-- ---------------------------------------------------------------------
-- What a call does about the channel

/-- The attempts of a call, by the script: one at most, and only while the channel is not open. -/
inductive Tries (script : Nat → Except Error Unit) (before after : Link (Nat × τ)) :
    List Event → Prop
  | none (hc : after.cache = before.cache) (hn : after.world.1 = before.world.1) :
    Tries script before after []
  | opened (hc : before.cache.isOpen = false) (hs : script before.world.1 = .ok ())
      (ho : after.cache.isOpen = true) (hn : after.world.1 = before.world.1 + 1) :
    Tries script before after [.opened true]
  | failed {e : Error} (hc : before.cache.isOpen = false) (hs : script before.world.1 = .error e)
      (ho : after.cache.isOpen = false) (hn : after.world.1 = before.world.1 + 1) :
    Tries script before after [.opened false]

theorem Carried.noOpening {peers : Peers σ} {link after : Link σ} {submission : Submission}
    {result : Except Error Reply} {events : List Event}
    (h : Carried peers link submission ⟨result, events, after⟩) :
    events.filter Event.isOpening = [] ∧ after.cache = link.cache := by
  cases h <;> exact ⟨rfl, rfl⟩

section

variable {script : Nat → Except Error Unit} {peers : Peers τ} {link after : Link (Nat × τ)}
  {events : List Event}

theorem Connects.tries {opened : Except Error Unit}
    (h : Connects (peers.scripted script) link ⟨opened, events, after⟩) :
    Tries script link after (events.filter Event.isOpening) := by
  cases h with
  | held => exact .none rfl rfl
  | opened hc ho => exact .opened hc (congrArg Prod.fst ho) rfl (congrArg (·.2.1) ho.symm)
  | failed hc ho => exact .failed hc (congrArg Prod.fst ho) rfl (congrArg (·.2.1) ho.symm)

theorem Carried.attempts {submission : Submission} {result : Except Error Reply}
    (h : Carried (peers.scripted script) link submission ⟨result, events, after⟩) :
    after.world.1 = link.world.1 := by
  cases h with
  | unadapted h => exact congrArg (·.2.1) h.symm
  | adapted ha hs => exact (congrArg (·.2.1) hs.symm).trans (congrArg (·.2.1) ha.symm)
  | rejected h => exact congrArg (·.2.1) h.symm
  | vetted hf hs hc =>
    exact (congrArg (·.2.1) hc.symm).trans
      ((congrArg (·.2.1) hs.symm).trans (congrArg (·.2.1) hf.symm))
  | plain hs => exact congrArg (·.2.1) hs.symm

theorem Tries.carried {middle : Link (Nat × τ)} {opening : List Event}
    (h : Tries script link middle opening) (hc : after.cache = middle.cache)
    (hn : after.world.1 = middle.world.1) : Tries script link after opening := by
  cases h with
  | none hc' hn' => exact .none (hc.trans hc') (hn.trans hn')
  | opened hc' hs ho hn' => exact .opened hc' hs (by rw [hc, ho]) (hn.trans hn')
  | failed hc' hs ho hn' => exact .failed hc' hs (by rw [hc, ho]) (hn.trans hn')

theorem Delivered.tries {prepared : Prepared} {result : Except Error Reply}
    (h : Delivered (peers.scripted script) link prepared ⟨result, events, after⟩) :
    Tries script link after (events.filter Event.isOpening) := by
  cases h with
  | misused => exact .none rfl rfl
  | unreached hc => exact hc.tries
  | late hc => exact hc.tries
  | carried hc hd =>
    obtain ⟨he, hk⟩ := hd.noOpening
    rw [List.filter_append, he, List.append_nil]
    exact hc.tries.carried hk hd.attempts

theorem Course.tries {session : Session (Nat × τ)} {call : Call} {performed : Performed (Nat × τ)}
    (h : Course (peers.scripted script) session call performed) :
    Tries script session.link performed.session.link
      (performed.events.filter Event.isOpening) := by
  cases h with
  | failed _ hd | succeeded _ hd => exact hd.tries
  | updated _ hu | refused _ hu => exact .none rfl (congrArg (·.2.1) hu.symm)

end

-- ---------------------------------------------------------------------
-- Calls over an open channel

section

variable {peers : Peers σ} {link after : Link σ} {events : List Event}

theorem Connects.noOpening {opened : Except Error Unit}
    (h : Connects peers link ⟨opened, events, after⟩) (ho : link.cache.isOpen = true) :
    opened = .ok () ∧ events = [] := by
  cases h with
  | held => exact ⟨rfl, rfl⟩
  | opened hc | failed hc => simp [ho] at hc

theorem Delivered.noOpening {prepared : Prepared} {result : Except Error Reply}
    (h : Delivered peers link prepared ⟨result, events, after⟩) (ho : link.cache.isOpen = true) :
    events.filter Event.isOpening = [] := by
  cases h with
  | misused => rfl
  | unreached hc | late hc => rw [(hc.noOpening ho).2, List.filter_nil]
  | carried hc hd => rw [(hc.noOpening ho).2, List.nil_append, hd.noOpening.1]

theorem Course.noOpening {session : Session σ} {call : Call} {performed : Performed σ}
    (h : Course peers session call performed) (ho : session.link.cache.isOpen = true) :
    performed.events.filter Event.isOpening = [] := by
  cases h with
  | failed _ hd | succeeded _ hd => exact hd.noOpening ho
  | updated | refused => rfl

end

section

variable (peers : Peers τ) (opener : τ → Logged (Except Error Unit × τ)) {link : Link τ}

theorem Peers.answer_withOpener (h : link.cache.isOpen = true) (question : Ask) :
    (peers.withOpener opener).answer link question = peers.answer link question ∧
      (peers.answer link question).value.link.cache.isOpen = true := by
  cases question with
  | connect =>
    obtain ⟨⟨attempts, slot⟩, world⟩ := link
    cases slot with
    | none => cases h
    | some channel => exact ⟨rfl, rfl⟩
  | _ => exact ⟨rfl, h⟩

theorem Dialogue.run_withOpener (x : Dialogue α) (h : link.cache.isOpen = true) :
    x.run (peers.withOpener opener) link = x.run peers link ∧
      (x.run peers link).value.link.cache.isOpen = true := by
  induction x generalizing link with
  | done value => exact ⟨rfl, h⟩
  | ask question next ih =>
    obtain ⟨ha, hc⟩ := peers.answer_withOpener opener h question
    obtain ⟨hr, hn⟩ := ih (peers.answer link question).value.value hc
    refine ⟨?_, hn⟩
    simp only [Dialogue.run, ha, Logged.ext_iff, Logged.value_bind, Logged.lines_bind, hr, and_self]

end

namespace Session

theorem value_perform (peers : Peers σ) (session : Session σ) (call : Call) :
    (session.perform peers call).value =
      let ran := ((call.operation.on session.registers).run peers session.link).value
      ⟨ran.value.1, ran.events, ran.value.2, ran.link⟩ := by rfl

theorem perform_withOpener (peers : Peers σ) (opener : σ → Logged (Except Error Unit × σ))
    {session : Session σ} (h : session.link.cache.isOpen = true) (call : Call) :
    session.perform (peers.withOpener opener) call = session.perform peers call ∧
      (session.perform peers call).value.session.link.cache.isOpen = true := by
  obtain ⟨hr, hc⟩ := (call.operation.on session.registers).run_withOpener peers opener h
  exact ⟨by rw [perform, hr]; rfl, by rw [value_perform]; exact hc⟩

theorem play_withOpener (peers : Peers σ) (opener : σ → Logged (Except Error Unit × σ))
    {session : Session σ} (h : session.link.cache.isOpen = true) (moves : List (Move σ)) :
    session.play (peers.withOpener opener) moves = session.play peers moves := by
  induction moves generalizing session with
  | nil => rfl
  | cons move rest ih =>
    cases move with
    | change change => exact @ih (session.changeWorld change) h
    | call call =>
      obtain ⟨hp, hc⟩ := perform_withOpener peers opener h call
      rw [play, play, hp]
      simp only [Logged.ext_iff, Logged.value_bind, Logged.lines_bind, ih hc, and_self]

theorem play_isOpen {peers : Peers σ} {session : Session σ}
    (h : session.link.cache.isOpen = true) (moves : List (Move σ)) :
    ∀ step ∈ (session.play peers moves).value.steps, step.before.link.cache.isOpen = true := by
  induction moves generalizing session with
  | nil =>
    intro step hs
    cases hs
  | cons move rest ih =>
    cases move with
    | change change => exact @ih (session.changeWorld change) h
    | call call =>
      obtain ⟨-, hc⟩ := perform_withOpener peers peers.openChannel h call
      rw [value_play_call]
      intro step hs
      obtain rfl | hs := List.mem_cons.mp hs
      · exact h
      · exact ih hc step hs

theorem play_stays_open {peers : Peers σ} {session : Session σ}
    (h : session.link.cache.isOpen = true) (moves : List (Move σ)) :
    (session.play peers moves).value.session.link.cache.isOpen = true := by
  induction moves generalizing session with
  | nil => exact h
  | cons move rest ih =>
    cases move with
    | change change => exact @ih (session.changeWorld change) h
    | call call =>
      obtain ⟨-, hc⟩ := perform_withOpener peers peers.openChannel h call
      exact ih hc

theorem play_noOpening {peers : Peers σ} {session : Session σ}
    (h : session.link.cache.isOpen = true) (moves : List (Move σ)) :
    (session.play peers moves).value.events.filter Event.isOpening = [] := by
  rw [List.filter_eq_nil_iff]
  intro event he
  obtain ⟨step, hs, he⟩ := List.mem_flatMap.mp he
  have hn := (play_course hs).noOpening (play_isOpen h moves step hs)
  exact List.filter_eq_nil_iff.mp hn event he

-- ---------------------------------------------------------------------
-- The opener over a run

/-- The attempts of a run, by the script from where it stood. Each but the last has failed. -/
structure Attempts (script : Nat → Except Error Unit) (session : Session (Nat × τ))
    (played : Played (Nat × τ)) (count : Nat) : Prop where
  last : played.session.link.world.1 = session.link.world.1 + count
  events : played.events.filter Event.isOpening =
    (List.range' session.link.world.1 count).map fun k => .opened (script k).isOk
  held (h : session.link.cache.isOpen = true) : count = 0
  failed (k : Nat) (h : k + 1 < count) : ∃ e, script (session.link.world.1 + k) = .error e
  isOpen : played.session.link.cache.isOpen = true ↔
    session.link.cache.isOpen = true ∨ .opened true ∈ played.events

theorem events_cons (step : Step σ) (played : Played σ) :
    Played.events ⟨step :: played.steps, played.session⟩ =
      step.performed.events ++ played.events := by rfl

theorem Attempts.cons {script : Nat → Except Error Unit} {session : Session (Nat × τ)} {call : Call}
    {performed : Performed (Nat × τ)} {played : Played (Nat × τ)} {count : Nat}
    (ht : Tries script session.link performed.session.link
      (performed.events.filter Event.isOpening))
    (h : Attempts script performed.session played count) :
    ∃ count, Attempts script session
      ⟨⟨call, session, performed⟩ :: played.steps, played.session⟩ count := by
  obtain ⟨hl, he, hh, hf, ho⟩ := h
  have hm : .opened true ∈ performed.events ↔
      .opened true ∈ performed.events.filter Event.isOpening := by
    simp [List.mem_filter, Event.isOpening]
  generalize hk : performed.events.filter Event.isOpening = opening at ht hm
  cases ht with
  | none hcache hworld =>
    refine ⟨count, ?_, ?_, ?_, ?_, ?_⟩
    · rw [← hworld]
      exact hl
    · rw [events_cons, List.filter_append, hk, he, hworld, List.nil_append]
    · rw [← hcache]
      exact hh
    · rw [← hworld]
      exact hf
    · rw [events_cons, List.mem_append, hm, ← hcache, ho]
      simp
  | opened hclosed hs hopen hworld =>
    -- nothing is tried after a success
    obtain rfl := hh hopen
    refine ⟨1, ?_, ?_, ?_, fun k hk => by omega, ?_⟩
    · rw [← hworld]
      exact hl
    · rw [events_cons, List.filter_append, hk, he]
      simp [hs, Except.isOk, Except.toBool]
    · rw [hclosed]
      exact fun h => by cases h
    · rw [events_cons, List.mem_append, hm]
      simp [ho, hopen]
  | @failed e hclosed hs hopen hworld =>
    refine ⟨count + 1, ?_, ?_, ?_, ?_, ?_⟩
    · rw [hl, hworld]
      omega
    · rw [events_cons, List.filter_append, hk, he, hworld, List.range'_succ]
      simp [hs, Except.isOk, Except.toBool]
    · rw [hclosed]
      exact fun h => by cases h
    · intro k hk
      cases k with
      | zero => exact ⟨e, hs⟩
      | succ k =>
        obtain ⟨e', he'⟩ := hf k (by omega)
        rw [hworld, Nat.add_right_comm] at he'
        exact ⟨e', he'⟩
    · rw [events_cons, List.mem_append, hm, ho, hopen, hclosed]
      simp

theorem play_attempts (script : Nat → Except Error Unit) (peers : Peers τ)
    (session : Session (Nat × τ)) (calls : List Call) :
    ∃ count, Attempts script session
      (session.play (peers.scripted script) (calls.map .call)).value count := by
  induction calls generalizing session with
  | nil => exact ⟨0, rfl, rfl, fun _ => rfl, fun k h => by omega, by simp [Played.events]⟩
  | cons call rest ih =>
    rw [List.map_cons, value_play_call]
    have ht := (session.perform_course (peers.scripted script) call).tries
    obtain ⟨count, h⟩ := ih (session.perform (peers.scripted script) call).value.session
    exact h.cons ht

end Session

end FabricMemory
