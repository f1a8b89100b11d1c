import FabricMemory.Proofs.Course

/-!
# The discipline of submissions

What an operation does with its peers spells one of a few words (`Call.words`), whoever the peers
are. Over a run, each submission stands between what the vendor sets up and what the vendor gives up
for it (`Shielded`), so that nothing is given up twice or left over.
-/

namespace FabricMemory

variable {σ α β : Type}

inductive Manner where
  | adapted | vetted | plain
deriving DecidableEq

namespace Request

def manner : Request → Manner
  | .exportPages _ | .exportRange _ => .adapted
  | .importRegion _ | .declareWindow _ => .vetted
  | .endExport _ | .endImport _ | .withdrawWindow _ | .query _ => .plain

def vendor? : Request → Option Bytes
  | .exportPages command => command.vendor
  | .exportRange command => command.vendor
  | _ => none

end Request

-- ---------------------------------------------------------------------
-- Words

/-- An event without what it carries. -/
inductive Letter where
  | opened (success : Bool)
  | adapted (accepted : Bool)
  | released
  | fixedUp (accepted : Bool)
  | cleanedUp
  | submitted (manner : Manner)
  | updated
deriving DecidableEq

def Event.letter : Event → Letter
  | .opened success => .opened success
  | .adapted _ accepted => .adapted accepted
  | .released _ => .released
  | .fixedUp _ _ accepted => .fixedUp accepted
  | .cleanedUp _ _ => .cleanedUp
  | .submitted request _ => .submitted request.manner
  | .updated _ _ => .updated

/-- A word over a held channel, or over one that is opened for it. -/
def opening (word : List Letter) : List (List Letter) := [word, .opened true :: word]

namespace Manner

def stems : Manner → List (List Letter)
  | .adapted => [[.adapted false], [.adapted true, .submitted .adapted, .released]]
  | .vetted => [[.fixedUp false], [.fixedUp true, .submitted .vetted, .cleanedUp]]
  | .plain => [[.submitted .plain]]

def words (manner : Manner) : List (List Letter) := manner.stems.flatMap opening

end Manner

namespace Call

/-- Only an ownership goes past the channel. -/
def manner? : Call → Option Manner
  | .exportPages .. | .exportRange .. => some .adapted
  | .importRegion .. | .declareWindow .. => some .vetted
  | .endExport .. | .endImport .. | .withdrawWindow .. | .regionAt .. | .addressOf .. => some .plain
  | .setOwnership .. => none

/-- The words of a call whose arguments are turned down. Those of a window are turned down late. -/
def refusals : Call → List (List Letter)
  | .exportPages .. | .exportRange .. | .importRegion .. | .endExport .. | .endImport .. => [[]]
  | .declareWindow .. | .withdrawWindow .. => opening []
  | .regionAt .. | .addressOf .. | .setOwnership .. => []

def words (call : Call) : List (List Letter) :=
  match call.manner? with
  | none => [[.updated]]
  | some manner => call.refusals ++ [.opened false] :: manner.words

end Call

namespace Step

def letters (step : Step σ) : List Letter := step.performed.events.map Event.letter

end Step

-- ---------------------------------------------------------------------
-- What calls prepare

def Picky (checked : Except Error α) : Prop :=
  ∀ e, checked = .error e → ∃ why, e = .invalidArgument why ∧ why ≠ .noOpener

namespace Picky

theorem ok (a : α) : Picky (.ok a) := by
  intro e h
  cases h

theorem misuse {why : Misuse} (hw : why ≠ .noOpener) :
    Picky (.error (.invalidArgument why) : Except Error α) := by
  intro e h
  exact ⟨why, (Except.error.inj h).symm, hw⟩

end Picky

theorem Payload.length_picky (payload : Bytes) : Picky (Payload.length payload) := by
  unfold length
  split
  · exact .ok _
  · exact .misuse nofun

theorem Distance.check_picky (value : Int32) : Picky (check value) := by
  unfold check
  split
  · exact .ok _
  · exact .misuse nofun

namespace Operation

theorem checkMemId_picky (memId : UInt64) : Picky (checkMemId memId) := by
  unfold checkMemId
  split
  · exact .misuse nofun
  · exact .ok _

theorem checkSizes_picky (sizes : List UInt64) : Picky (checkSizes sizes) := by
  unfold checkSizes
  split
  · exact .misuse nofun
  · split
    · exact .ok _
    · exact .misuse nofun

theorem importDistance_picky (flags : ImportFlags) (distance : Int32) :
    Picky (importDistance flags distance) := by
  unfold importDistance
  split
  · exact Distance.check_picky distance
  · exact .ok _

end Operation

namespace Submission

def manner : Submission → Manner
  | .adapted .. => .adapted
  | .vetted _ => .vetted
  | .plain _ => .plain

/-- The request is submitted in its own manner, an export with the blob that it was adapted to. -/
def Proper : Submission → Prop
  | .adapted _ request => ∀ adaptation, (request adaptation).manner = .adapted ∧
      (request adaptation).vendor? = some adaptation.vendor.encode
  | .vetted _ => True
  | .plain request => request.manner = .plain

end Submission

namespace Call

inductive Suits (call : Call) : Prepared → Prop
  | misused {why : Misuse} (hr : [] ∈ call.refusals) (hw : why ≠ .noOpener) :
      Suits call (.error (.invalidArgument why))
  | late {why : Misuse} (hr : call.refusals = opening []) (hw : why ≠ .noOpener) :
      Suits call (.ok (.error (.invalidArgument why)))
  | carried {submission : Submission} (hm : call.manner? = some submission.manner)
      (hp : submission.Proper) : Suits call (.ok (.ok submission))

theorem Suits.check {call : Call} {checked : Except Error α} {next : α → Prepared}
    (hr : [] ∈ call.refusals) (hc : Picky checked) (hn : ∀ a, Suits call (next a)) :
    Suits call (checked >>= next) := by
  cases checked with
  | ok a => exact hn a
  | error e =>
    obtain ⟨why, rfl, hw⟩ := hc e rfl
    exact .misused hr hw

theorem Suits.lateCheck {call : Call} {checked : Except Error α} {next : α → Submission}
    (hr : call.refusals = opening []) (hc : Picky checked)
    (hn : ∀ a, Suits call (.ok (.ok (next a)))) :
    Suits call (.ok (checked >>= fun a => .ok (next a))) := by
  cases checked with
  | ok a => exact hn a
  | error e =>
    obtain ⟨why, rfl, hw⟩ := hc e rfl
    exact .late hr hw

theorem prepare_suits {call : Call} {registers : Registers} {prepared : Prepared}
    (h : call.prepare registers = some prepared) : call.Suits prepared := by
  cases call with
  | exportPages on sizes flags =>
    obtain rfl := Option.some.inj h
    refine .check (.head _) (Operation.checkSizes_picky _) fun total =>
      .check (.head _) (Payload.length_picky _) fun payloadLength => ?_
    exact .carried rfl fun adaptation => ⟨rfl, rfl⟩
  | exportRange on pid va length flags =>
    obtain rfl := Option.some.inj h
    refine .check (.head _) (Payload.length_picky _) fun payloadLength => ?_
    exact .carried rfl fun adaptation => ⟨rfl, rfl⟩
  | importRegion on flags distance numaHint =>
    obtain rfl := Option.some.inj h
    refine .check (.head _) (Operation.importDistance_picky _ _) fun distance =>
      .check (.head _) (Payload.length_picky _) fun payloadLength => ?_
    exact .carried rfl trivial
  | endExport memId flags =>
    obtain rfl := Option.some.inj h
    exact .check (.head _) (Operation.checkMemId_picky _) fun _ => .carried rfl rfl
  | endImport memId flags =>
    obtain rfl := Option.some.inj h
    exact .check (.head _) (Operation.checkMemId_picky _) fun _ => .carried rfl rfl
  | declareWindow on flags =>
    obtain rfl := Option.some.inj h
    exact .check (.head _) (Distance.check_picky _) fun distance =>
      .lateCheck rfl (Payload.length_picky _) fun payloadLength => .carried rfl trivial
  | withdrawWindow on flags =>
    obtain rfl := Option.some.inj h
    exact .lateCheck rfl (Payload.length_picky _) fun payloadLength => .carried rfl rfl
  | regionAt pa =>
    obtain rfl := Option.some.inj h
    exact .carried rfl rfl
  | addressOf memId offset =>
    obtain rfl := Option.some.inj h
    exact .carried rfl rfl
  | setOwnership first last ownership => cases h

end Call

-- ---------------------------------------------------------------------
-- Each call spells a word

theorem append_mem_opening {before : List Letter} (h : before ∈ opening []) (word : List Letter) :
    before ++ word ∈ opening word := by
  simp only [opening, List.mem_cons, List.not_mem_nil, or_false] at h ⊢
  obtain rfl | rfl := h
  · exact .inl rfl
  · exact .inr rfl

theorem Manner.notMem_opening {manner : Manner} {word : List Letter} (h : word ∈ manner.words) :
    word ∉ opening [] := by
  revert word
  cases manner <;> decide

section

variable {peers : Peers σ} {link after : Link σ} {events : List Event}

theorem Connects.letters_ok (h : Connects peers link ⟨.ok (), events, after⟩) :
    events.map Event.letter ∈ opening [] := by
  cases h with
  | held => decide
  | opened => decide

theorem Connects.letters_error {e : Error} (h : Connects peers link ⟨.error e, events, after⟩) :
    events.map Event.letter = [.opened false] := by
  cases h with
  | failed => rfl

theorem Carried.letters_mem {submission : Submission} {result : Except Error Reply}
    (h : Carried peers link submission ⟨result, events, after⟩) (hp : submission.Proper) :
    events.map Event.letter ∈ submission.manner.stems := by
  cases h with
  | unadapted => exact .head _
  | @adapted region request adaptation =>
    simp [Event.letter, Submission.manner, Manner.stems, (hp adaptation).1]
  | rejected => exact .head _
  | @vetted _ _ accepted => cases accepted <;> exact .tail _ (.head _)
  | @plain request =>
    have hm : request.manner = .plain := hp
    simp [Event.letter, Submission.manner, Manner.stems, hm]

end

namespace Call

theorem words_of_manner {call : Call} {manner : Manner} (h : call.manner? = some manner) :
    call.words = call.refusals ++ [.opened false] :: manner.words := by
  simp only [words, h]

theorem Suits.manner {call : Call} {prepared : Prepared} (h : call.Suits prepared) :
    ∃ manner, call.manner? = some manner := by
  cases h with
  | carried hm => exact ⟨_, hm⟩
  | misused hr => cases call <;> first | exact ⟨_, rfl⟩ | cases hr
  | late hr => cases call <;> first | exact ⟨_, rfl⟩ | cases hr

end Call

theorem Delivered.spells {peers : Peers σ} {link after : Link σ} {call : Call}
    {prepared : Prepared} {result : Except Error Reply} {events : List Event}
    (h : Delivered peers link prepared ⟨result, events, after⟩) (hs : call.Suits prepared) :
    events.map Event.letter ∈ call.words ∧
      (events.map Event.letter ∈ opening [] → ∃ why, result = .error (.invalidArgument why)) := by
  obtain ⟨manner, hm⟩ := hs.manner
  rw [Call.words_of_manner hm]
  cases h with
  | misused =>
    cases hs with
    | misused hr => exact ⟨List.mem_append_left _ hr, fun _ => ⟨_, rfl⟩⟩
  | unreached hc =>
    rw [hc.letters_error]
    exact ⟨List.mem_append_right _ (.head _), fun ho => absurd ho (by decide)⟩
  | late hc =>
    cases hs with
    | late hr =>
      rw [hr]
      exact ⟨List.mem_append_left _ hc.letters_ok, fun _ => ⟨_, rfl⟩⟩
  | carried hc hd =>
    cases hs with
    | carried hm' hp =>
      obtain rfl := Option.some.inj (hm.symm.trans hm')
      -- a stem after an opening is a word of the manner, and never an opening alone
      have hw := List.mem_flatMap.mpr
        ⟨_, hd.letters_mem hp, append_mem_opening hc.letters_ok _⟩
      rw [List.map_append]
      exact ⟨List.mem_append_right _ (.tail _ hw), fun ho => absurd ho (Manner.notMem_opening hw)⟩

theorem Course.spells {peers : Peers σ} {session : Session σ} {call : Call}
    {performed : Performed σ} (h : Course peers session call performed) :
    performed.events.map Event.letter ∈ call.words ∧
      (performed.events.map Event.letter ∈ opening [] →
        ∃ why, performed.result = .error (.invalidArgument why)) := by
  have hu : [Letter.updated] ∉ opening [] := by decide
  cases h with
  | failed hp hd =>
    obtain ⟨hw, hr⟩ := hd.spells (Call.prepare_suits hp)
    refine ⟨hw, fun ho => ?_⟩
    obtain ⟨why, he⟩ := hr ho
    exact ⟨why, by rw [Except.error.inj he]⟩
  | succeeded hp hd =>
    obtain ⟨hw, hr⟩ := hd.spells (Call.prepare_suits hp)
    refine ⟨hw, fun ho => ?_⟩
    obtain ⟨why, he⟩ := hr ho
    cases he
  | updated hc | refused hc =>
    subst hc
    exact ⟨.head _, fun ho => absurd ho hu⟩

-- ---------------------------------------------------------------------
-- Submissions are shielded

/-- Each submission stands between what the vendor sets up for it and what the vendor gives up. What
was vetted goes out as the vendor has left it. -/
inductive Shielded : List Event → Prop
  | nil : Shielded []
  | opened {success : Bool} {rest : List Event} (h : Shielded rest) :
      Shielded (.opened success :: rest)
  | unadapted {region : Descriptor} {rest : List Event} (h : Shielded rest) :
      Shielded (.adapted region false :: rest)
  | adapted {region : Descriptor} {request : Request} {reply : Reply} {vendor : VendorInfo}
      {rest : List Event} (hm : request.manner = .adapted)
      (hv : request.vendor? = some vendor.encode) (h : Shielded rest) :
      Shielded (.adapted region true :: .submitted request reply :: .released vendor :: rest)
  | rejected {kind : Incoming.Kind} {incoming left : Incoming kind} {rest : List Event}
      (h : Shielded rest) : Shielded (.fixedUp incoming left false :: rest)
  | vetted {kind : Incoming.Kind} {incoming accepted left : Incoming kind} {reply : Reply}
      {rest : List Event} (h : Shielded rest) :
      Shielded (.fixedUp incoming accepted true :: .submitted accepted.request reply ::
        .cleanedUp (accepted.answered reply) left :: rest)
  | plain {request : Request} {reply : Reply} {rest : List Event} (hm : request.manner = .plain)
      (h : Shielded rest) : Shielded (.submitted request reply :: rest)
  | updated {range : RangeUpdate} {refusal : Option IoError} {rest : List Event}
      (h : Shielded rest) : Shielded (.updated range refusal :: rest)

namespace Shielded

theorem append {first rest : List Event} (hf : Shielded first) (hr : Shielded rest) :
    Shielded (first ++ rest) := by
  induction hf with
  | nil => exact hr
  | opened _ ih => exact .opened ih
  | unadapted _ ih => exact .unadapted ih
  | adapted hm hv _ ih => exact .adapted hm hv ih
  | rejected _ ih => exact .rejected ih
  | vetted _ ih => exact .vetted ih
  | plain hm _ ih => exact .plain hm ih
  | updated _ ih => exact .updated ih

theorem flatMap {steps : List (Step σ)} (h : ∀ step ∈ steps, Shielded step.performed.events) :
    Shielded (steps.flatMap fun step => step.performed.events) := by
  induction steps with
  | nil => exact .nil
  | cons step rest ih =>
    exact (h step (.head _)).append (ih fun other ho => h other (.tail _ ho))

theorem balanced {events : List Event} (h : Shielded events) :
    let letters := events.map Event.letter
    letters.count .cleanedUp = letters.count (.submitted .vetted) ∧
      letters.count .cleanedUp = letters.count (.fixedUp true) ∧
      letters.count .released = letters.count (.adapted true) ∧
      letters.count .released = letters.count (.submitted .adapted) := by
  induction h with
  | nil => simp
  | @vetted _ _ accepted _ _ _ _ ih =>
    have hm : accepted.request.manner = .vetted := by cases accepted <;> rfl
    simpa [Event.letter, hm] using ih
  | adapted hm _ _ ih => simpa [Event.letter, hm] using ih
  | plain hm _ ih => simpa [Event.letter, hm] using ih
  | _ => rename_i ih; simpa [Event.letter] using ih

end Shielded

section

variable {peers : Peers σ} {link after : Link σ} {events : List Event}

theorem Connects.shielded {opened : Except Error Unit}
    (h : Connects peers link ⟨opened, events, after⟩) : Shielded events := by
  cases h with
  | held => exact .nil
  | opened => exact .opened .nil
  | failed => exact .opened .nil

theorem Carried.shielded {submission : Submission} {result : Except Error Reply}
    (h : Carried peers link submission ⟨result, events, after⟩) (hp : submission.Proper) :
    Shielded events := by
  cases h with
  | unadapted => exact .unadapted .nil
  | @adapted region request adaptation =>
    obtain ⟨hm, hv⟩ := hp adaptation
    exact .adapted hm hv .nil
  | rejected => exact .rejected .nil
  | vetted => exact .vetted .nil
  | plain => exact .plain hp .nil

theorem Delivered.shielded {prepared : Prepared} {result : Except Error Reply}
    (h : Delivered peers link prepared ⟨result, events, after⟩)
    (hp : ∀ submission, prepared = .ok (.ok submission) → submission.Proper) :
    Shielded events := by
  cases h with
  | misused => exact .nil
  | unreached hc => exact hc.shielded
  | late hc => exact hc.shielded
  | carried hc hd => exact hc.shielded.append (hd.shielded (hp _ rfl))

end

theorem Call.Suits.proper {call : Call} {submission : Submission}
    (h : call.Suits (.ok (.ok submission))) : submission.Proper := by
  cases h with
  | carried _ hp => exact hp

theorem Course.shielded {peers : Peers σ} {session : Session σ} {call : Call}
    {performed : Performed σ} (h : Course peers session call performed) :
    Shielded performed.events := by
  cases h with
  | failed hp hd | succeeded hp hd =>
    refine hd.shielded ?_
    rintro submission rfl
    exact (Call.prepare_suits hp).proper
  | updated | refused => exact .updated .nil

-- ---------------------------------------------------------------------
-- Runs

namespace Call

theorem words_cases (call : Call) :
    call.words = [[.updated]] ∨
      ∃ manner, ∃ refusals ∈ [[], [[]], opening []],
        call.words = refusals ++ [.opened false] :: Manner.words manner := by
  cases call with
  | exportPages | exportRange => exact .inr ⟨.adapted, [[]], by simp, rfl⟩
  | importRegion => exact .inr ⟨.vetted, [[]], by simp, rfl⟩
  | endExport | endImport => exact .inr ⟨.plain, [[]], by simp, rfl⟩
  | declareWindow => exact .inr ⟨.vetted, opening [], by simp, rfl⟩
  | withdrawWindow => exact .inr ⟨.plain, opening [], by simp, rfl⟩
  | regionAt | addressOf => exact .inr ⟨.plain, [], by simp, rfl⟩
  | setOwnership => exact .inl rfl

theorem words_nodup (call : Call) : call.words.Nodup := by
  obtain h | ⟨manner, refusals, hr, h⟩ := call.words_cases
  · rw [h]
    decide
  · rw [h]
    clear h
    revert refusals
    cases manner <;> decide

theorem notMem_submitted {call : Call} {word : List Letter} (hw : word ∈ call.words)
    (hv : .adapted false ∈ word ∨ .fixedUp false ∈ word) (manner : Manner) :
    .submitted manner ∉ word := by
  obtain h | ⟨manner', refusals, hr, h⟩ := call.words_cases
  · rw [h] at hw
    obtain rfl := List.mem_singleton.mp hw
    revert hv
    cases manner <;> decide
  · have hd : ∀ refusals ∈ [[], [[]], opening []],
        ∀ word ∈ refusals ++ [.opened false] :: manner'.words,
          .adapted false ∈ word ∨ .fixedUp false ∈ word → .submitted manner ∉ word := by
      cases manner' <;> cases manner <;> decide
    exact hd refusals hr word (h ▸ hw) hv

end Call

namespace Session

/-- Every call of a run spells exactly one of its words, and no more than an open channel is seen
of a call only when it is turned down for its arguments. Up to any call, what the vendor set up was
given up as often. -/
theorem play_disciplined (peers : Peers σ) (session : Session σ) (moves : List (Move σ)) :
    let steps := (session.play peers moves).value.steps
    steps.map (·.call) = moves.filterMap Move.call? ∧
    (∀ step ∈ steps,
      step.call.words.count step.letters = 1 ∧
        (step.letters ∈ opening [] →
          ∃ why, step.performed.result = .error (.invalidArgument why)) ∧
        (.adapted false ∈ step.letters ∨ .fixedUp false ∈ step.letters →
          ∀ request reply, .submitted request reply ∉ step.performed.events)) ∧
      ∀ count,
        let events := (steps.take count).flatMap fun step => step.performed.events
        let letters := events.map Event.letter
        Shielded events ∧
          letters.count .cleanedUp = letters.count (.submitted .vetted) ∧
          letters.count .released = letters.count (.adapted true) := by
  refine ⟨session.calls_play peers moves, fun step hs => ?_, fun count => ?_⟩
  · obtain ⟨hw, hr⟩ := (play_course hs).spells
    refine ⟨?_, hr, fun hv request reply hm => ?_⟩
    · rw [step.call.words_nodup.count]
      exact if_pos hw
    · exact Call.notMem_submitted hw hv request.manner (List.mem_map_of_mem hm)
  · have h : Shielded ((((session.play peers moves).value.steps).take count).flatMap
        fun step => step.performed.events) :=
      .flatMap fun step hs => (play_course (List.mem_of_mem_take hs)).shielded
    obtain ⟨hc, -, hr, -⟩ := h.balanced
    exact ⟨h, hc, hr⟩

end Session

end FabricMemory
