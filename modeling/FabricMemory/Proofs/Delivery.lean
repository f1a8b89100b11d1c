import FabricMemory.Host
import FabricMemory.Operation.Submission
import FabricMemory.Proofs.Dialogue

/-!
# Delivering a command

What reaches the driver goes one way: a `Submission` is prepared by checks, some of which come only
after the channel was asked for, and is then carried to the driver with the part that the vendor has
in it. `Delivered` lists how that can go, and `deliver_delivered` says that it goes in no other way.
What comes back of it is the driver's reply, or a vetted command's outputs as the vendor leaves them
(`Submission.returned`). An operation that `Submits` does nothing else that shows.
-/

namespace FabricMemory

variable {σ α β γ : Type}

inductive Submission where
  | adapted (region : Descriptor) (request : Adaptation → Request)
  | vetted {kind : Incoming.Kind} (incoming : Incoming kind)
  | plain (request : Request)

/-- An error of the checks before the channel is asked for, or of those after it. -/
abbrev Prepared := Except Error (Except Error Submission)

/-- What a command has for the driver to write, as a reply that wrote all of it. -/
def Incoming.outputs {kind : Incoming.Kind} : Incoming kind → Reply
  | .region command => { memId := some command.memId, numaId := some command.numaId }
  | .window command => { numaId := some command.numaId }

def Event.outputs? : Event → Option Reply
  | .cleanedUp _ left => some left.outputs
  | _ => none

namespace Submission

/-- What comes back of a submission, by what happened and the driver's reply. -/
def returned (events : List Event) (reply : Reply) : Submission → Reply
  | .vetted _ => (events.findSome? Event.outputs?).getD reply
  | .adapted .. | .plain _ => reply

/-- What comes back where the vendor leaves commands alone. -/
def settled (reply : Reply) : Submission → Reply
  | .vetted incoming => (incoming.answered reply).outputs
  | .adapted .. | .plain _ => reply

end Submission

namespace Operation

def carry : Submission → Operation Reply
  | .adapted region request => submitAdapted region request
  | .vetted incoming => do return (← submitVetted incoming).outputs
  | .plain request => submitPlain request

def deliver (prepared : Prepared) : Operation Reply := do
  let late ← check prepared
  connect
  let submission ← check late
  carry submission

end Operation

theorem Reply.verdict_eq_ok_iff (reply : Reply) (request : String) :
    reply.verdict request = .ok () ↔ reply.refusal = none := by
  unfold verdict
  split <;> simp_all

-- ---------------------------------------------------------------------
-- Courses

section

variable (peers : Peers σ) (link : Link σ)

inductive Connects : Answered σ (Except Error Unit) → Prop
  | held (h : link.cache.isOpen = true) : Connects ⟨.ok (), [], link⟩
  | opened {world : σ} (h : link.cache.isOpen = false)
      (ho : (peers.openChannel link.world).value = (.ok (), world)) :
      Connects ⟨.ok (), [.opened true],
        ⟨⟨link.cache.attempts + 1, some ⟨link.cache.attempts + 1⟩⟩, world⟩⟩
  | failed {e : Error} {world : σ} (h : link.cache.isOpen = false)
      (ho : (peers.openChannel link.world).value = (.error e, world)) :
      Connects ⟨.error e, [.opened false], ⟨⟨link.cache.attempts + 1, none⟩, world⟩⟩

inductive Carried : Submission → Answered σ (Except Error Reply) → Prop
  | unadapted {region : Descriptor} {request : Adaptation → Request} {e : Error} {world : σ}
      (h : (peers.adapt region link.world).value = (.error e, world)) :
      Carried (.adapted region request)
        ⟨.error e, [.adapted region false], ⟨link.cache, world⟩⟩
  | adapted {region : Descriptor} {request : Adaptation → Request} {adaptation : Adaptation}
      {reply : Reply} {middle world : σ}
      (ha : (peers.adapt region link.world).value = (.ok adaptation, middle))
      (hs : (peers.submit (request adaptation) middle).value = (reply, world)) :
      Carried (.adapted region request)
        ⟨(reply.verdict (request adaptation).name).map fun _ => reply,
          [.adapted region true, .submitted (request adaptation) reply,
            .released adaptation.vendor],
          ⟨link.cache, world⟩⟩
  | rejected {kind : Incoming.Kind} {incoming left : Incoming kind} {e : Error} {world : σ}
      (h : (peers.fixup incoming link.world).value = (⟨.error e, left⟩, world)) :
      Carried (.vetted incoming) ⟨.error e, [.fixedUp incoming left false], ⟨link.cache, world⟩⟩
  | vetted {kind : Incoming.Kind} {incoming accepted left : Incoming kind} {reply : Reply}
      {middle later world : σ}
      (hf : (peers.fixup incoming link.world).value = (⟨.ok (), accepted⟩, middle))
      (hs : (peers.submit accepted.request middle).value = (reply, later))
      (hc : (peers.cleanup (accepted.answered reply) later).value = (left, world)) :
      Carried (.vetted incoming)
        ⟨(reply.verdict accepted.request.name).map fun _ => left.outputs,
          [.fixedUp incoming accepted true, .submitted accepted.request reply,
            .cleanedUp (accepted.answered reply) left],
          ⟨link.cache, world⟩⟩
  | plain {request : Request} {reply : Reply} {world : σ}
      (hs : (peers.submit request link.world).value = (reply, world)) :
      Carried (.plain request)
        ⟨(reply.verdict request.name).map fun _ => reply, [.submitted request reply],
          ⟨link.cache, world⟩⟩

inductive Delivered : Prepared → Answered σ (Except Error Reply) → Prop
  | misused {e : Error} : Delivered (.error e) ⟨.error e, [], link⟩
  | unreached {late : Except Error Submission} {e : Error} {events : List Event} {after : Link σ}
      (hc : Connects peers link ⟨.error e, events, after⟩) :
      Delivered (.ok late) ⟨.error e, events, after⟩
  | late {e : Error} {events : List Event} {after : Link σ}
      (hc : Connects peers link ⟨.ok (), events, after⟩) :
      Delivered (.ok (.error e)) ⟨.error e, events, after⟩
  | carried {submission : Submission} {result : Except Error Reply} {opening events : List Event}
      {middle after : Link σ}
      (hc : Connects peers link ⟨.ok (), opening, middle⟩)
      (hs : Carried peers middle submission ⟨result, events, after⟩) :
      Delivered (.ok (.ok submission)) ⟨result, opening ++ events, after⟩

end

section

variable (peers : Peers σ) (link : Link σ)

/-- The request is one that a submission may lead to, and the vendor has agreed to it. A command
that is vetted goes out as the vendor has left it. -/
inductive Approved : Submission → Request → Prop
  | adapted {region : Descriptor} {request : Adaptation → Request} {adaptation : Adaptation}
      (ha : (peers.adapt region link.world).value.1 = .ok adaptation) :
      Approved (.adapted region request) (request adaptation)
  | vetted {kind : Incoming.Kind} {incoming accepted : Incoming kind}
      (hf : (peers.fixup incoming link.world).value.1 = ⟨.ok (), accepted⟩) :
      Approved (.vetted incoming) accepted.request
  | plain {request : Request} : Approved (.plain request) request

variable {peers link}

theorem Connects.notMem_submitted {opened : Except Error Unit} {events : List Event}
    {after : Link σ} (h : Connects peers link ⟨opened, events, after⟩) (request : Request)
    (reply : Reply) : .submitted request reply ∉ events := by
  cases h <;> simp

theorem Connects.returned_append {opened : Except Error Unit} {opening : List Event}
    {after : Link σ} (h : Connects peers link ⟨opened, opening, after⟩) (events : List Event)
    (reply : Reply) (submission : Submission) :
    submission.returned (opening ++ events) reply = submission.returned events reply := by
  cases submission with
  | adapted | plain => rfl
  | vetted =>
    cases h <;> rfl

end

-- ---------------------------------------------------------------------
-- Vendors that leave a command alone

namespace Peers

/-- What is seen of a command is still seen of it after the vendor has judged it. -/
def FixupKeeps (peers : Peers σ) (view : ∀ {kind : Incoming.Kind}, Incoming kind → α) : Prop :=
  ∀ {kind : Incoming.Kind} (incoming : Incoming kind) (world : σ),
    view (peers.fixup incoming world).value.1.incoming = view incoming

/-- What is seen of an answered command is still seen of it when the vendor is done with it. -/
def CleanupKeeps (peers : Peers σ) (view : ∀ {kind : Incoming.Kind}, Incoming kind → α) : Prop :=
  ∀ {kind : Incoming.Kind} (incoming : Incoming kind) (world : σ),
    view (peers.cleanup incoming world).value.1 = view incoming

end Peers

section

variable {δ : Type} (root : Path) (backend : Backend δ)
  (view : ∀ {kind : Incoming.Kind}, Incoming kind → α)

theorem Host.fixup_keeps : (peersWith root backend).FixupKeeps view := fun _ _ => rfl

theorem Host.cleanup_keeps : (peersWith root backend).CleanupKeeps view := fun _ _ => rfl

end

theorem Incoming.eq_of_request {kind : Incoming.Kind} {incoming other : Incoming kind}
    (h : incoming.request = other.request) : incoming = other := by
  cases incoming <;> cases other <;> cases h <;> rfl

theorem Peers.FixupKeeps.of_request {peers : Peers σ} (h : peers.FixupKeeps Incoming.request)
    (view : ∀ {kind : Incoming.Kind}, Incoming kind → α) : peers.FixupKeeps view :=
  fun incoming world => congrArg view (Incoming.eq_of_request (h incoming world))

theorem Approved.of_vetted {peers : Peers σ} {link : Link σ} {kind : Incoming.Kind}
    {incoming : Incoming kind} {request : Request}
    (h : Approved peers link (.vetted incoming) request) :
    ∃ accepted : Incoming kind, request = accepted.request ∧
      (peers.fixup incoming link.world).value.1 = ⟨.ok (), accepted⟩ := by
  cases h with
  | vetted hf => exact ⟨_, rfl, hf⟩

theorem Approved.keeps {peers : Peers σ} {link : Link σ} {kind : Incoming.Kind}
    {incoming : Incoming kind} {request : Request}
    (h : Approved peers link (.vetted incoming) request) {view : ∀ {kind}, Incoming kind → α}
    (hk : peers.FixupKeeps view) :
    ∃ accepted : Incoming kind, request = accepted.request ∧ view accepted = view incoming := by
  obtain ⟨accepted, hr, hf⟩ := h.of_vetted
  have hv := hk incoming link.world
  rw [hf] at hv
  exact ⟨accepted, hr, hv⟩

section

variable {peers : Peers σ} {link : Link σ} {kind : Incoming.Kind} {incoming : Incoming kind}

theorem Approved.eq_request {request : Request}
    (h : Approved peers link (.vetted incoming) request) (hk : peers.FixupKeeps Incoming.request) :
    request = incoming.request := by
  obtain ⟨accepted, rfl, ha⟩ := h.keeps hk
  exact ha

theorem Approved.of_accepted (hk : peers.FixupKeeps Incoming.request)
    (h : (peers.fixup incoming link.world).value.1.verdict = .ok ()) :
    Approved peers link (.vetted incoming) incoming.request := by
  have hr : (peers.fixup incoming link.world).value.1.incoming.request = incoming.request :=
    hk incoming link.world
  rcases hv : (peers.fixup incoming link.world).value.1 with ⟨verdict, accepted⟩
  rw [hv] at h hr
  obtain rfl : verdict = .ok () := h
  rw [← hr]
  exact .vetted hv

end

-- ---------------------------------------------------------------------
-- What was submitted

section

variable {peers : Peers σ} {link after : Link σ} {submission : Submission} {prepared : Prepared}
  {result : Except Error Reply} {events : List Event} {request other : Request}
  {reply answer : Reply}

theorem Carried.of_submitted (h : Carried peers link submission ⟨result, events, after⟩)
    (hs : .submitted request reply ∈ events) :
    Approved peers link submission request ∧
      result = (reply.verdict request.name).map (fun _ => submission.returned events reply) ∧
      (∃ world, reply = (peers.submit request world).value.1) ∧
      ∀ other answer, .submitted other answer ∈ events → other = request ∧ answer = reply := by
  cases h with
  | unadapted | rejected => simp at hs
  | adapted ha hd =>
    simp only [List.mem_cons, reduceCtorEq, Event.submitted.injEq, List.not_mem_nil, or_false,
      false_or] at hs ⊢
    obtain ⟨rfl, rfl⟩ := hs
    exact ⟨.adapted (by rw [ha]), rfl, ⟨_, (congrArg Prod.fst hd).symm⟩, fun _ _ ho => ho⟩
  | vetted hf hd hc =>
    simp only [List.mem_cons, reduceCtorEq, Event.submitted.injEq, List.not_mem_nil, or_false,
      false_or] at hs ⊢
    obtain ⟨rfl, rfl⟩ := hs
    exact ⟨.vetted (by rw [hf]), rfl, ⟨_, (congrArg Prod.fst hd).symm⟩, fun _ _ ho => ho⟩
  | plain hd =>
    simp only [List.mem_singleton, Event.submitted.injEq] at hs ⊢
    obtain ⟨rfl, rfl⟩ := hs
    exact ⟨.plain, rfl, ⟨_, (congrArg Prod.fst hd).symm⟩, fun _ _ ho => ho⟩

theorem Delivered.of_submitted (h : Delivered peers link prepared ⟨result, events, after⟩)
    (hs : .submitted request reply ∈ events) :
    ∃ submission opening middle carried, prepared = .ok (.ok submission) ∧
      Connects peers link ⟨.ok (), opening, middle⟩ ∧
      Carried peers middle submission ⟨result, carried, after⟩ ∧
      submission.returned events reply = submission.returned carried reply ∧
      ∀ other answer, .submitted other answer ∈ events → .submitted other answer ∈ carried := by
  cases h with
  | misused => simp at hs
  | unreached hc => exact absurd hs (hc.notMem_submitted request reply)
  | late hc => exact absurd hs (hc.notMem_submitted request reply)
  | carried hc hd =>
    exact ⟨_, _, _, _, rfl, hc, hd, hc.returned_append .., fun other answer ho =>
      (List.mem_append.mp ho).resolve_left (hc.notMem_submitted other answer)⟩

theorem Carried.approved (h : Carried peers link submission ⟨result, events, after⟩)
    (hs : .submitted request reply ∈ events) : Approved peers link submission request :=
  (h.of_submitted hs).1

theorem Delivered.approved (h : Delivered peers link prepared ⟨result, events, after⟩)
    (hs : .submitted request reply ∈ events) :
    ∃ submission opening middle, prepared = .ok (.ok submission) ∧
      Connects peers link ⟨.ok (), opening, middle⟩ ∧ Approved peers middle submission request := by
  obtain ⟨submission, opening, middle, carried, hp, hc, hd, -, hm⟩ := h.of_submitted hs
  exact ⟨submission, opening, middle, hp, hc, hd.approved (hm _ _ hs)⟩

theorem Delivered.settled
    (h : Delivered peers link (.ok (.ok submission)) ⟨result, events, after⟩)
    (hs : .submitted request reply ∈ events) :
    result = (reply.verdict request.name).map fun _ => submission.returned events reply := by
  obtain ⟨_, _, _, _, ⟨⟩, -, hd, hr, hm⟩ := h.of_submitted hs
  rw [hr]
  exact (hd.of_submitted (hm _ _ hs)).2.1

theorem Delivered.answered (h : Delivered peers link prepared ⟨result, events, after⟩)
    (hs : .submitted request reply ∈ events) :
    ∃ world, reply = (peers.submit request world).value.1 := by
  obtain ⟨_, _, _, _, -, -, hd, -, hm⟩ := h.of_submitted hs
  exact (hd.of_submitted (hm _ _ hs)).2.2.1

theorem Delivered.only (h : Delivered peers link prepared ⟨result, events, after⟩)
    (hs : .submitted request reply ∈ events) (ho : .submitted other answer ∈ events) :
    other = request ∧ answer = reply := by
  obtain ⟨_, _, _, _, -, -, hd, -, hm⟩ := h.of_submitted hs
  exact (hd.of_submitted (hm _ _ hs)).2.2.2 _ _ (hm _ _ ho)

/-- A vendor that leaves commands alone has no hand in what comes back. -/
theorem Carried.returned_eq (h : Carried peers link submission ⟨result, events, after⟩)
    (hs : .submitted request reply ∈ events) (hf : peers.FixupKeeps Incoming.request)
    (hc : peers.CleanupKeeps Incoming.outputs) :
    submission.returned events reply = submission.settled reply := by
  cases h with
  | unadapted | adapted | plain => rfl
  | rejected => simp at hs
  | @vetted kind incoming accepted left reply' middle later world ha hd hl =>
    obtain ⟨-, rfl⟩ : request = accepted.request ∧ reply = reply' := by simpa using hs
    obtain rfl : accepted = incoming := by
      have hr := hf incoming link.world
      rw [ha] at hr
      exact Incoming.eq_of_request hr
    have ho := hc (accepted.answered reply) later
    rw [hl] at ho
    exact ho

theorem Delivered.returned_eq
    (h : Delivered peers link (.ok (.ok submission)) ⟨result, events, after⟩)
    (hs : .submitted request reply ∈ events) (hf : peers.FixupKeeps Incoming.request)
    (hc : peers.CleanupKeeps Incoming.outputs) :
    submission.returned events reply = submission.settled reply := by
  obtain ⟨_, _, _, _, ⟨⟩, -, hd, hr, hm⟩ := h.of_submitted hs
  rw [hr]
  exact hd.returned_eq (hm _ _ hs) hf hc

theorem Carried.submitted (h : Carried peers link submission ⟨result, events, after⟩)
    (ha : Approved peers link submission request) : ∃ reply, .submitted request reply ∈ events := by
  cases ha with
  | adapted ha =>
    cases h with
    | unadapted hu => simp [hu] at ha
    | adapted hu =>
      obtain rfl : _ = _ := by simpa [hu] using ha
      exact ⟨_, .tail _ (.head _)⟩
  | vetted hf =>
    cases h with
    | rejected hr => simp [hr] at hf
    | vetted hu =>
      obtain rfl : _ = _ := by simpa [hu] using hf
      exact ⟨_, .tail _ (.head _)⟩
  | plain =>
    cases h with
    | plain => exact ⟨_, .head _⟩

end

-- ---------------------------------------------------------------------
-- Runs of the common parts

theorem run_connect :
    ExceptT.run Operation.connect =
      (Dialogue.ask .connect .done).either
        (fun e => .ask (.log ⟨.error, "failed to open control device: " ++ e.message⟩) fun _ =>
          .done (.error e))
        fun _ => .done (.ok ()) := by
  show Dialogue.ask _ _ = Dialogue.ask _ _
  congr 1
  funext opened
  cases opened <;> rfl

theorem connect_connects (peers : Peers σ) (link : Link σ) :
    Connects peers link (peers.connect link).value := by
  unfold Peers.connect ChannelCache.get
  rcases hs : link.cache.slot with _ | channel
  · have hc : link.cache.isOpen = false := by simp [ChannelCache.isOpen, hs]
    rcases ho : (peers.openChannel link.world).value with ⟨e | ⟨⟩, world⟩
    · simpa [ho, hc, Except.map, Except.isOk, Except.toBool] using Connects.failed hc ho
    · simpa [ho, hc, Except.map, Except.isOk, Except.toBool] using Connects.opened hc ho
  · have hc : link.cache.isOpen = true := by simp [ChannelCache.isOpen, hs]
    simpa [hc, Except.map] using Connects.held hc

theorem Connects.eq_connect {peers : Peers σ} {link : Link σ}
    {answered : Answered σ (Except Error Unit)} (h : Connects peers link answered) :
    answered = (peers.connect link).value := by
  have hc := connect_connects peers link
  generalize (peers.connect link).value = answered' at hc ⊢
  cases h <;> cases hc <;> simp_all

theorem Delivered.submitted {peers : Peers σ} {link after : Link σ} {submission : Submission}
    {result : Except Error Reply} {events : List Event} {request : Request}
    (h : Delivered peers link (.ok (.ok submission)) ⟨result, events, after⟩)
    (ho : (peers.connect link).value.value = .ok ())
    (ha : Approved peers (peers.connect link).value.link submission request) :
    ∃ reply, .submitted request reply ∈ events := by
  cases h with
  | unreached hc => simp [← hc.eq_connect] at ho
  | carried hc hd =>
    rw [← hc.eq_connect] at ha
    obtain ⟨reply, hs⟩ := hd.submitted ha
    exact ⟨reply, List.mem_append_right _ hs⟩

theorem value_run_connect (peers : Peers σ) (link : Link σ) :
    ((ExceptT.run Operation.connect).run peers link).value = (peers.connect link).value := by
  rw [run_connect, Dialogue.value_run_either, Dialogue.value_run_ask_done]
  simp only [Peers.answer]
  generalize (peers.connect link).value = ran
  rcases ran with ⟨e | ⟨⟩, events, after⟩ <;> simp [Dialogue.run, Peers.answer]

theorem run_submitAdapted (region : Descriptor) (request : Adaptation → Request) :
    ExceptT.run (Operation.submitAdapted region request) =
      (Dialogue.ask (.adapt region) .done).either (fun e => .done (.error e)) fun adaptation =>
        .ask (.submit (request adaptation)) fun reply =>
        .ask (.release adaptation.vendor) fun _ =>
          .done ((reply.verdict (request adaptation).name).map fun _ => reply) := by
  show Dialogue.ask _ _ = Dialogue.ask _ _
  congr 1
  funext adapted
  cases adapted with
  | error e => rfl
  | ok adaptation =>
    show Dialogue.ask _ _ = Dialogue.ask _ _
    congr 1
    funext reply
    show Dialogue.ask _ _ = Dialogue.ask _ _
    congr 1
    funext _
    exact Operation.run_settle ..

theorem run_submitVetted {kind : Incoming.Kind} (incoming : Incoming kind) :
    ExceptT.run (Operation.submitVetted incoming) =
      .ask (.fixup incoming) fun vetted =>
        (Dialogue.done vetted.verdict).either (fun e => .done (.error e)) fun _ =>
          .ask (.submit vetted.incoming.request) fun reply =>
          .ask (.cleanup (vetted.incoming.answered reply)) fun left =>
            .done ((reply.verdict vetted.incoming.request.name).map fun _ => left) := by
  show Dialogue.ask _ _ = Dialogue.ask _ _
  congr 1
  funext ⟨verdict, accepted⟩
  cases verdict with
  | error e => rfl
  | ok _ =>
    show Dialogue.ask _ _ = Dialogue.ask _ _
    congr 1
    funext reply
    show Dialogue.ask _ _ = Dialogue.ask _ _
    congr 1
    funext left
    exact Operation.run_settle ..

theorem run_submitPlain (request : Request) :
    ExceptT.run (Operation.submitPlain request) =
      .ask (.submit request) fun reply =>
        .done ((reply.verdict request.name).map fun _ => reply) := by
  show Dialogue.ask _ _ = Dialogue.ask _ _
  congr 1
  funext reply
  exact Operation.run_settle ..

theorem carry_carried (peers : Peers σ) (link : Link σ) (submission : Submission) :
    Carried peers link submission
      ((ExceptT.run (Operation.carry submission)).run peers link).value := by
  cases submission with
  | adapted region request =>
    rw [Operation.carry, run_submitAdapted, Dialogue.value_run_either, Dialogue.value_run_ask_done]
    rcases ha : (peers.adapt region link.world).value with ⟨e | adaptation, middle⟩
    · simpa [Peers.answer, ha, Dialogue.run, Except.isOk, Except.toBool] using Carried.unadapted ha
    · rcases hs : (peers.submit (request adaptation) middle).value with ⟨reply, world⟩
      simpa [Peers.answer, ha, hs, Dialogue.run, Except.isOk, Except.toBool]
        using Carried.adapted ha hs
  | vetted incoming =>
    rw [Operation.carry, Operation.run_bind, run_submitVetted, Dialogue.value_run_either,
      Dialogue.value_run_ask]
    rcases hf : (peers.fixup incoming link.world).value with ⟨⟨e | ⟨⟩, accepted⟩, middle⟩
    · simpa [Peers.answer, hf, Dialogue.run, Except.isOk, Except.toBool] using Carried.rejected hf
    · rcases hs : (peers.submit accepted.request middle).value with ⟨reply, later⟩
      rcases hc : (peers.cleanup (accepted.answered reply) later).value with ⟨left, world⟩
      have h := Carried.vetted hf hs hc
      cases hv : reply.verdict accepted.request.name <;>
        simpa [Peers.answer, hf, hs, hc, hv, Dialogue.run, Dialogue.pure_eq_done, Except.isOk,
          Except.toBool, Except.map] using h
  | plain request =>
    rw [Operation.carry, run_submitPlain, Dialogue.value_run_ask]
    rcases hs : (peers.submit request link.world).value with ⟨reply, world⟩
    simpa [Peers.answer, hs, Dialogue.run] using Carried.plain hs

theorem deliver_delivered (peers : Peers σ) (link : Link σ) (prepared : Prepared) :
    Delivered peers link prepared
      ((ExceptT.run (Operation.deliver prepared)).run peers link).value := by
  unfold Operation.deliver
  simp only [Operation.run_bind, Operation.run_check]
  rcases prepared with e | late
  · exact .misused
  · simp only [Dialogue.either_ok, Dialogue.value_run_either, value_run_connect]
    have hc := connect_connects peers link
    generalize (peers.connect link).value = ran at hc ⊢
    rcases ran with ⟨e | ⟨⟩, opening, middle⟩
    · simpa [Dialogue.run] using Delivered.unreached hc
    · rcases late with e | submission
      · simpa [Dialogue.run] using Delivered.late hc
      · exact .carried hc (carry_carried peers middle submission)

-- ---------------------------------------------------------------------
-- Operations that come down to one delivery

/-- The dialogue delivers what was prepared and makes its value of the reply, or of the error. -/
def Submits (dialogue : Dialogue γ) (prepared : Prepared) (fail : Error → γ) (give : Reply → γ) :
    Prop :=
  ∃ finish : Reply → Dialogue γ,
    dialogue =
        (ExceptT.run (Operation.deliver prepared)).either (fun e => .done (fail e)) finish ∧
      ∀ reply, (finish reply).Says (give reply)

namespace Submits

variable {fail : Error → γ} {give : Reply → γ}

theorem check {result : Except Error α} {next : α → Dialogue γ} {prepared : α → Prepared}
    (h : ∀ a, result = .ok a → Submits (next a) (prepared a) fail give) :
    Submits ((Dialogue.done result).either (fun e => .done (fail e)) next)
      (result >>= prepared) fail give := by
  cases result with
  | ok a => exact h a rfl
  | error e => exact ⟨fun reply => .done (give reply), rfl, fun _ => .done⟩

theorem connected {late : Except Error Submission} {next : Dialogue γ} {finish : Reply → Dialogue γ}
    (hn : next = (Dialogue.done late).either (fun e => .done (fail e)) fun submission =>
      (ExceptT.run (Operation.carry submission)).either (fun e => .done (fail e)) finish)
    (hf : ∀ reply, (finish reply).Says (give reply)) :
    Submits ((ExceptT.run Operation.connect).either (fun e => .done (fail e)) fun _ => next)
      (.ok late) fail give := by
  refine ⟨finish, ?_, hf⟩
  rw [hn, Operation.deliver]
  simp only [Operation.run_bind, Operation.run_check, Dialogue.either_ok, Dialogue.either_either,
    Dialogue.either_error]

theorem vetted {kind : Incoming.Kind} {incoming : Incoming kind} {rest : Incoming kind → Dialogue γ}
    (finish : Reply → Dialogue γ) (hr : ∀ left, rest left = finish left.outputs)
    (hf : ∀ reply, (finish reply).Says (give reply)) :
    Submits ((ExceptT.run Operation.connect).either (fun e => .done (fail e)) fun _ =>
        (ExceptT.run (Operation.submitVetted incoming)).either (fun e => .done (fail e)) rest)
      (.ok (.ok (.vetted incoming))) fail give := by
  refine connected ?_ hf
  rw [Dialogue.either_ok, Operation.carry, Operation.run_bind, Dialogue.either_either]
  congr 1
  funext left
  exact hr left

theorem bind {dialogue : Dialogue γ} {prepared : Prepared} {f : γ → Dialogue β}
    {fail' : Error → β} {give' : Reply → β} (h : Submits dialogue prepared fail give)
    (hf : ∀ e, f (fail e) = .done (fail' e)) (hg : ∀ reply, (f (give reply)).Says (give' reply)) :
    Submits (dialogue >>= f) prepared fail' give' := by
  obtain ⟨finish, rfl, hs⟩ := h
  refine ⟨fun reply => finish reply >>= f, ?_, fun reply => (hs reply).bind (hg reply)⟩
  rw [Dialogue.either_bind]
  congr 1
  funext e
  exact hf e

theorem run {dialogue : Dialogue γ} {prepared : Prepared} (h : Submits dialogue prepared fail give)
    (peers : Peers σ) (link : Link σ) :
    (dialogue.run peers link).value =
      let ran := ((ExceptT.run (Operation.deliver prepared)).run peers link).value
      match ran.value with
      | .ok reply => ⟨give reply, ran.events, ran.link⟩
      | .error e => ⟨fail e, ran.events, ran.link⟩ := by
  obtain ⟨finish, rfl, hs⟩ := h
  rw [Dialogue.value_run_either]
  generalize ((ExceptT.run (Operation.deliver prepared)).run peers link).value = ran
  rcases ran with ⟨e | reply, events, after⟩
  · simp [Dialogue.run]
  · simp [(hs reply).run]

end Submits

end FabricMemory
