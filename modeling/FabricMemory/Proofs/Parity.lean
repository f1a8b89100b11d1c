import FabricMemory.Proofs.Refusal

/-!
# Two ways to export

Pages of the local nodes and a range of a process are exported by commands that differ in layout.
All else is the same for both: what the vendor is asked, what the commands say of the region
(`ExportTerms`) and what the driver's answer is turned into. Main statement: `exports_agree`.
-/

namespace FabricMemory

variable {σ : Type}

-- ---------------------------------------------------------------------
-- What both commands say

/-- What an export tells the driver, however the memory is given. -/
structure ExportTerms where
  flags : UInt64
  pxmNuma : Int32
  payloadLength : UInt16
  vendorLength : UInt16
  deid : Eid
  payload : Option Bytes
  vendor : Option Bytes
deriving DecidableEq

def ExportCommand.terms (command : ExportCommand) : ExportTerms where
  flags := command.flags
  pxmNuma := command.pxmNuma
  payloadLength := command.payloadLength
  vendorLength := command.vendorLength
  deid := command.deid
  payload := command.payload
  vendor := command.vendor

def ExportRangeCommand.terms (command : ExportRangeCommand) : ExportTerms where
  flags := command.flags
  pxmNuma := command.pxmNuma
  payloadLength := command.payloadLength
  vendorLength := command.vendorLength
  deid := command.deid
  payload := command.payload
  vendor := command.vendor

theorem Operation.terms_pagesCommand (sizes : List UInt64) (pid : Int32) (va length : UInt64)
    (flags : ExportFlags) (region : Descriptor) (payloadLength : UInt16)
    (adaptation : Adaptation) :
    (pagesCommand sizes flags region payloadLength adaptation).terms =
      (rangeCommand pid va length flags region payloadLength adaptation).terms := by rfl

inductive Event.Matches : Event → Event → Prop
  | same (event : Event) : Matches event event
  | submitted {command : ExportCommand} {other : ExportRangeCommand} {reply : Reply}
      (h : command.terms = other.terms) :
      Matches (.submitted (.exportPages command) reply) (.submitted (.exportRange other) reply)

/-- The same result, but for the request that a refusal names. -/
inductive Outcome.Matches : Except Error Outcome → Except Error Outcome → Prop
  | same (result : Except Error Outcome) : Matches result result
  | refused (source : IoError) :
      Matches (.error (.driver "export" source)) (.error (.driver "export_pid" source))

-- ---------------------------------------------------------------------
-- One submission with either request

def SameReplies (events others : List Event) : Prop :=
  ∀ request reply other answer, .submitted request reply ∈ events →
    .submitted other answer ∈ others → reply = answer

inductive Paired (request other : Adaptation → Request) :
    Except Error Reply → List Event → Except Error Reply → List Event → Prop
  | stopped {e : Error} {events : List Event} :
      Paired request other (.error e) events (.error e) events
  | answered (adaptation : Adaptation) (reply : Reply) (before after : List Event) :
      Paired request other
        ((reply.verdict (request adaptation).name).map fun _ => reply)
        (before ++ .submitted (request adaptation) reply :: after)
        ((reply.verdict (other adaptation).name).map fun _ => reply)
        (before ++ .submitted (other adaptation) reply :: after)

section

variable {peers : Peers σ} {link after after' : Link σ} {region : Descriptor}
  {request other : Adaptation → Request} {result result' : Except Error Reply}
  {events events' : List Event}

theorem Paired.prepend (h : Paired request other result events result' events')
    (opening : List Event) :
    Paired request other result (opening ++ events) result' (opening ++ events') := by
  cases h with
  | stopped => exact .stopped
  | answered =>
    simp only [← List.append_assoc]
    exact .answered ..

theorem Carried.paired (h : Carried peers link (.adapted region request) ⟨result, events, after⟩)
    (h' : Carried peers link (.adapted region other) ⟨result', events', after'⟩)
    (hr : SameReplies events events') :
    Paired request other result events result' events' ∧ after.cache = after'.cache := by
  cases h with
  | unadapted ha =>
    cases h' with
    | unadapted ha' =>
      obtain ⟨he, -⟩ := Prod.mk.inj (ha.symm.trans ha')
      cases he
      exact ⟨.stopped, rfl⟩
    | adapted ha' => cases ha.symm.trans ha'
  | @adapted _ _ adaptation reply _ _ ha hs =>
    cases h' with
    | unadapted ha' => cases ha.symm.trans ha'
    | adapted ha' hs' =>
      obtain ⟨he, -⟩ := Prod.mk.inj (ha.symm.trans ha')
      cases he
      obtain rfl := hr _ _ _ _ (.tail _ (.head _)) (.tail _ (.head _))
      exact ⟨.answered adaptation reply [_] [_], rfl⟩

theorem Connects.unique {opened opened' : Answered σ (Except Error Unit)}
    (h : Connects peers link opened) (h' : Connects peers link opened') : opened = opened' :=
  h.eq_connect.trans h'.eq_connect.symm

/-- The vendor and the opener are asked the same, so all goes the same way for both. -/
theorem Delivered.paired
    (h : Delivered peers link (.ok (.ok (.adapted region request))) ⟨result, events, after⟩)
    (h' : Delivered peers link (.ok (.ok (.adapted region other))) ⟨result', events', after'⟩)
    (hr : SameReplies events events') :
    Paired request other result events result' events' ∧ after.cache = after'.cache := by
  cases h with
  | unreached hc =>
    cases h' with
    | unreached hc' =>
      cases hc.unique hc'
      exact ⟨.stopped, rfl⟩
    | carried hc' => cases hc.unique hc'
  | carried hc hd =>
    cases h' with
    | unreached hc' => cases hc.unique hc'
    | carried hc' hd' =>
      cases hc.unique hc'
      have hn : SameReplies _ _ := fun request reply other answer hs hs' =>
        hr request reply other answer (List.mem_append_right _ hs) (List.mem_append_right _ hs')
      obtain ⟨hp, hk⟩ := hd.paired hd' hn
      exact ⟨hp.prepend _, hk⟩

end

theorem Event.matches_refl (events : List Event) : List.Forall₂ Event.Matches events events :=
  List.forall₂_same.mpr fun event _ => .same event

section

variable {sizes : List UInt64} {pid : Int32} {va length : UInt64} {flags : ExportFlags}
  {region : Descriptor} {payloadLength : UInt16} {result result' : Except Error Reply}
  {events events' : List Event}

theorem Paired.matches
    (h : Paired
      (fun adaptation =>
        .exportPages (Operation.pagesCommand sizes flags region payloadLength adaptation))
      (fun adaptation =>
        .exportRange (Operation.rangeCommand pid va length flags region payloadLength adaptation))
      result events result' events')
    (give : Reply → Outcome) :
    Outcome.Matches (result.map give) (result'.map give) ∧
      List.Forall₂ Event.Matches events events' ∧ result.toOption = result'.toOption := by
  cases h with
  | stopped => exact ⟨.same _, Event.matches_refl _, rfl⟩
  | answered adaptation reply before after =>
    have he : Event.Matches
        (.submitted (.exportPages
          (Operation.pagesCommand sizes flags region payloadLength adaptation)) reply)
        (.submitted (.exportRange
          (Operation.rangeCommand pid va length flags region payloadLength adaptation)) reply) :=
      .submitted (Operation.terms_pagesCommand ..)
    have hf := List.rel_append (Event.matches_refl before)
      (List.Forall₂.cons he (Event.matches_refl after))
    unfold Reply.verdict
    cases reply.refusal with
    | none => exact ⟨.same _, hf, rfl⟩
    | some source => exact ⟨.refused source, hf, rfl⟩

end

theorem Call.conclude_exportRange {sizes : List UInt64} {length : UInt64}
    (h : Operation.checkSizes sizes = .ok length) (on : String) (pid : Int32) (va : UInt64)
    (flags : ExportFlags) (registers : Registers) (reply : Reply) :
    (Call.exportRange on pid va length flags).conclude registers reply =
      (Call.exportPages on sizes flags).conclude registers reply := by
  have hl : UInt64.ofNat (Operation.sizeSum sizes) = length := by
    rw [← ((Operation.checkSizes_eq_ok_iff ..).mp h).2, UInt64.ofNat_toNat]
  simp only [conclude, hl]

namespace Session

/-- An export of pages and one of a range of as many bytes go the same way, if the driver answers
both alike: the same is asked of opener, vendor and driver, and the same comes of it. -/
theorem exports_agree (peers : Peers σ) (session : Session σ) (on : String)
    (sizes : List UInt64) (pid : Int32) (va length : UInt64) (flags : ExportFlags)
    (hl : sizes.length ≤ maxLocalNodes) (ht : length.toNat = Operation.sizeSum sizes)
    (hr : SameReplies (session.perform peers (.exportPages on sizes flags)).value.events
      (session.perform peers (.exportRange on pid va length flags)).value.events) :
    let pages := (session.perform peers (.exportPages on sizes flags)).value
    let range := (session.perform peers (.exportRange on pid va length flags)).value
    Outcome.Matches pages.result range.result ∧
      List.Forall₂ Event.Matches pages.events range.events ∧
      pages.session.registers = range.session.registers ∧
      pages.session.link.cache = range.session.link.cache := by
  intro pages range
  have hc := session.perform_course peers (.exportPages on sizes flags)
  have hc' := session.perform_course peers (.exportRange on pid va length flags)
  have hs : Operation.checkSizes sizes = .ok length :=
    (Operation.checkSizes_eq_ok_iff ..).mpr ⟨hl, ht⟩
  cases hp : (session.registers.regions on).payloadLength with
  | error e =>
    have hm : pages = ⟨.error e, [], session⟩ := by
      refine hc.eq_of_misused ?_
      simp only [Call.prepare, hs, hp]
      rfl
    have hm' : range = ⟨.error e, [], session⟩ := by
      refine hc'.eq_of_misused ?_
      simp only [Call.prepare, hp]
      rfl
    rw [hm, hm']
    exact ⟨.same _, .nil, rfl, rfl⟩
  | ok payloadLength =>
    obtain ⟨result, hd, ho, hn⟩ := hc.of_prepare (Call.Prepares.exportPages hs hp).prepare
    obtain ⟨result', hd', ho', hn'⟩ := hc'.of_prepare (Call.Prepares.exportRange hp).prepare
    simp only [Call.conclude_exportRange hs] at ho' hn'
    obtain ⟨hm, hk⟩ := hd.paired hd' hr
    obtain ⟨hm, he, hv⟩ := hm.matches fun reply =>
      ((Call.exportPages on sizes flags).conclude session.registers reply).1
    refine ⟨?_, he, ?_, hk⟩
    · rw [ho, ho']
      exact hm
    · rw [hn, hn']
      cases result <;> cases result' <;> cases hv <;> rfl

/-- Over a driver that exports at 4096 under the memory id 7, whatever it is asked. -/
theorem exports_agree_obliging :
    let session : Session Unit :=
      ⟨{ regions := fun _ => { deid := Eid.ofNat 5, payload := [1, 2, 255] } }, ⟨{}, ()⟩⟩
    let pages := (session.perform obliging (.exportPages "region" [4096, 8192] ⟨1⟩)).value
    let range := (session.perform obliging (.exportRange "region" 42 65536 12288 ⟨1⟩)).value
    pages.result = .ok (.exported 7) ∧ SameReplies pages.events range.events ∧
      Outcome.Matches pages.result range.result ∧
      List.Forall₂ Event.Matches pages.events range.events ∧
      pages.session.registers = range.session.registers ∧
      pages.session.link.cache = range.session.link.cache := by
  intro session pages range
  have hr : SameReplies pages.events range.events := by
    intro request reply other answer hs hs'
    obtain ⟨_, rfl⟩ := (session.perform_course obliging _).answered hs
    obtain ⟨_, rfl⟩ := (session.perform_course obliging _).answered hs'
    rfl
  exact ⟨rfl, hr, exports_agree obliging session "region" [4096, 8192] 42 65536 12288 ⟨1⟩
    (by decide) (by decide) hr⟩

end Session

end FabricMemory
