import DurableActors.Ports.Mailbox

/-!
# Requests run one at a time unless they admit others

The channel `admission` does not say who has signalled.  That the mailbox may
still rely on it follows from an invariant that links three things: every
running request except `blocked_on` has granted admission; the driver lets a
message grant only once, so only `blocked_on` can still do so; and `start` has
seen all earlier versions of the channel before it sets `blocked_on`.  What is
unseen while the mailbox is blocked is then the grant of `blocked_on`.
-/

namespace DurableActors.Ports.Mailbox

open Verified
open Verified.Transition (Ensures)
open HostRequest (Recovery Finished recoveryOf)

variable {messageId : Nat} {p : PendingCommand} {r : Running} {w w' : World}

/-! ## Reading the log -/

/-- A request that was started and has not completed. -/
def Outstanding (log : List Event) (id : Nat) : Prop :=
  (∃ hydration, .started id hydration ∈ log) ∧ .completed id ∉ log

/-- A request that has granted admission after it was started. -/
def GrantedSince (log : List Event) (id : Nat) : Prop :=
  ∃ later earlier hydration, log = later ++ .granted (.request id) :: earlier ∧
    .started id hydration ∈ earlier

/-- What the log before an entry has to say: when a request is started, all
others that run have granted admission; when the mailbox goes on past a
request, it does so for one signal, which is from this request, and the
request still runs and is no hydration. -/
def Proper (earlier : List Event) : Event → Prop
  | .started _ _ => ∀ other, Outstanding earlier other → GrantedSince earlier other
  | .admitted id signals =>
    signals = [.request id] ∧ Outstanding earlier id ∧ GrantedSince earlier id ∧
      .started id false ∈ earlier
  | _ => True

/-- Every entry is proper after those before it. -/
def ProperLog (log : List Event) : Prop :=
  ∀ later event earlier, log = later ++ event :: earlier → Proper earlier event

theorem ProperLog.cons {log : List Event} {event : Event} (hlog : ProperLog log)
    (h : Proper log event) : ProperLog (event :: log) := by
  intro later event' earlier heq
  cases later with
  | nil =>
    obtain ⟨rfl, rfl⟩ := List.cons.inj heq
    exact h
  | cons first later => exact hlog later event' earlier (List.cons.inj heq).2

theorem GrantedSince.cons {log : List Event} {id : Nat} (h : GrantedSince log id)
    (event : Event) : GrantedSince (event :: log) id := by
  obtain ⟨later, earlier, hydration, rfl, hmem⟩ := h
  exact ⟨event :: later, earlier, hydration, rfl, hmem⟩

theorem grantedSince_granted {log : List Event} {id : Nat} {hydration : Bool}
    (h : .started id hydration ∈ log) : GrantedSince (.granted (.request id) :: log) id :=
  ⟨[], log, hydration, rfl, h⟩

/-- Entries that are no start and no completion leave the outstanding requests
as they are. -/
theorem Outstanding.of_cons {log : List Event} {event : Event} {id : Nat}
    (h : Outstanding (event :: log) id) (hstart : ∀ hydration, event ≠ .started id hydration) :
    Outstanding log id := by
  obtain ⟨⟨hydration, hmem⟩, hnot⟩ := h
  refine ⟨⟨hydration, ?_⟩, fun hc => hnot (List.mem_cons_of_mem _ hc)⟩
  exact (List.mem_cons.mp hmem).resolve_left fun heq => hstart hydration heq.symm

/-- The request an entry is about. -/
def Event.id : Event → Nat
  | .started id _ => id
  | .granted (.request id) => id
  | .granted .mailbox => 0
  | .completed id => id
  | .admitted id _ => id

/-! ## The commands the driver has and will have -/

/-- The request that waits for the command. -/
def PendingCommand.requestId (p : PendingCommand) : Option Nat :=
  match p.waiter with
  | .request id => some id
  | .mailbox => none

def ExecutorRequest.pendingCommand : ExecutorRequest → Option PendingCommand
  | .exchange pending => some pending
  | .ready => none

/-- The commands that the driver waits for, and those still in the channel. -/
def entries (d : Driver) (commands : List ExecutorRequest) : List PendingCommand :=
  d.pending.map Prod.snd ++ commands.filterMap ExecutorRequest.pendingCommand

theorem requestId_eq_some {id : Nat} : p.requestId = some id ↔ p.waiter = .request id := by
  obtain ⟨command, waiter, granted⟩ := p
  cases waiter <;> simp [PendingCommand.requestId]

/-- A command found under a message id, and what is around it. -/
theorem Driver.find_split {d : Driver} (h : d.find messageId = some p) :
    ∃ before after, d.pending = before ++ (messageId, p) :: after := by
  unfold Driver.find at h
  obtain ⟨⟨key, found⟩, hfind, rfl⟩ := Option.map_eq_some_iff.mp h
  obtain ⟨hkey, before, after, hsplit, -⟩ := List.find?_eq_some_iff_append.mp hfind
  obtain rfl : key = messageId := of_decide_eq_true hkey
  exact ⟨before, after, hsplit⟩

/-! ## The invariant -/

/-- Whoever waits for a command: a running request whose grant, if any, is
recorded in the command, or the mailbox, which does not invoke. -/
def PendingCommand.Backed (running : List Running) (log : List Event) (p : PendingCommand) :
    Prop :=
  match p.waiter with
  | .mailbox => p.command.invocation = false
  | .request id =>
    (∃ r ∈ running, r.id = id ∧ r.progress = .waiting ∧ p.command = r.operation.command) ∧
      (.granted (.request id) ∈ log → p.admissionGranted = true)

/-- A command stays backed while its request waits and nobody grants. -/
theorem PendingCommand.Backed.mono {running running' : List Running}
    {log log' : List Event} (h : p.Backed running log)
    (hrunning : ∀ r ∈ running, p.waiter = .request r.id → r.progress = .waiting → r ∈ running')
    (hlog : ∀ id, .granted (.request id) ∈ log' → .granted (.request id) ∈ log) :
    p.Backed running' log' := by
  obtain ⟨command, waiter, granted⟩ := p
  cases waiter with
  | mailbox => exact h
  | request id =>
    obtain ⟨⟨r, hr, rfl, hwait, hcommand⟩, hgranted⟩ := h
    exact ⟨⟨r, hrunning r hr rfl hwait, rfl, hwait, hcommand⟩, fun hmem => hgranted (hlog _ hmem)⟩

/-- The request the mailbox is blocked on runs, except at the end of
`executed`; nothing is unseen in `start`. -/
def Actor.PhaseInv (m : Actor) (unseen : List Waiter) : Phase → Prop
  | .starting _ => m.blockedOn = none ∧ unseen = []
  | .evicting _ (.settle id) =>
    id ∉ m.running.map Running.id ∧
      ∀ b, m.blockedOn = some b → b ≠ id → b ∈ m.running.map Running.id
  | .evicting _ .stop => True
  | .stopped => True
  | _ => ∀ b, m.blockedOn = some b → b ∈ m.running.map Running.id

/-- The invariant of the mailbox while it runs. -/
structure Core (m : Actor) (entries : List PendingCommand) (admission : Watch Waiter)
    (log : List Event) : Prop where
  fresh : ∀ event ∈ log, event.id ≤ m.nextInvocation
  grants : ∀ id, .granted (.request id) ∈ log → GrantedSince log id ∧ .started id false ∈ log
  nodup : (m.running.map Running.id).Nodup
  listed : ∀ id, Outstanding log id → id ∈ m.running.map Running.id
  running : ∀ r ∈ m.running,
    .started r.id (decide (r.operation = .activate)) ∈ log ∧ .completed r.id ∉ log
  /-- every running request except `blocked_on` has granted admission -/
  free : ∀ r ∈ m.running, m.blockedOn = some r.id ∨ .granted (.request r.id) ∈ log
  preparing : ∀ r ∈ m.running, r.progress = .preparing → .granted (.request r.id) ∉ log
  backed : ∀ p ∈ entries, p.Backed m.running log
  unique : (entries.filterMap PendingCommand.requestId).Nodup
  sent : ∀ waiter, waiter ∈ admission.sent → .granted waiter ∈ log
  once : admission.sent.Nodup
  /-- only the request the mailbox is blocked on has signalled since -/
  unseen : ∀ b, m.blockedOn = some b → ∀ waiter ∈ admission.unseen, waiter = .request b
  phase : m.PhaseInv admission.unseen m.phase

/-- Once the mailbox has stopped, only the log matters. -/
def World.Inv (w : World) : Prop :=
  ProperLog w.log ∧
    (w.actor.phase = .stopped ∨ Core w.actor (entries w.driver w.commands) w.admission w.log)

variable {m : Actor} {es es' : List PendingCommand} {admission : Watch Waiter}
  {log : List Event}

section

variable (hcore : Core m es admission log)
include hcore

/-- Ids are those of one request. -/
theorem Core.eq_of_id {r' : Running} (hr : r ∈ m.running) (hr' : r' ∈ m.running)
    (h : r.id = r'.id) : r = r' :=
  List.inj_on_of_nodup_map hcore.nodup hr hr' h

omit hcore in
/-- No other command belongs to the request of a command. -/
theorem Core.others {before after : List PendingCommand}
    (hcore : Core m (before ++ p :: after) admission log) {id : Nat}
    (hp : p.waiter = .request id) : ∀ q ∈ before ++ after, q.waiter ≠ .request id := by
  intro q hq hqid
  have hunique := hcore.unique
  rw [List.filterMap_append, List.filterMap_cons_some (requestId_eq_some.mpr hp)] at hunique
  have hmem : id ∈ (before ++ after).filterMap PendingCommand.requestId :=
    List.mem_filterMap.mpr ⟨q, hq, requestId_eq_some.mpr hqid⟩
  rw [List.filterMap_append] at hmem
  exact (List.nodup_middle.mp hunique).notMem hmem

/-- An entry that is no start and completes none of the running requests. -/
theorem Core.running_cons {event : Event} (hevent : ∀ id, event ≠ .completed id) : ∀ r ∈ m.running,
    .started r.id (decide (r.operation = .activate)) ∈ event :: log ∧
      .completed r.id ∉ event :: log := by
  intro r hr
  obtain ⟨hstart, hopen⟩ := hcore.running r hr
  refine ⟨List.mem_cons_of_mem _ hstart, fun hmem => ?_⟩
  exact (List.mem_cons.mp hmem).elim (fun heq => hevent r.id heq.symm) hopen

/-- An entry that is no grant. -/
theorem Core.grants_cons {event : Event} (hevent : ∀ waiter, event ≠ .granted waiter) :
    ∀ id, .granted (.request id) ∈ event :: log →
      GrantedSince (event :: log) id ∧ .started id false ∈ event :: log := by
  intro id hmem
  have hold := (List.mem_cons.mp hmem).resolve_left fun heq => hevent _ heq.symm
  obtain ⟨hsince, hstarted⟩ := hcore.grants id hold
  exact ⟨hsince.cons _, List.mem_cons_of_mem _ hstarted⟩

/-! ## Steps of the driver -/

theorem Core.sublist (hsub : es'.Sublist es) : Core m es' admission log :=
  { hcore with
    backed := fun p hp => hcore.backed p (hsub.subset hp)
    unique := hcore.unique.sublist (hsub.filterMap _) }

/-- Requests make progress and commands disappear; a request whose command
stays keeps waiting. -/
theorem Core.mapRunning {f : Running → Running}
    (hf : ∀ r, (f r).id = r.id ∧ (f r).operation = r.operation ∧
      ((f r).progress = .preparing → r.progress = .preparing))
    (hsub : es'.Sublist es)
    (hkeep : ∀ p ∈ es', ∀ r ∈ m.running,
      p.waiter = .request r.id → r.progress = .waiting → f r = r) :
    Core { m with running := m.running.map f } es' admission log := by
  have hids : (m.running.map f).map Running.id = m.running.map Running.id := by
    rw [List.map_map]
    exact List.map_congr_left fun r _ => (hf r).1
  refine { hcore.sublist hsub with
    nodup := hids ▸ hcore.nodup
    listed := hids ▸ hcore.listed
    running := List.forall_mem_map.mpr fun r hr => ?_
    free := List.forall_mem_map.mpr fun r hr => ?_
    preparing := List.forall_mem_map.mpr fun r hr hp => ?_
    backed := fun p hp => ?_
    phase := ?_ }
  · rw [(hf r).1, (hf r).2.1]
    exact hcore.running r hr
  · rw [(hf r).1]
    exact hcore.free r hr
  · rw [(hf r).1]
    exact hcore.preparing r hr ((hf r).2.2 hp)
  · refine (hcore.backed p (hsub.subset hp)).mono (fun r hr hw hwait => ?_) fun _ h => h
    exact List.mem_map.mpr ⟨r, hr, hkeep p hp r hr hw hwait⟩
  · have hphase := hcore.phase
    unfold Actor.PhaseInv at hphase ⊢
    rw [hids]
    exact hphase

omit hcore in
theorem Running.answer_keeps (r : Running) :
    r.answer.id = r.id ∧ r.answer.operation = r.operation ∧
      (r.answer.progress = .preparing → r.progress = .preparing) := by
  fun_cases Running.answer r with
  | case1 => exact ⟨rfl, rfl, nofun⟩
  | case2 => exact ⟨rfl, rfl, fun h => h⟩

/-- Answers for requests without a command that stays. -/
theorem Core.answerWhere (p : Nat → Bool) (hsub : es'.Sublist es)
    (hkeep : ∀ q ∈ es', ∀ id, q.waiter = .request id → p id = false) :
    Core (m.answerWhere p) es' admission log := by
  refine hcore.mapRunning (fun r => ?_) hsub fun q hq r _ hw _ => ?_
  · split
    · exact r.answer_keeps
    · exact ⟨rfl, rfl, fun h => h⟩
  · rw [if_neg]
    rw [hkeep q hq r.id hw]
    simp

theorem Core.answerEvict : Core m.answerEvict es admission log := by
  fun_cases Actor.answerEvict m with
  | case1 answered next hphase =>
    have h : m.PhaseInv admission.unseen (.evicting _ next) := hphase ▸ hcore.phase
    refine { hcore with phase := ?_ }
    cases next with
    | stop => trivial
    | settle id => exact h
  | case2 => exact hcore

omit hcore in
/-- The driver hands the reply to a command on. -/
theorem Core.answer {before after : List PendingCommand}
    (hcore : Core m (before ++ p :: after) admission log)
    (hsub : es'.Sublist (before ++ after)) : Core (m.answer p.waiter) es' admission log := by
  have hsub' : es'.Sublist (before ++ p :: after) :=
    hsub.trans ((List.sublist_cons_self p after).append_left before)
  cases hw : p.waiter with
  | mailbox => exact (hcore.sublist hsub').answerEvict
  | request id =>
    refine hcore.answerWhere (fun other => decide (other = id)) hsub' fun q hq other hother => ?_
    apply decide_eq_false
    rintro rfl
    exact hcore.others hw q (hsub.subset hq) hother

/-- The driver ends. -/
theorem Core.stopDriver : Core (m.answerWhere fun _ => true).answerEvict [] admission log :=
  (hcore.answerWhere _ (List.nil_sublist es) (by simp)).answerEvict

/-- **A grant** comes from the request the mailbox is blocked on. -/
theorem Core.blocked_of_ungranted (hp : p ∈ es) (hinvocation : p.command.invocation = true)
    (hgranted : p.admissionGranted = false) :
    ∃ id, p.waiter = .request id ∧ m.blockedOn = some id ∧ .started id false ∈ log ∧
      .granted (.request id) ∉ log ∧ ∀ r ∈ m.running, r.id = id → r.progress = .waiting := by
  have hbacked := hcore.backed p hp
  obtain ⟨command, waiter, granted⟩ := p
  cases waiter with
  | mailbox => cases hinvocation.symm.trans hbacked
  | request id =>
    obtain ⟨⟨r, hr, rfl, hwait, hcommand⟩, hlogged⟩ := hbacked
    have hnot : .granted (.request r.id) ∉ log := fun hmem =>
      nomatch hgranted.symm.trans (hlogged hmem)
    have hop : r.operation ≠ .activate := by
      intro hactivate
      rw [hcommand, hactivate] at hinvocation
      cases hinvocation
    have hstarted := (hcore.running r hr).1
    rw [decide_eq_false hop] at hstarted
    refine ⟨r.id, rfl, (hcore.free r hr).resolve_right hnot, hstarted, hnot, fun r' hr' hid => ?_⟩
    rw [hcore.eq_of_id hr' hr hid]
    exact hwait

omit hcore in
theorem grantAt_waiter (messageId : Nat) (entry : Nat × PendingCommand) :
    (grantAt messageId entry).2.waiter = entry.2.waiter := by
  unfold grantAt
  split <;> rfl

omit hcore in
/-- A command stays backed when `id` grants, if its own grant is recorded. -/
theorem PendingCommand.Backed.granted {running : List Running} {granted : Bool} {id : Nat}
    (h : p.Backed running log) (hkeep : p.admissionGranted = true → granted = true)
    (hid : p.waiter = .request id → granted = true) :
    { p with admissionGranted := granted }.Backed running (.granted (.request id) :: log) := by
  obtain ⟨command, waiter, _⟩ := p
  cases waiter with
  | mailbox => exact h
  | request other =>
    refine ⟨h.1, fun hmem => ?_⟩
    rcases List.mem_cons.mp hmem with heq | hmem
    · injection heq with heq
      exact hid heq
    · exact hkeep (h.2 hmem)

/-- The grant is of a request that has started. -/
theorem Core.grants_granted {id : Nat} (hstarted : .started id false ∈ log) :
    ∀ other, .granted (.request other) ∈ .granted (.request id) :: log →
      GrantedSince (.granted (.request id) :: log) other ∧
        .started other false ∈ .granted (.request id) :: log := by
  intro other hmem
  rcases List.mem_cons.mp hmem with heq | hmem
  · injection heq with heq
    injection heq with heq
    rw [heq]
    exact ⟨grantedSince_granted hstarted, List.mem_cons_of_mem _ hstarted⟩
  · obtain ⟨hsince, hstart⟩ := hcore.grants other hmem
    exact ⟨hsince.cons _, List.mem_cons_of_mem _ hstart⟩

omit hcore in
theorem requestIds_grantAt (messageId : Nat) (pending : List (Nat × PendingCommand))
    (rest : List PendingCommand) :
    ((pending.map (grantAt messageId)).map Prod.snd ++ rest).filterMap PendingCommand.requestId =
      (pending.map Prod.snd ++ rest).filterMap PendingCommand.requestId := by
  rw [List.filterMap_append, List.filterMap_append, List.map_map, List.filterMap_map,
    List.filterMap_map]
  congr 1
  refine List.filterMap_congr fun entry _ => ?_
  simp only [Function.comp, PendingCommand.requestId, grantAt_waiter]

omit hcore in
/-- The grant is the one of the command that was found; the commands of other messages
belong to others. -/
theorem Core.backed_grantAt {id : Nat} {pending before after : List (Nat × PendingCommand)}
    {rest : List PendingCommand} (hcore : Core m (pending.map Prod.snd ++ rest) admission log)
    (hsplit : pending = before ++ (messageId, p) :: after) (hw : p.waiter = .request id) :
    ∀ q ∈ (pending.map (grantAt messageId)).map Prod.snd ++ rest,
      q.Backed m.running (.granted (.request id) :: log) := by
  have hothers : ∀ q ∈ before.map Prod.snd ++ (after.map Prod.snd ++ rest),
      q.waiter ≠ .request id := by
    have hcore' : Core m (before.map Prod.snd ++ p :: (after.map Prod.snd ++ rest))
        admission log := by
      simpa [hsplit] using hcore
    exact hcore'.others hw
  intro q hq
  rcases List.mem_append.mp hq with hq | hq
  · rw [List.map_map] at hq
    obtain ⟨entry, hentry, rfl⟩ := List.mem_map.mp hq
    have hbacked := hcore.backed entry.2
      (List.mem_append_left _ (List.mem_map_of_mem hentry))
    show ((grantAt messageId entry).2).Backed _ _
    fun_cases grantAt messageId entry with
    | case1 => exact hbacked.granted (fun _ => rfl) fun _ => rfl
    | case2 hne =>
      refine hbacked.granted (fun h => h) fun hid => absurd hid (hothers _ ?_)
      rw [hsplit] at hentry
      rcases List.mem_append.mp hentry with hmem | hmem
      · simp [List.mem_map_of_mem hmem]
      · rcases List.mem_cons.mp hmem with rfl | hmem
        · exact absurd rfl hne
        · simp [List.mem_map_of_mem hmem]
  · refine (hcore.backed q (List.mem_append_right _ hq)).granted (fun h => h) fun hid => ?_
    exact absurd hid (hothers q (by simp [hq]))

omit hcore in
/-- `allow_next_invocation`. -/
theorem Core.grant {pending before after : List (Nat × PendingCommand)}
    {rest : List PendingCommand} (hcore : Core m (pending.map Prod.snd ++ rest) admission log)
    (hsplit : pending = before ++ (messageId, p) :: after)
    (hinvocation : p.command.invocation = true) (hgranted : p.admissionGranted = false) :
    Core m ((pending.map (grantAt messageId)).map Prod.snd ++ rest)
      (admission.send p.waiter) (.granted p.waiter :: log) := by
  have hp : p ∈ pending.map Prod.snd ++ rest := by simp [hsplit]
  obtain ⟨id, hw, hblocked, hstarted, hnot, hwaiting⟩ :=
    hcore.blocked_of_ungranted hp hinvocation hgranted
  rw [hw]
  constructor
  case fresh =>
    exact List.forall_mem_cons.mpr ⟨hcore.fresh (.started id false) hstarted, hcore.fresh⟩
  case grants => exact hcore.grants_granted hstarted
  case nodup => exact hcore.nodup
  case listed => exact fun other h => hcore.listed other (h.of_cons (by simp))
  case running => exact hcore.running_cons nofun
  case free => exact fun r hr => (hcore.free r hr).imp_right (List.mem_cons_of_mem _)
  case preparing =>
    intro r hr hprep hmem
    rcases List.mem_cons.mp hmem with heq | hmem
    · injection heq with heq
      injection heq with heq
      rw [hwaiting r hr heq] at hprep
      cases hprep
    · exact hcore.preparing r hr hprep hmem
  case backed => exact hcore.backed_grantAt hsplit hw
  case unique => exact requestIds_grantAt messageId pending rest ▸ hcore.unique
  case sent =>
    intro waiter hmem
    rcases List.mem_append.mp hmem with hmem | hmem
    · exact List.mem_cons_of_mem _ (hcore.sent waiter hmem)
    · rw [List.mem_singleton.mp hmem]
      exact List.mem_cons_self
  case once =>
    rw [Watch.sent_send]
    refine List.nodup_append.mpr ⟨hcore.once, List.nodup_singleton _, ?_⟩
    intro waiter hmem other hother heq
    obtain rfl := List.mem_singleton.mp hother
    exact hnot (heq ▸ hcore.sent waiter hmem)
  case unseen =>
    intro b hb waiter hmem
    rw [Watch.unseen_send] at hmem
    rcases List.mem_append.mp hmem with hmem | hmem
    · exact hcore.unseen b hb waiter hmem
    · rw [hblocked] at hb
      rw [List.mem_singleton.mp hmem, Option.some.inj hb]
  case phase =>
    have hphase := hcore.phase
    generalize m.phase = phase at hphase ⊢
    cases phase with
    | starting request => cases hblocked.symm.trans hphase.1
    | evicting answered next => cases next <;> exact hphase
    | _ => exact hphase

omit hcore in
/-- What the driver can do to the commands it waits for. -/
inductive Driver.Did (d d' : Driver) : Signal → Prop
  | quiet (h : d'.pending = d.pending) : Driver.Did d d' .quiet
  | granted {messageId : Nat} {p : PendingCommand} (hfind : d.find messageId = some p)
      (hinvocation : p.command.invocation = true) (hgranted : p.admissionGranted = false)
      (h : d'.pending = d.pending.map (grantAt messageId)) : Driver.Did d d' (.granted p.waiter)
  | answered {messageId : Nat} {p : PendingCommand} (hfind : d.find messageId = some p)
      (h : d'.pending = d.pending.filter fun entry => entry.1 ≠ messageId) :
      Driver.Did d d' (.answered p.waiter)

omit hcore in
/-- What the driver does when it makes a step. -/
def Driver.Acts (d : Driver) : Option (Driver × Signal) → Prop :=
  Ensures fun after => Driver.Did d after.1 after.2

omit hcore in
/-- A step that only returns a driver. -/
theorem Driver.acts_map {d : Driver} {result : Option Driver}
    (h : Ensures (fun after => after.pending = d.pending) result) :
    d.Acts (result.map (·, Signal.quiet)) := by
  cases result with
  | none => trivial
  | some after => exact .quiet h

omit hcore in
theorem Driver.receive_acts (d : Driver) (message : ClientMessage) :
    d.Acts (d.receive message) := by
  cases message with
  | residency | actorCall | log => exact .quiet rfl
  | readyForInvocation id =>
    show d.Acts (d.allowNextInvocation id)
    fun_cases Driver.allowNextInvocation d id with
    | case4 p hfind hinvocation hgranted =>
      exact .granted hfind (Bool.of_not_eq_false hinvocation)
        (Bool.of_not_eq_true hgranted) rfl
    | _ => trivial
  | reply id =>
    show d.Acts (d.deliver id)
    fun_cases Driver.deliver d id with
    | case4 _ _ p hfind => exact .answered hfind rfl
    | _ => trivial
  | socketEffects id =>
    refine acts_map ?_
    fun_cases Driver.publish d id with
    | case1 => rfl
    | case2 => trivial
  | databaseCall id =>
    refine acts_map ?_
    fun_cases Driver.callDatabase d id with
    | case2 => trivial
    | _ => rfl
  | getConnections id =>
    refine acts_map ?_
    fun_cases Driver.loadConnections d id with
    | case4 => rfl
    | _ => trivial
  | warm | attach => trivial

omit hcore in
theorem Actor.answerEvict_stopped (h : m.phase = .stopped) : m.answerEvict.phase = .stopped := by
  unfold Actor.answerEvict
  rw [h]
  exact h

omit hcore in
theorem Actor.answer_stopped (h : m.phase = .stopped) (waiter : Waiter) :
    (m.answer waiter).phase = .stopped := by
  cases waiter with
  | request id => exact h
  | mailbox => exact Actor.answerEvict_stopped h

omit hcore in
theorem World.Inv.stopDriver (hinv : w.Inv) : w.stopDriver.Inv := by
  refine ⟨hinv.1, ?_⟩
  rcases hinv.2 with hstopped | hcore
  · exact .inl (Actor.answerEvict_stopped hstopped)
  · exact .inr hcore.stopDriver

omit hcore in
/-- **A step of the driver** on a message or a finished task. -/
theorem World.Inv.signal (hinv : w.Inv) {d : Driver} {signal : Signal}
    (hdid : Driver.Did w.driver d signal) : (w.signal d signal).Inv := by
  obtain ⟨hlog, hcore⟩ := hinv
  cases hdid with
  | quiet h =>
    refine ⟨hlog, hcore.imp_right fun hcore => ?_⟩
    show Core w.actor (entries d w.commands) w.admission w.log
    rw [entries, h]
    exact hcore
  | granted hfind hinvocation hgranted h =>
    refine ⟨hlog.cons trivial, hcore.imp_right fun hcore => ?_⟩
    obtain ⟨before, after, hsplit⟩ := Driver.find_split hfind
    have hgrant := Core.grant hcore hsplit hinvocation hgranted
    rw [← h] at hgrant
    exact hgrant
  | answered hfind h =>
    rename_i messageId p
    refine ⟨hlog, ?_⟩
    rcases hcore with hstopped | hcore
    · exact .inl (Actor.answer_stopped hstopped _)
    · right
      obtain ⟨before, after, hsplit⟩ := Driver.find_split hfind
      rw [entries, hsplit, List.map_append, List.append_assoc] at hcore
      refine .answer hcore ?_
      show (entries d w.commands).Sublist _
      rw [entries, h, hsplit, List.filter_append, List.filter_cons_of_neg (by simp),
        List.map_append, List.append_assoc]
      exact (List.filter_sublist.map _).append
        ((List.filter_sublist.map _).append (List.Sublist.refl _))

omit hcore in
theorem World.Inv.drive (hinv : w.Inv) {result : Option (Driver × Signal)}
    (hacts : w.driver.Acts result) : (w.drive result).Inv := by
  cases result with
  | none => exact hinv.stopDriver
  | some after => exact hinv.signal hacts

omit hcore in
/-- **A command** leaves the channel: its entry moves to the driver, or is
answered with an error. -/
theorem World.Inv.command (hinv : w.Inv) {request : ExecutorRequest} {rest : List ExecutorRequest}
    (hcommands : w.commands = request :: rest) (encoded written : Bool) :
    ({ w with commands := rest }.drive (w.driver.handleCommand encoded written request)).Inv := by
  obtain ⟨hlog, hcore⟩ := hinv
  have hrest : World.Inv { w with commands := rest } := by
    refine ⟨hlog, hcore.imp_right fun hcore => hcore.sublist ?_⟩
    rw [entries, entries, hcommands]
    exact ((List.sublist_cons_self _ _).filterMap _).append_left _
  fun_cases Driver.handleCommand w.driver encoded written request with
  | case1 p =>
    have hentries : entries w.driver w.commands = w.driver.pending.map Prod.snd ++
        p :: rest.filterMap ExecutorRequest.pendingCommand := by
      rw [entries, hcommands]
      rfl
    rw [hentries] at hcore
    fun_cases Driver.enqueue w.driver p encoded written with
    | case1 =>
      refine ⟨hlog, hcore.imp_right fun hcore => hcore.sublist ?_⟩
      simp only [World.drive, World.signal, entries, List.map_append, List.append_assoc]
      exact (List.filter_sublist.map _).append (List.Sublist.refl _)
    | case3 =>
      refine ⟨hlog, hcore.imp (Actor.answer_stopped · _) fun hcore => ?_⟩
      exact hcore.answer (List.Sublist.refl _)
    | case2 | case4 => exact hrest.stopDriver
  | case2 => exact hrest.signal (.quiet rfl)
  | case3 => exact hrest.stopDriver

omit hcore in
/-- A step of the driver. -/
theorem World.Inv.stepDriver (hinv : w.Inv) (a : Action) :
    Ensures World.Inv (Mailbox.stepDriver w a) := by
  fun_cases Mailbox.stepDriver w a with
  | case1 message => exact hinv.drive (w.driver.receive_acts message)
  | case2 id written =>
    refine hinv.drive ?_
    fun_cases Driver.databaseCalled w.driver id written with
    | case1 => exact .quiet rfl
    | case2 => trivial
  | case4 id written =>
    refine hinv.drive ?_
    fun_cases Driver.connectionsLoaded w.driver id written with
    | case1 => exact .quiet rfl
    | case2 => trivial
  | case7 encoded written request rest hcommands => exact hinv.command hcommands _ _
  | case8 => exact hinv.stopDriver
  | case9 =>
    refine ⟨hinv.1, hinv.2.imp_right fun hcore => ?_⟩
    have hready : [ExecutorRequest.ready].filterMap ExecutorRequest.pendingCommand = [] := rfl
    simpa [entries, hready] using hcore
  | _ => trivial

/-! ## Steps of the mailbox -/

/-- Another command in the channel. -/
theorem Core.append (hbacked : p.Backed m.running log)
    (hnew : ∀ id, p.waiter = .request id → ∀ q ∈ es, q.waiter ≠ .request id) :
    Core m (es ++ [p]) admission log := by
  refine { hcore with backed := ?_, unique := ?_ }
  · intro q hq
    rcases List.mem_append.mp hq with hq | hq
    · exact hcore.backed q hq
    · rw [List.mem_singleton.mp hq]
      exact hbacked
  · rw [List.filterMap_append]
    cases hid : p.requestId with
    | none =>
      rw [List.filterMap_cons_none hid, List.filterMap_nil, List.append_nil]
      exact hcore.unique
    | some id =>
      rw [List.filterMap_cons_some hid, List.filterMap_nil]
      refine List.nodup_append.mpr ⟨hcore.unique, List.nodup_singleton _, ?_⟩
      intro other hmem id' hid' heq
      obtain rfl := List.mem_singleton.mp hid'
      obtain ⟨q, hq, hqid⟩ := List.mem_filterMap.mp hmem
      exact hnew _ (requestId_eq_some.mp hid) q hq (requestId_eq_some.mp (heq ▸ hqid))

omit hcore in
theorem entries_append (d : Driver) (commands : List ExecutorRequest) (p : PendingCommand) :
    entries d (commands ++ [.exchange p]) = entries d commands ++ [p] := by
  have hlast : [ExecutorRequest.exchange p].filterMap ExecutorRequest.pendingCommand = [p] := rfl
  rw [entries, entries, List.filterMap_append, hlast, List.append_assoc]

omit hcore in
/-- `evict`. -/
theorem World.inv_evict {next : AfterEvict} (hlog : ProperLog w.log)
    (hcore : Core { w.actor with phase := .evicting true next } (entries w.driver w.commands)
      w.admission w.log) : (w.evict next).Inv := by
  unfold World.evict
  split
  · refine ⟨hlog, .inr ?_⟩
    show Core _ (entries w.driver (w.commands ++ _)) w.admission w.log
    rw [entries_append]
    have hwaiting : Core { w.actor with phase := .evicting false next }
        (entries w.driver w.commands) w.admission w.log :=
      { hcore with phase := by cases next <;> exact hcore.phase }
    exact hwaiting.append rfl (by simp)
  · exact ⟨hlog, .inr hcore⟩

/-- `start` finds every running request to have granted admission. -/
theorem Core.start {request : Request} (hphase : m.phase = .starting request) :
    Proper log (.started (m.nextInvocation + 1) (decide (request.operation = .activate))) ∧
      Core (m.start request) es admission
        (.started (m.nextInvocation + 1) (decide (request.operation = .activate)) :: log) := by
  obtain ⟨hblocked, hunseen⟩ : m.PhaseInv admission.unseen (.starting request) :=
    hphase ▸ hcore.phase
  have hfree : ∀ r ∈ m.running, .granted (.request r.id) ∈ log :=
    fun r hr => (hcore.free r hr).resolve_left fun h => nomatch hblocked.symm.trans h
  have hnew : ∀ r ∈ m.running, r.id ≠ m.nextInvocation + 1 := by
    intro r hr heq
    have : r.id ≤ m.nextInvocation := hcore.fresh _ (hcore.running r hr).1
    omega
  refine ⟨fun other hother => ?_, ?_⟩
  · obtain ⟨r, hr, rfl⟩ := List.mem_map.mp (hcore.listed other hother)
    exact (hcore.grants _ (hfree r hr)).1
  constructor
  case fresh =>
    exact List.forall_mem_cons.mpr
      ⟨Nat.le_refl _, fun event hmem => Nat.le_succ_of_le (hcore.fresh event hmem)⟩
  case grants => exact hcore.grants_cons nofun
  case nodup =>
    show ((m.running ++ [_]).map Running.id).Nodup
    rw [List.map_append]
    refine List.nodup_append.mpr ⟨hcore.nodup, List.nodup_singleton _, ?_⟩
    intro id hmem id' hid' heq
    obtain ⟨r, hr, rfl⟩ := List.mem_map.mp hmem
    exact hnew r hr (heq.trans (List.mem_singleton.mp hid'))
  case listed =>
    intro id hid
    show id ∈ (m.running ++ [_]).map Running.id
    rw [List.map_append]
    by_cases heq : id = m.nextInvocation + 1
    · exact List.mem_append_right _ (by simp [heq])
    · refine List.mem_append_left _ (hcore.listed id (hid.of_cons fun hydration h => ?_))
      injection h with h
      exact heq h.symm
  case running =>
    intro r hr
    rcases List.mem_append.mp hr with hr | hr
    · exact hcore.running_cons (by simp) r hr
    · obtain rfl := List.mem_singleton.mp hr
      refine ⟨List.mem_cons_self, fun hmem => ?_⟩
      exact Nat.not_succ_le_self _ (hcore.fresh (.completed _) (by simpa using hmem))
  case free =>
    intro r hr
    rcases List.mem_append.mp hr with hr | hr
    · exact .inr (List.mem_cons_of_mem _ (hfree r hr))
    · exact .inl (by rw [List.mem_singleton.mp hr]; rfl)
  case preparing =>
    intro r hr hprep hmem
    have hmem : .granted (.request r.id) ∈ log := by simpa using hmem
    rcases List.mem_append.mp hr with hr | hr
    · exact hcore.preparing r hr hprep hmem
    · obtain rfl := List.mem_singleton.mp hr
      exact Nat.not_succ_le_self _ (hcore.fresh _ hmem)
  case backed =>
    intro p hp
    exact (hcore.backed p hp).mono (fun r hr _ _ => List.mem_append_left _ hr) (by simp)
  case unique => exact hcore.unique
  case sent => exact fun waiter hmem => List.mem_cons_of_mem _ (hcore.sent waiter hmem)
  case once => exact hcore.once
  case unseen => simp [hunseen]
  case phase =>
    intro b hb
    obtain rfl := Option.some.inj hb
    exact List.mem_map.mpr ⟨_, List.mem_append_right _ (List.mem_singleton_self _), rfl⟩

/-- A request that is not waiting for the executor ends. -/
theorem Core.take (hr : r ∈ m.running) (hwait : r.progress ≠ .waiting) (c : Finished)
    (hblocked : ∀ b, m.blockedOn = some b → b ∈ m.running.map Running.id) :
    Core { m.take r.id c with phase := .evicting true (.settle r.id) } es admission
      (.completed r.id :: log) := by
  have hmem : ∀ r' ∈ m.running, r'.id ≠ r.id →
      r' ∈ m.running.filter fun other => other.id ≠ r.id := by
    intro r' hr' hne
    exact List.mem_filter.mpr ⟨hr', decide_eq_true hne⟩
  have hids : ∀ b ∈ m.running.map Running.id, b ≠ r.id →
      b ∈ (m.running.filter fun other => other.id ≠ r.id).map Running.id := by
    intro b hb hne
    obtain ⟨r', hr', rfl⟩ := List.mem_map.mp hb
    exact List.mem_map_of_mem (hmem r' hr' hne)
  constructor
  case fresh =>
    exact List.forall_mem_cons.mpr
      ⟨hcore.fresh (.started r.id _) (hcore.running r hr).1, hcore.fresh⟩
  case grants => exact hcore.grants_cons nofun
  case nodup => exact hcore.nodup.sublist (List.filter_sublist.map _)
  case listed =>
    intro id hid
    refine hids id (hcore.listed id (hid.of_cons (by simp))) ?_
    rintro rfl
    exact hid.2 List.mem_cons_self
  case running =>
    intro r' hr'
    obtain ⟨hmem', hne⟩ := List.mem_filter.mp hr'
    obtain ⟨hstarted, hopen⟩ := hcore.running r' hmem'
    refine ⟨List.mem_cons_of_mem _ hstarted, fun h => ?_⟩
    rcases List.mem_cons.mp h with heq | h
    · injection heq with heq
      exact of_decide_eq_true hne heq
    · exact hopen h
  case free =>
    exact fun r' hr' =>
      (hcore.free r' (List.mem_filter.mp hr').1).imp_right (List.mem_cons_of_mem _)
  case preparing =>
    exact fun r' hr' hprep h =>
      hcore.preparing r' (List.mem_filter.mp hr').1 hprep (by simpa using h)
  case backed =>
    intro p hp
    refine (hcore.backed p hp).mono (fun r' hr' _ hwait' => hmem r' hr' fun heq => ?_) (by simp)
    rw [hcore.eq_of_id hr' hr heq] at hwait'
    exact hwait hwait'
  case unique => exact hcore.unique
  case sent => exact fun waiter h => List.mem_cons_of_mem _ (hcore.sent waiter h)
  case once => exact hcore.once
  case unseen => exact hcore.unseen
  case phase =>
    refine ⟨fun h => ?_, fun b hb hne => hids b (hblocked b hb) hne⟩
    obtain ⟨r', hr', heq⟩ := List.mem_map.mp h
    exact of_decide_eq_true (List.mem_filter.mp hr').2 heq

/-- The end of `executed`. -/
theorem Core.settle {answered : Bool} {id : Nat}
    (hphase : m.phase = .evicting answered (.settle id)) : Core (m.settle id) es admission log := by
  obtain ⟨hgone, hblocked⟩ : m.PhaseInv admission.unseen (.evicting answered (.settle id)) :=
    hphase ▸ hcore.phase
  have hkept : ∀ b, (m.settle id).blockedOn = some b → m.blockedOn = some b ∧ b ≠ id := by
    intro b hb
    simp only [Actor.settle] at hb
    split at hb
    · cases hb
    · rename_i hne
      exact ⟨hb, fun heq => hne (heq ▸ hb)⟩
  refine { hcore with free := ?_, unseen := ?_, phase := ?_ }
  · intro r hr
    refine (hcore.free r hr).imp_left fun h => ?_
    have hne : m.blockedOn ≠ some id := by
      intro heq
      rw [heq] at h
      obtain rfl := Option.some.inj h
      exact hgone (List.mem_map_of_mem hr)
    simp only [Actor.settle, if_neg hne]
    exact h
  · exact fun b hb => hcore.unseen b (hkept b hb).1
  · exact fun b hb => hblocked b (hkept b hb).1 (hkept b hb).2

/-- **Admission.**  The signal is the grant of the request the mailbox is
blocked on. -/
theorem Core.pass (hphase : m.phase = .select) {id : Nat} (hblocked : m.blockedOn = some id)
    (hchanged : admission.hasChanged = true) :
    Proper log (.admitted id admission.unseen) ∧
      Core { m with interleaved := true, blockedOn := none, phase := .startReady } es
        admission.borrowAndUpdate (.admitted id admission.unseen :: log) := by
  have hsignals : admission.unseen = [.request id] :=
    admission.unseen_eq_singleton hcore.once (hcore.unseen id hblocked) hchanged
  have hlogged : .granted (.request id) ∈ log := by
    apply hcore.sent
    apply List.mem_of_mem_drop (i := admission.seen)
    show _ ∈ admission.unseen
    rw [hsignals]
    exact List.mem_singleton_self _
  obtain ⟨hsince, hstarted⟩ := hcore.grants id hlogged
  have hselect : m.PhaseInv admission.unseen .select := hphase ▸ hcore.phase
  obtain ⟨r, hr, rfl⟩ := List.mem_map.mp (hselect id hblocked)
  refine ⟨⟨hsignals, ⟨⟨_, hstarted⟩, (hcore.running r hr).2⟩, hsince, hstarted⟩, ?_⟩
  exact { hcore with
    fresh := List.forall_mem_cons.mpr ⟨hcore.fresh (.started r.id false) hstarted, hcore.fresh⟩
    grants := hcore.grants_cons nofun
    listed := fun id hid => hcore.listed id (hid.of_cons (by simp))
    running := hcore.running_cons nofun
    free := fun r' hr' => by
      refine .inr (List.mem_cons_of_mem _ ((hcore.free r' hr').elim (fun h => ?_) fun h => h))
      rwa [← Option.some.inj (hblocked.symm.trans h)]
    preparing := fun r' hr' hprep h => hcore.preparing r' hr' hprep (by simpa using h)
    backed := fun p hp => (hcore.backed p hp).mono (fun _ h _ _ => h) (by simp)
    sent := fun waiter h => List.mem_cons_of_mem _ (hcore.sent waiter h)
    once := hcore.once
    unseen := by simp
    phase := nofun }

/-- A request that is preparing has no command. -/
theorem Core.no_command (hr : r ∈ m.running) (hprep : r.progress = .preparing) :
    ∀ p ∈ es, p.waiter ≠ .request r.id := by
  intro p hp hw
  have hbacked := hcore.backed p hp
  unfold PendingCommand.Backed at hbacked
  rw [hw] at hbacked
  obtain ⟨⟨r', hr', hid, hwait, -⟩, -⟩ := hbacked
  rw [hcore.eq_of_id hr' hr hid, hprep] at hwait
  cases hwait

/-- A request that was preparing goes on. -/
theorem Core.progress (hr : r ∈ m.running) (hprep : r.progress = .preparing) {progress : Progress}
    (hnext : progress ≠ .preparing) :
    Core { m with running := m.running.map fun other =>
      if other.id = r.id then { other with progress := progress } else other } es admission
      log := by
  refine hcore.mapRunning (fun other => ?_) (List.Sublist.refl es) ?_
  · split
    · exact ⟨rfl, rfl, fun h => absurd h hnext⟩
    · exact ⟨rfl, rfl, fun h => h⟩
  · intro p hp other _ hw _
    rw [if_neg]
    intro heq
    exact hcore.no_command hr hprep p hp (heq ▸ hw)

end

section

variable (hlog : ProperLog w.log)
  (hcore : Core w.actor (entries w.driver w.commands) w.admission w.log)
include hlog hcore

theorem World.Inv.exchange
    (hr : r ∈ w.actor.running) (hprep : r.progress = .preparing) : (w.exchange r).Inv := by
  unfold World.exchange
  dsimp only
  split
  · have hnext : Progress.waiting ≠ .preparing := nofun
    have hwaiting := hcore.progress hr hprep hnext
    refine ⟨hlog, .inr ?_⟩
    show Core _ (entries w.driver (w.commands ++ _)) w.admission w.log
    rw [entries_append]
    refine hwaiting.append ⟨⟨{ r with progress := .waiting }, ?_, rfl, rfl, rfl⟩, fun h => ?_⟩
      fun id hid => ?_
    · exact List.mem_map.mpr ⟨r, hr, if_pos rfl⟩
    · exact absurd h (hcore.preparing r hr hprep)
    · obtain rfl : r.id = id := Waiter.request.inj hid
      exact hcore.no_command hr hprep
  · exact ⟨hlog, .inr (hcore.progress hr hprep nofun)⟩

/-- An execution has returned. -/
theorem World.Inv.executed
    (hphase : w.actor.phase = .select) (hr : r ∈ w.actor.running) {c : Finished}
    (hreturns : r.returns c = true) (stopped : Bool) : (w.executed r.id c stopped).Inv := by
  have hwait : r.progress ≠ .waiting := by
    intro h
    rw [Running.returns, h] at hreturns
    cases hreturns
  have hselect : w.actor.PhaseInv w.admission.unseen .select := hphase ▸ hcore.phase
  have htaken := hcore.take hr hwait c hselect
  have hlog' : ProperLog (.completed r.id :: w.log) := hlog.cons trivial
  unfold World.executed
  dsimp only
  split
  · exact ⟨hlog', .inr (htaken.settle rfl)⟩
  · exact World.inv_evict hlog' htaken
  · exact World.inv_evict hlog' htaken
  · exact World.inv_evict hlog' { htaken with phase := trivial }

/-- The lines of `run` before `select`. -/
theorem World.Inv.advance (hphase : w.actor.phase = .startReady) : w.advance.Inv := by
  have hready : w.actor.PhaseInv w.admission.unseen .startReady := hphase ▸ hcore.phase
  unfold World.advance
  split
  · rename_i request rest hblocked _
    split
    · exact ⟨hlog, .inr { hcore with }⟩
    · refine ⟨hlog, .inr { hcore with
        sent := hcore.sent
        once := hcore.once
        unseen := by simp
        phase := ⟨hblocked, Watch.unseen_borrowAndUpdate _⟩ }⟩
  · split
    · exact World.inv_evict hlog { hcore with phase := trivial }
    · split
      · exact ⟨hlog, .inl rfl⟩
      · exact ⟨hlog, .inr { hcore with phase := hready }⟩

/-- A branch of the `select` of the actor. -/
theorem World.Inv.stepSelect (hphase : w.actor.phase = .select) (a : Action) :
    Ensures World.Inv (Mailbox.stepSelect w a) := by
  have hselect : w.actor.PhaseInv w.admission.unseen .select := hphase ▸ hcore.phase
  fun_cases Mailbox.stepSelect w a with
  | case1 id r hfind hprep =>
    exact .exchange hlog hcore (List.mem_of_find?_eq_some hfind) hprep
  | case4 id c stopped r hfind hreturns =>
    have hid := List.find?_some hfind
    obtain rfl : r.id = id := of_decide_eq_true hid
    exact .executed hlog hcore hphase (List.mem_of_find?_eq_some hfind) hreturns _
  | case7 => exact World.inv_evict hlog { hcore with phase := trivial }
  | case8 id hblocked hadmitted =>
    obtain ⟨hproper, hafter⟩ := hcore.pass hphase hblocked hadmitted.2
    exact ⟨hlog.cons hproper, .inr hafter⟩
  | case11 => exact ⟨hlog, .inl rfl⟩
  | case13 message =>
    refine ⟨hlog, .inr ?_⟩
    show Core (w.actor.receive _) (entries w.driver w.commands) w.admission w.log
    fun_cases Actor.receive w.actor message <;> exact { hcore with phase := hselect }
  | _ => trivial

end

/-- **One step** keeps the invariant. -/
theorem World.Inv.step (hinv : w.Inv) (a : Action) : Ensures World.Inv (Mailbox.step w a) := by
  have hlive : w.actor.phase ≠ .stopped →
      Core w.actor (entries w.driver w.commands) w.admission w.log := hinv.2.resolve_left
  fun_cases Mailbox.step w a with
  | case1 => exact hinv.stepDriver a
  | case3 hphase => exact .advance hinv.1 (hlive (hphase ▸ nofun)) hphase
  | case4 request hphase =>
    obtain ⟨hproper, hafter⟩ := (hlive (hphase ▸ nofun)).start hphase
    exact ⟨hinv.1.cons hproper, .inr hafter⟩
  | case5 _ hphase => exact World.Inv.stepSelect hinv.1 (hlive (hphase ▸ nofun)) hphase a
  | case6 => exact ⟨hinv.1, .inl rfl⟩
  | case7 id hphase => exact ⟨hinv.1, .inr ((hlive (hphase ▸ nofun)).settle hphase)⟩
  | _ => trivial

theorem inv_initial : World.initial.Inv := by
  refine ⟨?_, .inr ?_⟩
  · intro later event earlier heq
    cases later <;> cases heq
  · constructor <;> simp [World.initial, entries, Watch.fresh, Watch.unseen, Outstanding,
      Actor.PhaseInv]

/-! ## The result -/

/-- **Serialized execution.**  In every run of the mailbox and the driver: when
a request is started, every other request that runs has granted admission since
it was started; and the mailbox goes on past a request only for a grant of this
request, while it runs, and never for a hydration. -/
theorem executions_serialized {actions : List Action} {w : World}
    (hrun : Transition.run step World.initial actions = some w) :
    (∀ later id hydration earlier, w.log = later ++ .started id hydration :: earlier →
      ∀ other, Outstanding earlier other → GrantedSince earlier other) ∧
    ∀ later id signals earlier, w.log = later ++ .admitted id signals :: earlier →
      signals = [.request id] ∧ Outstanding earlier id ∧ GrantedSince earlier id ∧
        .started id false ∈ earlier := by
  have hinv : w.Inv :=
    Transition.run_invariant (fun _ a _ hinv hstep => (hinv.step a).of_eq hstep) inv_initial hrun
  exact ⟨fun later id hydration earlier h => hinv.1 later _ earlier h,
    fun later id signals earlier h => hinv.1 later _ earlier h⟩

/-- The first request lets the second one in.  The second one grants as well,
but ends before the mailbox looks at the channel; the third one is started with
the first still running. -/
def grantLeftOver : List Action :=
  [.advance, .received (some (.request ⟨.method, true⟩)), .advance, .advance, .advance,
    .exchange 1, .command true true, .client (.readyForInvocation 1),
    .received (some (.request ⟨.method, true⟩)), .advance, .admitted, .advance, .advance,
    .advance, .exchange 2, .command true true, .client (.readyForInvocation 2),
    .client (.reply 2), .completed 2 ⟨.ok (.completed 0 []), true, .keep, none, true⟩ false,
    .advance, .received (some (.request ⟨.method, true⟩)), .advance, .advance, .advance]

def grantLeftOverEnd : World :=
  Transition.final step World.initial grantLeftOver

theorem executions_serialized_leftover :
    grantLeftOverEnd.log = [.started 3 false, .completed 2, .granted (.request 2),
      .started 2 false, .admitted 1 [.request 1], .granted (.request 1), .started 1 false] ∧
    step grantLeftOverEnd .admitted = none ∧ (∀ later id hydration earlier,
      grantLeftOverEnd.log = later ++ .started id hydration :: earlier →
      ∀ other, Outstanding earlier other → GrantedSince earlier other) ∧ ∀ later id signals earlier,
      grantLeftOverEnd.log = later ++ .admitted id signals :: earlier →
      signals = [.request id] ∧ Outstanding earlier id ∧ GrantedSince earlier id ∧
        .started id false ∈ earlier := by
  have hrun : Transition.run step World.initial grantLeftOver = some grantLeftOverEnd := rfl
  have h := executions_serialized hrun
  exact ⟨by decide, by decide, h.1, h.2⟩

end DurableActors.Ports.Mailbox
