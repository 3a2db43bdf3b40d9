import DurableActors.Ports.MailboxPost

/-!
# Exactly one reply

Each submitted request is at any time owned once or answered once: the owners and the
answered callers together are a permutation of all callers.  A step of the mailbox
hands a request on from one owner to the next or answers it, and `Drop` answers what
is left.  With this the classification follows from who answers.
-/

namespace DurableActors.Ports.Mailbox

open Verified
open Verified.Transition (Ensures)
open HostRequest (Recovery Finished Result recoveryOf)

/-! ## Steps beside the mailbox -/

/-- The phase, whether or not an eviction has its answer. -/
def Phase.place : Phase → Phase
  | .evicting _ next => .evicting false next
  | phase => phase

/-- The mailbox is where it was; at most its eviction was answered, or requests it
runs have got on. -/
structure Quiet (m m' : Actor) : Prop where
  pending : m'.pending = m.pending
  ids : m'.running.map Running.id = m.running.map Running.id
  blockedOn : m'.blockedOn = m.blockedOn
  draining : m'.draining = m.draining
  place : m'.phase.place = m.phase.place

section

variable {m m' : Actor} {w w' : World}

theorem Quiet.refl (m : Actor) : Quiet m m := ⟨rfl, rfl, rfl, rfl, rfl⟩

theorem Quiet.trans {m'' : Actor} (h : Quiet m m') (h' : Quiet m' m'') : Quiet m m'' :=
  ⟨h'.pending.trans h.pending, h'.ids.trans h.ids, h'.blockedOn.trans h.blockedOn,
    h'.draining.trans h.draining, h'.place.trans h.place⟩

theorem Quiet.mapRunning {f : Running → Running} (hf : ∀ r, (f r).id = r.id) :
    Quiet m { m with running := m.running.map f } := by
  refine ⟨rfl, ?_, rfl, rfl, rfl⟩
  show (m.running.map f).map Running.id = _
  rw [List.map_map]
  exact List.map_congr_left fun r _ => hf r

theorem Quiet.answerWhere (p : Nat → Bool) : Quiet m (m.answerWhere p) := by
  refine .mapRunning fun r => ?_
  split
  · exact r.answer_keeps.1
  · rfl

theorem Quiet.answerEvict : Quiet m m.answerEvict := by
  unfold Actor.answerEvict
  split
  · rename_i hphase
    exact ⟨rfl, rfl, rfl, rfl, by rw [hphase]; rfl⟩
  · exact .refl m

theorem Quiet.answer (waiter : Waiter) : Quiet m (m.answer waiter) := by
  cases waiter with
  | request id => exact .answerWhere fun other => other = id
  | mailbox => exact .answerEvict

theorem Quiet.stopDriver : Quiet w.actor w.stopDriver.actor :=
  (Quiet.answerWhere _).trans .answerEvict

theorem Quiet.drive (result : Option (Driver × Signal)) : Quiet w.actor (w.drive result).actor := by
  unfold World.drive
  split
  · rename_i d signal
    cases signal with
    | quiet => exact .refl _
    | granted waiter => exact .refl _
    | answered waiter => exact .answer waiter
  · exact .stopDriver

/-- **The driver** does not move the mailbox. -/
theorem Quiet.stepDriver (w : World) (a : Action) :
    Ensures (fun w' => Quiet w.actor w'.actor) (stepDriver w a) := by
  fun_cases Mailbox.stepDriver w a with
  | case1 message => exact .drive _
  | case2 id written _ => exact .drive _
  | case4 id written _ => exact .drive _
  | case7 encoded written request rest _ => exact .drive (w := { w with commands := rest }) _
  | case8 => exact .stopDriver
  | case9 => exact .refl _
  | _ => trivial

theorem Quiet.exchange (r : Running) : Quiet w.actor (w.exchange r).actor := by
  have hmap : ∀ progress, Quiet w.actor
      { w.actor with running := w.actor.running.map fun other =>
          if other.id = r.id then { other with progress := progress } else other } := by
    intro progress
    refine .mapRunning fun other => ?_
    split <;> rfl
  unfold World.exchange
  dsimp only
  split
  · exact hmap _
  · exact hmap _

end

/-! ## The invariant -/

/-- The answer to a request that was never started. -/
def Refused (requests : List Request) (caller : Nat) (answer : Answer) : Prop :=
  answer = .unavailable ∨
    answer = .invalid ∧ ∃ request, requests[caller]? = some request ∧ request.valid = false

/-- Who owns a request, who is answered and how; `begun` are the callers whose requests
run or have run and wait for their answer. -/
structure Accounts (requests : List Request) (owners begun : List Nat)
    (replies : List (Nat × Answer)) (started : List (Nat × Operation × Bool))
    (dropped : List Nat) : Prop where
  /-- every request is owned once or answered once -/
  conserved : (owners ++ replies.map Prod.fst).Perm (List.range requests.length)
  began : ∀ caller ∈ begun, caller ∈ started.map Prod.fst
  unstarted : ∀ caller answer, (caller, answer) ∈ replies → caller ∉ started.map Prod.fst →
    Refused requests caller answer
  draining : ∀ caller operation, (caller, operation, true) ∈ started → operation = .socket true
  dropped : ∀ caller ∈ dropped, (caller, .unknown) ∈ replies

/-- The callers whose requests were started. -/
def Post.begun (p : Post) : List Nat := p.running.map Prod.snd ++ p.held.toList.map Prod.fst

/-- The callers are accounted for. -/
def Post.Books (p : Post) : Prop :=
  Accounts p.requests p.owners p.begun p.replies p.started p.dropped

/-- The callers are next to the requests of the mailbox. -/
structure Post.Linked (p : Post) : Prop where
  pending : p.pending.map (p.requests[·]?) = p.world.actor.pending.map some
  running : p.running.map Prod.fst = p.world.actor.running.map Running.id

/-- What the mailbox has in its hands, by where it is.  What is pending in `select`
waits for a request that runs, and once everything is drained nothing comes back. -/
def Post.At (p : Post) : Phase → Prop
  | .startReady => p.starting = none ∧ p.held = none ∧ p.drained = false
  | .starting request => ∃ caller, p.starting = some caller ∧
      p.requests[caller]? = some request ∧ p.world.actor.rejected request = false ∧
      p.held = none ∧ p.drained = false
  | .select => p.starting = none ∧ p.held = none ∧ p.drained = false ∧
      (p.world.actor.blockedOn = none → p.world.actor.pending = [])
  | .evicting _ next => p.starting = none ∧
      (p.drained = true → next = .stop ∧ p.pending = [] ∧ p.running = [])
  | .stopped => p.owners = []

/-- The invariant of the callers and the mailbox. -/
structure Post.Inv (p : Post) : Prop where
  world : p.world.Inv
  books : p.Books
  linked : p.Linked
  place : p.At p.world.actor.phase

/-! ### The books -/

section

variable {requests : List Request} {owners owners' begun begun' : List Nat}
  {replies : List (Nat × Answer)} {started : List (Nat × Operation × Bool)} {dropped : List Nat}
  {caller : Nat} {answer : Answer}

variable (h : Accounts requests owners begun replies started dropped)
include h

/-- A request is handed on. -/
theorem Accounts.move (howners : ∀ other, owners'.count other = owners.count other)
    (hbegun : ∀ other ∈ begun', other ∈ started.map Prod.fst) :
    Accounts requests owners' begun' replies started dropped :=
  { h with
    conserved := ((List.perm_iff_count.mpr howners).append_right _).trans h.conserved
    began := hbegun }

/-- A request is answered by its owner. -/
theorem Accounts.reply (howners : ∀ other, (caller :: owners').count other = owners.count other)
    (hbegun : begun' ⊆ begun)
    (hanswer : caller ∉ started.map Prod.fst → Refused requests caller answer) :
    Accounts requests owners' begun' ((caller, answer) :: replies) started dropped where
  conserved := List.perm_middle.trans
    (((List.perm_iff_count.mpr howners).append_right _).trans h.conserved)
  began := fun other hother => h.began other (hbegun hother)
  unstarted := by
    intro other answer' hmem hnot
    rcases List.mem_cons.mp hmem with heq | hold
    · obtain ⟨rfl, rfl⟩ := Prod.mk.inj heq
      exact hanswer hnot
    · exact h.unstarted other answer' hold hnot
  draining := h.draining
  dropped := fun other hother => List.mem_cons_of_mem _ (h.dropped other hother)

omit h in
/-- Answered by `rejection`: draining, or not valid. -/
theorem refused_rejection {m : Actor} {request : Request} (h : m.rejected request = true)
    (hrequest : requests[caller]? = some request) :
    Refused requests caller (m.rejection request) := by
  unfold Actor.rejection
  split
  · exact .inl rfl
  · rename_i hnot
    refine .inr ⟨rfl, request, hrequest, ?_⟩
    unfold Actor.rejected at h
    rcases Bool.or_eq_true_iff.mp h with hdraining | hinvalid
    · rw [Bool.and_eq_true, bne_iff_ne] at hdraining
      exact absurd hdraining hnot
    · simpa using hinvalid

/-- A request is started; only a disconnect event is while the mailbox drains. -/
theorem Accounts.start {operation : Operation} {draining : Bool}
    (howners : ∀ other, owners'.count other = owners.count other)
    (hbegun : ∀ other ∈ begun', other ∈ begun ∨ other = caller)
    (hdraining : draining = true → operation = .socket true) :
    Accounts requests owners' begun' replies ((caller, operation, draining) :: started)
      dropped where
  conserved := ((List.perm_iff_count.mpr howners).append_right _).trans h.conserved
  began := by
    intro other hother
    rw [List.map_cons, List.mem_cons]
    exact (hbegun other hother).symm.imp_right fun hold => h.began other hold
  unstarted := fun other answer hmem hfresh =>
    h.unstarted other answer hmem fun hold => hfresh (List.mem_cons_of_mem _ hold)
  draining := by
    intro other operation' hmem
    rcases List.mem_cons.mp hmem with heq | hold
    · obtain ⟨-, hrest⟩ := Prod.mk.inj heq
      obtain ⟨rfl, htrue⟩ := Prod.mk.inj hrest
      exact hdraining htrue.symm
    · exact h.draining other operation' hold
  dropped := h.dropped

/-- Earlier requests are found where they were. -/
theorem Accounts.lookup (request : Request) (hcaller : caller ∈ owners ++ replies.map Prod.fst) :
    (requests ++ [request])[caller]? = requests[caller]? :=
  List.getElem?_append_left (List.mem_range.mp (h.conserved.subset hcaller))

/-- Another request, with its caller as an owner or answered. -/
theorem Accounts.submit {replies' : List (Nat × Answer)} (request : Request)
    (howners : (owners' ++ replies'.map Prod.fst).Perm
      (requests.length :: (owners ++ replies.map Prod.fst))) (hkept : replies ⊆ replies')
    (hnew : ∀ caller answer, (caller, answer) ∈ replies' →
      (caller, answer) ∈ replies ∨ answer = .unavailable) :
    Accounts (requests ++ [request]) owners' begun replies' started dropped where
  conserved := by
    rw [List.length_append, List.length_singleton, List.range_succ]
    exact howners.trans ((h.conserved.cons _).trans (List.perm_append_singleton _ _).symm)
  began := h.began
  unstarted := by
    intro caller answer hmem hfresh
    rcases hnew caller answer hmem with hold | hunavailable
    · rw [Refused, h.lookup request (List.mem_append_right _ (List.mem_map_of_mem hold))]
      exact h.unstarted caller answer hold hfresh
    · exact .inl hunavailable
  draining := h.draining
  dropped := fun caller hcaller => hkept (h.dropped caller hcaller)

end

section

variable {p : Post}

/-- **`Drop` answers everyone who is left.** -/
theorem Post.Books.drop (h : p.Books) (hstarting : p.starting = none) : p.drop.Books := by
  constructor
  case conserved =>
    refine List.Perm.trans ?_ h.conserved
    rw [List.perm_iff_count]
    intro caller
    simp only [Post.drop, Post.owners, hstarting, List.filterMap_nil, Option.toList_none,
      List.map_nil, List.append_nil, List.nil_append, List.map_append, List.map_map,
      Function.comp_def, List.map_id', List.count_append]
    rw [show (fun entry : Nat × Nat => entry.2) = Prod.snd from rfl,
      show (fun entry : Nat × Answer => entry.1) = Prod.fst from rfl]
    omega
  case began => nofun
  case unstarted =>
    intro caller answer hmem hnot
    simp only [Post.drop, hstarting, List.mem_append, List.mem_map, Prod.mk.injEq] at hmem
    rcases hmem with ((((hpending | hchannel) | hrunning) | hstart) | hheld) | hold
    · obtain ⟨_, _, -, rfl⟩ := hpending
      exact .inl rfl
    · obtain ⟨_, _, -, rfl⟩ := hchannel
      exact .inl rfl
    · obtain ⟨entry, hentry, rfl, -⟩ := hrunning
      exact absurd (h.began _ (List.mem_append_left _ (List.mem_map_of_mem hentry))) hnot
    · simp at hstart
    · obtain ⟨entry, hentry, rfl, -⟩ := hheld
      exact absurd (h.began _ (List.mem_append_right _ (List.mem_map_of_mem hentry))) hnot
    · exact h.unstarted caller answer hold hnot
  case draining => exact h.draining
  case dropped =>
    intro caller hcaller
    rcases List.mem_append.mp hcaller with hnew | hold
    · obtain ⟨entry, hentry, rfl⟩ := List.mem_map.mp hnew
      have hmem : (entry.2, Answer.unknown) ∈ p.running.map fun entry => (entry.2, .unknown) :=
        List.mem_map_of_mem (f := fun entry : Nat × Nat => (entry.2, Answer.unknown)) hentry
      simp only [Post.drop, List.mem_append]
      exact .inl (.inl (.inl (.inr hmem)))
    · exact List.mem_append_right _ (h.dropped caller hold)

/-! ### The end -/

/-- The mailbox is dropped. -/
theorem Post.inv_drop (hworld : p.world.Inv) (hbooks : p.Books) (hstarting : p.starting = none) :
    p.drop.Inv :=
  ⟨⟨hworld.1, .inl rfl⟩, hbooks.drop hstarting, ⟨rfl, rfl⟩, rfl⟩

/-- What holds after a step, before the mailbox is dropped if it has ended. -/
theorem Post.inv_close (hworld : p.world.Inv) (hbooks : p.Books)
    (h : p.world.actor.phase = .stopped ∧ p.starting = none ∨
      p.world.actor.phase ≠ .stopped ∧ p.Linked ∧ p.At p.world.actor.phase) : p.close.Inv := by
  unfold Post.close Post.closed
  rcases h with ⟨hphase, hstarting⟩ | ⟨hphase, hlinked, hplace⟩
  · rw [if_pos (decide_eq_true hphase)]
    exact Post.inv_drop hworld hbooks hstarting
  · rw [if_neg (by simpa using hphase)]
    exact ⟨hworld, hbooks, hlinked, hplace⟩

/-- What the first caller in `pending` waits for. -/
theorem Post.Linked.head {request : Request} {rest : List Request} (h : p.Linked)
    (hpending : p.world.actor.pending = request :: rest) :
    ∃ caller callers, p.pending = caller :: callers ∧ p.requests[caller]? = some request ∧
      callers.map (p.requests[·]?) = rest.map some := by
  have hmap := h.pending
  rw [hpending, List.map_cons] at hmap
  exact List.map_eq_cons_iff.mp hmap

theorem Post.Linked.pending_nil (h : p.Linked) : p.world.actor.pending = [] ↔ p.pending = [] := by
  rw [← List.map_eq_nil_iff (f := some), ← h.pending, List.map_eq_nil_iff]

theorem Post.Linked.running_nil (h : p.Linked) : p.world.actor.running = [] ↔ p.running = [] := by
  rw [← List.map_eq_nil_iff (f := Running.id), ← h.running, List.map_eq_nil_iff]

/-! ### Steps -/

theorem Post.at_place (p : Post) (phase : Phase) : p.At phase.place ↔ p.At phase := by
  cases phase <;> rfl

/-- A step beside the mailbox. -/
theorem Post.Inv.quiet {world : World} (h : p.Inv) (hworld : world.Inv)
    (hquiet : Quiet p.world.actor world.actor) : { p with world := world }.close.Inv := by
  have hrejected : ∀ request, world.actor.rejected request = p.world.actor.rejected request := by
    intro request
    rw [Actor.rejected, Actor.rejected, hquiet.draining]
  have hplace : Post.At { p with world := world } world.actor.phase := by
    rw [← Post.at_place, hquiet.place, Post.at_place]
    have hplace := h.place
    generalize p.world.actor.phase = phase at hplace ⊢
    cases phase with
    | starting request => simpa only [Post.At, hrejected] using hplace
    | select => simpa only [Post.At, hquiet.blockedOn, hquiet.pending] using hplace
    | _ => exact hplace
  have hlinked : Post.Linked { p with world := world } := by
    constructor
    · rw [hquiet.pending]
      exact h.linked.pending
    · rw [hquiet.ids]
      exact h.linked.running
  refine Post.inv_close hworld h.books ?_
  by_cases hstopped : world.actor.phase = .stopped
  · rw [hstopped] at hplace
    have hnone : p.owners = [] := hplace
    simp only [Post.owners, List.append_eq_nil_iff, Option.toList_eq_nil_iff] at hnone
    exact .inl ⟨hstopped, hnone.1.1.2⟩
  · exact .inr ⟨hstopped, hlinked, hplace⟩

/-- Nothing can be started. -/
theorem Post.advanced_waits {m : Actor}
    (h : ∀ request rest, m.blockedOn = none → m.pending = request :: rest → False) :
    p.advanced m =
      if m.draining = true ∧ m.running = [] ∧ m.pending = [] then { p with drained := true }
      else p := by
  fun_cases Post.advanced p m with
  | case1 request rest _ _ _ hpending hblocked => exact (h request rest hblocked hpending).elim
  | case2 request rest _ _ _ hpending hblocked => exact (h request rest hblocked hpending).elim
  | case3 hdrain => exact (if_pos hdrain).symm
  | case4 hdrain => exact (if_neg hdrain).symm

theorem World.evict_actor (w : World) (next : AfterEvict) :
    ∃ b, (w.evict next).actor = { w.actor with phase := .evicting b next } := by
  unfold World.evict
  split
  · exact ⟨false, rfl⟩
  · exact ⟨true, rfl⟩

/-- The mailbox evicts. -/
theorem Post.inv_evict {next : AfterEvict} (hworld : (p.world.evict next).Inv) (hbooks : p.Books)
    (hlinked : p.Linked) (hidle : p.starting = none)
    (hdrained : p.drained = true → next = .stop ∧ p.pending = [] ∧ p.running = []) :
    { p with world := p.world.evict next }.close.Inv := by
  obtain ⟨b, hactor⟩ := p.world.evict_actor next
  refine Post.inv_close hworld hbooks (.inr ⟨?_, ⟨?_, ?_⟩, ?_⟩)
  · rw [hactor]
    nofun
  · rw [hactor]
    exact hlinked.pending
  · rw [hactor]
    exact hlinked.running
  · show Post.At _ (p.world.evict next).actor.phase
    rw [hactor]
    exact ⟨hidle, hdrained⟩

/-- **`start_ready`** and the lines of `run` before `select`. -/
theorem Post.Inv.advance (h : p.Inv) (hphase : p.world.actor.phase = .startReady)
    (hworld : p.world.advance.Inv) :
    ({ p with world := p.world.advance }.advanced p.world.actor).close.Inv := by
  obtain ⟨hidle, hheld, hnot⟩ : p.At .startReady := hphase ▸ h.place
  revert hworld
  fun_cases World.advance p.world with
  | case1 request rest hpending hblocked hrejected =>
    obtain ⟨caller, callers, hcallers, hrequest, hrest⟩ := h.linked.head hpending
    simp only [Post.advanced, hblocked, hpending, hcallers, if_pos hrejected]
    intro hworld
    refine Post.inv_close hworld ?_ (.inr ⟨?_, ⟨hrest, h.linked.running⟩, ?_⟩)
    · refine h.books.reply (fun other => ?_) (fun _ hother => hother)
        fun _ => refused_rejection hrejected hrequest
      simp only [Post.owners, Post.reply, hcallers, List.count_append, List.count_cons]
      omega
    · show p.world.actor.phase ≠ .stopped
      rw [hphase]
      nofun
    · show Post.At _ p.world.actor.phase
      rw [hphase]
      exact ⟨hidle, hheld, hnot⟩
  | case2 request rest hpending hblocked hrejected =>
    obtain ⟨caller, callers, hcallers, hrequest, hrest⟩ := h.linked.head hpending
    simp only [Post.advanced, hblocked, hpending, hcallers, if_neg hrejected]
    intro hworld
    refine Post.inv_close hworld (h.books.move (fun other => ?_) h.books.began)
      (.inr ⟨nofun, ⟨hrest, h.linked.running⟩, caller, rfl, hrequest, ?_, hheld, hnot⟩)
    · simp only [Post.owners, hcallers, hidle, List.count_append, List.count_cons,
        Option.toList_some, Option.toList_none, List.count_nil]
      omega
    · exact Bool.eq_false_iff.mpr hrejected
  | case3 hdrain hwaits =>
    intro hworld
    rw [Post.advanced_waits hwaits, if_pos hdrain]
    refine Post.inv_evict (p := { p with drained := true }) hworld h.books
      ⟨h.linked.pending, h.linked.running⟩ hidle fun _ => ⟨rfl, ?_, ?_⟩
    · exact h.linked.pending_nil.mp hdrain.2.2
    · exact h.linked.running_nil.mp hdrain.2.1
  | case4 hdrain hopen hwaits =>
    intro hworld
    rw [Post.advanced_waits hwaits, if_neg hdrain]
    exact Post.inv_close hworld h.books (.inl ⟨rfl, hidle⟩)
  | case5 hdrain hopen hwaits =>
    intro hworld
    rw [Post.advanced_waits hwaits, if_neg hdrain]
    refine Post.inv_close hworld h.books
      (.inr ⟨nofun, ⟨h.linked.pending, h.linked.running⟩, hidle, hheld, hnot, ?_⟩)
    intro hblocked
    by_contra hne
    obtain ⟨request, rest, hpending⟩ := List.exists_cons_of_ne_nil hne
    exact hwaits request rest hblocked hpending

/-- **`start`.** -/
theorem Post.Inv.start {request : Request} (h : p.Inv)
    (hphase : p.world.actor.phase = .starting request) (hworld : (p.world.start request).Inv) :
    ({ p with world := p.world.start request }.begin p.world.actor request).close.Inv := by
  obtain ⟨caller, hstarting, hrequest, hrejected, hheld, hnot⟩ : p.At (.starting request) :=
    hphase ▸ h.place
  simp only [Post.begin, hstarting]
  refine Post.inv_close hworld (h.books.start (fun other => ?_) ?_ ?_)
    (.inr ⟨nofun, ⟨h.linked.pending, ?_⟩, rfl, hheld, hnot⟩)
  · simp only [Post.owners, hstarting, Option.toList_some, Option.toList_none, List.map_append,
      List.map_cons, List.map_nil, List.count_append, List.count_cons, List.count_nil]
    omega
  · intro other hother
    simp only [Post.begun, List.map_append, List.mem_append, List.map_cons, List.map_nil,
      List.mem_singleton] at hother ⊢
    rcases hother with (hold | hnew) | hheld
    · exact .inl (.inl hold)
    · exact .inr hnew
    · exact .inl (.inr hheld)
  · -- it was not rejected, although the mailbox drains
    intro hdraining
    rw [Actor.rejected, hdraining, Bool.true_and, Bool.or_eq_false_iff] at hrejected
    simpa using hrejected.1
  · show (p.running ++ [(p.world.actor.nextInvocation + 1, caller)]).map Prod.fst =
      (p.world.actor.running ++ [_]).map Running.id
    rw [List.map_append, List.map_append, h.linked.running]
    rfl

/-- A caller in `running` is taken out. -/
theorem Post.Linked.taken {r : Running} (h : p.Linked)
    (hnodup : (p.world.actor.running.map Running.id).Nodup) (hr : r ∈ p.world.actor.running) :
    ∃ caller, (p.running.find? fun entry => entry.1 = r.id) = some (r.id, caller) ∧
      (caller :: (p.running.filter fun entry => entry.1 ≠ r.id).map Prod.snd).Perm
        (p.running.map Prod.snd) ∧ (p.running.filter fun entry => entry.1 ≠ r.id).map Prod.fst =
        (p.world.actor.running.filter fun other => other.id ≠ r.id).map Running.id := by
  have hfst : ∀ f : Nat → Bool, (p.running.filter (f ∘ Prod.fst)).map Prod.fst =
      (p.world.actor.running.filter (f ∘ Running.id)).map Running.id := by
    intro f
    rw [← List.filter_map, ← List.filter_map, h.running]
  -- the id belongs to one entry
  have hone : (p.running.filter fun entry => entry.1 = r.id).map Prod.fst = [r.id] := by
    refine (hfst fun id => decide (id = r.id)).trans ?_
    rw [← List.filter_map, List.filter_eq,
      List.count_eq_one_of_mem hnodup (List.mem_map_of_mem hr), List.replicate_one]
  obtain ⟨⟨id, caller⟩, hentry, rfl⟩ := List.map_eq_singleton_iff.mp hone
  refine ⟨caller, ?_, ?_, hfst fun other => decide (other ≠ r.id)⟩
  · rw [← List.head?_filter, hentry]
    rfl
  · have hperm := (List.filter_append_perm (fun entry => decide (entry.1 = r.id))
      p.running).map Prod.snd
    simpa only [hentry, decide_not, List.map_append, List.map_cons, List.map_nil,
      List.singleton_append] using hperm

/-- **`executed`.** -/
theorem Post.Inv.executed {r : Running} (h : p.Inv) (hphase : p.world.actor.phase = .select)
    (hr : r ∈ p.world.actor.running) (c : Finished) (stopped : Bool)
    (hworld : (p.world.executed r.id c stopped).Inv) :
    ({ p with world := p.world.executed r.id c stopped }.take r.id
      (recoveryOf p.world.actor.interleaved stopped c) c.result).close.Inv := by
  obtain ⟨hidle, hheld, hnot, -⟩ : p.At .select := hphase ▸ h.place
  have hnodup : (p.world.actor.running.map Running.id).Nodup := by
    rcases h.world.2 with hstopped | hcore
    · cases hphase.symm.trans hstopped
    · exact hcore.nodup
  obtain ⟨caller, hfind, hperm, hids⟩ := h.linked.taken hnodup hr
  have hbegan : ∀ other ∈ caller :: (p.running.filter fun entry => entry.1 ≠ r.id).map Prod.snd,
      other ∈ p.started.map Prod.fst :=
    fun other hother => h.books.began other (List.mem_append_left _ (hperm.subset hother))
  have hlinked : ∀ log held, Post.Linked { p with
      world := { p.world with actor := p.world.actor.take r.id c, log := log }
      running := p.running.filter fun entry => entry.1 ≠ r.id
      held := held } :=
    fun _ _ => ⟨h.linked.pending, hids⟩
  -- the request waits for the eviction with its answer
  have hbooks : ∀ world answer, Post.Books { p with
      world := world
      running := p.running.filter fun entry => entry.1 ≠ r.id
      held := some (caller, answer) } := by
    intro world answer
    refine h.books.move (fun other => ?_) ?_
    · have hcount := hperm.count_eq other
      simp only [Post.owners, hheld, Option.toList_some, Option.toList_none, List.map_cons,
        List.map_nil, List.count_append, List.count_cons, List.count_nil] at hcount ⊢
      omega
    · intro other hother
      rcases List.mem_append.mp hother with hrunning | hnew
      · exact hbegan other (List.mem_cons_of_mem _ hrunning)
      · exact hbegan other (List.mem_cons.mpr (.inl (List.mem_singleton.mp hnew)))
  simp only [Post.take, hfind]
  unfold World.executed at hworld ⊢
  cases hrecovery : recoveryOf p.world.actor.interleaved stopped c with
  | keep =>
    simp only [hrecovery] at hworld ⊢
    refine Post.inv_close hworld
      (h.books.reply (fun other => ?_) (fun other hother => ?_) fun hfresh => ?_)
      (.inr ⟨nofun, ⟨h.linked.pending, hids⟩, hidle, hheld, hnot⟩)
    · have hcount := hperm.count_eq other
      simp only [Post.owners, Post.reply, List.count_append, List.count_cons] at hcount ⊢
      omega
    · refine (List.mem_append.mp hother).elim (fun hrunning => ?_) (List.mem_append_right _)
      exact List.mem_append_left _ (hperm.subset (List.mem_cons_of_mem _ hrunning))
    · exact absurd (hbegan caller List.mem_cons_self) hfresh
  | _ =>
    simp only [hrecovery] at hworld ⊢
    exact Post.inv_evict hworld (hbooks _ _) (hlinked _ _) hidle (by simp [hnot])

/-- An eviction changes nothing but `held`, which is answered. -/
theorem Post.Books.evicted (h : p.Books) :
    ∃ replies, p.evicted = { p with held := none, replies := replies } ∧ p.evicted.Books := by
  unfold Post.evicted
  split
  · rename_i hnone
    refine ⟨p.replies, ?_, h⟩
    rw [← hnone]
  · rename_i caller answer hheld
    refine ⟨_, rfl, h.reply (fun other => ?_) (fun other hother => ?_)
      fun hfresh => absurd (h.began caller ?_) hfresh⟩
    · simp only [Post.owners, Post.reply, hheld, Option.toList_some, Option.toList_none,
        List.map_cons, List.map_nil, List.count_append, List.count_cons, List.count_nil]
      omega
    · exact (List.mem_append.mp hother).elim (List.mem_append_left _) nofun
    · simp [Post.begun, hheld]

/-- The arms of `select`. -/
theorem Post.Inv.select {a : Action} (h : p.Inv) (hphase : p.world.actor.phase = .select)
    (ha : a.receives = false) :
    Ensures (fun world => world.Inv → ({ p with world := world }.record p.world.actor a).close.Inv)
      (stepSelect p.world a) := by
  obtain ⟨hidle, hheld, hnot, -⟩ : p.At .select := hphase ▸ h.place
  simp only [Post.record, hphase]
  fun_cases stepSelect p.world a with
  | case1 id r _ _ => exact fun hworld => h.quiet hworld (.exchange r)
  | case4 id c stopped r hfind _ =>
    have hid := List.find?_some hfind
    obtain rfl : r.id = id := by simpa using hid
    exact h.executed hphase (List.mem_of_find?_eq_some hfind) c stopped
  | case7 => exact fun hworld => Post.inv_evict hworld h.books h.linked hidle (by simp [hnot])
  | case8 id _ _ =>
    exact fun hworld => Post.inv_close hworld h.books
      (.inr ⟨(by rintro ⟨⟩), ⟨h.linked.pending, h.linked.running⟩, hidle, hheld, hnot⟩)
  | case11 _ => exact fun hworld => Post.inv_close hworld h.books (.inl ⟨rfl, hidle⟩)
  | case13 message _ => cases ha
  | _ => trivial

/-- **A step of the mailbox**, of a request it runs, or of the driver. -/
theorem Post.Inv.mailbox {a : Action} {p' : Post} (h : p.Inv) (ha : a.receives = false)
    (hstep : p.mailbox a = some p') : p'.Inv := by
  obtain ⟨world, hmailbox, rfl⟩ := Option.map_eq_some_iff.mp hstep
  have hworld := (h.world.step _).of_eq hmailbox
  revert hmailbox
  fun_cases Mailbox.step p.world a with
  | case1 a hdriver _ =>
    intro hdrive
    have hrecord : { p with world := world }.record p.world.actor a =
        { p with world := world } := by
      unfold Post.record
      split
      all_goals first | rfl | cases hdriver
    rw [hrecord]
    exact h.quiet hworld ((Quiet.stepDriver _ _).of_eq hdrive)
  | case3 hphase _ =>
    rintro ⟨⟩
    simp only [Post.record, hphase]
    exact h.advance hphase hworld
  | case4 request hphase _ =>
    rintro ⟨⟩
    simp only [Post.record, hphase]
    exact h.start hphase hworld
  | case5 a hphase _ => exact fun hmailbox => (h.select hphase ha).of_eq hmailbox hworld
  | case6 hphase _ =>
    rintro ⟨⟩
    obtain ⟨hidle, -⟩ : p.At (.evicting true .stop) := hphase ▸ h.place
    obtain ⟨replies, heq, hbooks⟩ := Post.Books.evicted
      (p := { p with world := p.world.stop }) h.books
    simp only [Post.record, hphase]
    rw [heq] at hbooks ⊢
    exact Post.inv_close hworld hbooks (.inl ⟨rfl, hidle⟩)
  | case7 id hphase _ =>
    rintro ⟨⟩
    obtain ⟨hidle, hdrained⟩ : p.At (.evicting true (.settle id)) := hphase ▸ h.place
    obtain ⟨replies, heq, hbooks⟩ := Post.Books.evicted
      (p := { p with world := { p.world with actor := p.world.actor.settle id } }) h.books
    have hnot : p.drained = false := Bool.eq_false_iff.mpr fun htrue => by cases (hdrained htrue).1
    simp only [Post.record, hphase]
    rw [heq] at hbooks ⊢
    exact Post.inv_close hworld hbooks
      (.inr ⟨(by rintro ⟨⟩), ⟨h.linked.pending, h.linked.running⟩, hidle, rfl, hnot⟩)
  | _ => rintro ⟨⟩

/-- A message is received in `select`. -/
theorem Post.Inv.received {w' : World} {message : Option Message} (h : p.Inv)
    (hstep : Mailbox.step p.world (.received message) = some w') :
    w'.Inv ∧ p.At .select ∧ w' = { p.world with actor := p.world.actor.receive message } := by
  refine ⟨(h.world.step _).of_eq hstep, ?_⟩
  revert hstep
  generalize ha : Action.received message = a
  fun_cases Mailbox.step p.world a with
  | case1 a hdriver _ =>
    subst ha
    cases hdriver
  | case5 a hphase _ =>
    subst ha
    intro hstep
    obtain ⟨-, hw'⟩ := Option.ite_none_right_eq_some.mp hstep
    exact ⟨hphase ▸ h.place, (Option.some.inj hw').symm⟩
  | case2 => rintro ⟨⟩
  | case8 => rintro ⟨⟩
  | _ => cases ha

/-- **The arm of `requests.recv()`.** -/
theorem Post.Inv.receive {p' : Post} (h : p.Inv) (hstep : p.receive = some p') : p'.Inv := by
  revert hstep
  fun_cases Post.receive p with
  | case1 caller rest hchannel =>
    intro hstep
    obtain ⟨request, hrequest, hbound⟩ := Option.bind_eq_some_iff.mp hstep
    obtain ⟨world, hmailbox, rfl⟩ := Option.map_eq_some_iff.mp hbound
    obtain ⟨hworld, ⟨hidle, hheld, hnot, -⟩, rfl⟩ := h.received hmailbox
    unfold Actor.receive at hworld ⊢
    dsimp only at hworld ⊢
    by_cases hrejected : p.world.actor.rejected request = true
    · rw [if_pos hrejected] at hworld ⊢
      rw [if_pos hrejected]
      refine ⟨hworld, h.books.reply (fun other => ?_) (fun _ hother => hother)
        fun _ => refused_rejection hrejected hrequest,
        ⟨h.linked.pending, h.linked.running⟩, hidle, hheld, hnot⟩
      simp only [Post.owners, Post.reply, hchannel, List.filterMap_cons, Letter.caller,
        List.count_append, List.count_cons]
      omega
    · rw [if_neg hrejected] at hworld ⊢
      rw [if_neg hrejected]
      refine ⟨hworld, h.books.move (fun other => ?_) h.books.began, ⟨?_, h.linked.running⟩, hidle,
        hheld, hnot⟩
      · simp only [Post.owners, hchannel, List.filterMap_cons, Letter.caller,
          List.count_append, List.count_cons, List.count_nil]
        omega
      · rw [List.map_append, List.map_append, h.linked.pending]
        simp [hrequest]
  | case2 rest hchannel =>
    intro hstep
    obtain ⟨world, hmailbox, rfl⟩ := Option.map_eq_some_iff.mp hstep
    obtain ⟨hworld, ⟨hidle, hheld, hnot, -⟩, rfl⟩ := h.received hmailbox
    refine ⟨hworld, h.books.move (fun other => ?_) h.books.began,
      ⟨h.linked.pending, h.linked.running⟩, hidle, hheld, hnot⟩
    simp only [Post.owners, hchannel, List.filterMap_cons, Letter.caller]
  | case3 => rintro ⟨⟩
  | case4 =>
    intro hstep
    obtain ⟨world, hmailbox, rfl⟩ := Option.map_eq_some_iff.mp hstep
    obtain ⟨hworld, ⟨hidle, hheld, hnot, -⟩, rfl⟩ := h.received hmailbox
    exact ⟨hworld, h.books, ⟨h.linked.pending, h.linked.running⟩, hidle, hheld, hnot⟩

/-- What the mailbox has in its hands does not depend on its channel. -/
theorem Post.At.channel {phase : Phase} (h : p.At phase) (hphase : phase ≠ .stopped)
    (channel : List Letter) : { p with channel := channel }.At phase := by
  cases phase with
  | stopped => exact absurd rfl hphase
  | _ => exact h

/-- **`submit_traced`.** -/
theorem Post.Inv.submit (h : p.Inv) (request : Request) : (p.submit request).Inv := by
  have hlookup : ∀ caller ∈ p.owners, (p.requests ++ [request])[caller]? = p.requests[caller]? :=
    fun caller hcaller => h.books.lookup request (List.mem_append_left _ hcaller)
  have hpending : p.pending.map ((p.requests ++ [request])[·]?) =
      p.world.actor.pending.map some := by
    refine (List.map_congr_left fun caller hcaller => ?_).trans h.linked.pending
    exact hlookup caller (by simp [Post.owners, hcaller])
  have hplace : Post.At { p with requests := p.requests ++ [request] } p.world.actor.phase := by
    have hplace := h.place
    generalize p.world.actor.phase = phase at hplace ⊢
    cases phase with
    | starting other =>
      obtain ⟨caller, hstarting, hrequest, hrest⟩ := hplace
      refine ⟨caller, hstarting, (hlookup caller ?_).trans hrequest, hrest⟩
      simp [Post.owners, hstarting]
    | _ => exact hplace
  unfold Post.submit Post.closed
  dsimp only
  by_cases hphase : p.world.actor.phase = .stopped
  · rw [if_pos (decide_eq_true hphase)]
    refine ⟨h.world, h.books.submit request List.perm_middle (List.subset_cons_self _ _) ?_,
      ⟨hpending, h.linked.running⟩, ?_⟩
    · intro caller answer hmem
      refine (List.mem_cons.mp hmem).symm.imp_right fun heq => ?_
      exact (Prod.mk.inj heq).2
    · show Post.At _ p.world.actor.phase
      rw [hphase] at hplace ⊢
      exact hplace
  · rw [if_neg (by simpa using hphase)]
    refine ⟨h.world, h.books.submit request ?_ (List.Subset.refl _) fun _ _ hmem => .inl hmem,
      ⟨hpending, h.linked.running⟩, hplace.channel hphase _⟩
    rw [List.perm_iff_count]
    intro caller
    simp only [Post.owners, List.filterMap_append, List.filterMap_cons, List.filterMap_nil,
      Letter.caller, List.count_append, List.count_cons, List.count_nil]
    omega

/-- **One step.** -/
theorem Post.Inv.step {a : PostAction} {p' : Post} (h : p.Inv) (hstep : p.step a = some p') :
    p'.Inv := by
  revert hstep
  fun_cases Post.step p a with
  | case1 request =>
    rintro ⟨⟩
    exact h.submit request
  | case3 hopen =>
    rintro ⟨⟩
    refine ⟨h.world, h.books.move (fun other => ?_) h.books.began,
      ⟨h.linked.pending, h.linked.running⟩, h.place.channel (of_decide_eq_false hopen.2) _⟩
    simp [Post.owners, List.filterMap_cons, Letter.caller]
  | case5 =>
    rintro ⟨⟩
    refine ⟨h.world, h.books, ⟨h.linked.pending, h.linked.running⟩, ?_⟩
    have hplace := h.place
    show Post.At _ p.world.actor.phase
    generalize p.world.actor.phase = phase at hplace ⊢
    cases phase <;> exact hplace
  | case6 => exact h.receive
  | case8 a ha => exact h.mailbox (Bool.eq_false_iff.mpr ha)
  | case9 hwaits =>
    rintro ⟨⟩
    refine Post.inv_drop h.world h.books ?_
    have hplace := h.place
    generalize p.world.actor.phase = phase at hplace hwaits
    cases phase with
    | startReady => exact hplace.1
    | select => exact hplace.1
    | evicting b next => exact hplace.1
    | _ => cases hwaits
  | _ => rintro ⟨⟩

theorem Post.inv_initial : Post.initial.Inv where
  world := Mailbox.inv_initial
  books := ⟨.refl _, nofun, nofun, nofun, nofun⟩
  linked := ⟨rfl, rfl⟩
  place := ⟨rfl, rfl, rfl⟩

/-- Once everything is drained the mailbox owns nothing. -/
theorem Post.Inv.emptied (h : p.Inv) (hdrained : p.drained = true) :
    p.pending = [] ∧ p.starting = none ∧ p.running = [] := by
  have hplace := h.place
  generalize p.world.actor.phase = phase at hplace
  cases phase with
  | startReady => cases hplace.2.2.symm.trans hdrained
  | starting request =>
    obtain ⟨caller, -, -, -, -, hnot⟩ := hplace
    cases hnot.symm.trans hdrained
  | select => cases hplace.2.2.1.symm.trans hdrained
  | evicting b next =>
    obtain ⟨-, hpending, hrunning⟩ := hplace.2 hdrained
    exact ⟨hpending, hplace.1, hrunning⟩
  | stopped =>
    have hnone : p.owners = [] := hplace
    simp only [Post.owners, List.append_eq_nil_iff, Option.toList_eq_nil_iff,
      List.map_eq_nil_iff] at hnone
    exact ⟨hnone.1.1.1.2, hnone.1.1.2, hnone.1.2⟩

end

/-! ## The result -/

/-- **Exactly one reply.**  In every run of the mailbox, its callers, the requests it
runs and the driver:

* each submitted request is owned once or answered once; when the mailbox has ended,
  all of them are answered, and what is pending while it waits, waits for a request
  that runs;
* a request that was never started is answered with `HostUnavailable`, or with the
  error of `validate` if it is not valid;
* a request whose future was dropped in `running` is answered with
  `outcome_unknown`;
* what is started while the mailbox drains is a disconnect event;
* when the loop ends because everything was drained, nothing is pending or runs. -/
theorem exactly_one_reply {actions : List PostAction} {p : Post}
    (hrun : Transition.run Post.step Post.initial actions = some p) :
    ((∀ caller < p.requests.length,
        p.owners.count caller + (p.replies.map Prod.fst).count caller = 1) ∧
      (∀ caller ∈ p.replies.map Prod.fst, caller < p.requests.length) ∧
      (p.world.actor.phase = .stopped → p.owners = []) ∧
      (p.world.actor.phase = .select → p.pending ≠ [] → p.running ≠ [])) ∧
    (∀ caller answer, (caller, answer) ∈ p.replies → caller ∉ p.started.map Prod.fst →
      answer = .unavailable ∨ answer = .invalid ∧
        ∃ request, p.requests[caller]? = some request ∧ request.valid = false) ∧
    (∀ caller ∈ p.dropped, (caller, .unknown) ∈ p.replies) ∧
    (∀ caller operation, (caller, operation, true) ∈ p.started → operation = .socket true) ∧
    (p.drained = true → p.pending = [] ∧ p.starting = none ∧ p.running = []) := by
  have hinv : p.Inv :=
    Transition.run_invariant (fun _ _ _ hinv hstep => hinv.step hstep) Post.inv_initial hrun
  refine ⟨⟨fun caller hcaller => ?_, fun caller hcaller => ?_, fun hstopped => ?_, ?_⟩,
    hinv.books.unstarted, hinv.books.dropped, hinv.books.draining, hinv.emptied⟩
  · rw [← List.count_append, hinv.books.conserved.count_eq]
    exact List.count_eq_one_of_mem List.nodup_range (List.mem_range.mpr hcaller)
  · exact List.mem_range.mp (hinv.books.conserved.subset (List.mem_append_right _ hcaller))
  · have hplace := hinv.place
    rw [hstopped] at hplace
    exact hplace
  · intro hselect hpending hrunning
    obtain ⟨-, -, -, hwaits⟩ : p.At .select := hselect ▸ hinv.place
    -- the mailbox is blocked, and on a request that runs
    cases hblocked : p.world.actor.blockedOn with
    | none => exact hpending (hinv.linked.pending_nil.mp (hwaits hblocked))
    | some id =>
      rcases hinv.world.2 with hstopped | hcore
      · cases hselect.symm.trans hstopped
      · have hphase : p.world.actor.PhaseInv p.world.admission.unseen .select :=
          hselect ▸ hcore.phase
        have hmem := hphase id hblocked
        rw [hinv.linked.running_nil.mpr hrunning] at hmem
        cases hmem

/-- The first request runs when the mailbox is aborted, the second one is not valid,
the third one is still in the channel, and the fourth one comes too late. -/
def abortWhileRunning : List PostAction :=
  [.mailbox .advance, .submit ⟨.method, true⟩, .submit ⟨.method, false⟩,
    .submit ⟨.method, true⟩, .receive, .mailbox .advance, .mailbox .advance, .mailbox .advance,
    .receive, .mailbox .advance, .abort, .submit ⟨.method, true⟩]

def abortWhileRunningEnd : Post :=
  Transition.final Post.step Post.initial abortWhileRunning

theorem exactly_one_reply_aborted :
    abortWhileRunningEnd.replies =
      [(3, .unavailable), (2, .unavailable), (0, .unknown), (1, .invalid)] ∧
    (∀ caller < abortWhileRunningEnd.requests.length, abortWhileRunningEnd.owners.count caller +
        (abortWhileRunningEnd.replies.map Prod.fst).count caller = 1) ∧
    ∀ caller ∈ abortWhileRunningEnd.dropped, (caller, .unknown) ∈ abortWhileRunningEnd.replies := by
  have hrun : Transition.run Post.step Post.initial abortWhileRunning =
      some abortWhileRunningEnd := rfl
  have h := exactly_one_reply hrun
  exact ⟨by decide, h.1.1, h.2.2.1⟩

end DurableActors.Ports.Mailbox
