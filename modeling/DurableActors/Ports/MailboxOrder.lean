import DurableActors.Ports.MailboxReplies

/-!
# Requests are started in order

From the channel to `start` a request keeps its place in the line of all that were
submitted: a step moves the line on, lets a caller leave, or adds the newest one.
-/

namespace DurableActors.Ports.Mailbox

open Verified

/-- The callers in the order of their turns: those whose requests were started, the one whose
request is being started, and those who wait. -/
def Post.line (p : Post) : List Nat :=
  (p.started.map Prod.fst).reverse ++
    (p.starting.toList ++ (p.pending ++ p.channel.filterMap Letter.caller))

/-- The line is part of all callers in the order in which they have submitted. -/
def Post.InLine (p : Post) : Prop := p.line.Sublist (List.range p.requests.length)

namespace Post.InLine

variable {p : Post} (h : p.InLine)
include h

theorem drop : p.drop.InLine := by
  refine List.Sublist.trans ?_ h
  show ((p.started.map Prod.fst).reverse ++ []).Sublist p.line
  exact (List.nil_sublist _).append_left _

theorem close : p.close.InLine := by
  unfold Post.close
  split
  · exact h.drop
  · exact h

theorem advanced (hidle : p.starting = none) (m : Actor) : (p.advanced m).InLine := by
  fun_cases Post.advanced p m with
  | case1 _ _ _ _ hpending =>
    refine List.Sublist.trans ?_ h
    simp [line, Post.reply, hpending, hidle]
  | case2 _ _ _ _ hpending => simpa [InLine, line, hpending, hidle] using h
  | _ => exact h

theorem record {m : Actor} (hidle : m.phase = .startReady → p.starting = none) (a : Action) :
    (p.record m a).InLine := by
  fun_cases Post.record p m a with
  | case1 hphase => exact h.advanced (hidle hphase) m
  | case2 request =>
    fun_cases Post.begin p m request with
    | case1 => exact h
    | case2 caller hstarting => simpa [InLine, line, hstarting] using h
  | case3 id c stopped =>
    fun_cases Post.take p id (HostRequest.recoveryOf m.interleaved stopped c) c.result
    all_goals exact h
  | case4 =>
    fun_cases Post.evicted p
    all_goals exact h
  | case5 => exact h

theorem receive {p' : Post} (hstep : p.receive = some p') : p'.InLine := by
  revert hstep
  fun_cases Post.receive p with
  | case1 caller rest hchannel =>
    intro hstep
    obtain ⟨request, -, hstep⟩ := Option.bind_eq_some_iff.mp hstep
    obtain ⟨world, -, rfl⟩ := Option.map_eq_some_iff.mp hstep
    dsimp only
    split
    · refine List.Sublist.trans ?_ h
      simp [line, Post.reply, hchannel, Letter.caller]
    · simpa [InLine, line, hchannel, Letter.caller] using h
  | case2 rest hchannel =>
    intro hstep
    obtain ⟨world, -, rfl⟩ := Option.map_eq_some_iff.mp hstep
    simpa [InLine, line, hchannel, List.filterMap_cons, Letter.caller] using h
  | case3 => rintro ⟨⟩
  | case4 =>
    intro hstep
    obtain ⟨world, -, rfl⟩ := Option.map_eq_some_iff.mp hstep
    exact h

theorem submit (request : Request) : (p.submit request).InLine := by
  unfold Post.submit InLine
  split
  · refine List.Sublist.trans h ?_
    simp [Post.reply, List.range_succ]
  · simpa [line, Letter.caller, List.range_succ] using h.append_right [p.requests.length]

theorem step {p' : Post} {a : PostAction} (hinv : p.Inv) (hstep : p.step a = some p') :
    p'.InLine := by
  revert hstep
  fun_cases Post.step p a with
  | case1 request => rintro ⟨⟩; exact h.submit request
  | case3 =>
    rintro ⟨⟩
    simpa [InLine, line, List.filterMap_cons, Letter.caller] using h
  | case5 => rintro ⟨⟩; exact h
  | case6 => exact h.receive
  | case8 a =>
    intro hstep
    obtain ⟨world, -, rfl⟩ := Option.map_eq_some_iff.mp hstep
    refine close (record (p := { p with world := world }) h (fun hphase => ?_) a)
    exact (hphase ▸ hinv.place : p.At .startReady).1
  | case9 => rintro ⟨⟩; exact h.drop
  | _ => rintro ⟨⟩

end Post.InLine

/-- **Requests are started in the order in which they were submitted**, each at most once, and
never behind one that was submitted later, whatever the callers, the driver and the mailbox
do in between. -/
theorem starts_in_order {actions : List PostAction} {p : Post}
    (hrun : Transition.run Post.step Post.initial actions = some p) : p.line.Pairwise (· < ·) := by
  have hkeeps : ∀ (p : Post) (a : PostAction) (p' : Post), p.Inv ∧ p.InLine →
      p.step a = some p' → p'.Inv ∧ p'.InLine :=
    fun _ _ _ h hstep => ⟨h.1.step hstep, h.2.step h.1 hstep⟩
  have hline := (Transition.run_invariant hkeeps
    ⟨Post.inv_initial, List.Sublist.refl _⟩ hrun).2
  exact List.pairwise_lt_range.sublist hline

theorem starts_in_order_rejected :
    ∃ p, Transition.run Post.step Post.initial (abortWhileRunning.take 10) = some p ∧
      p.line = [0, 2] ∧ p.line.Pairwise (· < ·) := by
  obtain ⟨p, hrun, hline⟩ : ∃ p, Transition.run Post.step Post.initial
      (abortWhileRunning.take 10) = some p ∧ p.line = [0, 2] := ⟨_, rfl, by decide⟩
  exact ⟨p, hrun, hline, starts_in_order hrun⟩

end DurableActors.Ports.Mailbox
