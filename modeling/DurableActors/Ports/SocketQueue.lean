import DurableActors.Ports.SocketWatches

/-!
# The queue between the watches and the listener

`Queue` says what holds of the commands that are pending whatever the listener
is doing: the counts agree with the watches, a watch has one command, and a
watch whose command is pending was not answered.
-/

namespace DurableActors.Ports.SocketBus

open Verified

variable {K : Type} [DecidableEq K]
variable {actor other : K} {i j : Nat} {bus : Bus K}

def Command.watch? : Command K → Option Nat
  | .subscribe _ _ i => some i
  | .unsubscribe _ => none

/-- Each waiting watch has one command in the queue. -/
structure Queue (bus : Bus K) (pending : List (Command K)) : Prop where
  counted : bus.Counted
  /-- A watch has one command. -/
  ids : (pending.filterMap Command.watch?).Nodup
  /-- A watch whose command is pending was not answered. -/
  owned {actor : K} {load : Bool} {i : Nat} : .subscribe actor load i ∈ pending →
    ∃ watch : Watch K, bus.watches[i]? = some watch ∧ watch.actor = actor ∧
      (watch.state = .waiting ∨ watch.state = .ended)

/-! ## Watches before and after -/

theorem Bus.of_getElem?_enter {watch : Watch K}
    (hget : (bus.enter actor).watches[i]? = some watch) :
    bus.watches[i]? = some watch ∨ watch = ⟨actor, .waiting⟩ := by
  have hwatches : (bus.enter actor).watches = bus.watches ++ [⟨actor, .waiting⟩] := rfl
  rw [hwatches] at hget
  by_cases hi : i < bus.watches.length
  · rw [List.getElem?_append_left hi] at hget
    exact .inl hget
  · rw [List.getElem?_append_right (Nat.le_of_not_lt hi)] at hget
    exact .inr (List.mem_singleton.mp (List.mem_of_getElem? hget))

theorem Bus.of_getElem?_leave {after : Watch K}
    (hget : ((bus.setState i .ended).unwatch actor).watches[j]? = some after) :
    ∃ before : Watch K, bus.watches[j]? = some before ∧ after.actor = before.actor ∧
      (after = before ∨ after.state = .ended) := by
  rw [Bus.watches_unwatch, Bus.getElem?_setState] at hget
  obtain ⟨before, hbefore, hmap⟩ := Option.map_eq_some_iff.mp hget
  refine ⟨before, hbefore, ?_⟩
  by_cases hij : i = j
  · rw [if_pos hij] at hmap
    subst hmap
    exact ⟨rfl, .inr rfl⟩
  · rw [if_neg hij] at hmap
    exact ⟨by rw [hmap], .inl hmap.symm⟩

omit [DecidableEq K] in
theorem Bus.of_getElem?_return {after : Watch K}
    (hwatch : bus.watches[i]? = some ⟨actor, .answered true⟩)
    (hget : (bus.setState i .watching).watches[j]? = some after) :
    ∃ before : Watch K, bus.watches[j]? = some before ∧ after.actor = before.actor ∧
      (after = before ∨ (before.state = .answered true ∧ after.state = .watching)) := by
  rw [Bus.getElem?_setState] at hget
  obtain ⟨before, hbefore, hmap⟩ := Option.map_eq_some_iff.mp hget
  refine ⟨before, hbefore, ?_⟩
  by_cases hij : i = j
  · rw [if_pos hij] at hmap
    subst hij hmap
    rw [hwatch] at hbefore
    cases hbefore
    exact ⟨rfl, .inr ⟨rfl, rfl⟩⟩
  · rw [if_neg hij] at hmap
    exact ⟨by rw [hmap], .inl hmap.symm⟩

theorem Bus.live_leave (h : ((bus.setState i .ended).unwatch actor).Live other j) :
    bus.Live other j := by
  obtain ⟨after, hafter, hcounts⟩ := h
  obtain ⟨before, hget, -, rfl | hended⟩ := Bus.of_getElem?_leave hafter
  · exact ⟨after, hget, hcounts⟩
  · exact absurd hended (Watch.counts_iff.mp hcounts).2

theorem Bus.live_return (hwatch : bus.watches[i]? = some ⟨actor, .answered true⟩)
    (h : (bus.setState i .watching).Live other j) : bus.Live other j := by
  obtain ⟨after, hafter, hcounts⟩ := h
  obtain ⟨before, hget, hactor, rfl | ⟨hanswered, -⟩⟩ := Bus.of_getElem?_return hwatch hafter
  · exact ⟨after, hget, hcounts⟩
  · exact ⟨before, hget, Watch.counts_iff.mpr
      ⟨hactor ▸ (Watch.counts_iff.mp hcounts).1, by simp [hanswered]⟩⟩

theorem Bus.count_return (hwatch : bus.watches[i]? = some ⟨actor, .answered true⟩) (other : K) :
    (bus.setState i .watching).count other = bus.count other :=
  Nat.add_right_cancel (countP_modify_of_getElem? (Watch.counts other)
    (fun watch : Watch K => { watch with state := .watching }) hwatch)

/-! ## Appending to the queue -/

section Queue

variable {bus : Bus K} {pending rest : List (Command K)}

/-- The number of the next watch is free. -/
theorem Queue.fresh (h : Queue bus pending) (other : K) (load : Bool) :
    .subscribe other load bus.watches.length ∉ pending := by
  intro hmem
  obtain ⟨watch, hget, -⟩ := h.owned hmem
  rw [List.getElem?_eq_none (Nat.le_refl _)] at hget
  cases hget

theorem Queue.enter (h : Queue bus pending) (actor : K) (load : Bool) :
    Queue (bus.enter actor) (pending ++ [.subscribe actor load bus.watches.length]) := by
  have hwatches : (bus.enter actor).watches = bus.watches ++ [⟨actor, .waiting⟩] := rfl
  refine ⟨(h.counted.enter actor).1, ?_, ?_⟩
  · rw [List.filterMap_append]
    refine List.Nodup.append h.ids (by simp [Command.watch?]) ?_
    intro i hi hi'
    obtain rfl : i = bus.watches.length := by simpa [Command.watch?] using hi'
    obtain ⟨command, hmem, hcommand⟩ := List.mem_filterMap.mp hi
    cases command with
    | subscribe other load' j =>
      obtain rfl : j = bus.watches.length := by simpa [Command.watch?] using hcommand
      exact h.fresh other load' hmem
    | unsubscribe other => simp [Command.watch?] at hcommand
  · intro other load' i hmem
    rcases List.mem_append.mp hmem with hmem | hmem
    · obtain ⟨watch, hget, hwatch⟩ := h.owned hmem
      have hlt : i < bus.watches.length := (List.getElem?_eq_some_iff.mp hget).1
      refine ⟨watch, ?_, hwatch⟩
      rw [hwatches, List.getElem?_append_left hlt]
      exact hget
    · obtain ⟨rfl, -, rfl⟩ : other = actor ∧ load' = load ∧ i = bus.watches.length := by
        simpa using hmem
      refine ⟨⟨other, .waiting⟩, ?_, rfl, .inl rfl⟩
      rw [hwatches]
      exact List.getElem?_concat_length

/-- A watch that leaves appends nothing that has an owner. -/
theorem Queue.leave (h : Queue bus pending) {watch : Watch K}
    (hget : bus.watches[i]? = some watch) (hstate : watch.state ≠ .ended)
    (later : List (Command K)) (hlater : ∀ command ∈ later, command.watch? = none) :
    Queue ((bus.setState i .ended).unwatch watch.actor) (pending ++ later) := by
  refine ⟨(h.counted.leave hget hstate).1, ?_, ?_⟩
  · rw [List.filterMap_append, List.filterMap_eq_nil_iff.mpr hlater, List.append_nil]
    exact h.ids
  · intro other load j hmem
    have hmem' : .subscribe other load j ∈ pending := by
      refine (List.mem_append.mp hmem).resolve_right fun hnew => ?_
      cases hlater _ hnew
    obtain ⟨before, hget', hactor, hstate'⟩ := h.owned hmem'
    rw [Bus.watches_unwatch, Bus.getElem?_setState, hget', Option.map_some]
    by_cases hij : i = j
    · rw [if_pos hij]
      exact ⟨_, rfl, hactor, .inr rfl⟩
    · rw [if_neg hij]
      exact ⟨_, rfl, hactor, hstate'⟩

theorem Queue.return (h : Queue bus pending)
    (hwatch : bus.watches[i]? = some ⟨actor, .answered true⟩) :
    Queue (bus.setState i .watching) pending := by
  refine ⟨⟨fun other => ?_, fun other => ?_⟩, h.ids, ?_⟩
  · rw [Bus.count_return hwatch]
    exact h.counted.watched other
  · rw [Bus.count_return hwatch]
    exact h.counted.listed other
  · intro other load j hmem
    obtain ⟨before, hget, hactor, hstate⟩ := h.owned hmem
    have hij : i ≠ j := by
      rintro rfl
      rw [hwatch] at hget
      cases hget
      simp at hstate
    refine ⟨before, ?_, hactor, hstate⟩
    rw [Bus.getElem?_setState, hget, Option.map_some, if_neg hij]

/-! ## Taking the head -/

theorem Queue.suffix (h : Queue bus pending) (hsuffix : rest <:+ pending) : Queue bus rest :=
  ⟨h.counted, h.ids.sublist (hsuffix.sublist.filterMap _), fun hmem => h.owned (hsuffix.mem hmem)⟩

theorem Queue.tail {command : Command K} (h : Queue bus (command :: rest)) : Queue bus rest :=
  h.suffix (List.suffix_cons _ _)

/-- No other command of the watch is pending. -/
theorem Queue.not_mem {load : Bool} (h : Queue bus (.subscribe actor load i :: rest)) (other : K)
    (load' : Bool) : .subscribe other load' i ∉ rest := by
  intro hmem
  have hids : (i :: rest.filterMap Command.watch?).Nodup := h.ids
  exact (List.nodup_cons.mp hids).1 (List.mem_filterMap.mpr ⟨_, hmem, rfl⟩)

theorem Queue.answered {load : Bool} (h : Queue bus (.subscribe actor load i :: rest)) (ok : Bool) :
    Queue (bus.answer i ok) rest := by
  refine ⟨h.counted.answer i ok, h.tail.ids, ?_⟩
  intro other load' j hmem
  obtain ⟨before, hget, hwatch⟩ := h.tail.owned hmem
  have hij : i ≠ j := by
    rintro rfl
    exact h.not_mem other load' hmem
  refine ⟨before, ?_, hwatch⟩
  rw [Bus.getElem?_answer, hget, Option.map_some, if_neg fun hcase => hij hcase.1]

end Queue

end DurableActors.Ports.SocketBus
