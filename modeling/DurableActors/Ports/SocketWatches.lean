import DurableActors.Ports.SocketBus
import Mathlib.Data.List.Nodup

/-!
# Watches and counts

A watch of an actor counts from the moment it enters until it leaves.  `watched` has
the counts, and `subscribed` lists the actors that are counted, for the listener to
start from after a lost connection.
-/

namespace DurableActors.Ports.SocketBus

open Verified

variable {K : Type} [DecidableEq K]
variable {bus : Bus K} {watch : Watch K}

/-! ## Counting -/

/-- The watches of an actor that count. -/
def Watch.counts (actor : K) (watch : Watch K) : Bool :=
  watch.actor = actor && watch.state ≠ .ended

def Bus.count (bus : Bus K) (actor : K) : Nat := bus.watches.countP (Watch.counts actor)

/-- The `i`-th watch is one of the actor, and counts. -/
def Bus.Live (bus : Bus K) (actor : K) (i : Nat) : Prop :=
  ∃ watch : Watch K, bus.watches[i]? = some watch ∧ watch.counts actor = true

/-- `watched` has the counts, `subscribed` the actors that are counted. -/
structure Bus.Counted (bus : Bus K) : Prop where
  watched (actor : K) :
    bus.watched actor = if bus.count actor = 0 then none else some (bus.count actor)
  listed (actor : K) : actor ∈ bus.subscribed ↔ bus.count actor ≠ 0

theorem Watch.counts_iff {actor : K} :
    watch.counts actor = true ↔ watch.actor = actor ∧ watch.state ≠ .ended := by
  simp [Watch.counts]

theorem Bus.not_live_of_count {actor : K} (h : bus.count actor = 0) (i : Nat) :
    ¬ bus.Live actor i := by
  rintro ⟨watch, hget, hcounts⟩
  exact List.countP_eq_zero.mp h watch (List.mem_of_getElem? hget) hcounts

theorem Bus.exists_live {actor : K} (h : bus.count actor ≠ 0) :
    ∃ (i : Nat) (watch : Watch K), bus.watches[i]? = some watch ∧ watch.counts actor = true := by
  obtain ⟨watch, hmem, hcounts⟩ := List.countP_pos_iff.mp (Nat.pos_of_ne_zero h)
  obtain ⟨i, hget⟩ := List.getElem?_of_mem hmem
  exact ⟨i, watch, hget, hcounts⟩

theorem Bus.Live.count_ne_zero {actor : K} {i : Nat} (h : bus.Live actor i) : bus.count actor ≠ 0 :=
  fun hzero => Bus.not_live_of_count hzero i h

omit [DecidableEq K] in
/-- Changing one watch changes the count by what it counted before and after. -/
theorem countP_modify_of_getElem? (p : Watch K → Bool) (f : Watch K → Watch K)
    {watches : List (Watch K)} {i : Nat} (hget : watches[i]? = some watch) :
    (watches.modify i f).countP p + (if p watch then 1 else 0) =
      watches.countP p + (if p (f watch) then 1 else 0) := by
  induction watches generalizing i with
  | nil => simp at hget
  | cons first rest ih =>
    cases i with
    | zero =>
      cases hget
      simp only [List.modify_zero_cons, List.countP_cons]
      omega
    | succ i =>
      have hrest := ih (i := i) hget
      simp only [List.modify_succ_cons, List.countP_cons]
      omega

theorem Bus.count_enter (bus : Bus K) (actor other : K) :
    (bus.enter actor).count other = bus.count other + (if other = actor then 1 else 0) := by
  by_cases h : other = actor
  · subst h
    simp [Bus.count, Bus.enter, Watch.counts]
  · have h' : actor ≠ other := fun h' => h h'.symm
    simp [Bus.count, Bus.enter, Watch.counts, h, h']

theorem Bus.live_enter {actor other : K} {i : Nat} :
    (bus.enter actor).Live other i ↔
      bus.Live other i ∨ (other = actor ∧ i = bus.watches.length) := by
  simp only [Bus.Live, Bus.enter]
  rcases Nat.lt_trichotomy i bus.watches.length with hi | hi | hi
  · rw [List.getElem?_append_left hi]
    constructor
    · exact fun h => .inl h
    · rintro (h | ⟨-, h⟩)
      · exact h
      · omega
  · subst hi
    rw [List.getElem?_concat_length, List.getElem?_eq_none (Nat.le_refl _)]
    constructor
    · rintro ⟨watch, hwatch, hcounts⟩
      cases hwatch
      exact .inr ⟨(Watch.counts_iff.mp hcounts).1.symm, rfl⟩
    · rintro (⟨watch, hwatch, -⟩ | ⟨hactor, -⟩)
      · cases hwatch
      · exact ⟨_, rfl, Watch.counts_iff.mpr ⟨hactor.symm, by simp⟩⟩
  · rw [List.getElem?_eq_none (by simp; omega), List.getElem?_eq_none (by omega)]
    simp
    omega

/-- A watch that enters is counted and subscribes. -/
theorem Bus.Counted.enter (h : bus.Counted) (actor : K) :
    (bus.enter actor).Counted ∧ (bus.enter actor).commands =
        bus.commands ++ [.subscribe actor (bus.count actor == 0) bus.watches.length] := by
  have hsockets : (bus.watched actor).getD 0 = bus.count actor := by
    rw [h.watched]
    by_cases hzero : bus.count actor = 0
    · rw [if_pos hzero, hzero]
      rfl
    · rw [if_neg hzero]
      rfl
  have hload : ((bus.watched actor).getD 0 + 1 == 1) = (bus.count actor == 0) := by
    rw [hsockets]
    cases bus.count actor <;> rfl
  refine ⟨⟨fun other => ?_, fun other => ?_⟩, ?_⟩
  · rw [Bus.count_enter]
    by_cases hother : other = actor
    · subst hother
      simp [Bus.enter, hsockets]
    · simpa [Bus.enter, hother] using h.watched other
  · rw [Bus.count_enter]
    have hlisted := h.listed other
    simp only [Bus.enter, hload]
    by_cases hother : other = actor
    · subst hother
      by_cases hzero : bus.count other = 0
      · simp [hzero]
      · simpa [hzero] using hlisted
    · by_cases hzero : bus.count actor = 0
      · simpa [hzero, hother] using hlisted
      · simpa [hzero, hother] using hlisted
  · simp only [Bus.enter, hload]

@[simp] theorem Bus.watches_unwatch (bus : Bus K) (actor : K) :
    (bus.unwatch actor).watches = bus.watches := by
  unfold Bus.unwatch
  split
  · rfl
  · dsimp only
    generalize (if _ = 0 then _ else _ : Nat) = sockets
    by_cases hzero : sockets = 0
    · rw [if_pos hzero]
    · rw [if_neg hzero]

theorem Bus.count_setState_ended {i : Nat} (hget : bus.watches[i]? = some watch)
    (hstate : watch.state ≠ .ended) (actor : K) :
    (bus.setState i .ended).count actor + (if actor = watch.actor then 1 else 0) =
      bus.count actor := by
  have hcount := countP_modify_of_getElem? (Watch.counts actor)
    (fun watch => { watch with state := .ended }) hget
  have hbefore : watch.counts actor = decide (actor = watch.actor) := by
    simp [Watch.counts, hstate, eq_comm]
  have hafter : Watch.counts actor { watch with state := .ended } = false := by
    simp [Watch.counts]
  rw [hbefore, hafter] at hcount
  simpa [Bus.count, Bus.setState] using hcount

/-- A watch that leaves is uncounted, and the last one sends the unsubscribe command. -/
theorem Bus.Counted.leave (h : bus.Counted) {i : Nat}
    (hget : bus.watches[i]? = some watch) (hstate : watch.state ≠ .ended) :
    ((bus.setState i .ended).unwatch watch.actor).Counted ∧
      ((bus.setState i .ended).unwatch watch.actor).commands = bus.commands ++
        if (bus.setState i .ended).count watch.actor = 0 then [.unsubscribe watch.actor]
        else [] := by
  have hcount := Bus.count_setState_ended hget hstate
  have hactor := hcount watch.actor
  rw [if_pos rfl] at hactor
  have hwatched : (bus.setState i .ended).watched watch.actor =
      some ((bus.setState i .ended).count watch.actor + 1) := by
    show bus.watched watch.actor = _
    rw [h.watched, if_neg (by omega), hactor]
  have hothers : ∀ other, other ≠ watch.actor →
      (bus.setState i .ended).count other = bus.count other := by
    intro other hother
    have hother' := hcount other
    rwa [if_neg hother, Nat.add_zero] at hother'
  have hupdated : ∀ value, value = (if (bus.setState i .ended).count watch.actor = 0 then none
      else some ((bus.setState i .ended).count watch.actor)) → ∀ other,
      Function.update bus.watched watch.actor value other =
        if (bus.setState i .ended).count other = 0 then none
        else some ((bus.setState i .ended).count other) := by
    rintro value rfl other
    by_cases hother : other = watch.actor
    · rw [hother, Function.update_self]
    · rw [Function.update_of_ne hother, hothers other hother]
      exact h.watched other
  by_cases hzero : (bus.setState i .ended).count watch.actor = 0
  · have hunwatch : (bus.setState i .ended).unwatch watch.actor =
        { bus.setState i .ended with
          watched := Function.update bus.watched watch.actor none
          subscribed := bus.subscribed.filter (· ≠ watch.actor)
          commands := bus.commands ++ [.unsubscribe watch.actor] } := by
      simp only [Bus.unwatch, hwatched, hzero]
      rfl
    rw [hunwatch, if_pos hzero]
    refine ⟨⟨hupdated none (if_pos hzero).symm, fun other => ?_⟩, rfl⟩
    show other ∈ bus.subscribed.filter (· ≠ watch.actor) ↔
      (bus.setState i .ended).count other ≠ 0
    by_cases hother : other = watch.actor
    · subst hother
      simp [hzero]
    · rw [hothers other hother, List.mem_filter]
      simpa [hother] using h.listed other
  · have hunwatch : (bus.setState i .ended).unwatch watch.actor =
        { bus.setState i .ended with
          watched := Function.update bus.watched watch.actor
            (some ((bus.setState i .ended).count watch.actor)) } := by
      simp only [Bus.unwatch, hwatched, Nat.add_sub_cancel, Nat.succ_ne_zero, if_false, hzero]
      rfl
    rw [hunwatch, if_neg hzero, List.append_nil]
    refine ⟨⟨hupdated _ (if_neg hzero).symm, fun other => ?_⟩, rfl⟩
    show other ∈ bus.subscribed ↔ (bus.setState i .ended).count other ≠ 0
    by_cases hother : other = watch.actor
    · subst hother
      rw [h.listed]
      omega
    · rw [hothers other hother]
      exact h.listed other

omit [DecidableEq K] in
theorem Bus.getElem?_setState (bus : Bus K) (i j : Nat) (state : WatchState) :
    (bus.setState i state).watches[j]? =
      (bus.watches[j]?).map fun watch =>
        if i = j then { watch with state := state } else watch := by
  simp only [Bus.setState, List.getElem?_modify]
  by_cases hij : i = j
  · simp [hij]
  · simp [hij]

omit [DecidableEq K] in
theorem Bus.getElem?_answer (bus : Bus K) (i j : Nat) (ok : Bool) :
    (bus.answer i ok).watches[j]? = (bus.watches[j]?).map fun watch =>
      if i = j ∧ watch.state = .waiting then { watch with state := .answered ok } else watch := by
  simp only [Bus.answer, List.getElem?_modify]
  by_cases hij : i = j
  · simp [hij]
  · simp [hij]

omit [DecidableEq K] in
/-- What a watch is after the answer, and what it was before. -/
theorem Bus.of_getElem?_answer {i j : Nat} {ok : Bool}
    (hget : (bus.answer i ok).watches[j]? = some watch) :
    ∃ before : Watch K, bus.watches[j]? = some before ∧ watch.actor = before.actor ∧
      (watch = before ∨ (i = j ∧ before.state = .waiting ∧ watch.state = .answered ok)) := by
  rw [Bus.getElem?_answer] at hget
  obtain ⟨before, hbefore, hwatch⟩ := Option.map_eq_some_iff.mp hget
  refine ⟨before, hbefore, ?_⟩
  by_cases hcase : i = j ∧ before.state = .waiting
  · rw [if_pos hcase] at hwatch
    subst hwatch
    exact ⟨rfl, .inr ⟨hcase.1, hcase.2, rfl⟩⟩
  · rw [if_neg hcase] at hwatch
    exact ⟨by rw [hwatch], .inl hwatch.symm⟩

theorem Bus.live_answer {actor : K} {i j : Nat} {ok : Bool}
    (h : (bus.answer i ok).Live actor j) : bus.Live actor j := by
  obtain ⟨watch, hget, hcounts⟩ := h
  obtain ⟨before, hbefore, hactor, hcase⟩ := Bus.of_getElem?_answer hget
  refine ⟨before, hbefore, ?_⟩
  rcases hcase with rfl | ⟨-, hwaiting, -⟩
  · exact hcounts
  · exact Watch.counts_iff.mpr ⟨hactor ▸ (Watch.counts_iff.mp hcounts).1, by simp [hwaiting]⟩

theorem Bus.count_answer (bus : Bus K) (i : Nat) (ok : Bool) (actor : K) :
    (bus.answer i ok).count actor = bus.count actor := by
  cases hget : bus.watches[i]? with
  | none =>
    have hsame : (bus.answer i ok).watches = bus.watches :=
      List.modify_eq_self (List.getElem?_eq_none_iff.mp hget)
    rw [Bus.count, Bus.count, hsame]
  | some watch =>
    have hcount := countP_modify_of_getElem? (Watch.counts actor)
      (fun watch : Watch K =>
        if watch.state = .waiting then { watch with state := .answered ok } else watch) hget
    have hsame : Watch.counts actor
        (if watch.state = .waiting then { watch with state := .answered ok } else watch) =
        watch.counts actor := by
      by_cases hwaiting : watch.state = .waiting
      · simp [Watch.counts, hwaiting]
      · rw [if_neg hwaiting]
    rw [hsame] at hcount
    exact Nat.add_right_cancel hcount

theorem Bus.Counted.answer (h : bus.Counted) (i : Nat) (ok : Bool) : (bus.answer i ok).Counted := by
  refine ⟨fun actor => ?_, fun actor => ?_⟩
  · rw [Bus.count_answer]
    exact h.watched actor
  · rw [Bus.count_answer]
    exact h.listed actor

end DurableActors.Ports.SocketBus
