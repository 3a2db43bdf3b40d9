import Mathlib.Data.List.Infix
import DurableActors.Ports.LogSegmentAdvance

/-!
# Every step of a segment keeps the invariant

The steps of the writer, of the stores and of the replicas, and with them all
steps, for any notion of a settled position.
-/

namespace DurableActors.Ports.Log

open Verified
open Verified.Transition (Ensures update_cases)

variable {cfg : SegmentConfig} {F : State → Nat → Prop}
variable {s' : State}

/-! ## Putting the invariant together -/

theorem Extends.refl (s : State) : Extends s s :=
  ⟨List.prefix_refl _, List.prefix_refl _, fun _ => List.prefix_refl _, fun _ h => ⟨h, rfl⟩,
    fun _ h => h, fun _ h => h, fun h => ⟨h, rfl⟩⟩

/-- What is new in the stores, among the requests, the tasks and the results. -/
structure Adds (cfg : SegmentConfig) (F : State → Nat → Prop) (s s' : State) : Prop where
  batches : ∀ b ∈ s'.batches, b ∈ s.batches ∨ BatchInv cfg s b
  closed : ∀ c, s'.closed = some c → s.closed = some c ∨ ∃ n, MarkAt cfg F s c n
  replicated : ∀ c, s'.replicated = some c → s.replicated = some c ∨ Archived cfg F s c
  deleted : ∀ i, (s'.replicas i).deleted = true →
    (s.replicas i).deleted = true ∨ s.replicated.isSome = true
  requests : ∀ r ∈ s'.requests, r ∈ s.requests ∨ RequestInv cfg F s r
  tasks : ∀ w task, s'.tasks w = some task → s.tasks w = some task ∨ TaskInv cfg F s task
  reads : ∀ r ∈ s'.reads, r ∈ s.reads ∨ ResultInv cfg s r

theorem Adds.refl (s : State) : Adds cfg F s s :=
  ⟨fun _ h => .inl h, fun _ h => .inl h, fun _ h => .inl h, fun _ h => .inl h,
    fun _ h => .inl h, fun _ _ h => .inl h, fun _ h => .inl h⟩

/-- A step only has to account for what is new. -/
theorem Inv.extend (hF : Settlement cfg F) {s : State} (hinv : Inv cfg F s)
    (hbase : Base cfg s') (hext : Extends s s') (hadds : Adds cfg F s s') : Inv cfg F s' where
  base := hbase
  store :=
    { batches := fun b hb =>
        ((hadds.batches b hb).elim (hinv.store.batches b) id).mono hbase hext
      closed := fun c hc => markAt_exists_mono hF hinv.base hbase hext
        ((hadds.closed c hc).elim (hinv.store.closed c) id)
      replicated := fun c hc =>
        ((hadds.replicated c hc).elim (hinv.store.replicated c) id).mono hF hinv.base hbase hext
      deleted := fun i hi => hext.replicated_isSome
        ((hadds.deleted i hi).elim (hinv.store.deleted i) id)
      requests := fun r hr =>
        ((hadds.requests r hr).elim (hinv.store.requests r) id).mono hF hinv.base hbase hext }
  tasks := fun w task htask =>
    ((hadds.tasks w task htask).elim (hinv.tasks w task) id).mono hF hinv.base hbase hext
  reads := fun r hr =>
    ((hadds.reads r hr).elim (hinv.reads r) id).mono hinv.base hbase hext

section

variable {s : State} (hF : Settlement cfg F) (hinv : Inv cfg F s)
include hF hinv

/-- A change of tasks, the queue and results only. -/
theorem Inv.apply {w : Nat} {move : Move} (h : MoveInv cfg F s move) :
    Inv cfg F (s.apply w move) := by
  refine hinv.extend hF { hinv.base with queue := { h.queue with } } { Extends.refl s with }
    { Adds.refl s with reads := fun r hr => .inr (h.reads r hr), tasks := fun k => ?_ }
  show ∀ task, Function.update s.tasks w move.task k = some task → _
  exact update_cases k (fun task htask => .inr (h.task task htask)) fun _ _ htask => .inl htask

theorem Inv.applies {w : Nat} {move : Option Move} (h : Ensures (MoveInv cfg F s) move) :
    Ensures (Inv cfg F) (move.map (s.apply w)) := by
  cases move with
  | none => trivial
  | some move => exact hinv.apply hF h

theorem Inv.spawn {w : Nat} {task : Task} (h : TaskInv cfg F s task) :
    Ensures (Inv cfg F) (s.spawn w task) := by
  fun_cases State.spawn s w task with
  | case1 => exact hinv.apply hF (w := w) (moveInv_goto hinv h)
  | case2 => trivial

/-- The request a task waits for is one it may send. -/
theorem TaskInv.request {task : Task} (h : TaskInv cfg F s task) :
    Ensures (RequestInv cfg F s) task.request := by
  fun_cases Task.request task with
  | case1 closed batch =>
    obtain ⟨n, hmark, hbatches, -⟩ := h
    exact hbatches batch List.mem_cons_self
  | case2 closed =>
    obtain ⟨n, hmark, -⟩ := h
    exact ⟨n, hmark⟩
  | case4 through closed => exact ⟨_, h.2.markAt hF hinv.base⟩
  | case5 caller batch =>
    obtain ⟨a, e, hal, -, hcaller⟩ := h
    exact ⟨a, e, hal, hcaller.held hinv.base⟩
  | case3 | case6 | case7 => exact h
  | case8 | case9 => trivial

/-! ## The stores -/

omit hF hinv in
/-- An object of the archive is not overwritten. -/
theorem orElse_eq_some {old : Option ClosedSegment} {new c : ClosedSegment}
    (h : (old <|> some new) = some c) : old = some c ∨ new = c := by
  cases old with
  | none => exact .inr (Option.some.inj h)
  | some old => exact .inl h

/-- Sealing and deleting replicas. -/
theorem Inv.replicas {replicas : Nat → Replica}
    (hbytes : ∀ j, (replicas j).bytes = (s.replicas j).bytes)
    (hsealed : ∀ j, (s.replicas j).isSealed = true → (replicas j).isSealed = true)
    (hdeleted : ∀ j, (replicas j).deleted = true →
      (s.replicas j).deleted = true ∨ s.replicated.isSome = true) : Inv cfg F { s with replicas } :=
  hinv.extend hF
    { hinv.base with
      queue := { hinv.base.queue with }
      lower := fun j hj => hbytes j ▸ hinv.base.lower j hj
      upper := fun j hj => hbytes j ▸ hinv.base.upper j hj }
    { Extends.refl s with
      bytes := fun j => by rw [hbytes j]
      sealed_bytes := fun j hj => ⟨hsealed j hj, hbytes j⟩ }
    { Adds.refl s with deleted := hdeleted }

/-- A request reaches the store. -/
theorem Inv.land {request : Request} (hreq : request ∈ s.requests) :
    Inv cfg F (s.land request) := by
  have hr := hinv.store.requests request hreq
  have hbase := hinv.base
  fun_cases State.land s request with
  | case1 => exact hinv
  | case2 batch =>
    refine hinv.extend hF { hbase with queue := { hbase.queue with } }
      { Extends.refl s with batches := fun b hb => List.mem_append_left _ hb }
      { Adds.refl s with batches := fun b hb => (List.mem_append.mp hb).imp_right fun hb => ?_ }
    exact List.mem_singleton.mp hb ▸ hr
  | case3 closed =>
    refine hinv.extend hF { hbase with queue := { hbase.queue with } } { Extends.refl s with }
      { Adds.refl s with closed := fun c hc => (orElse_eq_some hc).imp_right fun heq => ?_ }
    exact heq ▸ hr
  | case4 closed =>
    have hkeep : ∀ c, s.replicated = some c → (s.replicated <|> some closed) = some c := by
      intro c hc
      rw [hc]
      rfl
    refine hinv.extend hF { hbase with queue := { hbase.queue with } }
      { Extends.refl s with replicated := hkeep }
      { Adds.refl s with
        replicated := fun c hc => (orElse_eq_some hc).imp_right fun heq => ?_ }
    exact heq ▸ hr
  | case5 =>
    exact hinv.extend hF { hbase with queue := { hbase.queue with } } { Extends.refl s with }
      { Adds.refl s with }
  | case6 i =>
    refine hinv.replicas hF (fun j => ?_) (fun j => ?_) fun _ _ => .inr hr
    · exact update_cases j rfl fun _ => rfl
    · exact update_cases j id fun _ => id

/-! ## Replica reads -/

omit hF hinv in
/-- Sealing changes nothing else. -/
theorem seal_spec (s : State) (sealing : Bool) (i j : Nat) :
    ((if sealing then s.seal i else s.replicas) j).bytes = (s.replicas j).bytes ∧
    ((if sealing then s.seal i else s.replicas) j).deleted = (s.replicas j).deleted ∧
    ((s.replicas j).isSealed = true →
      ((if sealing then s.seal i else s.replicas) j).isSealed = true) := by
  split
  · unfold State.seal
    split
    · exact ⟨rfl, rfl, id⟩
    · by_cases hj : j = i
      · subst hj
        simp
      · rw [Function.update_of_ne hj]
        exact ⟨rfl, rfl, id⟩
  · exact ⟨rfl, rfl, id⟩

theorem Inv.answer {w i : Nat} {fenced : Bool} {answer : Option Bytes}
    (hanswer : ∀ bytes, answer = some bytes →
      fenced = true ∧ (s.replicas i).deleted = false ∧ bytes = (s.replicas i).bytes) :
    Ensures (Inv cfg F) (s.answer cfg w i fenced answer) := by
  fun_cases State.answer cfg s w i fenced answer with
  | case1 caller since archived answers htask hguard =>
    have hspec := seal_spec s (caller.fence && fenced) i
    have hinv' := hinv.replicas hF (fun j => (hspec j).1) (fun j => (hspec j).2.2)
      fun j hj => .inl ((hspec j).2.1 ▸ hj)
    obtain ⟨hsince, hm, hcopies⟩ := hinv'.tasks w _ htask
    refine hinv'.apply hF (w := w) (moveInv_goto hinv' (?_ : TaskInv cfg F _
      (.reading caller since (.replicas archived (OrderedMap.insert i answer answers)))))
    refine ⟨hsince, hm, fun j bytes hmem => ?_⟩
    rcases OrderedMap.mem_of_mem_insert hmem with heq | hmem
    · obtain ⟨rfl, hsome⟩ := Prod.mk.inj heq
      obtain ⟨rfl, hlive, rfl⟩ := hanswer bytes hsome.symm
      refine ⟨hguard.1, (hspec j).1 ▸ List.prefix_refl _,
        hsince.length_le.trans (acked_le_frames hinv.base hguard.1), fun hfence => ?_⟩
      refine ⟨?_, (hspec j).1.symm⟩
      simp [hfence, State.seal, hlive]
    · exact hcopies j bytes hmem
  | _ => trivial

/-! ## The writer -/

/-- A record is framed for the replicas. -/
theorem Inv.append {state : Bytes} (hnone : s.inflight = none) (hlive : s.retired = false)
    (hversion : cfg.stateVersion state = some (s.pending.version + 1))
    (henc : Record.Encodable ⟨s.pending.version + 1, state⟩) :
    Inv cfg F { s with inflight := some ⟨s.pending.version + 1, state⟩ } := by
  have hbase := hinv.base
  have hq := hbase.queue
  have hlog : s.log = s.acked := by simp [State.log, hnone]
  have hpre : s.log <+: s.acked ++ [⟨s.pending.version + 1, state⟩] := by
    rw [hlog]
    exact List.prefix_append _ _
  have hoff : ∀ k ≤ s.acked.length,
      offsetOf (s.acked ++ [⟨s.pending.version + 1, state⟩]) k = offsetOf s.log k :=
    fun k hk => offsetOf_isPrefix hpre (hk.trans (acked_le_log hbase))
  have hwf : WellFormed cfg (cfg.installedAt + 1)
      (s.acked ++ [⟨s.pending.version + 1, state⟩]) := by
    have hfirst := cfg.firstVersion_le
    have hcount := hq.version
    refine (hlog ▸ hbase.log).concat cfg henc (decide_eq_true ⟨hversion, ?_⟩) ?_
    · show cfg.firstVersion ≤ s.pending.version + 1
      omega
    · show s.pending.version + 1 = _
      omega
  refine hinv.extend hF ⟨hwf, ⟨?_, hq.version, hq.closed, ?_⟩, ?_, hbase.lower, ?_⟩
    { Extends.refl s with log := hpre } { Adds.refl s with }
  · rw [hq.stop]
    exact (hoff _ le_rfl).symm
  · obtain ⟨a, c, hac, hstart, hcache⟩ := hq.cache
    refine ⟨a, c, hac, hstart.trans (hoff a (by omega)).symm, hcache.trans ?_⟩
    show _ = encodeAll _ (((s.acked ++ [_]).drop a).take c)
    rw [hlog, List.drop_append_of_le_length (by omega),
      List.take_append_of_le_length (by rw [List.length_drop]; omega)]
  · intro hret
    exact absurd (hlive ▸ hret) (by decide)
  · exact fun i hi => (hbase.upper i hi).trans (encodeAll_isPrefix cfg.digest hpre)

omit hF hinv in
/-- A replica is the acknowledged bytes and a piece of the frame in flight. -/
theorem Base.replica_split (hbase : Base cfg s) {record : Record}
    (hin : s.inflight = some record) {i : Nat} (hi : i < cfg.replicas) :
    (s.replicas i).bytes = encodeAll cfg.digest s.acked ++
      (record.frame cfg.digest).take ((s.replicas i).bytes.length - s.pending.stop) := by
  have hstop : s.pending.stop = (encodeAll cfg.digest s.acked).length := by
    rw [hbase.queue.stop, offsetOf_acked, length_encodeAll]
  have hup := hbase.upper i hi
  obtain ⟨rest, hrest⟩ := hbase.lower i hi
  rw [State.log, hin, encodeAll_append, ← hrest] at hup
  have hpre := (List.prefix_append_right_inj _).mp hup
  have htake := List.prefix_iff_eq_take.mp hpre
  simp only [Option.toList_some, encodeAll_cons, encodeAll_nil, List.append_nil] at htake
  rw [← hrest, List.length_append, hstop, Nat.add_sub_cancel_left, ← htake]

/-- A replica takes some more bytes of the frame. -/
theorem Inv.flush {record : Record} (hin : s.inflight = some record) {i n : Nat}
    (hopen : (s.replicas i).isSealed = false) {bytes : Bytes}
    (hbytes : bytes = (s.replicas i).bytes ++ ((record.frame cfg.digest).drop
      ((s.replicas i).bytes.length - s.pending.stop)).take n) :
    Inv cfg F { s with
      replicas := Function.update s.replicas i { s.replicas i with bytes } } := by
  have hbase := hinv.base
  have hgrow : (s.replicas i).bytes <+: bytes := hbytes ▸ List.prefix_append _ _
  have hlog : i < cfg.replicas → bytes <+: encodeAll cfg.digest s.log := by
    -- the old bytes and the new ones make a longer piece of the frame
    intro hi
    have hsplit := hbase.replica_split hin hi
    have hlog : encodeAll cfg.digest s.log =
        encodeAll cfg.digest s.acked ++ record.frame cfg.digest := by
      rw [State.log, hin, encodeAll_append]
      simp
    generalize (s.replicas i).bytes.length - s.pending.stop = k at hsplit hbytes
    rw [hbytes, hsplit, hlog, List.append_assoc, ← List.take_add]
    exact (List.prefix_append_right_inj _).mpr (List.take_prefix _ _)
  have hrep : ∀ j, (s.replicas j).bytes <+:
      (Function.update s.replicas i { s.replicas i with bytes } j).bytes := fun j =>
    update_cases (motive := fun j (r : Replica) => (s.replicas j).bytes <+: r.bytes) j hgrow
      fun _ => List.prefix_refl _
  exact hinv.extend hF
    { hbase with
      queue := { hbase.queue with }
      lower := fun j hj => (hbase.lower j hj).trans (hrep j)
      upper := fun j => update_cases
        (motive := fun j (r : Replica) => j < _ → r.bytes <+: _) j hlog fun _ => hbase.upper j }
    { Extends.refl s with
      bytes := hrep
      sealed_bytes := fun j => update_cases
        (motive := fun j (r : Replica) =>
          (s.replicas j).isSealed = true → r.isSealed = true ∧ r.bytes = _)
        j (fun hj => absurd (hopen ▸ hj) (by decide)) fun _ hj => ⟨hj, rfl⟩ }
    { Adds.refl s with
      deleted := fun j => update_cases
        (motive := fun j (r : Replica) => r.deleted = true → (s.replicas j).deleted = true ∨ _)
        j .inl fun _ => .inl }

omit hF hinv in
/-- The queue after an acknowledgement. -/
theorem QueueInv.append (hbase : Base cfg s) {record : Record}
    (hin : s.inflight = some record) (hacked : s'.acked = s.acked ++ [record])
    (hlog : s'.log = s.log) (hretired : s'.retired = s.retired) :
    QueueInv cfg s' (s.pending.append cfg (record.frame cfg.digest) record.version) := by
  have hq := hbase.queue
  have hget : s.log[s.acked.length]? = some record := by
    rw [State.log, hin, List.getElem?_append_right le_rfl, Nat.sub_self]
    rfl
  have hlen : s'.acked.length = s.acked.length + 1 := by simp [hacked]
  refine ⟨?_, ?_, ?_, ?_⟩
  · rw [hlog, hlen, offsetOf_succ hget, ← hq.stop]
    simp [Pending.append]
  · rw [hlen]
    have := hbase.log.version _ record hget
    show record.version = _
    omega
  · rw [hretired]
    exact hq.closed
  · rw [hlog, hlen]
    obtain ⟨a, c, hac, hstart, hcache⟩ := hq.cache
    unfold Pending.append
    dsimp only
    split
    · rename_i hcached
      -- the cache ends where the frame starts
      have hend := (of_decide_eq_true hcached).1
      have hoff : offsetOf s.log (a + c) = offsetOf s.log s.acked.length := by
        rw [offsetOf_add, ← length_encodeAll cfg.digest, ← hcache, ← hstart, hend, hq.stop]
      have hlog := acked_le_log hbase
      have hac' : a + c = s.acked.length := offsetOf_inj (by omega) hlog hoff
      refine ⟨a, c + 1, by omega, hstart, ?_⟩
      have hr : (s.log.drop a)[c]? = some record := by
        rw [List.getElem?_drop, hac', hget]
      rw [List.take_add_one, hr, encodeAll_append, ← hcache]
      simp
    · exact ⟨a, c, by omega, hstart, hcache⟩

/-- All replicas have the whole frame. -/
theorem Inv.acknowledge {record : Record} (hin : s.inflight = some record)
    (hfull : ∀ i < cfg.replicas, (s.replicas i).bytes.length = s.pending.stop + record.size) :
    Inv cfg F { s with
      acked := s.acked ++ [record]
      inflight := none
      pending := s.pending.append cfg (record.frame cfg.digest) record.version } := by
  have hbase := hinv.base
  have hlog : s.acked ++ [record] ++ [] = s.log := by
    rw [List.append_nil, State.log, hin]
    rfl
  refine hinv.extend hF
    { log := (hlog ▸ hbase.log :)
      queue := .append hbase hin rfl hlog rfl
      retired := fun _ => rfl
      lower := fun i hi => ?_
      upper := (hlog ▸ hbase.upper :) }
    { Extends.refl s with
      acked := List.prefix_append _ _
      log := ⟨[], (List.append_nil _).trans hlog.symm⟩
      retired := fun hret => ?_ }
    { Adds.refl s with }
  · -- the replica confirmed the whole frame
    change encodeAll cfg.digest (s.acked ++ [record]) <+: (s.replicas i).bytes
    rw [← List.append_nil (s.acked ++ [record]), hlog]
    have hlen : (s.replicas i).bytes.length = (encodeAll cfg.digest s.log).length := by
      rw [hfull i hi, length_encodeAll, ← hlog, List.append_nil, totalSize_append,
        hbase.queue.stop, offsetOf_acked]
      rfl
    rw [(hbase.upper i hi).eq_of_length hlen]
  · have := hbase.retired hret
    rw [hin] at this
    cases this

/-! ## All steps -/

/-- The step settles the position of a recoverer that merges in it. -/
def Action.Settles (cfg : SegmentConfig) (F : State → Nat → Prop) (s : State) :
    Action → Prop
  | .advance w => ∀ task, s.tasks w = some task → task.Settles cfg F s
  | _ => True

/-- Every step keeps the segment. -/
theorem Inv.step {action : Action} (hsettle : action.Settles cfg F s) :
    Ensures (Inv cfg F) (s.step cfg action) := by
  fun_cases State.step cfg s action with
  | case1 state record hguard =>
    exact hinv.append hF hguard.1 hguard.2.1 hguard.2.2.1 hguard.2.2.2.1
  | case4 i n record hin replica hguard => exact hinv.flush hF hin hguard.1 rfl
  | case7 record hin hfull => exact hinv.acknowledge hF hin hfull
  | case9 hnone =>
    have hbase := hinv.base
    exact hinv.extend hF
      { hbase with queue := { hbase.queue with closed := rfl }, retired := fun _ => hnone }
      { Extends.refl s with retired := fun _ => ⟨rfl, rfl⟩ } { Adds.refl s with }
  | case11 request hmem => exact hinv.land hF hmem
  | case13 | case14 => exact hinv.spawn hF ⟨List.prefix_refl _, trivial⟩
  | case15 => exact hinv.spawn hF trivial
  | case16 w => exact hinv.apply hF (w := w) (moveInv_stop hinv)
  | case18 w request hreq =>
    obtain ⟨task, htask, hreq⟩ := Option.bind_eq_some_iff.mp hreq
    refine hinv.extend hF { hinv.base with queue := { hinv.base.queue with } }
      { Extends.refl s with }
      { Adds.refl s with requests := List.forall_mem_cons.mpr ⟨.inr ?_, fun _ hr => .inl hr⟩ }
    exact ((hinv.tasks w task htask).request hF hinv).of_eq hreq
  | case19 w =>
    refine hinv.applies hF ?_
    cases htask : s.tasks w with
    | none => trivial
    | some task => exact advance_inv hF hinv (hinv.tasks w task htask) (hsettle task htask)
  | case21 w i hlive =>
    exact hinv.answer hF fun bytes hb =>
      ⟨rfl, Bool.eq_false_iff.mpr hlive, (Option.some.inj hb).symm⟩
  | case22 => exact hinv.answer hF (fun bytes hb => by cases hb)
  | case23 w i caller pc htask hi =>
    exact hinv.applies hF (readRange_inv hinv (hinv.tasks w _ htask) hi)
  | case26 w caller pc htask =>
    exact hinv.applies hF (missRange_inv hinv (hinv.tasks w _ htask))
  | _ => trivial

end

end DurableActors.Ports.Log
