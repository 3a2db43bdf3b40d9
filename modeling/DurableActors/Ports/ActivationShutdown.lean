import DurableActors.Ports.ActivationSessions

/-!
# Renewals and graceful shutdowns keep the ownership invariant

The last steps of the system, and the theorem that every guarded step keeps
the invariant.
-/

namespace DurableActors.Ports.Activation

open Verified
open Verified.Transition (Ensures)

variable {cfg : Config} {s : World} {h : Host}

/-! ## Renewals -/

variable (inv : Inv cfg s)
include inv

theorem Inv.renewRead : Ensures (Inv cfg) (renewRead s h) := by
  fun_cases Activation.renewRead s h with
  | case1 started g record hload hr hsession =>
    exact inv.moveRegistration
      ⟨inv.registrationAt hr, VersionedCell.valueAt_of_load hload, hsession⟩ rfl
  | _ => trivial

theorem Inv.renewCheck : Ensures (Inv cfg) (renewCheck s h) := by
  fun_cases Activation.renewCheck s h with
  | case1 started g record hr hlt =>
    obtain ⟨hkept, hread, hsession⟩ := inv.registrationAt hr
    refine inv.moveRegistration ⟨hkept, hread, hsession, ?_⟩ rfl
    by_contra hs
    have := (inv.records record
      (VersionedCell.valueAt_mem hread)).released (by simpa using hs)
    omega
  | _ => trivial

/-- A renewal prolongs the lease because every lease of a session was granted
for the same duration at an earlier time. -/
theorem Inv.renewStamp : Ensures (Inv cfg) (renewStamp cfg s h) := by
  fun_cases Activation.renewStamp cfg s h with
  | case2 started g p hr lease hlease =>
    obtain ⟨hkept, hread, hsession, hopen⟩ := inv.registrationAt hr
    obtain ⟨hls, hexp, hpos⟩ := newLease_eq_some hlease
    have hmem := VersionedCell.valueAt_mem hread
    have hlater : p.lease.expiresAtMs ≤ lease.expiresAtMs := by
      have := (inv.records p hmem).bounded
      rw [hexp, hls, ← hsession]
      exact this
    have hsend := inv.send (c := ⟨h, some g, { p with lease := lease, mutation := s.mutations }⟩)
      ⟨hls, ⟨hexp.le, by simp [hopen], (inv.records p hmem).based, Nat.lt_succ_self _⟩,
        .inr ⟨g, p, rfl, hread, .inr (.inl ⟨rfl, hsession, ⟨hopen, hopen⟩, rfl, hlater⟩)⟩⟩
      (fun _ => ⟨(inv.accounts p hmem).acked, (inv.accounts p hmem).passed⟩)
      (fun hz => absurd hz hpos)
      (fun o ho => (inv.owned h o ho).newest.installed p hmem hsession)
      (by rw [hr]; exact ⟨hkept, hread, hsession, hopen⟩)
    exact hsend.moveRegistration
      ⟨hkept, List.mem_cons_self, rfl, fun hm => absurd hm (inv.fresh rfl)⟩ rfl
  | _ => trivial

theorem Inv.renewReplied : Ensures (Inv cfg) (renewReplied s h) := by
  fun_cases Activation.renewReplied s h with
  | case1 started c hr hanswer =>
    obtain ⟨hkept, hc, hhost, hall⟩ := inv.registrationAt hr
    exact inv.moveRegistration ⟨hkept, hanswer,
      (inv.requests c hc).session.trans hhost, hall hanswer⟩ rfl
  | _ => trivial

/-- Replacing the lease of the local record by one the durable record
bounds. -/
theorem Inv.relet {o : Ownership} {lease : HostLease} (ho : s.owned h = some o)
    (hsession : lease.session = h)
    (hlease : LeaseOk s.now s.history s.fence h { o with lease := lease }) :
    Inv cfg { s with
      owned := Function.update s.owned h
        (some { o with lease := lease }) } := by
  have hkeep : Retains s.owned (Function.update s.owned h (some { o with lease := lease })) := by
    intro k p hp
    by_cases hk : k = h
    · subst hk
      obtain rfl : o = p := Option.some.inj (ho.symm.trans hp)
      exact ⟨{ o with lease := lease }, by simp, rfl, rfl⟩
    · exact ⟨p, by simpa [hk] using hp, rfl, rfl⟩
  have hiff : ∀ k,
      Function.update s.owned h (some { o with lease := lease }) k = none ↔
        s.owned k = none := by
    intro k
    by_cases hk : k = h
    · subst hk
      simp [ho]
    · simp [hk]
  refine { inv with
    owned := ?_, unowned := ?_, registration := ?_, live := ?_
    writes := inv.writes_of_retains hkeep
    acked := fun x hx => inv.acked_of_retains hkeep hx
    uploads := ?_
    shutdown := inv.shutdown_of_retains hkeep }
  · intro k q hq
    rcases update_eq_some hq with ⟨rfl, rfl⟩ | ⟨-, hq⟩
    · exact { inv.owned k o ho with session := hsession, lease := hlease }
    · exact inv.owned k q hq
  · exact fun k hk => inv.unowned k ((hiff k).mp hk)
  · exact fun k => inv.keep { Keeps.refl s k (s.registration k) with owned := hiff k }
      (inv.registration k)
  · exact fun c hc hl => ⟨(inv.live c hc hl).1, fun hz =>
      ((inv.live c hc hl).2 hz).imp_right fun ⟨hn, hp⟩ =>
        ⟨(hiff _).mpr hn, hp⟩⟩
  · intro k
    refine { inv.uploads k with acked := fun q hq => ?_ }
    rcases update_eq_some hq with ⟨rfl, rfl⟩ | ⟨-, hq⟩
    · exact (inv.uploads k).acked o ho
    · exact (inv.uploads k).acked q hq

theorem Inv.renewAdopt : Ensures (Inv cfg) (renewAdopt s h) := by
  fun_cases Activation.renewAdopt s h with
  | case1 started record hr hnone =>
    exact absurd (inv.unowned h hnone).1 (inv.registrationAt hr).1
  | case2 started record hr o ho hepoch =>
    obtain ⟨hkept, -, hsession, hok⟩ := inv.registrationAt hr
    have hlease : LeaseOk s.now s.history s.fence h { o with lease := record.lease } := by
      refine hok.imp_left ?_
      rintro ⟨c, hc, hce, hle⟩
      exact ⟨c, hc, hce.trans hepoch.symm, hle⟩
    exact (inv.relet ho hsession hlease).moveRegistration (by simp [RegistrationInv]) rfl
  | _ => trivial

/-! ## Graceful shutdown -/

/-- The checkpoint read by a drain stands at or after every write of the
session that is acknowledged or may still be, because every counted upload
has completed. -/
theorem Inv.uploadCheckpoint :
    Ensures (fun ck => HasCheckpoint s.fence s.owned s.writes s.acknowledged h ck ∧
      Quiet s.writes s.streamClosed h) (s.uploadCheckpoint h) := by
  fun_cases World.uploadCheckpoint s h with
  | case3 o ho _ hcount =>
    have hup := inv.uploads h
    have hempty : s.pending h = ∅ := by
      have := hup.counts
      exact Finset.card_eq_zero.mp (by omega)
    have hown := inv.owned h o ho
    obtain ⟨r, hr, hre, -, hro, hrb⟩ := hown.source
    have hepoch : ∀ b, o.base = some b → b.object.epoch ≤ o.epoch := by
      intro b hb
      rcases (inv.records r hr).based b (hrb.trans hb) with h | ⟨hs, -⟩
      · omega
      · simp [hro] at hs
    cases hck : advance o.base (s.uploaded h).latest with
    | none => trivial
    | some ck =>
      obtain ⟨hone, hbase, hlatest⟩ := (advance_spec _ _).of_eq hck
      refine ⟨⟨o, ho, ?_, hbase, fun b hb => ?_, fun x hx he => hlatest x (hup.acked o ho x hx he),
        fun i hi hpc => .inr (hlatest _ (hup.recorded i hi hpc))⟩, fun i hi hin => ?_⟩
      · rcases hone with rfl | rfl
        · exact le_rfl
        · cases hl : (s.uploaded h).latest with
          | none =>
            rw [hl] at hck
            rw [Option.some.inj hck]
          | some l =>
            rcases hown.latest l hl with hb | ⟨-, hlt⟩
            · rw [hb]
            · exact hlt.le
      · rcases hone with rfl | rfl
        · exact hepoch b hb
        · rcases hown.latest b hb with hb | ⟨he, -⟩
          · exact hepoch b hb
          · exact he.le
      · have := hup.inFlight i hi hin
        simp [hempty] at this
  | _ => trivial

theorem Inv.drain : Ensures (Inv cfg) (drain s h) := by
  fun_cases Activation.drain s h with
  | case1 => exact inv.setShutdown trivial
  | case2 _ ck hck => exact inv.setShutdown (inv.uploadCheckpoint.of_eq hck)
  | case3 => trivial

theorem Inv.failDrain : Ensures (Inv cfg) (failDrain s h) := by
  fun_cases Activation.failDrain s h with
  | case1 => exact inv.setShutdown trivial
  | case2 => trivial

/-- What the invariant says of a shutdown. -/
theorem Inv.shutdownAt {d : Shutdown} (hd : s.shutdown h = d) :
    ShutdownInv s.fence s.owned s.writes s.acknowledged s.streamClosed h d :=
  hd ▸ inv.shutdown h

/-- Closing a stream. -/
theorem Inv.close (closed : Bool) :
    Inv cfg { s with
      streamClosed := Function.update s.streamClosed h
        (s.streamClosed h || closed) } := by
  refine { inv with shutdown := fun k => ?_ }
  refine .imp id (fun ck hck hq => ⟨hck, fun i hi hin => ?_⟩)
    (fun ck _ hck => hck) (inv.shutdown k)
  obtain ⟨hpc, hclosed⟩ := hq i hi hin
  refine ⟨hpc, ?_⟩
  by_cases hk : k = h
  · subst hk
    simp [hclosed]
  · simpa [hk] using hclosed

theorem Inv.closeStream {completed : Bool} : Ensures (Inv cfg) (closeStream cfg s h completed) := by
  fun_cases Activation.closeStream cfg s h completed with
  | case1 ck hshut =>
    refine .close (inv.setShutdown ?_) cfg.closesStream
    cases completed with
    | false => trivial
    | true => exact (inv.shutdownAt hshut :)
  | case2 => trivial

theorem Inv.setFence : Ensures (Inv cfg) (setFence s h) := by
  fun_cases Activation.setFence s h with
  | case1 checkpoint hshut =>
    refine (inv.setFenceOf (f := { s.fence h with fenced := true })
      (fun _ => rfl)).setShutdown ⟨by simp [World.setFenceOf], ?_⟩
    rintro ck rfl
    refine (inv.shutdownAt hshut).1.mono fun k hk => ?_
    show (Function.update s.fence h { s.fence h with fenced := true } k).fenced = true
    exact Transition.update_cases (motive := fun _ (f : LeaseFence) => f.fenced = true) k rfl
      fun _ => hk
  | case2 => trivial

/-- One turn of the release: the sealing claim is sent, or the shutdown is over. -/
theorem Inv.finishRead : Ensures (Inv cfg) (finishRead s h) := by
  fun_cases Activation.finishRead s h with
  | case1 | case3 => exact inv.setShutdown trivial
  | case2 checkpoint attempt hshut _ c hclaim =>
    obtain ⟨hfenced, hcheck⟩ := inv.shutdownAt hshut
    obtain ⟨p, hlast, hps, hexp, hc⟩ := (releaseClaim_spec ..).of_eq hclaim
    have hpmem : p ∈ s.history := List.mem_of_getLast? hlast
    have hpopen : p.isSealed = false := by
      by_contra hs
      exact hexp ((inv.records p hpmem).released (by simpa using hs))
    have hrecord : c.host = h ∧ c.record.epoch = p.epoch ∧
        c.record.base = checkpoint.getD p.base ∧
        c.record.isSealed = checkpoint.isSome := by
      rw [hc]
      exact ⟨rfl, rfl, rfl, by simp [hpopen]⟩
    -- A session with a checkpoint owns the epoch it is about to seal.
    have hsame : ∀ o, s.owned h = some o → p.epoch = o.epoch ∧ p.base = o.base := by
      intro o ho
      obtain ⟨r, hr, hre, -, hro, hrb⟩ := (inv.owned h o ho).source
      have hle := inv.epoch_le_last hr hlast
      have hge := (inv.owned h o ho).newest.installed p hpmem hps
      exact ⟨by omega, by rw [← hrb,
        inv.base_unique hpmem hr (by omega) hpopen hro]⟩
    refine .setShutdown (inv.send (inv.release_sound hlast hps hexp hc ?_)
      (fun _ => ?_) (fun _ => .inl (hrecord.1 ▸ hfenced)) ?_ ?_)
      ⟨hfenced, hcheck⟩
    · intro ck hck
      obtain ⟨o, ho, hck⟩ := hcheck ck hck
      obtain ⟨he, hb⟩ := hsame o ho
      exact ⟨hb ▸ hck.base, fun b hb => he ▸ hck.epoch b hb⟩
    · refine inv.release_accounts hpmem hrecord.2.1
        (fun hs => hrecord.2.2.2 ▸ hs) hrecord.2.2.1 ?_ ?_ ?_
      · intro ck hck x hx
        obtain ⟨o, ho, hck⟩ := hcheck ck hck
        exact hck.covers x ((hsame o ho).2 ▸ hx)
      · intro ck hck x hx hxe
        obtain ⟨o, ho, hck⟩ := hcheck ck hck
        exact hck.acked x hx (hxe.trans (hsame o ho).1)
      · intro _ i hi he
        obtain ⟨o, ho, hoe, -⟩ := (inv.writes i).owner_of_passed hi
        rw [inv.owner_of_epoch hpmem ho (hoe.trans he), hps]
        exact hfenced
    · intro o ho
      rw [hrecord.1] at ho
      rw [hrecord.2.1, (hsame o ho).1]
    · rw [hrecord.1]
      refine inv.keep { Keeps.refl s h (s.registration h) with
        requests := fun d hd => List.mem_cons_of_mem c hd
        newest := fun o ho => ho.newest.send fun _ => ?_
        installed := fun _ _ _ hm => .inl hm } (inv.registration h)
      rw [hrecord.2.1]
      exact ho.newest.installed p hpmem hps
  | case4 => trivial

theorem Inv.finishReplied {replaced : Bool} : Ensures (Inv cfg) (finishReplied s h replaced) := by
  fun_cases Activation.finishReplied s h replaced with
  | case1 checkpoint attempt c hshut =>
    refine inv.setShutdown ?_
    cases replaced with
    | true => trivial
    | false => exact (inv.shutdownAt hshut :)
  | _ => trivial

theorem Inv.failFinish : Ensures (Inv cfg) (failFinish s h) := by
  fun_cases Activation.failFinish s h with
  | case1 | case2 => exact inv.setShutdown trivial
  | case3 => trivial

/-! ## The step theorem -/

omit inv in
/-- No upload is counted between the reading of the sealed base and the
fence, unless the stream is closed already. -/
def UploadsSettled (s : World) : Action → Prop
  | .startUpload i => s.streamClosed (s.writes i).host = true ∨
      (s.shutdown (s.writes i).host).sealing = false
  | _ => True

theorem Inv.applyClaim {c : Claim} : Ensures (Inv cfg) (applyClaim s c) := by
  fun_cases Activation.applyClaim s c with
  | case1 hc =>
    show Inv cfg { s with history := VersionedCell.swap s.history c.expected c.record }
    unfold VersionedCell.swap
    split
    · rename_i hlive
      exact inv.install hc hlive
    · exact inv
  | case2 => trivial

theorem Inv.applyPut {b : Snapshot} : Ensures (Inv cfg) (applyPut s b) := by
  fun_cases Activation.applyPut s b with
  | case1 => exact inv
  | case2 hb => exact inv.store hb
  | case3 => trivial

/-- **Every step keeps the invariant**, as long as no upload slips in between
the sealed base and the fence. -/
theorem Inv.step {a : Action} (hC : UploadsSettled s a) : Ensures (Inv cfg) (step cfg s a) := by
  cases a with
  | tick ms => exact inv.tick ms
  | applyClaim => exact inv.applyClaim
  | applyPut => exact inv.applyPut
  | register => exact inv.register
  | readOwner => exact inv.readOwner
  | validate => exact inv.validate
  | stamp => exact inv.stamp
  | listLog => exact inv.listLog
  | loadBase => exact inv.loadBase
  | claimReplied => exact inv.claimReplied
  | adopt => exact inv.adopt
  | confirm => exact inv.confirm
  | failRegistration => exact inv.failRegistration
  | abortRead => exact inv.abortRead
  | abortReplied => exact inv.abortReplied
  | renewRead => exact inv.renewRead
  | renewCheck => exact inv.renewCheck
  | renewStamp => exact inv.renewStamp
  | renewReplied => exact inv.renewReplied
  | renewAdopt => exact inv.renewAdopt
  | writeBegin => exact inv.writeBegin
  | checkOwner => exact inv.checkOwner
  | verifyParent => exact inv.verifyParent
  | startUpload => exact inv.startUpload hC
  | putReplied => exact inv.putReplied
  | recheckOwner => exact inv.recheckOwner
  | recordUpload => exact inv.recordUpload
  | acknowledge => exact inv.acknowledge
  | failWrite => exact inv.failWrite
  | drain => exact inv.drain
  | failDrain => exact inv.failDrain
  | closeStream => exact inv.closeStream
  | setFence => exact inv.setFence
  | finishRead => exact inv.finishRead
  | finishReplied => exact inv.finishReplied
  | failFinish => exact inv.failFinish

end DurableActors.Ports.Activation
