import DurableActors.Ports.AdmissionRefinement

/-!
# The start rate of an organization

Both stores spend one token for each new admission.  The log of an organization
is the list of the clock readings of its new admissions, in their order; it is a
sequence of spends that its bucket can afford, so that every window of the log
is bounded by the burst and what the clock has added.  The clock may move
backwards.

In Redis the key of the bucket expires, and the time is counted from the reading
of the admission.  An admission whose reading is before that of an earlier one
lets the key expire before the bucket has filled, and the next one finds a full
bucket.
-/

namespace DurableActors.Ports.Admission

open Verified TokenBucket
open Bucket (peak)

variable {limits : OrganizationLimits} {retentionMs : Nat} {server : RedisServer}
  {organization : String}
variable {bound now retry : Nat} {calls : List Call}

/-! ## New admissions -/

/-- The call admits an activation that the organization does not know. -/
def Usage.admits (retentionMs : Nat) (limits : OrganizationLimits) (usage : Usage) (call : Call) :
    Bool :=
  match call.request with
  | .reserve activation =>
    ((usage.prune call.now).sessions activation).isNone &&
      (usage.reserve retentionMs activation limits call.now).1.isOk
  | _ => false

/-- The call admits an activation that the keys do not know. -/
def Keys.admits (server : RedisServer) (retentionMs : Nat) (limits : OrganizationLimits)
    (keys : Keys) (call : Call) : Bool :=
  match call.request with
  | .reserve activation =>
    (server.get call.now (keys.session activation.member)).isNone &&
      (keys.reserve server retentionMs activation limits call.now).1.isOk
  | _ => false

/-- The call is a new admission to the organization. -/
def MemoryReservations.admits (retentionMs : Nat) (limits : OrganizationLimits)
    (organization : String) (m : MemoryReservations) (call : Call) : Bool :=
  call.organization = organization &&
    (m.organizations call.organization).admits retentionMs limits call

/-- The call is a new admission to the organization. -/
def RedisReservations.admits (server : RedisServer) (retentionMs : Nat)
    (limits : OrganizationLimits) (organization : String) (r : RedisReservations) (call : Call) :
    Bool :=
  call.organization = organization &&
    (r.organizations call.organization).admits server retentionMs limits call

/-- The readings of the new admissions, oldest first. -/
def admissions {σ : Type} (handle : σ → Call → Option Result × σ) (admits : σ → Call → Bool) :
    σ → List Call → List Nat
  | _, [] => []
  | s, call :: calls =>
    if admits s call then call.now :: admissions handle admits (handle s call).2 calls
    else admissions handle admits (handle s call).2 calls

/-! ## One call and the bucket -/

/-- Only a new admission spends, and it finds a token. -/
theorem Usage.handle_bucket (usage : Usage) (call : Call) :
    (usage.admits retentionMs limits call = true ∧
        1 ≤ limits.available (usage.bucket limits) call.now ∧
        (usage.handle retentionMs limits call).2.bucket limits =
          limits.spend (usage.bucket limits) call.now) ∨
      (usage.admits retentionMs limits call = false ∧
        (usage.handle retentionMs limits call).2.bucket limits = usage.bucket limits) := by
  obtain ⟨now, request⟩ := call
  cases request with
  | reserve activation =>
    have houtcome := usage.reserve_outcome retentionMs activation limits now
    simp only [Usage.admits, Usage.handle]
    generalize usage.reserve retentionMs activation limits now = outcome at houtcome ⊢
    cases houtcome with
    | known hsession => exact .inr ⟨by rw [hsession]; rfl, rfl⟩
    | noSlot hsession _ => exact .inr ⟨by rw [hsession]; rfl, rfl⟩
    | noToken hsession _ => exact .inr ⟨by rw [hsession]; rfl, rfl⟩
    | admitted hsession htoken => exact .inl ⟨by rw [hsession]; rfl, htoken, rfl⟩
  | release activation => exact .inr ⟨rfl, rfl⟩
  | observe activation report =>
    refine .inr ⟨rfl, ?_⟩
    show (usage.observe retentionMs activation report now).bucket limits = usage.bucket limits
    unfold Usage.observe
    dsimp only
    split
    · rfl
    · split
      · rfl
      · rfl

/-- The key of the bucket after a spend at `now`. -/
def spentKey (limits : OrganizationLimits) (spent : Bucket ℚ) (now : Nat) : Expiring BucketHash :=
  ⟨⟨spent.tokens, spent.refilledAt⟩, now + bucketTtlMs limits.startsPerSecond limits.startBurst⟩

/-- The call passes the checks of `reserve.lua`, in the keys as it finds them. -/
def Keys.Passes (server : RedisServer) (limits : OrganizationLimits) (keys : Keys) (call : Call) :
    Prop :=
  match call.request with
  | .reserve activation => keys.Admissible server limits activation call.now
  | _ => False

instance (keys : Keys) (call : Call) : Decidable (keys.Passes server limits call) := by
  obtain ⟨now, request⟩ := call
  cases request with
  | reserve activation => exact inferInstanceAs (Decidable (_ ∧ _ ∧ _))
  | release activation => exact .isFalse id
  | observe activation report => exact .isFalse id

theorem Keys.Passes.token {keys : Keys} {call : Call} (h : keys.Passes server limits call) :
    1 ≤ limits.available (keys.bucketAt server limits.startBurst call.now) call.now := by
  obtain ⟨now, request⟩ := call
  cases request with
  | reserve activation => exact h.2.2
  | release activation => cases h
  | observe activation report => cases h

theorem Keys.handle_bucket (keys : Keys) (call : Call) :
    (keys.admits server retentionMs limits call = true ∧
        keys.Passes server limits call ∧
        (keys.handle server retentionMs limits call).2.bucket = some (spentKey limits
          (limits.spend (keys.bucketAt server limits.startBurst call.now) call.now) call.now)) ∨
      (keys.admits server retentionMs limits call = false ∧
        (keys.handle server retentionMs limits call).2.bucket = keys.bucket) := by
  obtain ⟨now, request⟩ := call
  cases request with
  | reserve activation =>
    have houtcome := keys.reserve_outcome server retentionMs activation limits now
    simp only [Keys.admits, Keys.handle]
    generalize keys.reserve server retentionMs activation limits now = outcome at houtcome ⊢
    cases houtcome with
    | known hsession => exact .inr ⟨by rw [hsession]; rfl, rfl⟩
    | noSlot hsession => exact .inr ⟨by rw [hsession]; rfl, rfl⟩
    | noToken hsession _ => exact .inr ⟨by rw [hsession]; rfl, rfl⟩
    | admitted hchecks => exact .inl ⟨by rw [hchecks.1]; rfl, hchecks, rfl⟩
  | release activation => exact .inr ⟨rfl, rfl⟩
  | observe activation report =>
    refine .inr ⟨rfl, ?_⟩
    show (keys.observe server retentionMs activation report now).bucket = keys.bucket
    unfold Keys.observe observeLua
    dsimp only
    split
    · rfl
    · split
      · rfl
      · split
        · rfl
        · rfl

/-! ## Runs -/

section Runs

variable {σ : Type} {handle : σ → Call → Option Result × σ} {admits : σ → Call → Bool}

/-- What a call does to the bucket: a new admission spends, and finds a token to spend. -/
def Spends (limits : OrganizationLimits) (handle : σ → Call → Option Result × σ)
    (admits : σ → Call → Bool) (bucketOf : σ → Bucket ℚ) (s : σ) (call : Call) : Prop :=
  (admits s call = true ∧ 1 ≤ limits.available (bucketOf s) call.now ∧
      bucketOf (handle s call).2 = limits.spend (bucketOf s) call.now) ∨
    (admits s call = false ∧ bucketOf (handle s call).2 = bucketOf s)

/-- Admissions that all spend a token are affordable. -/
theorem affordable_admissions {bucketOf : σ → Bucket ℚ} {s : σ}
    (h : Transition.Guarded (advance handle) (Spends limits handle admits bucketOf) s calls) :
    (bucketOf s).Affordable limits.ratePerMs limits.startBurst
      (admissions handle admits s calls) := by
  induction calls generalizing s with
  | nil => trivial
  | cons call calls ih =>
    have hrest := ih (h.2 _ rfl)
    unfold admissions
    obtain ⟨hadmits, htoken, hspend⟩ | ⟨hadmits, hsame⟩ := h.1
    · rw [if_pos hadmits]
      rw [hspend] at hrest
      exact ⟨htoken, hrest⟩
    · rw [if_neg (Bool.eq_false_iff.mp hadmits)]
      exact hsame ▸ hrest

/-- Without a new admission nothing changes that only they change. -/
theorem after_eq_of_no_admission {β : Type} {view : σ → β}
    (hcall : ∀ s call, admits s call = false → view (handle s call).2 = view s) {s : σ}
    (hnone : admissions handle admits s calls = []) :
    view (Machine.after handle s calls) = view s := by
  induction calls generalizing s with
  | nil => rfl
  | cons call calls ih =>
    unfold admissions at hnone
    split at hnone
    · cases hnone
    · rename_i hadmits
      exact (ih hnone).trans (hcall s call (Bool.eq_false_iff.mpr hadmits))

/-- The start rate of an organization is that of a token bucket, in every run
whose calls all satisfy `Fair`. -/
structure TrueBucket (limits : OrganizationLimits) (organization : String)
    (handle : σ → Call → Option Result × σ) (admits : σ → Call → Bool) (tokens : σ → Option ℚ)
    (Fair : σ → Call → Prop) (init : σ) : Prop where
  window : ∀ calls, Transition.Guarded (advance handle) Fair init calls →
    ∀ i j, i ≤ j → j < (admissions handle admits init calls).length →
      ((j - i + 1 : Nat) : ℚ) ≤ limits.startBurst + limits.startsPerSecond *
        ((peak ((admissions handle admits init calls).take (j + 1)) : ℚ) -
          peak ((admissions handle admits init calls).take (i + 1))) / 1000
  tokens_mem : ∀ calls t, tokens (Machine.after handle init calls) = some t →
    0 ≤ t ∧ t ≤ limits.startBurst
  retry_suffices : ∀ (before between : List Call) (now later retry retry' : Nat)
    (activation activation' : Activation), activation.organization = organization →
    activation'.organization = organization →
    (handle (Machine.after handle init before) ⟨now, .reserve activation⟩).1 =
      some (.error (.rate retry)) →
    admissions handle admits (Machine.after handle init before)
      (⟨now, .reserve activation⟩ :: between) = [] →
    (∀ call ∈ before ++ ⟨now, .reserve activation⟩ :: between,
      call.now + retry * 1000 ≤ later) →
    (handle (Machine.after handle (Machine.after handle init before)
      (⟨now, .reserve activation⟩ :: between)) ⟨later, .reserve activation'⟩).1 ≠
        some (.error (.rate retry'))

end Runs

theorem le_retryAfter (tokens rate : ℚ) : (1 - tokens) / rate ≤ (retryAfter tokens rate : ℚ) := by
  calc (1 - tokens) / rate ≤ (⌈(1 - tokens) / rate⌉ : ℚ) := Int.le_ceil _
    _ ≤ ((max 1 ⌈(1 - tokens) / rate⌉ : ℤ) : ℚ) := Int.cast_le.mpr (le_max_right _ _)
    _ ≤ ((retryAfter tokens rate : ℤ) : ℚ) := Int.cast_le.mpr (Int.self_le_toNat _)
    _ = (retryAfter tokens rate : ℚ) := Int.cast_natCast _

/-- The window of the library, with the rate in seconds. -/
theorem window_of_affordable {bucket : Bucket ℚ} {log : List Nat}
    (h : bucket.Affordable limits.ratePerMs limits.startBurst log) {i j : Nat} (hij : i ≤ j)
    (hj : j < log.length) :
    ((j - i + 1 : Nat) : ℚ) ≤ limits.startBurst + limits.startsPerSecond *
      ((peak (log.take (j + 1)) : ℚ) - peak (log.take (i + 1))) / 1000 := by
  have hwindow := Bucket.window (ratePerMs_nonneg limits) h hij hj
  have hrate : ((peak (log.take (j + 1)) : ℚ) - peak (log.take (i + 1))) * limits.ratePerMs =
      limits.startsPerSecond * ((peak (log.take (j + 1)) : ℚ) - peak (log.take (i + 1))) /
        1000 := by
    unfold OrganizationLimits.ratePerMs
    ring
  rw [hrate] at hwindow
  exact hwindow

/-- Once the seconds of a rejection have passed there is a token. -/
theorem one_le_available_after_retry {bucket : Bucket ℚ} {later : Nat}
    (hrate : 0 < limits.startsPerSecond) (hburst : 0 < limits.startBurst)
    (hnow : now + retryAfter (limits.available bucket now) limits.startsPerSecond * 1000 ≤ later)
    (hrefilled : bucket.refilledAt +
      retryAfter (limits.available bucket now) limits.startsPerSecond * 1000 ≤ later) :
    1 ≤ limits.available bucket later := by
  have hrate' : (0 : ℚ) < limits.startsPerSecond := Nat.cast_pos.mpr hrate
  have hretry : (1 - limits.available bucket now) / limits.startsPerSecond ≤
      (retryAfter (limits.available bucket now) limits.startsPerSecond : ℚ) :=
    le_retryAfter _ _
  generalize retryAfter (limits.available bucket now) limits.startsPerSecond = retry at *
  have hlater : now ≤ later := by omega
  have hlater' : bucket.refilledAt ≤ later := by omega
  refine Bucket.one_le_available_of_wait (Nat.one_le_cast.mpr hburst) hlater hlater' ?_
  have hwait : retry * 1000 ≤ later - max bucket.refilledAt now := by omega
  calc 1 - limits.available bucket now ≤ (retry : ℚ) * limits.startsPerSecond :=
        (div_le_iff₀ hrate').mp hretry
    _ = ((retry * 1000 : Nat) : ℚ) * limits.ratePerMs := by
        unfold OrganizationLimits.ratePerMs
        push_cast
        ring
    _ ≤ ((later - max bucket.refilledAt now : Nat) : ℚ) * limits.ratePerMs :=
        mul_le_mul_of_nonneg_right (Nat.cast_le.mpr hwait) (ratePerMs_nonneg limits)

/-! ## A store and its bucket -/

section Store

variable {σ : Type} {handle : σ → Call → Option Result × σ} {admits : σ → Call → Bool}
variable {kept : σ → Option (Bucket ℚ)} {found : σ → Nat → Bucket ℚ} {tokens : σ → Option ℚ}
  {init : σ}

/-- What a store keeps of the bucket of an organization, and the bucket a call finds. -/
structure Bucketed (limits : OrganizationLimits) (organization : String)
    (handle : σ → Call → Option Result × σ) (admits : σ → Call → Bool)
    (kept : σ → Option (Bucket ℚ)) (found : σ → Nat → Bucket ℚ) (tokens : σ → Option ℚ)
    (init : σ) : Prop where
  start : ∀ b, kept init = some b → b = ⟨limits.startBurst, 0⟩
  call : ∀ s call, (admits s call = true ∧ 1 ≤ limits.available (found s call.now) call.now ∧
      kept (handle s call).2 = some (limits.spend (found s call.now) call.now)) ∨
    (admits s call = false ∧ kept (handle s call).2 = kept s)
  found_eq : ∀ s now, kept s = some (found s now) ∨ found s now = ⟨limits.startBurst, now⟩
  tokens_eq : ∀ s t, tokens s = some t → ∃ b, kept s = some b ∧ b.tokens = t
  rejected : ∀ s now (activation : Activation) retry, activation.organization = organization →
    (handle s ⟨now, .reserve activation⟩).1 = some (.error (.rate retry)) →
    ¬ 1 ≤ limits.available (found s now) now ∧
      retry = retryAfter (limits.available (found s now) now) limits.startsPerSecond

variable (h : Bucketed limits organization handle admits kept found tokens init)
include h

theorem Bucketed.filled (calls : List Call) :
    ∀ b, kept (Machine.after handle init calls) = some b → b.Filled (limits.startBurst : ℚ) := by
  let P (s : σ) : Prop := ∀ b, kept s = some b → b.Filled (limits.startBurst : ℚ)
  have hcall : ∀ s call, P s → True → P (handle s call).2 := by
    intro s call hs _ b hb
    obtain ⟨-, htoken, hkept⟩ | ⟨-, hkept⟩ := h.call s call
    · cases hkept.symm.trans hb
      exact .spend htoken
    · exact hs b (hkept.symm.trans hb)
  have hstart : P init := by
    intro b hb
    rw [h.start b hb]
    exact ⟨Nat.cast_nonneg _, le_refl _⟩
  exact Machine.after_invariant hcall hstart fun _ _ => trivial

theorem Bucketed.refilledAt_le (hcalls : ∀ call ∈ calls, call.now ≤ bound) :
    ∀ b, kept (Machine.after handle init calls) = some b → b.refilledAt ≤ bound := by
  let P (s : σ) : Prop := ∀ b, kept s = some b → b.refilledAt ≤ bound
  have hcall : ∀ s call, P s → call.now ≤ bound → P (handle s call).2 := by
    intro s call hs hbound b hb
    obtain ⟨-, -, hkept⟩ | ⟨-, hkept⟩ := h.call s call
    · cases hkept.symm.trans hb
      refine Nat.max_le.mpr ⟨?_, hbound⟩
      obtain hkept | hfull := h.found_eq s call.now
      · exact hs _ hkept
      · rw [hfull]
        exact hbound
    · exact hs b (hkept.symm.trans hb)
  have hstart : P init := by
    intro b hb
    rw [h.start b hb]
    exact Nat.zero_le bound
  exact Machine.after_invariant hcall hstart hcalls

theorem Bucketed.kept_of_no_admission {s : σ} (hnone : admissions handle admits s calls = []) :
    kept (Machine.after handle s calls) = kept s := by
  refine after_eq_of_no_admission (fun s call hadmits => ?_) hnone
  obtain ⟨hadmits', -⟩ | ⟨-, hkept⟩ := h.call s call
  · rw [hadmits] at hadmits'
    cases hadmits'
  · exact hkept

/-- A bucket without a token is the one that is kept. -/
theorem Bucketed.kept_of_no_token {s : σ} (hburst : 0 < limits.startBurst)
    (htoken : ¬ 1 ≤ limits.available (found s now) now) : kept s = some (found s now) := by
  refine (h.found_eq s now).resolve_right fun hfull => htoken ?_
  rw [hfull, available_of_full]
  exact Nat.one_le_cast.mpr hburst

theorem Bucketed.trueBucket (hrate : 0 < limits.startsPerSecond) (hburst : 0 < limits.startBurst)
    {Fair : σ → Call → Prop} (bucket : Bucket ℚ)
    (hwindow : ∀ calls, Transition.Guarded (advance handle) Fair init calls →
      bucket.Affordable limits.ratePerMs limits.startBurst (admissions handle admits init calls)) :
    TrueBucket limits organization handle admits tokens Fair init where
  window calls hfair i j hij hj := window_of_affordable (hwindow calls hfair) hij hj
  tokens_mem calls t ht := by
    obtain ⟨b, hb, rfl⟩ := h.tokens_eq _ t ht
    exact h.filled calls b hb
  retry_suffices := by
    intro before between now later retry retry' activation activation' horg horg' hrejected hnone
      hwait hrejected'
    obtain ⟨htoken, rfl⟩ := h.rejected _ _ _ _ horg hrejected
    obtain ⟨htoken', -⟩ := h.rejected _ _ _ _ horg' hrejected'
    have hkept := h.kept_of_no_token hburst htoken
    -- both rejections come from the bucket that was kept in between
    have hkept' := h.kept_of_no_token hburst htoken'
    rw [h.kept_of_no_admission hnone, hkept] at hkept'
    rw [← Option.some.inj hkept'] at htoken'
    have hnow := hwait ⟨now, .reserve activation⟩ (by simp)
    have hrefilled := h.refilledAt_le
      (fun call hcall => Nat.le_sub_of_add_le (hwait call (List.mem_append_left _ hcall))) _ hkept
    exact htoken' (one_le_available_after_retry hrate hburst hnow
      (Nat.add_le_of_le_sub (Nat.le_trans (Nat.le_add_left _ _) hnow) hrefilled))

end Store

/-! ## In memory -/

/-- The bucket of an organization. -/
def MemoryReservations.bucket (limits : OrganizationLimits) (organization : String)
    (m : MemoryReservations) : Bucket ℚ :=
  (m.organizations organization).bucket limits

namespace MemoryReservations

variable (retentionMs limits organization)

theorem spends (m : MemoryReservations) (call : Call) :
    Spends limits (handle retentionMs limits) (admits retentionMs limits organization)
      (bucket limits organization) m call := by
  unfold Spends admits bucket
  simp only [handle, set]
  by_cases horganization : call.organization = organization
  · subst horganization
    simp only [if_true, decide_true, Bool.true_and]
    exact Usage.handle_bucket _ call
  · refine .inr ⟨?_, ?_⟩
    · simp only [horganization, decide_false, Bool.false_and]
    · simp only [if_neg (Ne.symm horganization)]

variable {retentionMs limits organization}

/-- A rejection for the rate comes from a bucket without a token. -/
theorem rate_rejected {m : MemoryReservations} {activation : Activation}
    (h : (m.handle retentionMs limits ⟨now, .reserve activation⟩).1 = some (.error (.rate retry))) :
    ¬ 1 ≤ limits.available (m.bucket limits activation.organization) now ∧
      retry = retryAfter (limits.available (m.bucket limits activation.organization) now)
        limits.startsPerSecond := by
  have hresult : ((m.organizations activation.organization).reserve retentionMs activation limits
      now).1 = .error (.rate retry) := Option.some.inj h
  have houtcome := (m.organizations activation.organization).reserve_outcome retentionMs activation
    limits now
  generalize (m.organizations activation.organization).reserve retentionMs activation limits now =
    outcome at hresult houtcome
  cases houtcome with
  | known _ =>
    dsimp only at hresult
    split at hresult
    · cases hresult
    · cases hresult
  | noSlot _ _ => cases hresult
  | noToken _ htoken =>
    cases hresult
    exact ⟨htoken, rfl⟩
  | admitted _ _ => cases hresult

theorem bucketed (limits : OrganizationLimits) (retentionMs : Nat) (organization : String) :
    Bucketed limits organization (handle retentionMs limits)
      (admits retentionMs limits organization)
      (fun m => some (m.bucket limits organization)) (fun m _ => m.bucket limits organization)
      (fun m => (m.organizations organization).tokens) {} where
  start b hb := (Option.some.inj hb).symm
  call m call := (m.spends limits retentionMs organization call).imp
    (fun ⟨hadmits, htoken, hspend⟩ => ⟨hadmits, htoken, congrArg some hspend⟩)
    fun ⟨hadmits, hsame⟩ => ⟨hadmits, congrArg some hsame⟩
  found_eq _ _ := .inl rfl
  tokens_eq m t ht := by
    refine ⟨_, rfl, ?_⟩
    rw [bucket, Usage.bucket, ht]
    rfl
  rejected m now activation retry horganization h := horganization ▸ rate_rejected h

theorem trueBucket (hrate : 0 < limits.startsPerSecond) (hburst : 0 < limits.startBurst)
    (retentionMs : Nat) (organization : String) :
    TrueBucket limits organization (handle retentionMs limits)
      (admits retentionMs limits organization)
      (fun m => (m.organizations organization).tokens) (fun _ _ => True) {} :=
  (bucketed limits retentionMs organization).trueBucket hrate hburst (bucket limits organization {})
    fun _ _ => affordable_admissions (.of_forall
      (fun call _ m => m.spends limits retentionMs organization call) _)

end MemoryReservations

/-! ## In Redis -/

/-- The bucket as the key holds it, expired or not. -/
def Keys.stored (keys : Keys) : Usage :=
  { tokens := keys.bucket.map (·.value.tokens)
    refilledAt := (keys.bucket.map (·.value.updated)).getD 0 }

/-- The key of the bucket outlasts its filling. -/
def Keys.Lasting (limits : OrganizationLimits) (keys : Keys) : Prop :=
  ∀ entry, keys.bucket = some entry → 0 ≤ entry.value.tokens ∧
    (limits.startBurst : ℚ) ≤
      ((entry.expireAt - entry.value.updated : Nat) : ℚ) * limits.ratePerMs

/-- A reading that is not before the last refill. -/
def Keys.Forward (keys : Keys) (now : Nat) : Prop :=
  ∀ entry, keys.bucket = some entry → entry.value.updated ≤ now

instance (keys : Keys) (now : Nat) : Decidable (keys.Forward now) :=
  decidable_of_iff (keys.bucket.all fun entry => decide (entry.value.updated ≤ now)) (by
    unfold Keys.Forward
    cases keys.bucket with
    | none => simp
    | some entry => simp)

theorem Keys.Lasting.agree {keys : Keys} (h : keys.Lasting limits)
    (hforward : keys.Forward now) : BucketAgree limits now keys.stored keys := by
  unfold Keys.stored
  cases hbucket : keys.bucket with
  | none => exact .full rfl rfl hbucket
  | some entry =>
    obtain ⟨hnonneg, hfull⟩ := h entry hbucket
    exact .filling entry hbucket rfl rfl hnonneg (hforward entry hbucket) hfull

theorem Keys.Lasting.spent {spent : Bucket ℚ} {keys : Keys} (hrate : 0 < limits.startsPerSecond)
    (hbucket : keys.bucket = some (spentKey limits spent now)) (htokens : 0 ≤ spent.tokens)
    (hrefilled : spent.refilledAt = now) : keys.Lasting limits := by
  intro entry hentry
  cases hbucket.symm.trans hentry
  refine ⟨htokens, ?_⟩
  simp only [spentKey, hrefilled, Nat.add_sub_cancel_left]
  exact burst_le_bucketTtlMs (Nat.cast_pos.mpr hrate)

/-- A call that passes the checks of `reserve.lua` for the organization reads a clock
that is not before an earlier admission. -/
def RedisReservations.Fair (server : RedisServer) (limits : OrganizationLimits)
    (organization : String) (r : RedisReservations) (call : Call) : Prop :=
  call.organization = organization → (r.organizations organization).Passes server limits call →
    (r.organizations organization).Forward call.now

instance (server : RedisServer) (limits : OrganizationLimits) (organization : String)
    (r : RedisReservations) (call : Call) : Decidable (r.Fair server limits organization call) :=
  inferInstanceAs (Decidable (_ → _ → _))

/-- The bucket of an organization, expired or not. -/
def RedisReservations.bucket (limits : OrganizationLimits) (organization : String)
    (r : RedisReservations) : Bucket ℚ :=
  (r.organizations organization).stored.bucket limits

theorem stored_bucket_of_spentKey {keys : Keys} {spent : Bucket ℚ}
    (hbucket : keys.bucket = some (spentKey limits spent now)) :
    keys.stored.bucket limits = spent := by
  unfold Keys.stored
  rw [hbucket]
  rfl

theorem stored_bucket_congr {keys keys' : Keys} (hbucket : keys'.bucket = keys.bucket) :
    keys'.stored.bucket limits = keys.stored.bucket limits := by
  unfold Keys.stored
  rw [hbucket]

namespace RedisReservations

variable (limits retentionMs server organization)

/-- What a call does to the key of the bucket. -/
theorem handle_bucket (r : RedisReservations) (call : Call) :
    (r.admits server retentionMs limits organization call = true ∧
        (call.organization = organization ∧
          (r.organizations organization).Passes server limits call) ∧
        ((r.handle server retentionMs limits call).2.organizations organization).bucket =
          some (spentKey limits (limits.spend
            ((r.organizations organization).bucketAt server limits.startBurst call.now) call.now)
            call.now)) ∨
      (r.admits server retentionMs limits organization call = false ∧
        ((r.handle server retentionMs limits call).2.organizations organization).bucket =
          (r.organizations organization).bucket) := by
  unfold admits
  simp only [handle, set]
  by_cases horganization : call.organization = organization
  · subst horganization
    simp only [if_true, decide_true, Bool.true_and, true_and]
    exact Keys.handle_bucket _ call
  · refine .inr ⟨?_, ?_⟩
    · simp only [horganization, decide_false, Bool.false_and]
    · simp only [if_neg (Ne.symm horganization)]

variable {limits retentionMs server organization}

/-- A fair call spends from the bucket although its key may have expired, and the key of
the new one lasts. -/
theorem fair_call (hrate : 0 < limits.startsPerSecond) {r : RedisReservations}
    {call : Call} (hlasting : (r.organizations organization).Lasting limits)
    (hfair : r.Fair server limits organization call) :
    Spends limits (handle server retentionMs limits) (admits server retentionMs limits organization)
        (bucket limits organization) r call ∧
      ((r.handle server retentionMs limits call).2.organizations organization).Lasting limits := by
  obtain ⟨hadmits, ⟨horganization, hpasses⟩, hbucket⟩ | ⟨hadmits, hbucket⟩ :=
    r.handle_bucket limits retentionMs server organization call
  · have hagree := hlasting.agree (hfair horganization hpasses)
    have hfilled := Bucket.Filled.spend hpasses.token
    refine ⟨.inl ⟨hadmits, ?_, ?_⟩, ?_⟩
    · exact (hagree.available_eq server).symm ▸ hpasses.token
    · exact (stored_bucket_of_spentKey hbucket).trans (hagree.spend_eq server).symm
    · exact .spent hrate hbucket hfilled.1 (hagree.refilledAt_eq server).2
  · refine ⟨.inr ⟨hadmits, stored_bucket_congr hbucket⟩, ?_⟩
    intro entry hentry
    exact hlasting entry (hbucket ▸ hentry)

theorem rate_rejected {r : RedisReservations} {activation : Activation}
    (h : (r.handle server retentionMs limits ⟨now, .reserve activation⟩).1 =
      some (.error (.rate retry))) :
    ¬ 1 ≤ limits.available ((r.organizations activation.organization).bucketAt server
        limits.startBurst now) now ∧
      retry = retryAfter (limits.available ((r.organizations activation.organization).bucketAt
        server limits.startBurst now) now) limits.startsPerSecond := by
  have hresult : ((r.organizations activation.organization).reserve server retentionMs activation
      limits now).1 = .error (.rate retry) := Option.some.inj h
  have houtcome := (r.organizations activation.organization).reserve_outcome server retentionMs
    activation limits now
  generalize (r.organizations activation.organization).reserve server retentionMs activation
    limits now = outcome at hresult houtcome
  cases houtcome with
  | known _ =>
    dsimp only at hresult
    split at hresult
    · cases hresult
    · cases hresult
  | noSlot _ => cases hresult
  | noToken _ htoken =>
    cases hresult
    exact ⟨htoken, rfl⟩
  | admitted _ => cases hresult

/-- The bucket as its key holds it, expired or not. -/
def kept (organization : String) (r : RedisReservations) : Option (Bucket ℚ) :=
  (r.organizations organization).bucket.map fun entry => ⟨entry.value.tokens, entry.value.updated⟩

theorem bucketed (limits : OrganizationLimits) (server : RedisServer) (retentionMs : Nat)
    (organization : String) :
    Bucketed limits organization (handle server retentionMs limits)
      (admits server retentionMs limits organization) (kept organization)
      (fun r => (r.organizations organization).bucketAt server limits.startBurst)
      (fun r => (r.organizations organization).bucket.map (·.value.tokens)) {} where
  start b hb := nomatch hb
  call r call := by
    obtain ⟨hadmits, ⟨-, hpasses⟩, hbucket⟩ | ⟨hadmits, hbucket⟩ :=
      r.handle_bucket limits retentionMs server organization call
    · exact .inl ⟨hadmits, hpasses.token, by rw [kept, hbucket]; rfl⟩
    · exact .inr ⟨hadmits, by rw [kept, hbucket, kept]⟩
  found_eq r now := by
    unfold kept
    cases hkey : (r.organizations organization).bucket with
    | none => exact .inr (Keys.bucketAt_of_none server hkey _)
    | some entry =>
      cases hexpired : server.expired entry.expireAt now with
      | false => exact .inl (congrArg some (Keys.bucketAt_of_live server hkey hexpired _).symm)
      | true => exact .inr (Keys.bucketAt_of_gone server hkey hexpired _)
  tokens_eq r t ht := by
    obtain ⟨entry, hentry, rfl⟩ := Option.map_eq_some_iff.mp ht
    exact ⟨_, by rw [kept, hentry]; rfl, rfl⟩
  rejected r now activation retry horganization h := horganization ▸ rate_rejected h

theorem trueBucket (hrate : 0 < limits.startsPerSecond) (hburst : 0 < limits.startBurst)
    (server : RedisServer) (retentionMs : Nat) (organization : String) :
    TrueBucket limits organization (handle server retentionMs limits)
      (admits server retentionMs limits organization)
      (fun r => (r.organizations organization).bucket.map (·.value.tokens))
      (Fair server limits organization) {} := by
  refine (bucketed limits server retentionMs organization).trueBucket hrate hburst
    (bucket limits organization {}) fun calls hfair => ?_
  have hlasting : (({} : RedisReservations).organizations organization).Lasting limits :=
    fun entry hentry => nomatch hentry
  refine affordable_admissions (.imp (fun r call r' hlasting hfair hstep => ?_)
    (fun r call hlasting hfair => (fair_call hrate hlasting hfair).1) hlasting hfair)
  cases hstep
  exact (fair_call hrate hlasting hfair).2

end RedisReservations

/-- One start in a second, two at once. -/
def slowLimits : OrganizationLimits := ⟨10, 1, 2⟩

/-- A clock that falls back after the first admission. -/
def backwardCalls : List Call :=
  [⟨100000, .reserve (exampleActivation "a")⟩, ⟨0, .reserve (exampleActivation "b")⟩,
    ⟨2001, .reserve (exampleActivation "c")⟩, ⟨2001, .reserve (exampleActivation "d")⟩]

/-- Two admissions at once. -/
def forwardCalls : List Call :=
  [⟨5, .reserve (exampleActivation "a")⟩, ⟨5, .reserve (exampleActivation "b")⟩]

end DurableActors.Ports.Admission
