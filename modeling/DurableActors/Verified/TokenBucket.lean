import Mathlib.Algebra.Order.Ring.Nat
import Mathlib.Algebra.Order.Field.Basic
import Mathlib.Data.Nat.Cast.Order.Field
import Mathlib.Tactic.Linarith
import Mathlib.Tactic.Ring

/-!
# Token buckets

A bucket holds up to `burst` tokens and gains `rate` of them with every tick of
a clock.  A spender takes one token.  The clock may move backwards: a reading
before the last refill adds nothing, and the refill time never decreases.

`spends_le` is the potential argument: along a sequence of spends the tokens
grow by what the clock has added and fall by one for each spend.
-/

namespace DurableActors.Verified.TokenBucket

variable {𝕜 : Type*} [Field 𝕜] [LinearOrder 𝕜] [IsStrictOrderedRing 𝕜]

/-- A bucket: its tokens when it was last refilled. -/
@[ext]
structure Bucket (𝕜 : Type*) where
  tokens : 𝕜
  refilledAt : Nat
deriving DecidableEq

namespace Bucket

variable (rate burst : 𝕜)

/-- The tokens at a reading of the clock. -/
def available (b : Bucket 𝕜) (now : Nat) : 𝕜 :=
  min (b.tokens + ((now - b.refilledAt : Nat) : 𝕜) * rate) burst

/-- The bucket after a spend. -/
def spend (b : Bucket 𝕜) (now : Nat) : Bucket 𝕜 :=
  ⟨b.available rate burst now - 1, max b.refilledAt now⟩

/-- The bucket after spends at the readings, oldest first. -/
def spends (b : Bucket 𝕜) (readings : List Nat) : Bucket 𝕜 :=
  readings.foldl (spend rate burst) b

/-- Every spend finds a token. -/
def Affordable : Bucket 𝕜 → List Nat → Prop
  | _, [] => True
  | b, now :: readings =>
    1 ≤ b.available rate burst now ∧ Affordable (b.spend rate burst now) readings

/-- The tokens are between none and `burst`. -/
def Filled (b : Bucket 𝕜) : Prop := 0 ≤ b.tokens ∧ b.tokens ≤ burst

/-! ## One spend -/

omit [IsStrictOrderedRing 𝕜] in
theorem available_le (b : Bucket 𝕜) (now : Nat) : b.available rate burst now ≤ burst :=
  min_le_right _ _

theorem spend_tokens_le (b : Bucket 𝕜) (now : Nat) : (b.spend rate burst now).tokens ≤ burst - 1 :=
  sub_le_sub_right (b.available_le rate burst now) 1

/-- A spend adds what the clock gives and takes one. -/
theorem spend_le (b : Bucket 𝕜) (now : Nat) :
    (b.spend rate burst now).tokens ≤
      b.tokens + (((b.spend rate burst now).refilledAt : 𝕜) - b.refilledAt) * rate - 1 := by
  have helapsed : ((now - b.refilledAt : Nat) : 𝕜) =
      ((max b.refilledAt now : Nat) : 𝕜) - b.refilledAt := by
    rw [← Nat.cast_sub (Nat.le_max_left _ _)]
    congr 1
    omega
  have hle : b.available rate burst now ≤
      b.tokens + ((now - b.refilledAt : Nat) : 𝕜) * rate := min_le_left _ _
  rw [helapsed] at hle
  exact sub_le_sub_right hle 1

variable {rate burst}

theorem Filled.spend {b : Bucket 𝕜} {now : Nat} (h : 1 ≤ b.available rate burst now) :
    (b.spend rate burst now).Filled burst := by
  have hle := b.spend_tokens_le rate burst now
  exact ⟨sub_nonneg.mpr h, by linarith⟩

/-- A bucket that has had the time to fill is full. -/
theorem available_eq_burst {b : Bucket 𝕜} {now : Nat} (htokens : 0 ≤ b.tokens)
    (h : burst ≤ ((now - b.refilledAt : Nat) : 𝕜) * rate) : b.available rate burst now = burst :=
  min_eq_right (by linarith)

/-- After the time that the missing part of a token takes there is a token. -/
theorem one_le_available_of_wait {b : Bucket 𝕜} {now later : Nat} (hburst : 1 ≤ burst)
    (hnow : now ≤ later) (hrefilled : b.refilledAt ≤ later)
    (hwait : 1 - b.available rate burst now ≤ ((later - max b.refilledAt now : Nat) : 𝕜) * rate) :
    1 ≤ b.available rate burst later := by
  refine le_min ?_ hburst
  have hle : b.available rate burst now ≤
      b.tokens + ((now - b.refilledAt : Nat) : 𝕜) * rate := min_le_left _ _
  have hsplit : ((later - b.refilledAt : Nat) : 𝕜) =
      ((now - b.refilledAt : Nat) : 𝕜) + ((later - max b.refilledAt now : Nat) : 𝕜) := by
    rw [← Nat.cast_add]
    congr 1
    omega
  rw [hsplit, add_mul]
  linarith

/-! ## Sequences of spends -/

omit [IsStrictOrderedRing 𝕜] in
theorem affordable_append {b : Bucket 𝕜} {first second : List Nat} :
    b.Affordable rate burst (first ++ second) ↔ b.Affordable rate burst first ∧
        (b.spends rate burst first).Affordable rate burst second := by
  induction first generalizing b with
  | nil => exact (true_and _).symm.to_iff
  | cons now first ih =>
    rw [List.cons_append]
    show _ ∧ _ ↔ (_ ∧ _) ∧ _
    rw [ih, and_assoc]
    rfl

variable (rate burst) in
theorem spends_le (b : Bucket 𝕜) (readings : List Nat) :
    (b.spends rate burst readings).tokens ≤
      b.tokens + (((b.spends rate burst readings).refilledAt : 𝕜) - b.refilledAt) * rate -
        readings.length := by
  induction readings generalizing b with
  | nil => simp [spends]
  | cons now readings ih =>
    have hfirst := b.spend_le rate burst now
    have hrest := ih (b.spend rate burst now)
    rw [List.length_cons, Nat.cast_succ]
    show ((b.spend rate burst now).spends rate burst readings).tokens ≤
      b.tokens + ((((b.spend rate burst now).spends rate burst readings).refilledAt : 𝕜) -
        b.refilledAt) * rate - (readings.length + 1)
    linarith

theorem Filled.spends {b : Bucket 𝕜} {readings : List Nat} (hb : b.Filled burst)
    (h : b.Affordable rate burst readings) : (b.spends rate burst readings).Filled burst := by
  induction readings generalizing b with
  | nil => exact hb
  | cons now readings ih => exact ih (.spend h.1) h.2

/-! ## Windows -/

/-- The greatest reading. -/
def peak (readings : List Nat) : Nat := readings.foldr max 0

variable (rate burst) in
omit [IsStrictOrderedRing 𝕜] in
theorem spends_refilledAt (b : Bucket 𝕜) (readings : List Nat) :
    (b.spends rate burst readings).refilledAt = max b.refilledAt (peak readings) := by
  induction readings generalizing b with
  | nil => exact (Nat.max_zero _).symm
  | cons now readings ih =>
    show ((b.spend rate burst now).spends rate burst readings).refilledAt = _
    rw [ih]
    exact Nat.max_assoc _ _ _

theorem peak_append (first second : List Nat) :
    peak (first ++ second) = max (peak first) (peak second) := by
  induction first with
  | nil => exact (Nat.zero_max _).symm
  | cons now first ih =>
    show max now (peak (first ++ second)) = _
    rw [ih]
    exact (Nat.max_assoc _ _ _).symm

/-- The spends after a prefix, that one included, number at most the burst and
what the clock adds. -/
theorem window_of_append {b : Bucket 𝕜} (hrate : 0 ≤ rate) {first second : List Nat} {now : Nat}
    (h : b.Affordable rate burst (first ++ [now] ++ second)) :
    ((second.length + 1 : Nat) : 𝕜) ≤ burst +
      ((peak (first ++ [now] ++ second) : 𝕜) - peak (first ++ [now])) * rate := by
  obtain ⟨hfirst, hsecond⟩ := affordable_append.mp h
  obtain ⟨-, hnow, -⟩ := affordable_append.mp hfirst
  let c := b.spends rate burst (first ++ [now])
  have hc : c = (b.spends rate burst first).spend rate burst now := by
    show List.foldl _ _ _ = _
    rw [List.foldl_append]
    rfl
  have hstart : c.tokens ≤ burst - 1 := hc ▸ spend_tokens_le rate burst _ now
  have hfilled : c.Filled burst := hc ▸ Filled.spend hnow
  have hend : 0 ≤ (c.spends rate burst second).tokens := (hfilled.spends hsecond).1
  have hdrain := c.spends_le rate burst second
  have hclock : (((c.spends rate burst second).refilledAt : 𝕜) - c.refilledAt) * rate ≤
      ((peak (first ++ [now] ++ second) : 𝕜) - peak (first ++ [now])) * rate := by
    apply mul_le_mul_of_nonneg_right _ hrate
    have hc : c.refilledAt = max b.refilledAt (peak (first ++ [now])) :=
      b.spends_refilledAt rate burst _
    have hnat : (c.spends rate burst second).refilledAt + peak (first ++ [now]) ≤
        peak (first ++ [now] ++ second) + c.refilledAt := by
      rw [c.spends_refilledAt, peak_append _ second, hc]
      omega
    have hcast : (((c.spends rate burst second).refilledAt + peak (first ++ [now]) : Nat) : 𝕜) ≤
        ((peak (first ++ [now] ++ second) + c.refilledAt : Nat) : 𝕜) := Nat.cast_le.mpr hnat
    rw [Nat.cast_add, Nat.cast_add] at hcast
    linarith
  rw [Nat.cast_succ]
  linarith

/-- From any spend to any later one there are at most `burst` of them and what
the clock adds between the greatest readings up to each. -/
theorem window {b : Bucket 𝕜} (hrate : 0 ≤ rate) {readings : List Nat}
    (h : b.Affordable rate burst readings) {i j : Nat} (hij : i ≤ j) (hj : j < readings.length) :
    ((j - i + 1 : Nat) : 𝕜) ≤ burst +
      ((peak (readings.take (j + 1)) : 𝕜) - peak (readings.take (i + 1))) * rate := by
  have hi : i < readings.length := Nat.lt_of_le_of_lt hij hj
  have hsplit : readings.take (j + 1) =
      readings.take i ++ [readings[i]] ++ (readings.take (j + 1)).drop (i + 1) := by
    have hparts := List.take_append_drop (i + 1) (readings.take (j + 1))
    rw [List.take_take, Nat.min_eq_left (by omega)] at hparts
    rw [List.take_append_getElem hi, hparts]
  have hafford : b.Affordable rate burst (readings.take (j + 1)) :=
    (affordable_append.mp ((List.take_append_drop (j + 1) readings).symm ▸ h)).1
  rw [hsplit] at hafford
  have hbound := window_of_append hrate hafford
  rw [← hsplit, List.take_append_getElem hi, List.length_drop, List.length_take,
    Nat.min_eq_left hj] at hbound
  have hcount : j + 1 - (i + 1) + 1 = j - i + 1 := by omega
  rw [hcount] at hbound
  exact hbound

end Bucket

end DurableActors.Verified.TokenBucket
