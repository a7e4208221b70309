/-
  LimitlessOS.Sched.Ticks — durations in ticks of the timer.

  `nanosleep` and `futex` take a timespec (`arch/x86_64/linux_abi.c`), a Windows wait takes
  a negative number of 100 ns (`arch/x86_64/windows_abi.c`). Both are turned into ticks,
  rounded up. The timer's counter has 32 bits; a tick counts as reached if it lies less
  than 2^31 behind the counter.

  Proved:
  - `Request.ticks_le_iff`: the ticks of a request are the least number that covers it.
  - `reached_early`: before its tick a sleeper is found due only if more than 2^31 ticks
    are left.
-/
import Mathlib.Algebra.Group.Nat.Defs
import Mathlib.Tactic.Ring

namespace LimitlessOS.Sched

open UInt32 Nat

/-- `LINUX_ABI64_MAX_PIT_TICK_HZ` and `WINDOWS_ABI64_MAX_PIT_TICK_HZ` -/
def maxPitTickHz : UInt32 := 1193182

/-- `LINUX_ABI64_DEFAULT_TICK_HZ` and `WINDOWS_ABI64_DEFAULT_TICK_HZ` -/
def defaultTickHz : UInt32 := 100

/-- `linux_abi64_effective_tick_frequency` and `windows_abi64_effective_tick_frequency`, for the timer's frequency -/
def effectiveTickFrequency (frequency : UInt32) : UInt32 :=
  if frequency = 0 ∨ frequency > maxPitTickHz then defaultTickHz else frequency

/-- `linux_abi64_timespec_t` -/
structure Timespec where
  tvSec : UInt64
  tvNsec : UInt64
  deriving DecidableEq

namespace Timespec

/-- `linux_abi64_timespec_is_valid` -/
def isValid (t : Timespec) : Bool := t.tvSec &&& 0x8000000000000000 = 0 && t.tvNsec < 1000000000

/-- `linux_abi64_timespec_to_ticks` -/
def toTicks (t : Timespec) (frequency : UInt32) : Option UInt32 :=
  if frequency = 0 then none
  else if t.tvSec > 0xFFFFFFFF / frequency.toUInt64 then none
  else
    let secTicks := t.tvSec * frequency.toUInt64
    let nsecTicks := (t.tvNsec * frequency.toUInt64 + 999999999) / 1000000000
    let totalTicks := secTicks + nsecTicks
    if totalTicks > 0xFFFFFFFF then none else some totalTicks.toUInt32

/-- `linux_abi64_ticks_to_timespec` -/
def ofTicks (ticks frequency : UInt32) : Timespec where
  tvSec := (ticks / frequency).toUInt64
  tvNsec := (ticks % frequency).toUInt64 * 1000000000 / frequency.toUInt64

end Timespec

/-- `WINDOWS_ABI64_STATUS_*`, of a wait -/
inductive WaitStatus where
  | success
  | timeout
  | notImplemented
  | invalidParameter
  | noMemory
  deriving DecidableEq

/-- `WINDOWS_ABI64_100NS_PER_SECOND` -/
def hundredNsPerSecond : UInt64 := 10000000

/-- `windows_abi64_relative_timeout_to_ticks` -/
def relativeTimeoutToTicks (timeout : UInt64) (frequency : UInt32) : Except WaitStatus UInt32 :=
  if timeout = 0 then .ok 0
  else if timeout &&& 0x8000000000000000 = 0 then .error .notImplemented
  else
    let frequency := (effectiveTickFrequency frequency).toUInt64
    let magnitude := 0 - timeout
    let maximumMagnitude := 0xFFFFFFFF * hundredNsPerSecond / frequency
    if magnitude = 0 ∨ magnitude > maximumMagnitude then .error .invalidParameter
    else
      let ticks := (magnitude * frequency + (hundredNsPerSecond - 1)) / hundredNsPerSecond
      let ticks := if ticks = 0 then 1 else ticks
      if ticks > 0xFFFFFFFF then .error .invalidParameter else .ok ticks.toUInt32

/-- `scheduler64_sleep_tick_reached` -/
def sleepTickReached (nowTick wakeTick : UInt32) : Bool := nowTick - wakeTick < 0x80000000

/-! ## The conversions cover the duration -/

/-- What a call asks to sleep for. -/
inductive Request where
  | timespec (t : Timespec)
  | windows (timeout : UInt64)
  deriving DecidableEq

namespace Request

/-- The ticks to sleep for, if the request is accepted. -/
def ticks (r : Request) (frequency : UInt32) : Option UInt32 :=
  match r with
  | timespec t => if t.isValid then t.toTicks (effectiveTickFrequency frequency) else none
  | windows timeout => (relativeTimeoutToTicks timeout frequency).toOption

/-- The duration that is asked for. -/
def nanoseconds : Request → Nat
  | timespec t => t.tvSec.toNat * 10 ^ 9 + t.tvNsec.toNat
  | windows timeout => 100 * (0 - timeout).toNat

end Request

theorem effectiveTickFrequency_bounds (frequency : UInt32) :
    0 < (effectiveTickFrequency frequency).toNat ∧ (effectiveTickFrequency frequency).toNat ≤ 1193182 := by
  unfold effectiveTickFrequency
  split_ifs with h
  · decide
  · rw [not_or] at h
    have hpos : frequency.toNat ≠ 0 := fun h0 => h.1 (UInt32.toNat_inj.1 h0)
    have hle : frequency.toNat ≤ 1193182 := not_lt.1 h.2
    omega

/-- A quotient that is rounded up is at most `n` if the duration is. -/
theorem roundUp_le_iff {a unit n : Nat} (hunit : 0 < unit) : (a + (unit - 1)) / unit ≤ n ↔ a ≤ n * unit := by
  rw [← Nat.lt_succ_iff, Nat.div_lt_iff_lt_mul hunit, Nat.succ_mul]
  omega

theorem mul_le_of_not_lt_div {x y : UInt64} {f : UInt32} (h : ¬ x > y / f.toUInt64) : x.toNat * f.toNat ≤ y.toNat := by
  have hle := UInt64.le_iff_toNat_le.1 (UInt64.not_lt.1 h)
  exact (mul_le_mul_right _ hle).trans (div_mul_le_self _ _)

theorem toNat_roundUp {x c d : UInt64} {f : UInt32} (h : x.toNat * f.toNat + c.toNat < 2 ^ 64) :
    ((x * f.toUInt64 + c) / d).toNat = (x.toNat * f.toNat + c.toNat) / d.toNat := by
  rw [UInt64.toNat_div, UInt64.toNat_add, UInt64.toNat_mul, toNat_toUInt64, mod_add_mod, mod_eq_of_lt h]

namespace Timespec

variable {t : Timespec} {f k : UInt32}

/-- No step of the conversion is cut to 64 or 32 bits. -/
theorem toNat_toTicks (hvalid : t.isValid) (hf : f.toNat ≤ 1193182) (h : t.toTicks f = some k) :
    k.toNat = t.tvSec.toNat * f.toNat + (t.tvNsec.toNat * f.toNat + 999999999) / 1000000000 := by
  have hnsec : t.tvNsec.toNat < 1000000000 := by
    simp only [isValid, Bool.and_eq_true, decide_eq_true_eq] at hvalid
    exact hvalid.2
  simp only [toTicks] at h
  split_ifs at h with h0 hsec htotal
  obtain rfl := Option.some.inj h
  have hsec' : t.tvSec.toNat * f.toNat ≤ 0xFFFFFFFF := mul_le_of_not_lt_div hsec
  have hsecTicks : (t.tvSec * f.toUInt64).toNat = t.tvSec.toNat * f.toNat := by
    rw [UInt64.toNat_mul, toNat_toUInt64, mod_eq_of_lt (by omega)]
  have hprod : t.tvNsec.toNat * f.toNat ≤ 1000000000 * 1193182 := Nat.mul_le_mul (by omega) hf
  have hnsecTicks : ((t.tvNsec * f.toUInt64 + 999999999) / 1000000000).toNat =
      (t.tvNsec.toNat * f.toNat + 999999999) / 1000000000 :=
    toNat_roundUp (show _ + 999999999 < 2 ^ 64 by omega)
  have hsum : (t.tvSec * f.toUInt64 + (t.tvNsec * f.toUInt64 + 999999999) / 1000000000).toNat =
      t.tvSec.toNat * f.toNat + (t.tvNsec.toNat * f.toNat + 999999999) / 1000000000 := by
    rw [UInt64.toNat_add, hsecTicks, hnsecTicks, mod_eq_of_lt (by omega)]
  have hle := UInt64.le_iff_toNat_le.1 (UInt64.not_lt.1 htotal)
  rw [hsum] at hle
  rw [UInt64.toNat_toUInt32, hsum]
  exact mod_eq_of_lt (lt_of_le_of_lt hle (by decide))

end Timespec

theorem toNat_relativeTimeoutToTicks {timeout : UInt64} {frequency k : UInt32} (h0 : timeout ≠ 0)
    (h : relativeTimeoutToTicks timeout frequency = .ok k) :
    k.toNat = ((0 - timeout).toNat * (effectiveTickFrequency frequency).toNat + 9999999) / 10000000 := by
  obtain ⟨hpos, hf⟩ := effectiveTickFrequency_bounds frequency
  unfold relativeTimeoutToTicks at h
  generalize effectiveTickFrequency frequency = f at *
  simp only [if_neg h0] at h
  split at h
  · cases h
  split at h
  · cases h
  rename_i hmagnitude
  rw [not_or] at hmagnitude
  obtain ⟨hne, hmax⟩ := hmagnitude
  have hmul : (0 - timeout).toNat * f.toNat ≤ 0xFFFFFFFF * 10000000 := mul_le_of_not_lt_div hmax
  have hticks : (((0 - timeout) * f.toUInt64 + (hundredNsPerSecond - 1)) / hundredNsPerSecond).toNat =
      ((0 - timeout).toNat * f.toNat + 9999999) / 10000000 :=
    toNat_roundUp (show _ + 9999999 < 2 ^ 64 by omega)
  -- a magnitude that is not 0 takes a tick, so the smallest answer is not changed
  have hone : 1 ≤ (0 - timeout).toNat * f.toNat := by
    have : (0 - timeout).toNat ≠ 0 := fun hz => hne (UInt64.toNat_inj.1 hz)
    exact mul_pos (by omega) hpos
  have hnz : ((0 - timeout) * f.toUInt64 + (hundredNsPerSecond - 1)) / hundredNsPerSecond ≠ 0 := by
    intro hz
    rw [hz] at hticks
    have hz' : 0 = ((0 - timeout).toNat * f.toNat + 9999999) / 10000000 := hticks
    omega
  rw [if_neg hnz] at h
  split at h
  · cases h
  rename_i hle
  obtain rfl := Except.ok.inj h
  have hle := UInt64.le_iff_toNat_le.1 (UInt64.not_lt.1 hle)
  rw [hticks] at hle
  rw [UInt64.toNat_toUInt32, hticks]
  exact mod_eq_of_lt (lt_of_le_of_lt hle (by decide))

namespace Request

/-- The ticks are the least number whose duration is not shorter than the request. -/
theorem ticks_le_iff {r : Request} {frequency k : UInt32} (h : r.ticks frequency = some k) (n : Nat) :
    k.toNat ≤ n ↔ r.nanoseconds * (effectiveTickFrequency frequency).toNat ≤ n * 10 ^ 9 := by
  obtain ⟨hpos, hf⟩ := effectiveTickFrequency_bounds frequency
  cases r with
  | timespec t =>
    simp only [ticks] at h
    split_ifs at h with hvalid
    rw [Timespec.toNat_toTicks hvalid hf h, nanoseconds]
    generalize (effectiveTickFrequency frequency).toNat = f at *
    have hsplit : t.tvSec.toNat * f + (t.tvNsec.toNat * f + 999999999) / 1000000000 ≤ n ↔
        ((t.tvSec.toNat * f) * 1000000000 + t.tvNsec.toNat * f + 999999999) / 1000000000 ≤ n := by
      rw [add_assoc, mul_comm (t.tvSec.toNat * f), mul_add_div (by decide)]
    rw [hsplit, roundUp_le_iff (show 0 < 1000000000 by decide)]
    ring_nf
  | windows timeout =>
    simp only [ticks] at h
    have hok : relativeTimeoutToTicks timeout frequency = .ok k := by
      cases hr : relativeTimeoutToTicks timeout frequency with
      | error e => rw [hr] at h; cases h
      | ok k' => rw [hr] at h; rw [Option.some.inj h]
    by_cases h0 : timeout = 0
    · subst h0
      obtain rfl : k = 0 := (Except.ok.inj hok).symm
      simp [nanoseconds]
    rw [toNat_relativeTimeoutToTicks h0 hok, roundUp_le_iff (show 0 < 10000000 by decide), nanoseconds]
    rw [mul_assoc]
    omega

end Request

/-! ## Due or not -/

/-- `elapsed` ticks after its start a sleeper is found due, as the counter shows it. -/
theorem sleepTickReached_iff (start elapsed : Nat) (k : UInt32) :
    sleepTickReached (ofNat (start + elapsed)) (ofNat start + k) ↔
      (2 ^ 32 - k.toNat + elapsed) % 2 ^ 32 < 2 ^ 31 := by
  unfold sleepTickReached
  rw [decide_eq_true_iff, ofNat_add]
  rw [show ofNat start + ofNat elapsed - (ofNat start + k) = ofNat elapsed - k by grind]
  show (2 ^ 32 - k.toNat + elapsed % 2 ^ 32) % 2 ^ 32 < 2 ^ 31 ↔ _
  rw [add_mod_mod]

/-- Before its tick a sleeper is found due only if more than 2^31 ticks are left. -/
theorem reached_early {start elapsed : Nat} {k : UInt32} (h : elapsed < k.toNat) :
    sleepTickReached (ofNat (start + elapsed)) (ofNat start + k) ↔ elapsed + 2 ^ 31 < k.toNat := by
  have hk := k.toNat_lt
  rw [sleepTickReached_iff]
  omega

end LimitlessOS.Sched
