/-
# Driver.SdhciClock — the clock of an SD card

`sdhci_calc_clock` and `sdhci_set_clock` of `kernel/driver/sdhci/sdhci-core.c`,
over the register helpers of `sdhci_host.h`: the clock register is the lower
half of a word, and every access is one to the word.

The divider 0 stands for the base clock itself, and 0 is also how
`sdhci_calc_clock` reports an error.  So a card that may run at the base clock or
above gets no clock at all (`set_clock_selects_iff`); below the base clock the
divider is the smallest that does not exceed the rate asked for, and in no case
is the card clock enabled above it (`sdhciSetClock_never_above`).
-/
import Mathlib.Order.Bounds.Basic
import Minus.Theory.Bytes

namespace Minus.Driver.SdhciClock

set_option autoImplicit false

def einval : Int := -22
def etimedout : Int := -110

/-- `SDHCI_CLOCK_INT_EN`. -/
def clockIntEn : UInt16 := 1

/-- `SDHCI_CLOCK_INT_STABLE`. -/
def clockIntStable : UInt16 := 2

/-- `SDHCI_CLOCK_CARD_EN`. -/
def clockCardEn : UInt16 := 4

/-- The fields of `struct sdhci_host` that `sdhci_set_clock` uses. -/
structure Host where
  ioaddr : UInt64
  baseClock : UInt32
  clock : UInt32
  deriving DecidableEq

/-- The word of `SDHCI_CLOCK_CONTROL`, and what was written to its lower half, in order. -/
structure Controller where
  word : UInt32
  writes : List UInt16
  deriving DecidableEq

/-! ## sdhci_host.h -/

/-- `sdhci_readw` of the clock register, where the controller reports `stable`. -/
def readw (c : Controller) (stable : Bool) : UInt16 :=
  if stable then c.word.toUInt16 ||| clockIntStable else c.word.toUInt16 &&& ~~~clockIntStable

/-- `sdhci_writew` of the clock register: the upper half of the word stays. -/
def writew (c : Controller) (val : UInt16) : Controller :=
  ⟨(c.word &&& ~~~0xffff) ||| (val.toUInt32 &&& 0xffff), c.writes ++ [val]⟩

/-! ## sdhci-core.c -/

/-- The loop over the dividers; `left` of them are not tried yet. -/
def divLoop (base clock : UInt32) : Nat → UInt16 → UInt32 → UInt16 × UInt32
  | 0, div, freq => (div, freq)
  | left + 1, div, _ =>
      let freq := base / (2 * div.toUInt32)
      if freq ≤ clock then (div, freq) else divLoop base clock left (div + 1) freq

/-- `sdhci_calc_clock`: the bits for the register, and `*clock_out` where it is written. -/
def sdhciCalcClock (host : Host) (clock : UInt32) : UInt16 × Option UInt32 :=
  if clock = 0 ∨ host.baseClock = 0 then (0, none)
  else
    let (div, freq) := if host.baseClock ≤ clock then (0, host.baseClock) else divLoop host.baseClock clock 255 1 0
    (div <<< 8, some freq)

/-- The wait for a stable clock: `timeout` polls are left, the next is number `poll`. -/
def waitStable (c : Controller) (stable : Nat → Bool) : Nat → Nat → Bool
  | 0, _ => false
  | timeout + 1, poll =>
      if readw c (stable poll) &&& clockIntStable ≠ 0 then true else waitStable c stable timeout (poll + 1)

/-- `sdhci_set_clock`.  `stable n` is what the controller reports when the register is read the
`n`-th time, from 0 on. -/
def sdhciSetClock (host : Host) (c : Controller) (stable : Nat → Bool) (hz : UInt32) : Host × Controller × Int :=
  if host.ioaddr = 0 then (host, c, einval)
  else
    let c := writew c (readw c (stable 0) &&& ~~~clockCardEn)
    if hz = 0 then ({ host with clock := 0 }, c, 0)
    else
      let (clk, actual) := sdhciCalcClock host hz
      if clk = 0 then (host, c, einval)
      else
        let clk := clk ||| clockIntEn
        let c := writew c clk
        if waitStable c stable 10000 1 then
          ({ host with clock := actual.getD 0 }, writew c (clk ||| clockCardEn), 0)
        else (host, c, etimedout)

/-! ## What is asked of it -/

/-- The frequency that a divider yields. -/
def rate (base : UInt32) (d : Nat) : Nat := if d = 0 then base.toNat else base.toNat / (2 * d)

/-- The divider in bits 15:8 of a value of the clock register. -/
def dividerOf (clk : UInt16) : Nat := clk.toNat / 256

/-- The dividers whose rate does not exceed `hz`. -/
def fitting (base hz : UInt32) : Set Nat := {d | d ≤ 255 ∧ rate base d ≤ hz.toNat}

/-- What was written does not let the card run above `hz`. -/
def NeverAbove (base hz : UInt32) (writes : List UInt16) : Prop :=
  ∀ clk ∈ writes, clk &&& clockCardEn ≠ 0 → rate base (dividerOf clk) ≤ hz.toNat

/-- `sdhci_set_clock` selects the smallest divider that fits, or fails without exceeding the rate. -/
structure Selects (host : Host) (c : Controller) (stable : Nat → Bool) (hz : UInt32) : Prop where
  selects : ∀ d, IsLeast (fitting host.baseClock hz) d → ∃ host' c',
    sdhciSetClock host c stable hz = (host', c', 0) ∧ dividerOf c'.word.toUInt16 = d ∧
      c'.word.toUInt16 &&& clockCardEn ≠ 0 ∧ host'.clock.toNat = rate host.baseClock d ∧
      host'.clock ≤ hz
  refuses : fitting host.baseClock hz = ∅ → ∃ host' c' err, sdhciSetClock host c stable hz = (host', c', err) ∧
    err < 0 ∧ ∃ writes, c'.writes = c.writes ++ writes ∧ NeverAbove host.baseClock hz writes

section Clock

variable {host : Host} {c : Controller} {stable : Nat → Bool} {base hz : UInt32}

/-! ## Registers -/

theorem or_and_self (x y : UInt16) : (x ||| y) &&& y = y := by
  apply UInt16.toBitVec_inj.1
  ext i h
  simp
  grind

@[simp] theorem writew_word (c : Controller) (val : UInt16) : (writew c val).word.toUInt16 = val := by
  have low : (0xffff : UInt16) = -1 := rfl
  simp [writew]
  simp [low]

@[simp] theorem writew_writes (c : Controller) (val : UInt16) : (writew c val).writes = c.writes ++ [val] := rfl

theorem readw_stable (c : Controller) (stable : Bool) : readw c stable &&& clockIntStable ≠ 0 ↔ stable = true := by
  cases stable with
  | true => simp [readw, or_and_self, clockIntStable]
  | false => simp [readw, UInt16.and_assoc]

/-! ## The divider -/

/-- A divider with its enable bits, as it is written. -/
theorem divider_bits : ∀ d < 256, 1 ≤ d → UInt16.ofNat d <<< 8 ≠ 0 ∧
    UInt16.ofNat d <<< 8 ||| clockIntEn ≠ 0 ∧ (UInt16.ofNat d <<< 8 ||| clockIntEn) &&& clockCardEn = 0 ∧
    dividerOf (UInt16.ofNat d <<< 8 ||| clockIntEn ||| clockCardEn) = d ∧
    (UInt16.ofNat d <<< 8 ||| clockIntEn ||| clockCardEn) &&& clockCardEn ≠ 0 := by
  decide +kernel

theorem rate_eq (base : UInt32) {div : UInt16} (some_ : 1 ≤ div.toNat) :
    (base / (2 * div.toUInt32)).toNat = rate base div.toNat := by
  have small := div.toNat_lt
  have double : (2 * div.toUInt32).toNat = 2 * div.toNat := by
    rw [UInt32.toNat_mul, UInt16.toNat_toUInt32]
    exact Nat.mod_eq_of_lt (by simp only [UInt32.reduceToNat]; omega)
  rw [UInt32.toNat_div, double, rate, if_neg (by omega)]

/-- **The loop stops at the first divider that fits, or behind the last.** -/
theorem divLoop_spec (base hz : UInt32) : ∀ (left : Nat) (div : UInt16) (freq : UInt32),
    div.toNat + left = 256 → 1 ≤ div.toNat →
      (∃ d < 256, div.toNat ≤ d ∧ rate base d ≤ hz.toNat ∧
        (∀ e, div.toNat ≤ e → e < d → hz.toNat < rate base e) ∧
        ∃ freq', divLoop base hz left div freq = (UInt16.ofNat d, freq') ∧ freq'.toNat = rate base d) ∨
      ((∀ e, div.toNat ≤ e → e < 256 → hz.toNat < rate base e) ∧
        ∃ freq', divLoop base hz left div freq = (256, freq'))
  | 0, div, freq, total, _ => by
      have last : div = 256 := UInt16.toNat_inj.1 (by simpa using total)
      exact .inr ⟨fun e ge lt => by omega, freq, by rw [last]; rfl⟩
  | left + 1, div, freq, total, positive => by
      have freqEq := rate_eq base positive
      by_cases fits : base / (2 * div.toUInt32) ≤ hz
      · refine .inl ⟨div.toNat, by omega, Nat.le_refl _, ?_, fun e ge lt => by omega,
          _, ?_, freqEq⟩
        · rw [← freqEq]
          exact UInt32.le_iff_toNat_le.1 fits
        · simp [divLoop, fits]
      · have above : hz.toNat < rate base div.toNat := by
          rw [← freqEq]
          exact Nat.lt_of_not_le fun le => fits (UInt32.le_iff_toNat_le.2 le)
        have next : (div + 1).toNat = div.toNat + 1 := by
          rw [UInt16.toNat_add]
          exact Nat.mod_eq_of_lt (by simp only [UInt16.reduceToNat]; omega)
        have first : ∀ {e}, div.toNat ≤ e → e ≠ div.toNat → (div + 1).toNat ≤ e := by omega
        have step : divLoop base hz (left + 1) div freq =
            divLoop base hz left (div + 1) (base / (2 * div.toUInt32)) := by
          simp [divLoop, fits]
        rw [step]
        rcases divLoop_spec base hz left (div + 1) (base / (2 * div.toUInt32)) (by omega) (by omega) with
          ⟨d, small, ge, fits', before, ran⟩ | ⟨before, ran⟩
        · refine .inl ⟨d, small, by omega, fits', fun e from_ below => ?_, ran⟩
          by_cases same : e = div.toNat
          · exact same ▸ above
          · exact before e (first from_ same) below
        · refine .inr ⟨fun e from_ below => ?_, ran⟩
          by_cases same : e = div.toNat
          · exact same ▸ above
          · exact before e (first from_ same) below

/-- A controller that reports a stable clock in time ends the wait. -/
theorem waitStable_eq (c : Controller) (stable : Nat → Bool) : ∀ timeout poll,
    waitStable c stable timeout poll = true ↔ ∃ n < timeout, stable (poll + n) = true
  | 0, poll => by simp [waitStable]
  | timeout + 1, poll => by
      have rest := waitStable_eq c stable timeout (poll + 1)
      simp only [waitStable, readw_stable]
      split
      · exact ⟨fun _ => ⟨0, Nat.succ_pos _, ‹_›⟩, fun _ => rfl⟩
      · rw [rest]
        constructor
        · rintro ⟨n, below, found⟩
          exact ⟨n + 1, by omega, by rwa [Nat.add_assoc, Nat.add_comm 1] at found⟩
        · rintro ⟨n, below, found⟩
          cases n with
          | zero => exact absurd found ‹_›
          | succ n => exact ⟨n, by omega, by rwa [Nat.add_assoc, Nat.add_comm 1]⟩

/-! ## The selection -/

/-- A rate asked for below the base clock: what `sdhci_calc_clock` finds. -/
theorem sdhciCalcClock_below (positive : 0 < hz) (below : hz < host.baseClock) :
    (∃ d, 1 ≤ d ∧ d < 256 ∧ IsLeast (fitting host.baseClock hz) d ∧
      ∃ freq, sdhciCalcClock host hz = (UInt16.ofNat d <<< 8, some freq) ∧ freq.toNat = rate host.baseClock d) ∨
    (fitting host.baseClock hz = ∅ ∧ (sdhciCalcClock host hz).1 = 0) := by
  have some_ : ¬ (hz = 0 ∨ host.baseClock = 0) := by
    rintro (rfl | zero)
    · exact absurd positive (by decide)
    · rw [zero] at below
      exact absurd (UInt32.lt_iff_toNat_lt.1 below) (Nat.not_lt_zero _)
  have less := UInt32.lt_iff_toNat_lt.1 below
  have above : ¬ host.baseClock ≤ hz := fun le => absurd (UInt32.le_iff_toNat_le.1 le) (Nat.not_le.2 less)
  -- the base clock itself is too fast
  have first : ∀ e, rate host.baseClock e ≤ hz.toNat → 1 ≤ e := by
    intro e le
    by_contra zero
    obtain rfl : e = 0 := by omega
    exact absurd le (Nat.not_le.2 less)
  rcases divLoop_spec host.baseClock hz 255 1 0 rfl (Nat.le_refl _) with
    ⟨d, small, ge, fits, before, freq, run, out⟩ | ⟨before, freq, run⟩
  · refine .inl ⟨d, ge, small, ⟨⟨Nat.lt_succ_iff.1 small, fits⟩, fun e ⟨_, le⟩ => ?_⟩, freq, ?_, out⟩
    · by_contra smaller
      exact absurd (before e (first e le) (Nat.not_le.1 smaller)) (Nat.not_lt.2 le)
    · simp [sdhciCalcClock, some_, above, run]
  · refine .inr ⟨?_, ?_⟩
    · exact Set.eq_empty_of_forall_notMem fun e ⟨small, le⟩ =>
        absurd (before e (first e le) (Nat.lt_succ_iff.2 small)) (Nat.not_lt.2 le)
    · simp only [sdhciCalcClock, if_neg some_, if_neg above, run]
      decide

/-- At the base clock and above, `sdhci_calc_clock` answers as in an error. -/
theorem sdhciCalcClock_above (above : host.baseClock ≤ hz) : (sdhciCalcClock host hz).1 = 0 := by
  by_cases none_ : hz = 0 ∨ host.baseClock = 0
  · simp [sdhciCalcClock, none_]
  · simp [sdhciCalcClock, none_, above]

/-- The first write disables the card clock. -/
theorem disabled (x : UInt16) : (x &&& ~~~clockCardEn) &&& clockCardEn = 0 := by
  simp [UInt16.and_assoc]

/-- Without a divider the clock stays disabled. -/
theorem sdhciSetClock_refused (positive : hz ≠ 0) (mapped : host.ioaddr ≠ 0)
    (none_ : (sdhciCalcClock host hz).1 = 0) :
    sdhciSetClock host c stable hz = (host, writew c (readw c (stable 0) &&& ~~~clockCardEn), einval) := by
  simp [sdhciSetClock, mapped, positive, none_]

/-- With one, and a clock that gets stable, the card runs at its rate. -/
theorem sdhciSetClock_selected {clk : UInt16} {freq : UInt32} (positive : hz ≠ 0) (mapped : host.ioaddr ≠ 0)
    (found : sdhciCalcClock host hz = (clk, some freq)) (some_ : clk ≠ 0)
    (settles : ∃ n < 10000, stable (1 + n) = true) :
    sdhciSetClock host c stable hz =
      ({ host with clock := freq },
        writew (writew (writew c (readw c (stable 0) &&& ~~~clockCardEn)) (clk ||| clockIntEn))
          (clk ||| clockIntEn ||| clockCardEn), 0) := by
  have waited := fun c => (waitStable_eq c stable 10000 1).2 settles
  simp [sdhciSetClock, mapped, positive, found, some_, waited]

/-- **No value written lets the card run above the rate asked for**, whatever the controller reports. -/
theorem sdhciSetClock_never_above (positive : 0 < hz) :
    ∃ writes, (sdhciSetClock host c stable hz).2.1.writes = c.writes ++ writes ∧
      NeverAbove host.baseClock hz writes := by
  have nonzero : hz ≠ 0 := by
    rintro rfl
    exact absurd positive (by decide)
  by_cases mapped : host.ioaddr = 0
  · exact ⟨[], by simp [sdhciSetClock, mapped], by simp [NeverAbove]⟩
  by_cases none_ : (sdhciCalcClock host hz).1 = 0
  · refine ⟨[readw c (stable 0) &&& ~~~clockCardEn], by rw [sdhciSetClock_refused nonzero mapped none_]; simp, ?_⟩
    simp [NeverAbove, disabled]
  -- a divider below the base clock
  have below : hz < host.baseClock := by
    by_contra above
    exact none_ (sdhciCalcClock_above (UInt32.not_lt.1 above))
  obtain ⟨d, one, small, least, freq, found, -⟩ :=
    (sdhciCalcClock_below positive below).resolve_right fun out => none_ out.2
  obtain ⟨shifted, -, quiet, divider, -⟩ := divider_bits d small one
  have within : ∀ clk ∈ [readw c (stable 0) &&& ~~~clockCardEn, UInt16.ofNat d <<< 8 ||| clockIntEn,
      UInt16.ofNat d <<< 8 ||| clockIntEn ||| clockCardEn],
      clk &&& clockCardEn ≠ 0 → rate host.baseClock (dividerOf clk) ≤ hz.toNat := by
    simp [disabled, quiet, divider, least.1.2]
  by_cases settles : ∃ n < 10000, stable (1 + n) = true
  · refine ⟨_, ?_, within⟩
    rw [sdhciSetClock_selected nonzero mapped found shifted settles]
    simp
  · refine ⟨[readw c (stable 0) &&& ~~~clockCardEn, UInt16.ofNat d <<< 8 ||| clockIntEn], ?_, fun clk member =>
      within clk (by simp at member ⊢; tauto)⟩
    have waited := fun c => Bool.eq_false_iff.2 fun run => settles ((waitStable_eq c stable 10000 1).1 run)
    simp [sdhciSetClock, mapped, nonzero, found, shifted, waited]

/-- **The right divider is selected exactly below the base clock.** -/
theorem set_clock_selects_iff (positive : 0 < hz) (mapped : host.ioaddr ≠ 0)
    (settles : ∃ n < 10000, stable (1 + n) = true) : Selects host c stable hz ↔ hz < host.baseClock := by
  have nonzero : hz ≠ 0 := by
    rintro rfl
    exact absurd positive (by decide)
  constructor
  · intro right
    by_contra above
    have above := UInt32.not_lt.1 above
    -- the base clock fits, with the divider 0
    obtain ⟨host', c', run, -⟩ := right.selects 0
      ⟨⟨by decide, by simpa [rate] using UInt32.le_iff_toNat_le.1 above⟩, fun _ _ => Nat.zero_le _⟩
    rw [sdhciSetClock_refused nonzero mapped (sdhciCalcClock_above above)] at run
    exact absurd (show einval = 0 from congrArg (fun r => r.2.2) run) (by decide)
  · intro below
    rcases sdhciCalcClock_below positive below with ⟨d, one, small, least, freq, found, out⟩ | ⟨empty, none_⟩
    · obtain ⟨shifted, -, -, divider, enabled⟩ := divider_bits d small one
      refine ⟨fun e least' => ?_, fun empty => absurd least.1 (by simp [empty])⟩
      obtain rfl := least'.unique least
      refine ⟨_, _, sdhciSetClock_selected nonzero mapped found shifted settles, ?_, ?_, out, ?_⟩
      · rw [writew_word, divider]
      · rw [writew_word]
        exact enabled
      · exact UInt32.le_iff_toNat_le.2 (out ▸ least.1.2)
    · refine ⟨fun e least => absurd least.1 (by simp [empty]), fun _ => ?_⟩
      refine ⟨_, _, _, sdhciSetClock_refused nonzero mapped none_, by decide, [_], writew_writes _ _, ?_⟩
      simp [NeverAbove, disabled]

end Clock

/-- A controller with a base clock of 200 MHz, that was just reset. -/
def hostAt200 : Host := ⟨0x1000fff000, 200000000, 0⟩

/-- 400 kHz, for the identification of the card. -/
theorem identification_clock :
    Selects hostAt200 ⟨0, []⟩ (fun _ => true) 400000 :=
  (set_clock_selects_iff (by decide) (by decide) ⟨0, by decide, rfl⟩).2 (by decide)

/-- **A card that may run at the base clock gets no clock.** -/
theorem base_clock_refused :
    sdhciSetClock hostAt200 ⟨0, []⟩ (fun _ => true) 200000000 = (hostAt200, ⟨2, [2]⟩, -22) ∧
      ¬ Selects hostAt200 ⟨0, []⟩ (fun _ => true) 200000000 := by
  have run : sdhciSetClock hostAt200 ⟨0, []⟩ (fun _ => true) 200000000 = (hostAt200, ⟨2, [2]⟩, -22) := by
    decide +kernel
  refine ⟨run, fun right => ?_⟩
  obtain ⟨host', c', ran, -⟩ := right.selects 0 ⟨⟨by decide, by decide⟩, fun _ _ => Nat.zero_le _⟩
  rw [run] at ran
  exact absurd (show (-22 : Int) = 0 from congrArg (fun r => r.2.2) ran) (by decide)

end Minus.Driver.SdhciClock
