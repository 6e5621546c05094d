import Qotp.Buffer.Send
import Qotp.Conn.Measurement
import Qotp.Framework.Simulation

namespace Qotp

open Framework

/-- The most bytes one ack stands for, and the bandwidth that follows from them. -/
def maxAcked : Nat := 65535

def maxBandwidth : Nat := maxAcked * secondNano

namespace Measurements

section Exact

/-! The congestion arithmetic once more, operation by operation, in exact arithmetic: a function
of this section returns `none` where the machine wraps or divides by zero. How `bwDec` counts is a
parameter, for nothing bounds it. -/

def countExact (bwDec : Nat) : Option Nat := addExact bwDec 1

def countWrapping (bwDec : Nat) : Option Nat := some (add64 bwDec 1)

def rttDeltaExact (rtt srtt : Nat) : Option Nat := if rtt > srtt then subExact rtt srtt else subExact srtt rtt

def updateRttExact (c : Measurements) (rtt : Nat) : Option Measurements :=
  if c.srtt = 0 then some { c with srtt := rtt, rttvar := rtt / 2 }
  else do
    let delta ← rttDeltaExact rtt c.srtt
    let rttvar3 ← mulExact c.rttvar 3
    let delta1 ← mulExact delta 1
    let rttvar ← addExact (rttvar3 / 4) (delta1 / 4)
    let srtt7 ← mulExact c.srtt 7
    let rtt1 ← mulExact rtt 1
    let srtt ← addExact (srtt7 / 8) (rtt1 / 8)
    some { c with rttvar := rttvar, srtt := srtt }

def updateRttMinExact (c : Measurements) (rtt nowNano : Nat) : Option Measurements := do
  let expired ← if nowNano > c.rttMinTimeNano then
      (subExact nowNano c.rttMinTimeNano).map fun age => decide (age ≥ rttExpiry)
    else some false
  some (if expired ∨ rtt < c.rttMinNano then { c with rttMinNano := rtt, rttMinTimeNano := nowNano } else c)

def updateBandwidthExact (count : Nat → Option Nat) (c : Measurements) (bytesAcked : Nat) : Option Measurements := do
  let bwCurrent ← if c.rttMinNano > 0 then
      (mulExact bytesAcked 1000000000).bind fun bits => divExact bits c.rttMinNano
    else some 0
  if bwCurrent > c.bwMax then some { c with bwMax := bwCurrent, bwDec := 0 }
  else (count c.bwDec).map fun bwDec => { c with bwDec := bwDec }

def updateGainExact (c : Measurements) (nowNano : Nat) : Option Measurements :=
  if c.isStartup then
    if c.bwDec ≥ bwDecThreshold then some { c with isStartup := false, pacingGainPct := normalGain }
    else some c
  else do
    let srtt100 ← mulExact c.srtt 100
    let rttRatioPct ← divExact srtt100 c.rttMinNano
    if rttRatioPct > rttInflationHigh then some { c with pacingGainPct := drainGain }
    else if rttRatioPct > rttInflationModerate then some { c with pacingGainPct := dupAckGain }
    else
      let sinceProbe ← subExact nowNano c.lastProbeTimeNano
      let probeAfter ← mulExact c.rttMinNano probeMultiplier
      if sinceProbe > probeAfter then some { c with pacingGainPct := probeGain, lastProbeTimeNano := nowNano }
      else some { c with pacingGainPct := normalGain }

def updateMeasurementsExact (count : Nat → Option Nat) (c : Measurements)
    (rttMeasurementNano bytesAcked nowNano : Nat) : Option Measurements :=
  if rttMeasurementNano = 0 ∨ bytesAcked = 0 ∨ rttMeasurementNano > readDeadLine ∨ nowNano = 0 then some c
  else do
    let c ← c.updateRttExact rttMeasurementNano
    let c ← c.updateRttMinExact rttMeasurementNano nowNano
    let c ← c.updateBandwidthExact count bytesAcked
    (c.initProbeTime nowNano).updateGainExact nowNano

def rtoNanoExact (c : Measurements) : Option Nat := do
  let rttvar4 ← mulExact 4 c.rttvar
  let rto ← addExact c.srtt rttvar4
  some (if rto = 0 then defaultRTO else if rto < minRTO then minRTO else if rto > maxRTO then maxRTO else rto)

def onDuplicateAckExact (c : Measurements) : Option Measurements := do
  let reduced ← mulExact c.bwMax dupAckBwReduction
  let bwMax ← divExact reduced 100
  some { c with bwMax := bwMax, pacingGainPct := dupAckGain, isStartup := false }

def onPacketLossExact (c : Measurements) : Option Measurements := do
  let reduced ← mulExact c.bwMax lossBwReduction
  let bwMax ← divExact reduced 100
  some { c with bwMax := bwMax, pacingGainPct := normalGain, isStartup := false }

def calcPacingExact (c : Measurements) (packetSize : Nat) : Option Nat :=
  if c.bwMax = 0 then
    if c.srtt > 0 then divExact c.srtt rttDivisor else some fallbackInterval
  else do
    let gained ← mulExact c.bwMax c.pacingGainPct
    let adjustedBandwidth ← divExact gained 100
    if adjustedBandwidth = 0 then some fallbackInterval
    else (mulExact packetSize 1000000000).bind fun bits => divExact bits adjustedBandwidth

end Exact

end Measurements

/-- The loop of `backoff` in exact arithmetic. -/
def backoffExact (rtoNano : Nat) : Nat → Option Nat
  | 0 => some rtoNano
  | n + 1 => (backoffExact rtoNano n).bind fun r => (mulExact r rtoBackoffPct).bind fun p => divExact p 100

/-- Measurements in use, with the samples that were accepted and the time of the last update. -/
structure MeasureRun where
  c : Measurements := .new
  samples : List Nat := []
  lastNow : Nat := 0

inductive MeasureOp where
  | update (rttNano bytesAcked nowNano : Nat)
  | duplicateAck
  | packetLoss
  | rto
  | pacing (packetSize : Nat)
  deriving DecidableEq, Repr

namespace MeasureRun

/-- A sample that passes the checks of `updateMeasurements`. -/
def PassesChecks (rttNano bytesAcked nowNano : Nat) : Prop :=
  ¬(rttNano = 0 ∨ bytesAcked = 0 ∨ rttNano > readDeadLine ∨ nowNano = 0)

instance (rttNano bytesAcked nowNano : Nat) : Decidable (PassesChecks rttNano bytesAcked nowNano) :=
  inferInstanceAs (Decidable (¬_))

/-- What an update leaves of the record of the run. -/
def record (s : MeasureRun) (rttNano bytesAcked nowNano : Nat) (c : Measurements) : MeasureRun :=
  ⟨c, if PassesChecks rttNano bytesAcked nowNano then s.samples ++ [rttNano] else s.samples, nowNano⟩

def step (s : MeasureRun) : MeasureOp → Option MeasureRun
  | .update rtt bytes now => (s.c.updateMeasurements rtt bytes now).map (s.record rtt bytes now)
  | .duplicateAck => some { s with c := s.c.onDuplicateAck }
  | .packetLoss => some { s with c := s.c.onPacketLoss }
  | .rto | .pacing _ => some s

/-- The same step in exact arithmetic, but for the counter. -/
def stepExact (count : Nat → Option Nat) (s : MeasureRun) : MeasureOp → Option MeasureRun
  | .update rtt bytes now => (s.c.updateMeasurementsExact count rtt bytes now).map (s.record rtt bytes now)
  | .duplicateAck => s.c.onDuplicateAckExact.map fun c => { s with c := c }
  | .packetLoss => s.c.onPacketLossExact.map fun c => { s with c := c }
  | .rto => s.c.rtoNanoExact.map fun _ => s
  | .pacing size => (s.c.calcPacingExact size).map fun _ => s

/-- uint64 arguments, at most 65535 bytes, and times that do not decrease. -/
def Admissible (s : MeasureRun) : MeasureOp → Prop
  | .update rtt bytes now => rtt < 2 ^ 64 ∧ bytes ≤ maxAcked ∧ s.lastNow ≤ now ∧ now < 2 ^ 64
  | .pacing size => size ≤ maxAcked
  | _ => True

instance (s : MeasureRun) : ∀ op, Decidable (s.Admissible op)
  | .update _ _ _ => inferInstanceAs (Decidable (_ ∧ _))
  | .pacing _ => inferInstanceAs (Decidable (_ ≤ _))
  | .duplicateAck | .packetLoss | .rto => inferInstanceAs (Decidable True)

end MeasureRun

namespace Measurements

variable {c : Measurements}

/-- Smoothing is exact on samples of at most 30 seconds. Both averages stay below them, and the
two truncating divisions lose at most 14 in the long run. -/
theorem updateRtt_exact {rtt : Nat} (hs : c.srtt ≤ readDeadLine) (hv : c.rttvar ≤ readDeadLine)
    (hr : rtt ≤ readDeadLine) :
    ∃ srtt rttvar, c.updateRttExact rtt = some { c with srtt := srtt, rttvar := rttvar } ∧
      c.updateRtt rtt = { c with srtt := srtt, rttvar := rttvar } ∧ srtt ≤ readDeadLine ∧ rttvar ≤ readDeadLine ∧
      (∀ m, m ≤ rtt → (c.srtt ≠ 0 → m ≤ c.srtt + 14) → m ≤ srtt + 14) ∧
      ∀ m, rtt ≤ m → c.srtt ≤ m → srtt ≤ m := by
  simp only [readDeadLine, secondNano] at *
  by_cases h0 : c.srtt = 0
  · refine ⟨rtt, rtt / 2, if_pos h0, if_pos h0, hr, by omega, fun m hm _ => by omega, fun m hm _ => hm⟩
  · have hdelta : ∃ delta ≤ 30 * 1000000000,
        rttDeltaExact rtt c.srtt = some delta ∧
        (if rtt > c.srtt then sub64 rtt c.srtt else sub64 c.srtt rtt) = delta := by
      unfold rttDeltaExact
      split_ifs with h
      · exact ⟨rtt - c.srtt, by omega, subExact_of_le (by omega), sub64_of_le (by omega) (by omega)⟩
      · exact ⟨c.srtt - rtt, by omega, subExact_of_le (by omega), sub64_of_le (by omega) (by omega)⟩
    obtain ⟨delta, hd, hexact, hwrap⟩ := hdelta
    refine ⟨c.srtt * 7 / 8 + rtt / 8, c.rttvar * 3 / 4 + delta / 4, ?_, ?_, by omega, by omega,
      fun m hm hm' => ?_, fun m hm hm' => by omega⟩
    · unfold updateRttExact
      rw [if_neg h0, hexact]
      simp only [Option.bind_eq_bind, Option.bind_some, Nat.mul_one, mulExact_of_lt (show c.rttvar * 3 < 2 ^ 64 by omega),
        mulExact_of_lt (show c.srtt * 7 < 2 ^ 64 by omega), mulExact_of_lt (show delta * 1 < 2 ^ 64 by omega),
        mulExact_of_lt (show rtt * 1 < 2 ^ 64 by omega),
        addExact_of_lt (show c.rttvar * 3 / 4 + delta / 4 < 2 ^ 64 by omega),
        addExact_of_lt (show c.srtt * 7 / 8 + rtt / 8 < 2 ^ 64 by omega)]
    · unfold updateRtt
      rw [if_neg h0]
      simp only [hwrap, mul64_of_lt (show c.rttvar * 3 < 2 ^ 64 by omega), mul64_of_lt (show c.srtt * 7 < 2 ^ 64 by omega),
        add64_of_lt (show c.rttvar * 3 / 4 + delta / 4 < 2 ^ 64 by omega),
        add64_of_lt (show c.srtt * 7 / 8 + rtt / 8 < 2 ^ 64 by omega)]
    · have := hm' h0
      omega

theorem updateRttMin_exact {rtt now : Nat} (hnow : now < 2 ^ 64) :
    c.updateRttMinExact rtt now = some (c.updateRttMin rtt now) := by
  unfold updateRttMinExact updateRttMin
  by_cases h : now > c.rttMinTimeNano
  · simp [h, subExact_of_le h.le, sub64_of_le h.le hnow]
  · simp [h]

theorem updateBandwidth_exact {count : Nat → Option Nat} {bytes : Nat} (hb : bytes ≤ maxAcked) (hmin : 0 < c.rttMinNano)
    (hcount : count c.bwDec = some (add64 c.bwDec 1)) :
    c.updateBandwidthExact count bytes = some (c.updateBandwidth bytes) := by
  have hmul : bytes * 1000000000 < 2 ^ 64 := by
    rw [maxAcked] at hb
    omega
  -- the product is kept opaque, or the kernel counts it out
  obtain ⟨bits, hexact, hwrap⟩ : ∃ bits, mulExact bytes 1000000000 = some bits ∧ mul64 bytes 1000000000 = bits :=
    ⟨_, mulExact_of_lt hmul, mul64_of_lt hmul⟩
  unfold updateBandwidthExact updateBandwidth
  simp only [if_pos hmin, hexact, hwrap, divExact_of_pos hmin, hcount, Option.bind_eq_bind, Option.bind_some, Option.map_some]
  split_ifs <;> rfl

theorem updateGain_exact {now : Nat} (hs : c.srtt ≤ readDeadLine) (hmin : 0 < c.rttMinNano)
    (hmax : c.rttMinNano ≤ readDeadLine) (hprobe : c.lastProbeTimeNano ≤ now) (hnow : now < 2 ^ 64) :
    ∃ c', c.updateGainExact now = some c' ∧ c.updateGain now = some c' := by
  simp only [readDeadLine, secondNano] at hs hmax
  have hsrtt : c.srtt * 100 < 2 ^ 64 := by omega
  have hwait : c.rttMinNano * probeMultiplier < 2 ^ 64 := by
    rw [probeMultiplier]
    omega
  unfold updateGainExact updateGain
  simp only [mulExact_of_lt hsrtt, mul64_of_lt hsrtt, divExact_of_pos hmin, subExact_of_le hprobe,
    sub64_of_le hprobe hnow, mulExact_of_lt hwait, mul64_of_lt hwait, Option.bind_eq_bind, Option.bind_some,
    if_neg (Nat.pos_iff_ne_zero.mp hmin)]
  split_ifs <;> exact ⟨_, rfl, rfl⟩

/-- The first sample is below the initial minimum, so that there is one in the range of the samples. -/
theorem updateRttMin_bounds {rtt : Nat} (now : Nat) (hr : 1 ≤ rtt ∧ rtt ≤ readDeadLine)
    (hmin : c.rttMinNano = maxUint64 ∨ 1 ≤ c.rttMinNano ∧ c.rttMinNano ≤ readDeadLine) :
    ∃ m t, c.updateRttMin rtt now = { c with rttMinNano := m, rttMinTimeNano := t } ∧ 1 ≤ m ∧ m ≤ readDeadLine := by
  unfold updateRttMin
  split_ifs with h
  · exact ⟨rtt, now, rfl, hr⟩
  · refine ⟨c.rttMinNano, c.rttMinTimeNano, rfl, hmin.resolve_left fun hmax => h (.inr ?_)⟩
    rw [hmax]
    exact lt_of_le_of_lt hr.2 (by decide)

theorem updateBandwidth_bounds {bytes : Nat} (hb : bytes ≤ maxAcked) (hmin : 1 ≤ c.rttMinNano)
    (hbw : c.bwMax ≤ maxBandwidth) :
    ∃ b d, c.updateBandwidth bytes = { c with bwMax := b, bwDec := d } ∧ b ≤ maxBandwidth ∧ d ≤ c.bwDec + 1 ∧
      d < 2 ^ 64 := by
  unfold updateBandwidth
  rw [if_pos (show c.rttMinNano > 0 from hmin)]
  dsimp only
  split_ifs with h
  · refine ⟨_, 0, rfl, ?_, Nat.zero_le _, Nat.two_pow_pos 64⟩
    have hle : mul64 bytes 1000000000 ≤ bytes * 1000000000 := Nat.mod_le _ _
    exact (Nat.div_le_self _ _).trans (hle.trans (Nat.mul_le_mul_right _ hb))
  · exact ⟨c.bwMax, _, rfl, hbw, Nat.mod_le _ _, add64_lt _ _⟩

theorem initProbeTime_bounds {now : Nat} (h : c.lastProbeTimeNano ≤ now) :
    ∃ p, c.initProbeTime now = { c with lastProbeTimeNano := p } ∧ p ≤ now := by
  unfold initProbeTime
  split_ifs
  · exact ⟨now, rfl, le_rfl⟩
  · exact ⟨c.lastProbeTimeNano, rfl, h⟩

theorem updateGain_bounds {c' : Measurements} {now : Nat} (hg : c.pacingGainPct ≤ startupGain)
    (hp : c.lastProbeTimeNano ≤ now) (h : c.updateGain now = some c') :
    ∃ b g p, c' = { c with isStartup := b, pacingGainPct := g, lastProbeTimeNano := p } ∧ g ≤ startupGain ∧ p ≤ now := by
  unfold updateGain at h
  by_cases hstart : c.isStartup = true
  · rw [if_pos hstart] at h
    split_ifs at h <;> cases h
    · exact ⟨false, _, _, rfl, by decide, hp⟩
    · exact ⟨c.isStartup, _, _, rfl, hg, hp⟩
  · rw [if_neg hstart] at h
    by_cases hmin : c.rttMinNano = 0
    · rw [if_pos hmin] at h
      cases h
    rw [if_neg hmin] at h
    dsimp only at h
    by_cases hhigh : mul64 c.srtt 100 / c.rttMinNano > rttInflationHigh
    · rw [if_pos hhigh] at h
      cases h
      exact ⟨c.isStartup, _, _, rfl, by decide, hp⟩
    rw [if_neg hhigh] at h
    split_ifs at h <;> cases h
    · exact ⟨c.isStartup, _, _, rfl, by decide, hp⟩
    · exact ⟨c.isStartup, _, _, rfl, by decide, le_rfl⟩
    · exact ⟨c.isStartup, _, _, rfl, by decide, hp⟩

end Measurements

namespace MeasureRun

/-- What every operation keeps. -/
structure Inv (s : MeasureRun) : Prop where
  srtt : s.c.srtt ≤ readDeadLine
  rttvar : s.c.rttvar ≤ readDeadLine
  bwMax : s.c.bwMax ≤ maxBandwidth
  gain : s.c.pacingGainPct ≤ startupGain
  bwDec : s.c.bwDec ≤ s.samples.length ∧ s.c.bwDec < 2 ^ 64
  probe : s.c.lastProbeTimeNano ≤ s.lastNow
  fresh : s.samples = [] → s.c.srtt = 0 ∧ s.c.rttMinNano = maxUint64
  rttMin : s.samples ≠ [] → 1 ≤ s.c.rttMinNano ∧ s.c.rttMinNano ≤ readDeadLine
  atLeast : s.samples ≠ [] → ∀ m, (∀ x ∈ s.samples, m ≤ x) → m ≤ s.c.srtt + 14
  atMost : ∀ m, (∀ x ∈ s.samples, x ≤ m) → s.c.srtt ≤ m

theorem inv_new : Inv {} where
  srtt := Nat.zero_le _
  rttvar := Nat.zero_le _
  bwMax := Nat.zero_le _
  gain := le_rfl
  bwDec := ⟨le_rfl, Nat.two_pow_pos 64⟩
  probe := le_rfl
  fresh _ := ⟨rfl, rfl⟩
  rttMin h := absurd rfl h
  atLeast h := absurd rfl h
  atMost _ _ := Nat.zero_le _

variable {s t : MeasureRun}

theorem Inv.rttMin_cases (hi : Inv s) :
    s.c.rttMinNano = maxUint64 ∨ 1 ≤ s.c.rttMinNano ∧ s.c.rttMinNano ≤ readDeadLine := by
  by_cases hs : s.samples = []
  · exact .inl (hi.fresh hs).2
  · exact .inr (hi.rttMin hs)

/-- Smoothing keeps the average between the samples. -/
theorem Inv.bounds_append {rtt srtt : Nat} (hi : Inv s)
    (hlow : ∀ m, m ≤ rtt → (s.c.srtt ≠ 0 → m ≤ s.c.srtt + 14) → m ≤ srtt + 14)
    (hhigh : ∀ m, rtt ≤ m → s.c.srtt ≤ m → srtt ≤ m) :
    (∀ m, (∀ x ∈ s.samples ++ [rtt], m ≤ x) → m ≤ srtt + 14) ∧
      ∀ m, (∀ x ∈ s.samples ++ [rtt], x ≤ m) → srtt ≤ m := by
  constructor
  · intro m hm
    refine hlow m (hm rtt (by simp)) fun h0 => hi.atLeast ?_ m fun x hx => hm x (List.mem_append_left _ hx)
    intro hs
    exact h0 (hi.fresh hs).1
  · intro m hm
    exact hhigh m (hm rtt (by simp)) (hi.atMost m fun x hx => hm x (List.mem_append_left _ hx))

/-- An accepted sample, through all stages of the update. -/
theorem update_accepted {rtt bytes now : Nat} (hi : Inv s) (hadm : s.Admissible (.update rtt bytes now))
    (ha : PassesChecks rtt bytes now) :
    ∃ c, s.c.updateMeasurements rtt bytes now = some c ∧ Inv (s.record rtt bytes now c) ∧
      ∀ count : Nat → Option Nat, count s.c.bwDec = some (add64 s.c.bwDec 1) →
        s.c.updateMeasurementsExact count rtt bytes now = some c := by
  obtain ⟨_, hbytes, hlast, hnow⟩ := hadm
  have hrtt : 1 ≤ rtt ∧ rtt ≤ readDeadLine := by
    unfold PassesChecks at ha
    omega
  obtain ⟨srtt, rttvar, hrttE, hrttW, hsrtt, hrttvar, hlow, hhigh⟩ := Measurements.updateRtt_exact hi.srtt hi.rttvar hrtt.2
  unfold Measurements.updateMeasurements
  rw [if_neg ha, hrttW]
  obtain ⟨rttMin, rttMinTime, hminW, hm1, hm2⟩ := Measurements.updateRttMin_bounds
    (c := { s.c with srtt := srtt, rttvar := rttvar }) now hrtt hi.rttMin_cases
  rw [hminW]
  obtain ⟨bwMax, bwDec, hbwW, hbw, hdec, hdec64⟩ := Measurements.updateBandwidth_bounds
    (c := { s.c with srtt := srtt, rttvar := rttvar, rttMinNano := rttMin, rttMinTimeNano := rttMinTime }) hbytes hm1 hi.bwMax
  have hbwE := fun (count : Nat → Option Nat) (h : count s.c.bwDec = some (add64 s.c.bwDec 1)) =>
    Measurements.updateBandwidth_exact
      (c := { s.c with srtt := srtt, rttvar := rttvar, rttMinNano := rttMin, rttMinTimeNano := rttMinTime }) hbytes hm1 h
  rw [hbwW] at hbwE ⊢
  obtain ⟨probe, hprobeW, hprobe⟩ := Measurements.initProbeTime_bounds (c := { s.c with
    srtt := srtt, rttvar := rttvar, rttMinNano := rttMin, rttMinTimeNano := rttMinTime, bwMax := bwMax, bwDec := bwDec })
    (hi.probe.trans hlast)
  obtain ⟨c, hgainE, hgainW⟩ := Measurements.updateGain_exact (c := { s.c with
    srtt := srtt, rttvar := rttvar, rttMinNano := rttMin, rttMinTimeNano := rttMinTime, bwMax := bwMax, bwDec := bwDec,
    lastProbeTimeNano := probe }) hsrtt hm1 hm2 hprobe hnow
  obtain ⟨isStartup, gain, probe', rfl, hg, hp⟩ := Measurements.updateGain_bounds (c := { s.c with
    srtt := srtt, rttvar := rttvar, rttMinNano := rttMin, rttMinTimeNano := rttMinTime, bwMax := bwMax, bwDec := bwDec,
    lastProbeTimeNano := probe }) hi.gain hprobe hgainW
  refine ⟨_, by rw [hprobeW, hgainW], ?_, fun count h => ?_⟩
  · unfold record
    rw [if_pos ha]
    obtain ⟨hatLeast, hatMost⟩ := hi.bounds_append hlow hhigh
    refine ⟨hsrtt, hrttvar, hbw, hg, ⟨?_, hdec64⟩, hp, ?_, fun _ => ⟨hm1, hm2⟩, fun _ => hatLeast, hatMost⟩
    · have := hi.bwDec.1
      simp only [List.length_append, List.length_singleton] at hdec ⊢
      omega
    · intro h
      simp at h
  · unfold Measurements.updateMeasurementsExact
    rw [if_neg ha, hrttE, Option.bind_eq_bind, Option.bind_some, Measurements.updateRttMin_exact hnow, hminW,
      Option.bind_some, hbwE count h, Option.bind_some, hprobeW, hgainE]

theorem update_rejected {rtt bytes now : Nat} (hi : Inv s) (hadm : s.Admissible (.update rtt bytes now))
    (ha : ¬PassesChecks rtt bytes now) :
    s.c.updateMeasurements rtt bytes now = some s.c ∧ Inv (s.record rtt bytes now s.c) ∧
      ∀ count, s.c.updateMeasurementsExact count rtt bytes now = some s.c := by
  refine ⟨if_pos (not_not.mp ha), ?_, fun _ => if_pos (not_not.mp ha)⟩
  unfold record
  rw [if_neg ha]
  exact { hi with probe := hi.probe.trans hadm.2.2.1 }

end MeasureRun

namespace Measurements

variable {c : Measurements}

/-- A bandwidth times a percentage of at most 277. -/
theorem bwMax_mul_lt (h : c.bwMax ≤ maxBandwidth) {pct : Nat} (hp : pct ≤ startupGain) : c.bwMax * pct < 2 ^ 64 := by
  have hle : c.bwMax * pct ≤ maxBandwidth * startupGain := Nat.mul_le_mul h hp
  exact lt_of_le_of_lt hle (by decide)

theorem onDuplicateAck_exact (h : c.bwMax ≤ maxBandwidth) : c.onDuplicateAckExact = some c.onDuplicateAck := by
  have hmul := bwMax_mul_lt h (show dupAckBwReduction ≤ startupGain by decide)
  simp only [onDuplicateAckExact, onDuplicateAck, mulExact_of_lt hmul, mul64_of_lt hmul,
    divExact_of_pos (show 0 < 100 by decide), Option.bind_eq_bind, Option.bind_some]

theorem onPacketLoss_exact (h : c.bwMax ≤ maxBandwidth) : c.onPacketLossExact = some c.onPacketLoss := by
  have hmul := bwMax_mul_lt h (show lossBwReduction ≤ startupGain by decide)
  simp only [onPacketLossExact, onPacketLoss, mulExact_of_lt hmul, mul64_of_lt hmul,
    divExact_of_pos (show 0 < 100 by decide), Option.bind_eq_bind, Option.bind_some]

/-- Neither reduction raises the bandwidth. -/
theorem reduced_le (h : c.bwMax ≤ maxBandwidth) {pct : Nat} (hp : pct ≤ 100) :
    mul64 c.bwMax pct / 100 ≤ maxBandwidth := by
  have hmul := bwMax_mul_lt h (hp.trans (show 100 ≤ startupGain by decide))
  rw [mul64_of_lt hmul]
  have hle : c.bwMax * pct ≤ c.bwMax * 100 := Nat.mul_le_mul_left _ hp
  omega

theorem rtoNano_exact (hs : c.srtt ≤ readDeadLine) (hv : c.rttvar ≤ readDeadLine) :
    c.rtoNanoExact = some c.rtoNano := by
  simp only [readDeadLine, secondNano] at hs hv
  have hmul : 4 * c.rttvar < 2 ^ 64 := by omega
  have hadd : c.srtt + 4 * c.rttvar < 2 ^ 64 := by omega
  simp only [rtoNanoExact, rtoNano, mulExact_of_lt hmul, mul64_of_lt hmul, addExact_of_lt hadd, add64_of_lt hadd,
    Option.bind_eq_bind, Option.bind_some]

theorem rtoNano_range (c : Measurements) : minRTO ≤ c.rtoNano ∧ c.rtoNano ≤ maxRTO := by
  have hdefault : minRTO ≤ defaultRTO ∧ defaultRTO ≤ maxRTO := by decide
  have hle : minRTO ≤ maxRTO := by decide
  unfold rtoNano
  dsimp only
  split_ifs with h0 hmin hmax
  · exact hdefault
  · exact ⟨le_rfl, hle⟩
  · exact ⟨hle, le_rfl⟩
  · exact ⟨not_lt.mp hmin, not_lt.mp hmax⟩

theorem calcPacing_exact (hb : c.bwMax ≤ maxBandwidth) (hg : c.pacingGainPct ≤ startupGain) {size : Nat}
    (hsize : size ≤ maxAcked) : c.calcPacingExact size = some (c.calcPacing size) := by
  have hmul := bwMax_mul_lt hb hg
  have hbits : size * 1000000000 < 2 ^ 64 := by
    rw [maxAcked] at hsize
    omega
  unfold calcPacingExact calcPacing
  split_ifs with h0 hs
  · exact divExact_of_pos (by decide)
  · rfl
  · simp only [mulExact_of_lt hmul, mul64_of_lt hmul, divExact_of_pos (show 0 < 100 by decide), Option.bind_eq_bind,
      Option.bind_some]
    split_ifs with hadj
    · rfl
    · rw [mulExact_of_lt hbits, mul64_of_lt hbits, Option.bind_some, divExact_of_pos (Nat.pos_iff_ne_zero.mpr hadj)]

end Measurements

/-- The loop of `backoff` doubles exactly: 200 percent of at most 2 seconds, four times. -/
theorem backoffExact_eq {rto : Nat} (h : rto ≤ maxRTO) {n : Nat} (hn : n < maxRetry) :
    backoffExact rto n = some (rto * 2 ^ n) ∧ (fun r => mul64 r rtoBackoffPct / 100)^[n] rto = rto * 2 ^ n := by
  induction n with
  | zero => simp [backoffExact]
  | succ n ih =>
    obtain ⟨hexact, hwrap⟩ := ih (by omega)
    have hpow : 2 ^ n ≤ 2 ^ maxRetry := Nat.pow_le_pow_right (by decide) (by omega)
    have hle : rto * 2 ^ n ≤ maxRTO * 2 ^ maxRetry := Nat.mul_le_mul h hpow
    have hmul : rto * 2 ^ n * rtoBackoffPct < 2 ^ 64 :=
      lt_of_le_of_lt (Nat.mul_le_mul_right _ hle) (by decide)
    have hdouble : rto * 2 ^ n * rtoBackoffPct / 100 = rto * 2 ^ (n + 1) := by
      rw [rtoBackoffPct, pow_succ, ← Nat.mul_assoc]
      omega
    constructor
    · rw [backoffExact, hexact, Option.bind_some, mulExact_of_lt hmul, Option.bind_some, divExact_of_pos (by decide),
        hdouble]
    · rw [Function.iterate_succ_apply', hwrap, mul64_of_lt hmul, hdouble]

theorem backoff_eq {rto i : Nat} (h : rto ≤ maxRTO) (h1 : 1 ≤ i) (hi : i ≤ maxRetry) :
    backoff rto i = .ok (rto * 2 ^ (i - 1)) := by
  unfold backoff
  rw [if_neg (by omega), if_neg (by omega), (backoffExact_eq h (show i - 1 < maxRetry by omega)).2]

namespace MeasureRun

variable {s t : MeasureRun}

/-- The counter of samples without a new maximum counts as the code does. -/
def Counts (count : Nat → Option Nat) (s : MeasureRun) : MeasureOp → Prop
  | .update rtt bytes now => PassesChecks rtt bytes now → count s.c.bwDec = some (add64 s.c.bwDec 1)
  | _ => True

theorem counts_wrapping (s : MeasureRun) (op : MeasureOp) : s.Counts Measurements.countWrapping op := by
  cases op with
  | update rtt bytes now => exact fun _ => rfl
  | duplicateAck | packetLoss | rto | pacing _ => trivial

theorem counts_exact (op : MeasureOp) (h : s.c.bwDec + 1 < 2 ^ 64) : s.Counts Measurements.countExact op := by
  cases op with
  | update rtt bytes now => exact fun _ => (addExact_of_lt h).trans (congrArg some (add64_of_lt h).symm)
  | duplicateAck | packetLoss | rto | pacing _ => trivial

/-- Every step is taken, keeps the invariant and computes what exact arithmetic does. -/
theorem step_exact (s : MeasureRun) (op : MeasureOp) (hi : Inv s) (hadm : s.Admissible op) :
    ∃ t, s.step op = some t ∧ Inv t ∧ ∀ count, s.Counts count op → s.stepExact count op = some t := by
  cases op with
  | update rtt bytes now =>
    by_cases ha : PassesChecks rtt bytes now
    · obtain ⟨c, hstep, hinv, hexact⟩ := update_accepted hi hadm ha
      refine ⟨_, by rw [step, hstep, Option.map_some], hinv, fun count hcount => ?_⟩
      rw [stepExact, hexact count (hcount ha), Option.map_some]
    · obtain ⟨hstep, hinv, hexact⟩ := update_rejected hi hadm ha
      refine ⟨_, by rw [step, hstep, Option.map_some], hinv, fun count _ => ?_⟩
      rw [stepExact, hexact, Option.map_some]
  | duplicateAck =>
    have hbw := Measurements.reduced_le hi.bwMax (show dupAckBwReduction ≤ 100 by decide)
    have hgain : dupAckGain ≤ startupGain := by decide
    refine ⟨_, rfl, { hi with bwMax := hbw, gain := hgain }, fun _ _ => ?_⟩
    rw [stepExact, Measurements.onDuplicateAck_exact hi.bwMax, Option.map_some]
  | packetLoss =>
    have hbw := Measurements.reduced_le hi.bwMax (show lossBwReduction ≤ 100 by decide)
    have hgain : normalGain ≤ startupGain := by decide
    refine ⟨_, rfl, { hi with bwMax := hbw, gain := hgain }, fun _ _ => ?_⟩
    rw [stepExact, Measurements.onPacketLoss_exact hi.bwMax, Option.map_some]
  | rto =>
    refine ⟨s, rfl, hi, fun _ _ => ?_⟩
    rw [stepExact, Measurements.rtoNano_exact hi.srtt hi.rttvar, Option.map_some]
  | pacing size =>
    refine ⟨s, rfl, hi, fun _ _ => ?_⟩
    rw [stepExact, Measurements.calcPacing_exact hi.bwMax hi.gain hadm, Option.map_some]

/-- Samples are only added, and an accepted one is. -/
theorem step_samples {op : MeasureOp} (h : s.step op = some t) :
    s.samples.length ≤ t.samples.length ∧
    (∀ rtt bytes now, op = .update rtt bytes now → PassesChecks rtt bytes now →
      s.samples.length + 1 ≤ t.samples.length) := by
  cases op with
  | update rtt bytes now =>
    obtain ⟨c, _, rfl⟩ := Option.map_eq_some_iff.mp h
    unfold record
    constructor
    · split_ifs <;> simp
    · rintro _ _ _ ⟨⟩ ha
      simp [ha]
  | duplicateAck | packetLoss | rto | pacing _ =>
    cases h
    exact ⟨le_rfl, nofun⟩

theorem run_samples {ops : List MeasureOp} (h : run step s ops = some t) : s.samples.length ≤ t.samples.length := by
  have hstep : ∀ u op v, s.samples.length ≤ u.samples.length → step u op = some v →
      s.samples.length ≤ v.samples.length := fun u op v hle hs => hle.trans (step_samples hs).1
  exact run_inv hstep le_rfl h

/-- A run is exact as far as its counter is. -/
theorem run_exact {count : Nat → Option Nat} {ops : List MeasureOp} (hi : Inv s) (hadm : Along step Admissible s ops)
    (hcount : Along step (Counts count) s ops) (hrun : run step s ops = some t) :
    run (stepExact count) s ops = some t := by
  induction ops generalizing s with
  | nil => exact hrun
  | cons op ops ih =>
    obtain ⟨u, hu, hrest⟩ := (run_cons step s op ops t).mp hrun
    obtain ⟨u', hstep, hinv, hexact⟩ := step_exact s op hi hadm.1
    obtain rfl : u = u' := Option.some.inj (hu.symm.trans hstep)
    exact (run_cons (stepExact count) s op ops t).mpr
      ⟨u, hexact count hcount.1, ih hinv (hadm.2 u hu) (hcount.2 u hu) hrest⟩

/-- With fewer than 2^64 accepted samples the counter never wraps. -/
theorem counts_of_samples {ops : List MeasureOp} (hi : Inv s) (hadm : Along step Admissible s ops)
    (hrun : run step s ops = some t) (hlen : t.samples.length < 2 ^ 64) :
    Along step (Counts Measurements.countExact) s ops := by
  induction ops generalizing s with
  | nil => trivial
  | cons op ops ih =>
    obtain ⟨u, hu, hrest⟩ := (run_cons step s op ops t).mp hrun
    obtain ⟨u', hstep, hinv, _⟩ := step_exact s op hi hadm.1
    obtain rfl : u = u' := Option.some.inj (hu.symm.trans hstep)
    refine along_cons ?_ hu (ih hinv (hadm.2 u hu) hrest)
    cases op with
    | update rtt bytes now =>
      intro ha
      have hadd := (step_samples hu).2 rtt bytes now rfl ha
      have hle := run_samples hrest
      have hdec := hi.bwDec.1
      exact counts_exact (.update rtt bytes now) (by omega) ha
    | duplicateAck | packetLoss | rto | pacing _ => trivial

/-- In every run from new measurements no operation wraps and none divides by zero, but for the
increment of `bwDec`, which wraps behind 2^64 samples without a new maximum; and the averages,
the bandwidth and the retransmission times stay in their ranges. -/
theorem congestion_arithmetic_safe (ops : List MeasureOp) (hadm : Along step Admissible {} ops) :
    ∃ s, run step {} ops = some s ∧
      run (stepExact Measurements.countWrapping) {} ops = some s ∧
      (s.samples.length < 2 ^ 64 → run (stepExact Measurements.countExact) {} ops = some s) ∧
      (∀ op, s.Admissible op → s.stepExact Measurements.countWrapping op = s.step op ∧
        (s.stepExact Measurements.countExact op = s.step op ∨
          ∃ rtt bytes now, op = .update rtt bytes now ∧ s.c.bwDec = 2 ^ 64 - 1)) ∧
      (s.samples ≠ [] → 1 ≤ s.c.rttMinNano ∧ s.c.rttMinNano ≤ readDeadLine ∧ s.c.srtt ≤ readDeadLine ∧
        s.c.rttvar ≤ readDeadLine ∧ (∀ m, (∀ x ∈ s.samples, m ≤ x) → m - 14 ≤ s.c.srtt) ∧
        ∀ m, (∀ x ∈ s.samples, x ≤ m) → s.c.srtt ≤ m) ∧
      s.c.bwMax ≤ 65535 * 10 ^ 9 ∧
      s.c.rtoNanoExact = some s.c.rtoNano ∧ minRTO ≤ s.c.rtoNano ∧ s.c.rtoNano ≤ maxRTO ∧
      (∀ size ≤ 65535, s.c.calcPacingExact size = some (s.c.calcPacing size)) ∧
      ∀ i, 1 ≤ i → i ≤ maxRetry → backoff s.c.rtoNano i = .ok (s.c.rtoNano * 2 ^ (i - 1)) ∧
        backoffExact s.c.rtoNano (i - 1) = some (s.c.rtoNano * 2 ^ (i - 1)) := by
  obtain ⟨s, hrun, hi⟩ := run_total_along
    (fun s op hi hadm => (step_exact s op hi hadm).imp fun t h => ⟨h.1, h.2.1⟩) inv_new hadm
  obtain ⟨hmin, hmax⟩ := s.c.rtoNano_range
  refine ⟨s, hrun, run_exact inv_new hadm (along_mono (fun s op _ => counts_wrapping s op) hadm) hrun,
    fun hlen => run_exact inv_new hadm (counts_of_samples inv_new hadm hrun hlen) hrun, fun op hop => ?_, fun hs => ?_, hi.bwMax,
    Measurements.rtoNano_exact hi.srtt hi.rttvar, hmin, hmax,
    fun size hsize => Measurements.calcPacing_exact hi.bwMax hi.gain hsize,
    fun i h1 h5 => ⟨backoff_eq hmax h1 h5, (backoffExact_eq hmax (by omega)).1⟩⟩
  · obtain ⟨t, hstep, _, hexact⟩ := step_exact s op hi hop
    refine ⟨(hexact _ (counts_wrapping s op)).trans hstep.symm, ?_⟩
    by_cases hfit : s.c.bwDec + 1 < 2 ^ 64
    · exact .inl ((hexact _ (counts_exact op hfit)).trans hstep.symm)
    · cases op with
      | update rtt bytes now =>
        have hlt := hi.bwDec.2
        exact .inr ⟨rtt, bytes, now, rfl, by omega⟩
      | duplicateAck | packetLoss | rto | pacing _ => exact .inl ((hexact _ trivial).trans hstep.symm)
  · obtain ⟨h1, h2⟩ := hi.rttMin hs
    refine ⟨h1, h2, hi.srtt, hi.rttvar, fun m hm => ?_, hi.atMost⟩
    have := hi.atLeast hs m hm
    omega

/-- The same sample over and over. -/
def sameSample : MeasureOp := .update 8 1 1

/-- Behind five such samples only the counter moves. -/
def steady (n : Nat) : Measurements where
  srtt := 8
  rttvar := 0
  isStartup := false
  rttMinNano := 8
  rttMinTimeNano := 1
  bwMax := 125000000
  bwDec := n
  lastProbeTimeNano := 1
  pacingGainPct := normalGain

theorem steady_update (n : Nat) :
    (steady n).updateMeasurementsExact Measurements.countExact 8 1 1 = (addExact n 1).map steady := by
  have hrtt : (steady n).updateRttExact 8 = some (steady n) := by
    simp [Measurements.updateRttExact, Measurements.rttDeltaExact, steady, subExact, mulExact, addExact]
  have hmin : (steady n).updateRttMinExact 8 1 = some (steady n) := rfl
  have hbw : (steady n).updateBandwidthExact Measurements.countExact 1 = (addExact n 1).map steady := by
    simp [Measurements.updateBandwidthExact, Measurements.countExact, steady, mulExact, divExact]
    rfl
  have hgain : ∀ m, ((steady m).initProbeTime 1).updateGainExact 1 = some (steady m) := by
    intro m
    simp [Measurements.initProbeTime, Measurements.updateGainExact, steady, mulExact, divExact, subExact,
      rttInflationHigh, rttInflationModerate, probeMultiplier]
  unfold Measurements.updateMeasurementsExact
  rw [if_neg (by decide), hrtt, Option.bind_eq_bind, Option.bind_some, hmin, Option.bind_some, hbw]
  cases addExact n 1 with
  | none => rfl
  | some m =>
    rw [Option.map_some, Option.bind_some]
    exact hgain m

theorem sameSample_admissible {s : MeasureRun} (hs : s.lastNow ≤ 1) (k : Nat) :
    Along step Admissible s (List.replicate k sameSample) := by
  induction k generalizing s with
  | zero => trivial
  | succ k ih =>
    refine ⟨⟨by decide, by decide, hs, by decide⟩, fun t ht => ih ?_⟩
    obtain ⟨c, _, rfl⟩ := Option.map_eq_some_iff.mp ht
    exact le_rfl

/-- The counter runs from `n` into its end. -/
theorem steady_overflows {n k : Nat} (h : n + (k + 1) = 2 ^ 64) (samples : List Nat) :
    run (stepExact Measurements.countExact) ⟨steady n, samples, 1⟩ (List.replicate (k + 1) sameSample) = none := by
  induction k generalizing n samples with
  | zero =>
    have hstep : stepExact Measurements.countExact ⟨steady n, samples, 1⟩ sameSample = none := by
      rw [sameSample, stepExact, steady_update, addExact_of_le h.ge]
      rfl
    rw [List.replicate_succ, run, hstep]
    rfl
  | succ k ih =>
    have hstep : stepExact Measurements.countExact ⟨steady n, samples, 1⟩ sameSample =
        some ⟨steady (n + 1), samples ++ [8], 1⟩ := by
      rw [sameSample, stepExact, steady_update, addExact_of_lt (by omega)]
      rfl
    rw [List.replicate_succ, run, hstep]
    exact ih (by omega) _

/-- 2^64 + 1 samples of one value are a run of the domain whose counter wraps. -/
theorem counter_wraps :
    ∃ ops, Along step Admissible {} ops ∧ run (stepExact Measurements.countExact) {} ops = none := by
  obtain ⟨k, hk⟩ : ∃ k, 4 + (k + 1) = 2 ^ 64 := ⟨2 ^ 64 - 5, by decide⟩
  refine ⟨List.replicate (5 + (k + 1)) sameSample, sameSample_admissible (by decide) _, ?_⟩
  have hfirst : run (stepExact Measurements.countExact) {} (List.replicate 5 sameSample) =
      some ⟨steady 4, [8, 8, 8, 8, 8], 1⟩ := rfl
  rw [List.replicate_add, run_append, hfirst, Option.bind_some]
  exact steady_overflows hk _

/-- Three samples with a loss between them. -/
theorem threeSamples_safe : ∃ s, run step {} [.update 100 1000 5, .packetLoss, .update 50 500 7, .update 80 1 9] = some s ∧
    s.samples = [100, 50, 80] ∧ s.c.rttMinNano ≤ readDeadLine ∧ s.c.rtoNano ≤ maxRTO := by
  obtain ⟨s, hrun, _, _, _, hranges, _, _, _, hmax, _⟩ :=
    congestion_arithmetic_safe [.update 100 1000 5, .packetLoss, .update 50 500 7, .update 80 1 9] (by decide)
  have hs : s.samples = [100, 50, 80] := by
    cases hrun
    rfl
  refine ⟨s, hrun, hs, (hranges ?_).2.1, hmax⟩
  rw [hs]
  exact List.cons_ne_nil _ _

end MeasureRun

end Qotp
