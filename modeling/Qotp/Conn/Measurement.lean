import Qotp.Framework.Word

namespace Qotp

open Framework

def secondNano : Nat := 1000000000
def msNano : Nat := 1000000

def defaultRTO : Nat := 200 * msNano
def minRTO : Nat := 100 * msNano
def maxRTO : Nat := 2000 * msNano
def rttExpiry : Nat := 10 * secondNano
def probeMultiplier : Nat := 8
def startupGain : Nat := 277
def normalGain : Nat := 100
def drainGain : Nat := 75
def probeGain : Nat := 125
def bwDecThreshold : Nat := 3
def dupAckBwReduction : Nat := 98
def dupAckGain : Nat := 90
def lossBwReduction : Nat := 95
def fallbackInterval : Nat := 10 * msNano
def rttDivisor : Nat := 10
def rttInflationHigh : Nat := 150
def rttInflationModerate : Nat := 125
def minDeadLine : Nat := 100 * msNano
def readDeadLine : Nat := 30 * secondNano
def maxUint64 : Nat := 2 ^ 64 - 1

/-- RTT and bandwidth state; every field is a uint64 and wraps as one. -/
structure Measurements where
  srtt : Nat := 0
  rttvar : Nat := 0
  isStartup : Bool := true
  rttMinNano : Nat := maxUint64
  rttMinTimeNano : Nat := maxUint64
  bwMax : Nat := 0
  bwDec : Nat := 0
  lastProbeTimeNano : Nat := 0
  pacingGainPct : Nat := startupGain
  lastReadTimeNano : Nat := 0
  deriving DecidableEq, Repr

namespace Measurements

def new : Measurements := {}

def updateRtt (c : Measurements) (rtt : Nat) : Measurements :=
  if c.srtt = 0 then { c with srtt := rtt, rttvar := rtt / 2 }
  else
    let delta := if rtt > c.srtt then sub64 rtt c.srtt else sub64 c.srtt rtt
    { c with rttvar := add64 (mul64 c.rttvar 3 / 4) (delta / 4),
             srtt := add64 (mul64 c.srtt 7 / 8) (rtt / 8) }

def updateRttMin (c : Measurements) (rtt nowNano : Nat) : Measurements :=
  if (nowNano > c.rttMinTimeNano ∧ sub64 nowNano c.rttMinTimeNano ≥ rttExpiry) ∨ rtt < c.rttMinNano
  then { c with rttMinNano := rtt, rttMinTimeNano := nowNano }
  else c

def updateBandwidth (c : Measurements) (bytesAcked : Nat) : Measurements :=
  let bwCurrent := if c.rttMinNano > 0 then mul64 bytesAcked 1000000000 / c.rttMinNano else 0
  if bwCurrent > c.bwMax then { c with bwMax := bwCurrent, bwDec := 0 }
  else { c with bwDec := add64 c.bwDec 1 }

def initProbeTime (c : Measurements) (nowNano : Nat) : Measurements :=
  if c.lastProbeTimeNano = 0 then { c with lastProbeTimeNano := nowNano } else c

/-- The normal state divides by `rttMinNano`; `none` is the division by zero. -/
def updateGain (c : Measurements) (nowNano : Nat) : Option Measurements :=
  if c.isStartup then
    if c.bwDec ≥ bwDecThreshold then some { c with isStartup := false, pacingGainPct := normalGain }
    else some c
  else if c.rttMinNano = 0 then none
  else
    let rttRatioPct := mul64 c.srtt 100 / c.rttMinNano
    if rttRatioPct > rttInflationHigh then some { c with pacingGainPct := drainGain }
    else if rttRatioPct > rttInflationModerate then some { c with pacingGainPct := dupAckGain }
    else if sub64 nowNano c.lastProbeTimeNano > mul64 c.rttMinNano probeMultiplier then
      some { c with pacingGainPct := probeGain, lastProbeTimeNano := nowNano }
    else some { c with pacingGainPct := normalGain }

def updateMeasurements (c : Measurements) (rttMeasurementNano bytesAcked nowNano : Nat) :
    Option Measurements :=
  if rttMeasurementNano = 0 ∨ bytesAcked = 0 ∨ rttMeasurementNano > readDeadLine ∨ nowNano = 0 then
    some c
  else
    ((((c.updateRtt rttMeasurementNano).updateRttMin rttMeasurementNano nowNano).updateBandwidth
      bytesAcked).initProbeTime nowNano).updateGain nowNano

def rtoNano (c : Measurements) : Nat :=
  let rto := add64 c.srtt (mul64 4 c.rttvar)
  if rto = 0 then defaultRTO
  else if rto < minRTO then minRTO
  else if rto > maxRTO then maxRTO
  else rto

def onDuplicateAck (c : Measurements) : Measurements :=
  { c with bwMax := mul64 c.bwMax dupAckBwReduction / 100, pacingGainPct := dupAckGain,
           isStartup := false }

def onPacketLoss (c : Measurements) : Measurements :=
  { c with bwMax := mul64 c.bwMax lossBwReduction / 100, pacingGainPct := normalGain,
           isStartup := false }

def calcPacing (c : Measurements) (packetSize : Nat) : Nat :=
  if c.bwMax = 0 then
    if c.srtt > 0 then c.srtt / rttDivisor else fallbackInterval
  else
    let adjustedBandwidth := mul64 c.bwMax c.pacingGainPct / 100
    if adjustedBandwidth = 0 then fallbackInterval
    else mul64 packetSize 1000000000 / adjustedBandwidth

end Measurements

end Qotp
