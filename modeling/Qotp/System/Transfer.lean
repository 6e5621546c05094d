import Qotp.Buffer.SendRun
import Qotp.Buffer.ReceiveFaithful
import Qotp.Buffer.ReceiveSafe

namespace Qotp

open Framework

/-- One send buffer, one receive buffer, and between them a network that keeps
every packet ever handed out: any of them may arrive any number of times, in any
order, or never. -/
structure Transfer where
  snd : SndRun
  rcv : RcvRun

inductive TransferOp where
  | send (op : SndOp)
  | insert (streamID offset nowNano : Nat) (data : Bytes)
  | read (streamID : Nat)

namespace Transfer

def new (sndCapacity rcvCapacity : Int) : Transfer := ⟨.new sndCapacity, .new rcvCapacity⟩

/-- Only non-empty packets reach `Insert`. -/
def step (s : Transfer) : TransferOp → Option Transfer
  | .send op => (s.snd.step op).map fun snd => { s with snd := snd }
  | .insert k o now d =>
    if (k, o, d) ∈ s.snd.emitted ∧ d ≠ [] then
      (s.rcv.step (.insert k o now d)).map fun rcv => { s with rcv := rcv }
    else none
  | .read k => (s.rcv.step (.remove k)).map fun rcv => { s with rcv := rcv }

def Admissible (s : Transfer) : TransferOp → Prop
  | .send op => s.snd.Admissible op
  | _ => True

instance (s : Transfer) : ∀ op, Decidable (s.Admissible op)
  | .send op => inferInstanceAs (Decidable (s.snd.Admissible op))
  | .insert _ _ _ _ | .read _ => isTrue trivial

/-- The sender accepts more, never something else. -/
theorem accepted_grows {s t : SndRun} {op : SndOp} (h : s.step op = some t) (k : Nat) :
    s.accepted k <+: t.accepted k := by
  cases op with
  | queueData j d =>
    obtain ⟨q, _, rfl⟩ := Option.map_eq_some_iff.mp h
    exact prefix_update s.accepted j k _
  | queuePing j | close j | readyToSend j m a mtu now | acknowledgeRange a =>
    cases h
    exact List.prefix_rfl
  | readyToRetransmit j a mtu rto m now =>
    obtain ⟨q, _, rfl⟩ := Option.map_eq_some_iff.mp h
    exact List.prefix_rfl

structure Inv (s : Transfer) : Prop where
  snd : s.snd.Inv
  rcv : RcvFaithful s.snd.accepted s.rcv.rb s.rcv.delivered

theorem inv_new (sndCapacity rcvCapacity : Int) : Inv (new sndCapacity rcvCapacity) :=
  ⟨SndRun.inv_new _, rcvFaithful_new _ _⟩

theorem step_inv (s : Transfer) (op : TransferOp) (t : Transfer) (hi : Inv s) (hadm : s.Admissible op)
    (h : s.step op = some t) : Inv t := by
  cases op with
  | send op =>
    obtain ⟨snd, hs, rfl⟩ := Option.map_eq_some_iff.mp h
    exact ⟨SndRun.step_inv s.snd op snd hi.snd hadm hs, hi.rcv.mono (accepted_grows hs)⟩
  | insert k o now d =>
    simp only [step] at h
    split_ifs at h with hp
    obtain ⟨rcv, hr, rfl⟩ := Option.map_eq_some_iff.mp h
    obtain ⟨⟨rb, st⟩, hins, rfl⟩ := Option.map_eq_some_iff.mp hr
    exact ⟨hi.snd, hi.rcv.insert hp.2 (hi.snd.emitted _ hp.1 hp.2) hins⟩
  | read k =>
    cases h
    exact ⟨hi.snd, hi.rcv.remove k⟩

/-- End to end: whatever the network does, what a stream delivers is a beginning of
what was accepted for it. -/
theorem delivered_prefix_of_accepted (sndCapacity rcvCapacity : Int) (ops : List TransferOp)
    (s : Transfer) (hadm : Along step Admissible (new sndCapacity rcvCapacity) ops)
    (hrun : run step (new sndCapacity rcvCapacity) ops = some s) (k : Nat) :
    s.rcv.delivered k <+: s.snd.accepted k := by
  have hi := run_inv_along step_inv (inv_new sndCapacity rcvCapacity) hadm hrun
  exact hi.rcv.isPrefix k

/-- A packet is split on retransmission; its right half arrives first and twice. -/
def splitReordered : List TransferOp :=
  [.send (.queueData 3 [1, 2, 3, 4, 5, 6]), .send (.readyToSend 3 .data none 1400 0),
    .send (.readyToRetransmit 3 none 43 100 .data 1000), .send (.readyToRetransmit 3 none 1400 100 .data 2000),
    .insert 3 4 1 [5, 6], .insert 3 4 2 [5, 6], .read 3, .insert 3 0 3 [1, 2, 3, 4], .read 3, .read 3]

theorem splitReordered_delivered :
    ∃ s, run step (new 100 100) splitReordered = some s ∧ s.rcv.delivered 3 = [1, 2, 3, 4, 5, 6] ∧
      s.rcv.delivered 3 <+: s.snd.accepted 3 := by
  have hadm : Along step Admissible (new 100 100) splitReordered := by decide +kernel
  exact ⟨_, rfl, rfl, delivered_prefix_of_accepted 100 100 splitReordered _ hadm rfl 3⟩

end Transfer

end Qotp
