import Qotp.Conn.Conn
import Qotp.Crypto.Nonce
import Qotp.Crypto.Plain
import Qotp.Framework.Run

namespace Qotp

open Framework

variable {Prv Pub : Type}

namespace Conn

/-- The number of datagrams the counters have passed. -/
def position (c : Conn Prv Pub) : Nat := c.epochCryptoSnd * 2 ^ 48 + c.snCrypto

/-- The sequence number leaves its 48 bits only in the last epoch, after exhaustion. -/
structure CountersOk (c : Conn Prv Pub) : Prop where
  epoch_lt : c.epochCryptoSnd < 2 ^ 47
  sn_lt : c.snCrypto < 2 ^ 64
  sn_lt_of_epoch : c.epochCryptoSnd + 1 < 2 ^ 47 → c.snCrypto < 2 ^ 48

/-- The role and the counters of `d` are those of `c`. -/
def SameCounters (c d : Conn Prv Pub) : Prop :=
  d.isSenderOnInit = c.isSenderOnInit ∧ d.snCrypto = c.snCrypto ∧ d.epochCryptoSnd = c.epochCryptoSnd

instance (c d : Conn Prv Pub) : Decidable (SameCounters c d) := inferInstanceAs (Decidable (_ ∧ _ ∧ _))

theorem SameCounters.position_eq {c d : Conn Prv Pub} (h : SameCounters c d) :
    d.position = c.position := by
  rw [position, position, h.2.1, h.2.2]

theorem SameCounters.countersOk {c d : Conn Prv Pub} (h : SameCounters c d) (hc : CountersOk c) :
    CountersOk d := by
  obtain ⟨_, hs, he⟩ := h
  exact ⟨he ▸ hc.epoch_lt, hs ▸ hc.sn_lt, fun hl => hs ▸ hc.sn_lt_of_epoch (he ▸ hl)⟩

theorem advanceSn_role (c : Conn Prv Pub) (enc : Bytes) :
    (c.advanceSn enc).1.isSenderOnInit = c.isSenderOnInit := by
  unfold advanceSn
  dsimp only
  split_ifs <;> rfl

/-- Short of the wrap at 2^64 every datagram moves the counters on by one place. -/
theorem advanceSn_position {c : Conn Prv Pub} (hc : CountersOk c) (hsn : c.snCrypto + 1 < 2 ^ 64)
    (enc : Bytes) :
    CountersOk (c.advanceSn enc).1 ∧ (c.advanceSn enc).1.position = c.position + 1 := by
  obtain ⟨he, hs, hr⟩ := hc
  have ha : add64 c.snCrypto 1 = c.snCrypto + 1 := add64_of_lt hsn
  have hb : add64 c.epochCryptoSnd 1 = c.epochCryptoSnd + 1 := add64_of_lt (by omega)
  unfold advanceSn position
  rw [ha, hb]
  dsimp only
  split_ifs with h1 h2
  · exact ⟨⟨he, hsn, fun hl => by dsimp only at hl; omega⟩, by dsimp only; omega⟩
  · refine ⟨⟨by dsimp only; omega, by dsimp only; omega, fun _ => by dsimp only; omega⟩, ?_⟩
    have := hr (by omega)
    dsimp only
    omega
  · exact ⟨⟨he, hsn, fun _ => by dsimp only; omega⟩, by dsimp only; omega⟩

/-- A datagram that is returned was sealed within the 48 bits. -/
theorem advanceSn_ok {c : Conn Prv Pub} (hc : CountersOk c) (hsn : c.snCrypto + 1 < 2 ^ 64)
    {enc out : Bytes} (ho : (c.advanceSn enc).2 = .ok out) : c.snCrypto < 2 ^ 48 := by
  obtain ⟨he, hs, hr⟩ := hc
  have ha : add64 c.snCrypto 1 = c.snCrypto + 1 := add64_of_lt hsn
  have hb : add64 c.epochCryptoSnd 1 = c.epochCryptoSnd + 1 := add64_of_lt (by omega)
  unfold advanceSn at ho
  rw [ha, hb] at ho
  dsimp only at ho
  split_ifs at ho with h1 h2
  · exact hr (by omega)
  · omega

variable (P : Primitives Prv Pub) (l : ListenerCfg Prv)

/-- What `finishInit` does to the counters. -/
theorem finishInit_counters (c : Conn Prv Pub) (r : Except String Bytes) :
    (∃ e, c.finishInit r = (c, .error e)) ∨
      ∃ d enc, SameCounters c d ∧ c.finishInit r = d.advanceSn enc := by
  cases r with
  | error e => exact .inl ⟨e, rfl⟩
  | ok enc => exact .inr ⟨{ c with isInitSentOnSnd := true }, enc, ⟨rfl, rfl, rfl⟩, rfl⟩

/-- Every call of `encode` that returns either reports an error and changes no
counter, or advances them. -/
theorem encode_counters {c c' : Conn Prv Pub} {p : PayloadHeader} {u : Option Bytes}
    {m : CryptoMsgType} {r : Except String Bytes} (h : c.encode P l p u m = some (c', r)) :
    (∃ e, c' = c ∧ r = .error e) ∨ ∃ d enc, SameCounters c d ∧ (c', r) = d.advanceSn enc := by
  have fin : ∀ {x : Except String Bytes}, c.finishInit x = (c', r) →
      (∃ e, c' = c ∧ r = .error e) ∨ ∃ d enc, SameCounters c d ∧ (c', r) = d.advanceSn enc := by
    intro x hx
    cases finishInit_counters c x with
    | inl h =>
      obtain ⟨e, he⟩ := h
      rw [he] at hx
      cases hx
      exact .inl ⟨e, rfl, rfl⟩
    | inr h =>
      obtain ⟨d, enc, hd, he⟩ := h
      exact .inr ⟨d, enc, hd, hx.symm.trans he⟩
  cases m with
  | initSnd =>
    obtain ⟨x, _, hx⟩ := Option.map_eq_some_iff.mp h
    exact fin hx
  | initRcv =>
    obtain ⟨x, _, hx⟩ := Option.map_eq_some_iff.mp h
    exact fin hx
  | initCryptoSnd =>
    obtain ⟨x, _, hx⟩ := Option.map_eq_some_iff.mp h
    exact fin hx
  | initCryptoRcv =>
    obtain ⟨x, _, hx⟩ := Option.map_eq_some_iff.mp h
    exact fin hx
  | data =>
    obtain ⟨x, _, hx⟩ := Option.map_eq_some_iff.mp h
    cases x with
    | error e =>
      cases hx
      exact .inl ⟨e, rfl, rfl⟩
    | ok enc => exact .inr ⟨c, enc, ⟨rfl, rfl, rfl⟩, hx.symm⟩
  | unknown k =>
    cases h
    exact .inl ⟨_, rfl, rfl⟩

/-- The datagram a successful Data call returns: the payload is sealed under the
session key with the nonce of the counters before the call. -/
theorem encode_data_sealed {c c' : Conn Prv Pub} {p : PayloadHeader} {u : Option Bytes} {out : Bytes}
    (h : c.encode P l p u .data = some (c', .ok out)) :
    ∃ key encSn, c.sharedSecret = some key ∧
      out = dataHeader c.connId ++ encSn ++ P.sealAead key
        (nonceDet c.epochCryptoSnd c.snCrypto c.isSenderOnInit) (encodePayload p u).1
        (dataHeader c.connId) := by
  obtain ⟨x, he, hx⟩ := Option.map_eq_some_iff.mp h
  cases x with
  | error e => cases hx
  | ok enc =>
    have hout : out = enc := by
      unfold advanceSn at hx
      dsimp only at hx
      split_ifs at hx <;> simp_all
    obtain ⟨key, hk, hc⟩ := Option.bind_eq_some_iff.mp he
    unfold chainedEncrypt at hc
    cases hkey : checkKey key with
    | error e => simp [hkey] at hc
    | ok _ =>
      rw [hkey] at hc
      obtain ⟨nonceRand, _, hc⟩ := Option.bind_eq_some_iff.mp hc
      obtain ⟨encSn, _, hc⟩ := Option.bind_eq_some_iff.mp hc
      refine ⟨key, encSn, hk, ?_⟩
      rw [hout]
      simpa using hc.symm

end Conn

/-- One Data datagram as it left `encode`: the end that sealed it, the session key
and the counters before the call. -/
structure Sealed where
  isSender : Bool
  key : Bytes
  epoch : Nat
  sn : Nat
  deriving DecidableEq, Repr

namespace Sealed

def nonce (r : Sealed) : Bytes := nonceDet r.epoch r.sn r.isSender

def place (r : Sealed) : Nat := r.epoch * 2 ^ 48 + r.sn

def SameKeyNonce (r t : Sealed) : Prop := r.key = t.key ∧ r.nonce = t.nonce

/-- One end, one key, one sequence number, and epochs that only bit 7 tells apart. -/
def Bit7Pair (r t : Sealed) : Prop :=
  r.isSender = t.isSender ∧ r.key = t.key ∧ r.sn = t.sn ∧ DifferInBit7 r.epoch t.epoch

end Sealed

def Conn.sealedNow (c : Conn Prv Pub) : Sealed :=
  ⟨c.isSenderOnInit, c.sharedSecret.getD [], c.epochCryptoSnd, c.snCrypto⟩

/-- Both ends of one connection (`true` is the dialing one), the Data datagrams
returned so far and the number of operations. -/
structure Ends (Prv Pub : Type) where
  conn : Bool → Conn Prv Pub
  log : List Sealed := []
  calls : Nat := 0

inductive EndsOp (Prv Pub : Type) where
  | encode (isSender : Bool) (p : PayloadHeader) (userData : Option Bytes) (msgType : CryptoMsgType)
  /-- anything else an end does: it may change all but the role and the send counters -/
  | other (isSender : Bool) (c : Conn Prv Pub)

namespace Ends

def setEnd (s : Ends Prv Pub) (b : Bool) (c : Conn Prv Pub) (sealed : List Sealed) : Ends Prv Pub :=
  ⟨Function.update s.conn b c, s.log ++ sealed, s.calls + 1⟩

/-- The log entry of a call: Data datagrams that `encode` returns. -/
def sealedBy (c : Conn Prv Pub) (msgType : CryptoMsgType) (r : Except String Bytes) : List Sealed :=
  match msgType, r with
  | .data, .ok _ => [c.sealedNow]
  | _, _ => []

def step (P : Primitives Prv Pub) (cfg : Bool → ListenerCfg Prv) (s : Ends Prv Pub) :
    EndsOp Prv Pub → Option (Ends Prv Pub)
  | .encode b p userData msgType =>
    ((s.conn b).encode P (cfg b) p userData msgType).map fun r =>
      s.setEnd b r.1 (sealedBy (s.conn b) msgType r.2)
  | .other b c => if (s.conn b).SameCounters c then some (s.setEnd b c []) else none

/-- Fresh counters at both ends, each in its role, nothing sent yet. -/
structure Fresh (s : Ends Prv Pub) : Prop where
  role : ∀ b, (s.conn b).isSenderOnInit = b
  sn : ∀ b, (s.conn b).snCrypto = 0
  epoch : ∀ b, (s.conn b).epochCryptoSnd = 0
  log : s.log = []
  calls : s.calls = 0

/-- The calls it takes until the 64-bit sequence number wraps. -/
def wrapLimit : Nat := 2 ^ 95 + 2 ^ 64 - 2 ^ 48

/-- Every end's log is strictly increasing and lies below its counters. -/
structure Inv (s : Ends Prv Pub) : Prop where
  role : ∀ b, (s.conn b).isSenderOnInit = b
  counters : ∀ b, (s.conn b).CountersOk
  position_le : ∀ b, (s.conn b).position ≤ s.calls
  bounded : ∀ r ∈ s.log, r.epoch < 2 ^ 47 ∧ r.sn < 2 ^ 48
  below : ∀ r ∈ s.log, r.place < (s.conn r.isSender).position
  increasing : s.log.Pairwise fun r t => r.isSender = t.isSender → r.place < t.place

theorem inv_of_fresh {s : Ends Prv Pub} (h : Fresh s) : Inv s := by
  obtain ⟨hr, hs, he, hl, hc⟩ := h
  refine ⟨hr, fun b => ?_, fun b => ?_, ?_, ?_, ?_⟩
  · exact ⟨by rw [he]; decide, by rw [hs]; decide, fun _ => by rw [hs]; decide⟩
  · rw [Conn.position, hs, he]
    omega
  all_goals simp [hl]

/-- An end that keeps its place seals nothing. -/
theorem inv_same {s : Ends Prv Pub} {b : Bool} {c : Conn Prv Pub} (hi : Inv s)
    (hc : (s.conn b).SameCounters c) : Inv (s.setEnd b c []) := by
  have hpos : ∀ d, ((s.setEnd b c []).conn d).position = (s.conn d).position := by
    intro d
    by_cases hd : d = b
    · subst hd
      simpa [setEnd] using hc.position_eq
    · simp [setEnd, Function.update_of_ne hd]
  refine ⟨fun d => ?_, fun d => ?_, fun d => ?_, ?_, ?_, ?_⟩
  · by_cases hd : d = b
    · subst hd
      simpa [setEnd] using hc.1.trans (hi.role d)
    · simpa [setEnd, Function.update_of_ne hd] using hi.role d
  · by_cases hd : d = b
    · subst hd
      simpa [setEnd] using hc.countersOk (hi.counters d)
    · simpa [setEnd, Function.update_of_ne hd] using hi.counters d
  · have := hi.position_le d
    rw [hpos d]
    exact Nat.le_succ_of_le this
  · simpa [setEnd] using hi.bounded
  · intro r hr
    rw [hpos]
    exact hi.below r (by simpa [setEnd] using hr)
  · simpa [setEnd] using hi.increasing

/-- Below the limit the sequence number cannot be the last one before the wrap. -/
theorem sn_lt_of_calls {s : Ends Prv Pub} (hi : Inv s) (hlt : s.calls + 1 < wrapLimit) (b : Bool) :
    (s.conn b).snCrypto + 1 < 2 ^ 64 := by
  obtain ⟨he, hs, hr⟩ := hi.counters b
  have hp := hi.position_le b
  unfold Conn.position at hp
  unfold wrapLimit at hlt
  by_cases hl : (s.conn b).epochCryptoSnd + 1 < 2 ^ 47
  · have := hr hl
    omega
  · omega

/-- An end that advances may have sealed one datagram, at the place it leaves. -/
theorem inv_advance {s : Ends Prv Pub} {b : Bool} {c : Conn Prv Pub} {sealed : List Sealed} (hi : Inv s)
    (hrole : c.isSenderOnInit = b) (hok : c.CountersOk)
    (hpos : c.position = (s.conn b).position + 1)
    (hsealed : sealed = [] ∨ sealed = [(s.conn b).sealedNow] ∧ (s.conn b).snCrypto < 2 ^ 48) :
    Inv (s.setEnd b c sealed) := by
  have hle : ∀ d, (s.conn d).position ≤ ((s.setEnd b c sealed).conn d).position := by
    intro d
    by_cases hd : d = b
    · subst hd
      simp [setEnd, hpos]
    · simp [setEnd, Function.update_of_ne hd]
  have hnow : (s.conn b).sealedNow.isSender = b := hi.role b
  refine ⟨fun d => ?_, fun d => ?_, fun d => ?_, fun r hr => ?_, fun r hr => ?_, ?_⟩
  · by_cases hd : d = b
    · subst hd
      simpa [setEnd] using hrole
    · simpa [setEnd, Function.update_of_ne hd] using hi.role d
  · by_cases hd : d = b
    · subst hd
      simpa [setEnd] using hok
    · simpa [setEnd, Function.update_of_ne hd] using hi.counters d
  · have := hi.position_le d
    by_cases hd : d = b
    · subst hd
      simpa [setEnd, hpos] using this
    · simpa [setEnd, Function.update_of_ne hd] using Nat.le_succ_of_le this
  · cases List.mem_append.mp hr with
    | inl hr => exact hi.bounded r hr
    | inr hr =>
      obtain hn | ⟨hn, hsn⟩ := hsealed
      · simp [hn] at hr
      · obtain rfl : r = (s.conn b).sealedNow := by simpa [hn] using hr
        exact ⟨(hi.counters b).epoch_lt, hsn⟩
  · cases List.mem_append.mp hr with
    | inl hr => exact (hi.below r hr).trans_le (hle r.isSender)
    | inr hr =>
      obtain hn | ⟨hn, _⟩ := hsealed
      · simp [hn] at hr
      · obtain rfl : r = (s.conn b).sealedNow := by simpa [hn] using hr
        have hplace : (s.conn b).sealedNow.place = (s.conn b).position := rfl
        rw [hnow, hplace]
        simp [setEnd, hpos]
  · refine List.pairwise_append.mpr ⟨hi.increasing, ?_, ?_⟩
    · obtain hn | ⟨hn, _⟩ := hsealed <;> simp [hn]
    · intro r hr t ht hrt
      obtain hn | ⟨hn, _⟩ := hsealed
      · simp [hn] at ht
      · obtain rfl : t = (s.conn b).sealedNow := by simpa [hn] using ht
        have := hi.below r hr
        rwa [hrt, hnow] at this

variable {P : Primitives Prv Pub} {cfg : Bool → ListenerCfg Prv}

theorem step_inv {s t : Ends Prv Pub} {op : EndsOp Prv Pub} (hi : Inv s)
    (hlt : s.calls + 1 < wrapLimit) (h : step P cfg s op = some t) : Inv t := by
  cases op with
  | other b c =>
    simp only [step] at h
    split_ifs at h with hc
    cases h
    exact inv_same hi hc
  | encode b p u m =>
    obtain ⟨⟨c', r⟩, he, rfl⟩ := Option.map_eq_some_iff.mp h
    cases Conn.encode_counters P (cfg b) he with
    | inl herr =>
      obtain ⟨e, rfl, rfl⟩ := herr
      have hnone : sealedBy (s.conn b) m (.error e) = [] := by cases m <;> rfl
      rw [hnone]
      exact inv_same hi ⟨rfl, rfl, rfl⟩
    | inr hadv =>
      obtain ⟨d, enc, hd, hda⟩ := hadv
      have hsn : d.snCrypto + 1 < 2 ^ 64 := by
        rw [hd.2.1]
        exact sn_lt_of_calls hi hlt b
      have hdok := hd.countersOk (hi.counters b)
      obtain ⟨hok, hpos⟩ := Conn.advanceSn_position hdok hsn enc
      have hrole := Conn.advanceSn_role d enc
      rw [← hda] at hok hpos hrole
      rw [hd.position_eq] at hpos
      rw [hd.1, hi.role b] at hrole
      refine inv_advance hi hrole hok hpos ?_
      cases r with
      | error e => exact .inl (by cases m <;> rfl)
      | ok out =>
        have hout : (d.advanceSn enc).2 = .ok out := by rw [← hda]
        have hlt48 := Conn.advanceSn_ok hdok hsn hout
        rw [hd.2.1] at hlt48
        cases m with
        | data => exact .inr ⟨rfl, hlt48⟩
        | initSnd | initRcv | initCryptoSnd | initCryptoRcv | unknown => exact .inl rfl

theorem step_calls {s t : Ends Prv Pub} {op : EndsOp Prv Pub} (h : step P cfg s op = some t) :
    t.calls = s.calls + 1 := by
  cases op with
  | other b c =>
    simp only [step] at h
    split_ifs at h
    cases h
    rfl
  | encode b p u m =>
    obtain ⟨r, _, rfl⟩ := Option.map_eq_some_iff.mp h
    rfl

/-- Induction on the operations; the budget of calls shrinks with every step. -/
theorem run_keeps_inv {s t : Ends Prv Pub} {ops : List (EndsOp Prv Pub)} (hi : Inv s)
    (hlt : s.calls + ops.length < wrapLimit) (h : run (step P cfg) s ops = some t) : Inv t := by
  induction ops generalizing s with
  | nil =>
    obtain rfl : s = t := by simpa [run] using h
    exact hi
  | cons op ops ih =>
    obtain ⟨u, hu, ht⟩ := (run_cons _ s op ops t).mp h
    have hc := step_calls hu
    rw [List.length_cons] at hlt
    exact ih (step_inv hi (by omega) hu) (by omega) ht

/-- Under the invariant a repeated nonce under one key is exactly a pair of epochs
that only bit 7 tells apart. -/
theorem sameKeyNonce_iff {s : Ends Prv Pub} (hi : Inv s) :
    (s.log.Pairwise fun r t => ¬ r.SameKeyNonce t) ↔ (s.log.Pairwise fun r t => ¬ r.Bit7Pair t) := by
  have hpair : s.log.Pairwise fun r t => (r.SameKeyNonce t ↔ r.Bit7Pair t) := by
    apply hi.increasing.imp_of_mem
    intro r t hr ht hinc
    have hbr := hi.bounded r hr
    have hbt := hi.bounded t ht
    unfold Sealed.SameKeyNonce Sealed.Bit7Pair Sealed.nonce
    rw [nonceDet_inj_of_lt hbr.1 hbt.1 hbr.2 hbt.2]
    constructor
    · intro h
      obtain ⟨hk, hs, hb, he | he⟩ := h
      · have := hinc hb
        unfold Sealed.place at this
        omega
      · exact ⟨hb, hk, hs, he⟩
    · intro h
      exact ⟨h.2.1, h.2.2.1, h.1, .inr h.2.2.2⟩
  constructor
  · intro h
    exact (hpair.and h).imp fun h hb => h.2 (h.1.mpr hb)
  · intro h
    exact (hpair.and h).imp fun h hb => h.2 (h.1.mp hb)

theorem run_calls {s t : Ends Prv Pub} {ops : List (EndsOp Prv Pub)}
    (h : run (step P cfg) s ops = some t) : t.calls = s.calls + ops.length := by
  induction ops generalizing s with
  | nil =>
    obtain rfl : s = t := by simpa [run] using h
    rfl
  | cons op ops ih =>
    obtain ⟨u, hu, ht⟩ := (run_cons _ s op ops t).mp h
    rw [ih ht, step_calls hu, List.length_cons]
    omega

/-- The first 128 epochs hold no such pair. -/
theorem no_bit7Pair_of_calls {s : Ends Prv Pub} (hi : Inv s) (hc : s.calls ≤ 2 ^ 55) :
    s.log.Pairwise fun r t => ¬ r.Bit7Pair t := by
  have hepoch : ∀ r ∈ s.log, r.epoch < 128 := by
    intro r hr
    have hb := hi.below r hr
    have hp := hi.position_le r.isSender
    unfold Sealed.place at hb
    omega
  apply List.Pairwise.imp_of_mem ?_ hi.increasing
  intro r t hr ht _ hpair
  have h1 := hepoch r hr
  have h2 := hepoch t ht
  obtain ⟨_, _, _, hne, _, hm⟩ := hpair
  omega

/-- Nonces of one key repeat exactly where the direction bit hides bit 7 of the
epoch, and so never within the first 2^55 calls. -/
theorem nonce_unique_iff_no_bit7Pair (s t : Ends Prv Pub) (ops : List (EndsOp Prv Pub))
    (hfresh : Fresh s) (hrun : run (step P cfg) s ops = some t) :
    (∀ (e f m n : Nat) (b c : Bool), e ≤ 2 ^ 47 - 1 → f ≤ 2 ^ 47 - 1 → m ≤ 2 ^ 48 - 1 → n ≤ 2 ^ 48 - 1 →
      (nonceDet e m b = nonceDet f n c ↔ m = n ∧ b = c ∧ (e = f ∨ DifferInBit7 e f))) ∧
    (ops.length < wrapLimit → ((t.log.Pairwise fun r q => ¬ r.SameKeyNonce q) ↔
      t.log.Pairwise fun r q => ¬ r.Bit7Pair q)) ∧
    (ops.length ≤ 2 ^ 55 → t.log.Pairwise fun r q => ¬ r.SameKeyNonce q) := by
  have hinv : ops.length < wrapLimit → Inv t := by
    intro hl
    apply run_keeps_inv (inv_of_fresh hfresh) ?_ hrun
    rw [hfresh.calls]
    omega
  refine ⟨?_, fun hl => sameKeyNonce_iff (hinv hl), fun hl => ?_⟩
  · intro e f m n b c he hf hm hn
    exact nonceDet_inj_of_lt (by omega) (by omega) (by omega) (by omega)
  · have hi : Inv t := hinv (hl.trans_lt (by decide))
    have hc : t.calls = ops.length := by
      rw [run_calls hrun, hfresh.calls, Nat.zero_add]
    exact (sameKeyNonce_iff hi).mpr (no_bit7Pair_of_calls hi (by omega))

section Example

/-- A connection of the transparent instance with an agreed session key. -/
def plainConn (isSender : Bool) : Conn UInt8 UInt8 :=
  { connId := 0, remoteAddr := 0, prvKeyEpSnd := 3, pubKeyEpRcv := some 5, pubKeyIdRcv := some 7,
    sharedSecret := some (List.replicate 32 15), isSenderOnInit := isSender,
    isWithCryptoOnInit := true, isHandshakeDoneOnRcv := true, isInitSentOnSnd := true }

def plainCfg : Bool → ListenerCfg UInt8 := fun _ => ⟨1, 1400⟩

def plainEnds : Ends UInt8 UInt8 := { conn := plainConn }

/-- A Data datagram with an empty payload from the dialing end. -/
def pingCall : EndsOp UInt8 UInt8 := .encode true {} (some []) .data

theorem plainEnds_fresh : Fresh plainEnds := ⟨fun _ => rfl, fun _ => rfl, fun _ => rfl, rfl, rfl⟩

theorem nonce_unique_two_calls :
    (nonceDet 0 0 true = nonceDet 1 0 true ↔ 0 = 0 ∧ true = true ∧ (0 = 1 ∨ DifferInBit7 0 1)) ∧
    ∃ t, run (step plain plainCfg) plainEnds [pingCall, pingCall] = some t ∧ t.log.length = 2 ∧
      ((t.log.Pairwise fun r q => ¬ r.SameKeyNonce q) ↔ t.log.Pairwise fun r q => ¬ r.Bit7Pair q) ∧
      t.log.Pairwise fun r q => ¬ r.SameKeyNonce q := by
  obtain ⟨hnonce, hiff, hsafe⟩ := @nonce_unique_iff_no_bit7Pair _ _ plain plainCfg
    plainEnds _ [pingCall, pingCall] plainEnds_fresh rfl
  exact ⟨hnonce 0 1 0 0 true true (by decide) (by decide) (by decide) (by decide),
    _, rfl, rfl, hiff (by decide), hsafe (by decide)⟩

/-- The sending end after `n` datagrams. -/
def plainConnAt (n : Nat) : Conn UInt8 UInt8 :=
  { plainConn true with snCrypto := n % 2 ^ 48, epochCryptoSnd := n / 2 ^ 48 }

theorem plainConnAt_advance {n : Nat} (hn : n + 1 < 2 ^ 95) (enc : Bytes) :
    (plainConnAt n).advanceSn enc = (plainConnAt (n + 1), .ok enc) := by
  have ha : add64 (n % 2 ^ 48) 1 = n % 2 ^ 48 + 1 := add64_of_lt (by omega)
  have hb : add64 (n / 2 ^ 48) 1 = n / 2 ^ 48 + 1 := add64_of_lt (by omega)
  unfold Conn.advanceSn plainConnAt
  dsimp only
  rw [ha, hb]
  by_cases hroll : n % 2 ^ 48 + 1 > 2 ^ 48 - 1
  · have he : ¬ n / 2 ^ 48 + 1 > 2 ^ 47 - 1 := by omega
    have hs : (n + 1) % 2 ^ 48 = 0 := by omega
    have hd : (n + 1) / 2 ^ 48 = n / 2 ^ 48 + 1 := by omega
    rw [if_pos hroll, if_neg he, hs, hd]
  · have hs : (n + 1) % 2 ^ 48 = n % 2 ^ 48 + 1 := by omega
    have hd : (n + 1) / 2 ^ 48 = n / 2 ^ 48 := by omega
    rw [if_neg hroll, hs, hd]

theorem plainConnAt_encode {n : Nat} (hn : n + 1 < 2 ^ 95) :
    ∃ enc, (plainConnAt n).encode plain (plainCfg true) {} (some []) .data =
      some (plainConnAt (n + 1), .ok enc) := by
  have hp : (encodePayload {} (some [])).1.length = 8 := rfl
  have hseal : ∃ enc, chainedEncrypt plain (n % 2 ^ 48) (n / 2 ^ 48) true (List.replicate 32 15)
      (dataHeader 0) (encodePayload {} (some [])).1 = some (.ok enc) := by
    apply chainedEncrypt_ok plain
    · rfl
    · simp [plain, hp]
    · simp [plain, snSize]
  obtain ⟨enc, hd⟩ := hseal
  refine ⟨enc, ?_⟩
  simp only [Conn.encode, encryptData, plainConnAt, plainConn, Option.bind_eq_bind, Option.bind_some, hd, Option.map_some]
  exact congrArg some (plainConnAt_advance hn enc)

/-- A run of Data datagrams only: the i-th one is sealed at place `i`. -/
theorem run_pingCalls {n : Nat} (hn : n < 2 ^ 95) :
    ∃ t, run (step plain plainCfg) plainEnds (List.replicate n pingCall) = some t ∧
      t.conn true = plainConnAt n ∧
      t.log = (List.range n).map fun i => ⟨true, List.replicate 32 15, i / 2 ^ 48, i % 2 ^ 48⟩ := by
  induction n with
  | zero => exact ⟨plainEnds, rfl, rfl, rfl⟩
  | succ n ih =>
    obtain ⟨t, ht, hc, hl⟩ := ih (by omega)
    obtain ⟨enc, henc⟩ := plainConnAt_encode hn
    have hstep : step plain plainCfg t pingCall =
        some (t.setEnd true (plainConnAt (n + 1)) [(plainConnAt n).sealedNow]) := by
      simp only [step, pingCall, hc, henc, Option.map_some, sealedBy]
    refine ⟨t.setEnd true (plainConnAt (n + 1)) [(plainConnAt n).sealedNow], ?_, ?_, ?_⟩
    · rw [List.replicate_succ', run_append, ht]
      simp [run, hstep]
    · simp [setEnd]
    · simp only [setEnd, hl, List.range_succ, List.map_append, List.map_cons, List.map_nil]
      rfl

/-- The datagrams 0 and 2^55 of one end carry one nonce under one key. -/
theorem nonce_repeats :
    (nonceDet 0 0 true = nonceDet 128 0 true ∧ ((0 : Nat), (0 : Nat), true) ≠ (128, 0, true)) ∧
    ∃ t, run (step plain plainCfg) plainEnds (List.replicate (2 ^ 55 + 1) pingCall) = some t ∧
      ∃ r q, t.log[0]? = some r ∧ t.log[2 ^ 55]? = some q ∧ r.SameKeyNonce q := by
  refine ⟨⟨by decide, by decide⟩, ?_⟩
  obtain ⟨t, ht, _, hl⟩ := run_pingCalls (show 2 ^ 55 + 1 < 2 ^ 95 by omega)
  refine ⟨t, ht, ⟨true, List.replicate 32 15, 0, 0⟩, ⟨true, List.replicate 32 15, 128, 0⟩, ?_, ?_, ?_⟩
  · rw [hl, List.getElem?_map, List.getElem?_range (by omega)]
    rfl
  · rw [hl, List.getElem?_map, List.getElem?_range (by omega)]
    rfl
  · exact ⟨rfl, by decide⟩

end Example

end Ends

end Qotp
