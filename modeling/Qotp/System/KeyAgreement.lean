import Qotp.Conn.CutDatagram
import Qotp.Conn.EndpointFrame
import Qotp.Conn.PinnedIdentity

namespace Qotp

open Framework

variable {Prv Pub : Type}

namespace Endpoint

variable {P : Primitives Prv Pub} {l : ListenerCfg Prv} {e e' : Endpoint Prv Pub} {op : ConnOp Prv Pub}

/-- Of the local calls only `Flush` touches keys or counters, and only it writes. -/
theorem step_local (hop : op.isLocal = true) (hs : e.step P l op = some e') :
    (∃ k now w out r, e.conn.flush P l k now w = some (e'.conn, out, r) ∧ e'.sent = e.sent ++ out) ∨
    (Conn.SameCrypto e.conn e'.conn ∧ e'.sent = e.sent) := by
  have hstream : ∀ k, Conn.SameCrypto e.conn (e.conn.stream k).1 := by
    intro k
    rw [Conn.stream_frame]
    exact ⟨_, _, _, _, _, _, _, rfl⟩
  cases op with
  | write k d wake =>
    obtain ⟨⟨c', n, err⟩, hw, rfl⟩ := Option.map_eq_some_iff.mp hs
    refine .inr ⟨(hstream k).trans ?_, rfl⟩
    obtain rfl | ⟨_, snd, m, st, _, rfl⟩ := Conn.write_cases hw
    · exact Conn.SameCrypto.refl _
    · exact ⟨_, _, _, _, _, _, _, rfl⟩
  | read k =>
    cases hs
    refine .inr ⟨(hstream k).trans ?_, rfl⟩
    dsimp only [Conn.read]
    split_ifs
    · exact Conn.SameCrypto.refl _
    · exact ⟨_, _, _, _, _, _, _, rfl⟩
    · exact ⟨_, _, _, _, _, _, _, rfl⟩
  | ping k | close k =>
    cases hs
    exact .inr ⟨(hstream k).trans ⟨_, _, _, _, _, _, _, rfl⟩, rfl⟩
  | flush k now w =>
    obtain ⟨⟨c', out, r⟩, hf, rfl⟩ := Option.map_eq_some_iff.mp hs
    exact .inl ⟨k, now, w, out, r, hf, rfl⟩
  | decode p u rawLen now => cases hop
  | cleanup k =>
    cases hs
    exact .inr ⟨⟨_, _, _, _, _, _, _, rfl⟩, rfl⟩
  | handshake d => cases hop

end Endpoint

/-- Two listeners, of which `side true` has dialed the other, and all datagrams each has
written for the connection, with the epoch they were sealed in. -/
structure Handshake (Prv Pub : Type) where
  side : Bool → Listener Prv Pub
  sent : Bool → List (Nat × Conn.Outgoing) := fun _ => []

/-- The connection is called on one side; a datagram of the other side arrives, any one of
them, any number of times, and is cut to the MTU of the reader; or something happens to
other connections. -/
inductive HandshakeOp (Prv Pub : Type) where
  | call (side : Bool) (op : ConnOp Prv Pub)
  | receive (side : Bool) (i rAddr : Nat) (fresh : Except String Prv) (nowNano : Nat)
  | others (side : Bool) (connMap : InsertionMap Nat (Conn Prv Pub))

/-- The listener with other connections beside connection `id`. -/
def Listener.withOthers (l : Listener Prv Pub) (id : Nat) (connMap : InsertionMap Nat (Conn Prv Pub)) :
    Listener Prv Pub :=
  { l with connMap := (l.connMap.get? id).elim (connMap.erase id) (connMap.put id) }

namespace Handshake

variable (P : Primitives Prv Pub) (id : Nat)

/-- A call on side `b`. -/
def call (s : Handshake Prv Pub) (b : Bool) (op : ConnOp Prv Pub) : Option (Handshake Prv Pub) :=
  ((s.side b).connMap.get? id).bind fun c =>
    (({ conn := c } : Endpoint Prv Pub).step P (s.side b).cfg op).map fun e =>
      { side := Function.update s.side b ((s.side b).setConn id e.conn)
        sent := Function.update s.sent b (s.sent b ++ e.sent.map fun o => (c.epochCryptoSnd, o)) }

def step (s : Handshake Prv Pub) : HandshakeOp Prv Pub → Option (Handshake Prv Pub)
  | .call b op => if op.isLocal then s.call P id b op else none
  | .receive b i rAddr fresh now => (s.sent (!b))[i]?.bind fun x =>
    ((s.side b).listen P ((s.side b).readFrom x.2.encData rAddr) fresh now).map fun r =>
      { s with side := Function.update s.side b r.1 }
  | .others b connMap => some { s with side := Function.update s.side b ((s.side b).withOthers id connMap) }

/-- Both sides hold connection `id`, with one secret. -/
def SharesSecret (s : Handshake Prv Pub) : Prop :=
  ∃ key, ∀ b, ∃ c, (s.side b).connMap.get? id = some c ∧ c.connId = id ∧ c.sharedSecret = some key

/-- A Data datagram that fits into the buffer of the reader opens there, whatever arrived
before, if the epochs are at most one apart, and what is read is what was encoded. -/
def DataOpens (s : Handshake Prv Pub) : Prop :=
  ∀ b, ∀ x ∈ s.sent b, x.2.msgType = .data → (x.2.encData.length : Int) ≤ (s.side (!b)).mtu →
    ∀ c, (s.side (!b)).connMap.get? id = some c → x.1 ≤ c.epochCryptoRcv + 1 → c.epochCryptoRcv ≤ x.1 + 1 →
      ∀ rAddr fresh, (s.side (!b)).readFrom x.2.encData rAddr = .datagram x.2.encData rAddr ∧
        ∃ l', (s.side (!b)).decode P x.2.encData rAddr fresh =
          some (l', .ok ⟨id, (encodePayload x.2.header x.2.userData).1, .data⟩)

/-- What every step leaves of a connection: id, own key and role, and once it may speak for
itself (the dialer behind its handshake, the listener at once) the secret. -/
structure HoldsSecret (b : Bool) (x : Prv) (key : Bytes) (c : Conn Prv Pub) : Prop where
  connId : c.connId = id
  prv : c.prvKeyEpSnd = x
  sender : c.isSenderOnInit = b
  epoch : c.epochCryptoSnd < 2 ^ 47
  secret : (b = true → c.isHandshakeDoneOnRcv = true) → c.sharedSecret = some key

/-- A datagram on its way from side `b`. -/
structure OnItsWay (b : Bool) (ep : Pub) (key : Bytes) (x : Nat × Conn.Outgoing) : Prop where
  epoch : x.1 < 2 ^ 47
  form : (x.2.msgType ≠ .data ∧ Hello P b id ep x.2.encData) ∨
    ∃ sn, x.2.encData = dataHeader id ++ sealedBody P sn x.1 b key (dataHeader id)
      (encodePayload x.2.header x.2.userData).1

/-- Until a request arrives there is only the dialer, with requests on their way. Then both
ephemeral keys are fixed, and with them the secret. -/
inductive Phase (a : Prv) (s : Handshake Prv Pub) : Prop
  | dialed (c : Conn Prv Pub) (hget : (s.side true).connMap.get? id = some c)
      (hdone : c.isHandshakeDoneOnRcv = false) (hkeyed : ∀ key, HoldsSecret id true a key c)
      (hnone : (s.side false).connMap.get? id = none)
      (hsent : ∀ x ∈ s.sent true, x.1 < 2 ^ 47 ∧ x.2.msgType ≠ .data ∧ Hello P true id (P.publicKey a) x.2.encData)
      (hquiet : s.sent false = [])
  | opened (y : Bool → Prv) (key : Bytes) (ha : y true = a)
      (hkey : ∀ b, P.ecdh (y b) (P.publicKey (y (!b))) = .ok key)
      (hconn : ∀ b, ∃ c, (s.side b).connMap.get? id = some c ∧ HoldsSecret id b (y b) key c)
      (hsent : ∀ b, ∀ x ∈ s.sent b, OnItsWay P id b (P.publicKey (y b)) key x)

variable {P id} {s t : Handshake Prv Pub} {a : Prv} {b : Bool} {x : Prv} {key : Bytes} {c c' : Conn Prv Pub}

theorem HoldsSecret.sameCrypto (h : HoldsSecret id b x key c) (hs : Conn.SameCrypto c c') :
    HoldsSecret id b x key c' := by
  obtain ⟨_, _, _, _, _, _, _, rfl⟩ := hs
  exact ⟨h.connId, h.prv, h.sender, h.epoch, h.secret⟩

theorem HoldsSecret.named (h : HoldsSecret id b x key c) (hid : id = keyConnId P (P.publicKey a))
    (hb : b = true → x = a) : c.Named P := by
  refine ⟨?_, fun hs => ?_⟩
  · rw [h.connId, hid]
    exact keyConnId_lt P _
  · rw [h.connId, h.prv, hb (h.sender.symm.trans hs), hid]

theorem HoldsSecret.flush {l : ListenerCfg Prv} {k now : Nat} {w : WriteResult} {out : List Conn.Outgoing}
    {r : Conn.FlushResult} (h : HoldsSecret id b x key c) (hf : c.flush P l k now w = some (c', out, r)) :
    HoldsSecret id b x key c' := by
  obtain ⟨_, hs⟩ | ⟨c₁, p, u, c₂, res, h₁, he, h₂, _⟩ := Conn.flush_encodes hf
  · exact h.sameCrypto hs
  · refine HoldsSecret.sameCrypto ?_ h₂
    have hk := h.sameCrypto h₁
    have hep := Conn.encode_epoch he hk.epoch
    obtain ⟨_, _, _, _, rfl⟩ := Conn.encode_frame P l he
    exact ⟨hk.connId, hk.prv, hk.sender, hep, hk.secret⟩

theorem HoldsSecret.onItsWay {o : Conn.Outgoing} (h : HoldsSecret id b x key c) (hlen : key.length = 32)
    (he : Conn.Emits P c o.header o.userData o.msgType o.encData) :
    OnItsWay P id b (P.publicKey x) key (c.epochCryptoSnd, o) := by
  refine ⟨h.epoch, ?_⟩
  obtain ⟨_, hm, hello⟩ | ⟨hdone, _, hseal⟩ := he
  · rw [h.sender, h.connId, h.prv] at hello
    exact .inl ⟨hm, hello⟩
  · have hform := hseal key (h.secret fun _ => hdone) hlen
    rw [h.sender, h.connId] at hform
    exact .inr hform

section Receive

variable {l l' : Listener Prv Pub} {d : Bytes} {z : Prv} {rAddr now : Nat} {fresh : Except String Prv}
  {r : Except String (Option (Nat × Nat))} {y : Nat × Conn.Outgoing}

/-- What is read of a datagram of side `b`. -/
def Heard (P : Primitives Prv Pub) (id : Nat) (b : Bool) (ep : Pub) (d : Bytes) : Prop :=
  Hello P b id ep d ∨ msgTypeOf d = .data

theorem msgTypeOf_dataHeader (id : Nat) (body : Bytes) : msgTypeOf (dataHeader id ++ body) = .data :=
  (by decide : CryptoMsgType.ofCode (headerByte .data >>> 5) = .data)

theorem OnItsWay.heard {ep : Pub} (h : OnItsWay P id b ep key y) (hd : SameHeader P y.2.encData d) :
    Heard P id b ep d := by
  obtain ⟨_, hello⟩ | ⟨sn, hform⟩ := h.form
  · exact .inl (hello.read hd)
  · refine .inr (hd.type.trans ?_)
    rw [hform, msgTypeOf_dataHeader]

theorem HoldsSecret.of_secret (h : HoldsSecret id b x key c) (hs : c.sharedSecret = some key) (done : Bool) :
    HoldsSecret id b x key { c with isHandshakeDoneOnRcv := done } :=
  ⟨h.connId, h.prv, h.sender, h.epoch, fun _ => hs⟩

/-- A datagram of the other side can only renew the secret with itself. -/
theorem HoldsSecret.update (h : HoldsSecret id b x key c) (hkey : P.ecdh x (P.publicKey z) = .ok key)
    (hd : Heard P id (!b) (P.publicKey z) d) (hu : Listener.Update P l d c c') :
    HoldsSecret id b x key c' ∧ (msgTypeOf d = .initRcv ∨ msgTypeOf d = .initCryptoRcv →
      c'.sharedSecret = some key) := by
  have hrest := hu.rest
  have hsec : c'.sharedSecret = some key ∨ (c'.sharedSecret = c.sharedSecret ∧ msgTypeOf d = .data) := by
    obtain hello | ht := hd
    · left
      have hep : ∀ ep, carriedEp P d = .ok ep → (P.ecdh c.prvKeyEpSnd ep).toOption = some key := by
        intro ep hc
        cases hello.key.symm.trans hc
        rw [h.prv, hkey]
        rfl
      cases b with
      | false =>
        obtain ⟨ep, hc, rfl⟩ := hu.initial hello.type
        exact hep ep hc
      | true =>
        obtain ⟨_, ep, hc, _, hs, _⟩ := hu.reply hello.type
        exact hs.trans (hep ep hc)
    · exact .inr ⟨hu.secret_of_data ht, ht⟩
  refine ⟨⟨hrest.connId.trans h.connId, hrest.prv.trans h.prv, hrest.sender.trans h.sender, ?_, fun hd => ?_⟩,
    fun ht => ?_⟩
  · rw [hrest.epoch]
    exact h.epoch
  · rw [hrest.done] at hd
    obtain hs | ⟨hs, _⟩ := hsec
    · exact hs
    · exact hs.trans (h.secret hd)
  · obtain hs | ⟨_, hd⟩ := hsec
    · exact hs
    · rw [hd] at ht
      obtain ht | ht := ht <;> cases ht

theorem HoldsSecret.receive (h : HoldsSecret id b x key c) (hkey : P.ecdh x (P.publicKey z) = .ok key)
    (hd : Heard P id (!b) (P.publicKey z) d) (hget : l.connMap.get? id = some c)
    (hl : l.listen P (.datagram d rAddr) fresh now = some (l', r)) :
    ∃ c', l'.connMap.get? id = some c' ∧ HoldsSecret id b x key c' := by
  obtain ⟨c₁, c₂, c', hcase, hsame, hg', hmark⟩ := Listener.listen_known hget hl
  have h₁ : HoldsSecret id b x key c₁ := by
    obtain rfl | ⟨_, hu⟩ := hcase
    · exact h
    · exact (h.update hkey hd hu).1
  have h₂ := h₁.sameCrypto hsame
  refine ⟨c', hg', ?_⟩
  obtain rfl | ⟨_, hu, rfl, ht⟩ := hmark
  · exact h₂
  · refine h₂.of_secret ?_ true
    cases b with
    | false => exact h₂.secret nofun
    | true =>
      have hs := (h.update hkey hd hu).2 (ht h.sender)
      obtain ⟨_, _, _, _, _, _, _, rfl⟩ := hsame
      exact hs

/-- A connection that a request opened is keyed, whatever its payload does to it. -/
theorem HoldsSecret.deliver {dec : Decoded} {n : Nat} (h : HoldsSecret id false x key c)
    (hget : l.connMap.get? id = some c) (hd : l.deliver dec n now = some (l', r)) :
    ∃ c', l'.connMap.get? id = some c' ∧ HoldsSecret id false x key c' := by
  obtain ⟨c₁, c', hsame, hg', hmark⟩ := Listener.deliver_cases hget hd
  have h₁ := h.sameCrypto hsame
  refine ⟨c', hg', ?_⟩
  obtain rfl | ⟨_, rfl, _⟩ := hmark
  · exact h₁
  · exact h₁.of_secret (h₁.secret nofun) true

/-- The key the listener reads is the one the request carries. -/
theorem request_key (hd : Hello P true id (P.publicKey a) d) :
    (∀ mtu k, decryptInitSnd P d mtu = some (.ok k) → msgTypeOf d = .initSnd → k.2 = P.publicKey a) ∧
    (∀ prv mtu m, decryptInitCryptoSnd P d prv mtu = some (.ok m) → msgTypeOf d = .initCryptoSnd →
      m.pubKeyEpSnd = P.publicKey a) := by
  have hep := hd.key
  constructor
  · intro mtu k hk ht
    rw [carriedEp, ht] at hep
    exact Except.ok.inj ((decryptInitSnd_ok hk).symm.trans hep)
  · intro prv mtu m hk ht
    rw [carriedEp, ht] at hep
    exact Except.ok.inj ((decryptInitCryptoSnd_ok hk).2.symm.trans hep)

/-- A request that finds no connection opens one with a key of the listener, or none. -/
theorem request_opens (hP : P.Correct) (hnone : l.connMap.get? id = none) (hd : Hello P true id (P.publicKey a) d)
    (hl : l.listen P (.datagram d rAddr) fresh now = some (l', r)) :
    l'.connMap.get? id = none ∨ ∃ z key c', P.ecdh z (P.publicKey a) = .ok key ∧
      l'.connMap.get? id = some c' ∧ HoldsSecret id false z key c' := by
  unfold Listener.listen at hl
  dsimp only at hl
  split_ifs at hl
  · cases hl
    exact .inl hnone
  obtain ⟨⟨l₁, res⟩, hdec, hl⟩ := Option.bind_eq_some_iff.mp hl
  rw [← hd.conn] at hnone
  have hkeyed : ∀ (z : Prv) (key : Bytes) (idKey ep : Option Pub) (w : Bool), HoldsSecret id false z key
      { Listener.openedConn (connIdOf d) rAddr z idKey ep false w with sharedSecret := some key } :=
    fun z key idKey ep w => ⟨hd.conn, rfl, rfl, (by decide : 0 < 2 ^ 47), fun _ => rfl⟩
  have hagree : ∀ z, ∃ key, P.ecdh z (P.publicKey a) = .ok key := fun z =>
    (hP.ecdh_agree z a).imp fun _ h => h.1
  cases Listener.decode_opening P hnone hdec with
  | refused e =>
    cases hl
    rw [← hd.conn]
    exact .inl hnone
  | halfOpen k z e err ht hk hf hq herr =>
    -- the agreement with an honest key does not fail
    obtain ⟨key, hkey⟩ := hagree z
    rw [(request_key hd).1 _ k hk ht, hkey] at herr
    cases herr
  | initSnd k z key ht hk hf hkey _ hl₁ =>
    rw [(request_key hd).1 _ k hk ht] at hkey
    obtain ⟨c', hg', hc'⟩ := (hkeyed z key _ _ _).deliver
      (by rw [hl₁, Listener.get?_setConn, if_pos hd.conn.symm]) hl
    exact .inr ⟨z, key, c', hkey, hg', hc'⟩
  | initCryptoSnd m z ht hk hf _ hl₁ =>
    obtain ⟨key, hkey⟩ := hagree z
    rw [(request_key hd).2 _ _ m hk ht, hkey] at hl₁
    obtain ⟨c', hg', hc'⟩ := (hkeyed z key _ _ _).deliver
      (by rw [hl₁, Listener.get?_setConn, if_pos hd.conn.symm]; rfl) hl
    exact .inr ⟨z, key, c', hkey, hg', hc'⟩

end Receive

section Step

theorem get?_withOthers (l : Listener Prv Pub) (id : Nat) (connMap : InsertionMap Nat (Conn Prv Pub)) :
    (l.withOthers id connMap).connMap.get? id = l.connMap.get? id := by
  unfold Listener.withOthers
  cases hg : l.connMap.get? id with
  | none =>
    dsimp only [Option.elim_none]
    rw [InsertionMap.get?_erase, if_pos rfl]
  | some c => exact InsertionMap.get?_put_self _ _ _

theorem get?_update (side : Bool → Listener Prv Pub) (b d : Bool) (l : Listener Prv Pub) (id : Nat) :
    (Function.update side b l d).connMap.get? id =
      if d = b then l.connMap.get? id else (side d).connMap.get? id := by
  rw [Function.update_apply]
  split_ifs <;> rfl

/-- What a call on a side does to its connection, and what it sends. -/
structure Called (P : Primitives Prv Pub) (id : Nat) (s : Handshake Prv Pub) (b : Bool) (c c' : Conn Prv Pub)
    (out : List Conn.Outgoing) (t : Handshake Prv Pub) : Prop where
  get : (s.side b).connMap.get? id = some c
  keyed : ∀ x key, HoldsSecret id b x key c → HoldsSecret id b x key c'
  done : c'.isHandshakeDoneOnRcv = c.isHandshakeDoneOnRcv
  emits : P.Correct → c.Named P → ∀ o ∈ out, Conn.Emits P c o.header o.userData o.msgType o.encData
  side : t.side = Function.update s.side b ((s.side b).setConn id c')
  sent : t.sent = Function.update s.sent b (s.sent b ++ out.map fun o => (c.epochCryptoSnd, o))

/-- A datagram that arrives changes one side, through a read that has its header; if the
header is cut, nothing changes. -/
theorem step_receive {i rAddr now : Nat} {fresh : Except String Prv}
    (h : s.step P id (.receive b i rAddr fresh now) = some t) :
    t = s ∨ ∃ x l' r, x ∈ s.sent (!b) ∧ SameHeader P x.2.encData (x.2.encData.take (s.side b).mtu.toNat) ∧
      (s.side b).listen P (.datagram (x.2.encData.take (s.side b).mtu.toNat) rAddr) fresh now = some (l', r) ∧
      t = { s with side := Function.update s.side b l' } := by
  obtain ⟨x, hx, h⟩ := Option.bind_eq_some_iff.mp h
  obtain ⟨⟨l', r⟩, hl, rfl⟩ := Option.map_eq_some_iff.mp h
  obtain rfl | hread := Listener.listen_readFrom hl
  · rw [Function.update_eq_self]
    exact .inl rfl
  · exact .inr ⟨x, l', r, List.mem_of_getElem? hx, hread, hl, rfl⟩

theorem step_call {op : ConnOp Prv Pub} (h : s.step P id (.call b op) = some t) :
    ∃ c c' out, Called P id s b c c' out t := by
  simp only [step] at h
  split_ifs at h with hop
  obtain ⟨c, hget, h⟩ := Option.bind_eq_some_iff.mp h
  obtain ⟨e, he, rfl⟩ := Option.map_eq_some_iff.mp h
  obtain ⟨k, now, w, out, r, hf, hsent⟩ | ⟨hsame, hsent⟩ := Endpoint.step_local hop he
  · refine ⟨c, e.conn, out, hget, fun x key hk => hk.flush hf, ?_, fun hP hn => Conn.flush_emits hP hn hf, rfl, ?_⟩
    · obtain ⟨_, _, _, _, _, _, _, _, hc⟩ := Conn.flush_fields P _ hf
      rw [hc]
    · rw [hsent, List.nil_append]
  · refine ⟨c, e.conn, [], hget, fun x key hk => hk.sameCrypto hsame, ?_, fun _ _ => nofun, rfl, ?_⟩
    · obtain ⟨_, _, _, _, _, _, _, hc⟩ := hsame
      rw [hc]
    · rw [hsent]

theorem Called.get' {out : List Conn.Outgoing} (h : Called P id s b c c' out t) (d : Bool) :
    (t.side d).connMap.get? id = if d = b then some c' else (s.side d).connMap.get? id := by
  rw [h.side, get?_update, Listener.get?_setConn, if_pos rfl]

theorem Called.mem_sent {out : List Conn.Outgoing} (h : Called P id s b c c' out t) {d : Bool}
    {y : Nat × Conn.Outgoing} (hy : y ∈ t.sent d) :
    y ∈ s.sent d ∨ (d = b ∧ ∃ o ∈ out, y = (c.epochCryptoSnd, o)) := by
  rw [h.sent, Function.update_apply] at hy
  split_ifs at hy with hd
  · rw [List.mem_append, List.mem_map] at hy
    obtain hy | ⟨o, ho, rfl⟩ := hy
    · rw [hd]
      exact .inl hy
    · exact .inr ⟨hd, o, ho, rfl⟩
  · exact .inl hy

variable (hP : P.Correct) (hid : id = keyConnId P (P.publicKey a))

include hP hid

theorem Phase.call {op : ConnOp Prv Pub} (h : Phase P id a s) (hs : s.step P id (.call b op) = some t) :
    Phase P id a t := by
  obtain ⟨c, c', out, hc⟩ := step_call hs
  have hget := hc.get
  cases h with
  | dialed c₀ hget₀ hdone hkeyed hnone hsent hquiet =>
    cases b with
    | false =>
      rw [hnone] at hget
      cases hget
    | true =>
      cases hget₀.symm.trans hget
      refine .dialed c' (hc.get' true) (hc.done.trans hdone) (fun key => hc.keyed a key (hkeyed key)) ?_ ?_ ?_
      · rw [hc.get' false, if_neg nofun]
        exact hnone
      · intro y hy
        obtain hy | ⟨_, o, ho, rfl⟩ := hc.mem_sent hy
        · exact hsent y hy
        have hk := hkeyed []
        obtain ⟨_, hm, hello⟩ | ⟨hd, _⟩ := hc.emits hP (hk.named hid fun _ => rfl) o ho
        · rw [hk.sender, hk.connId, hk.prv] at hello
          exact ⟨hk.epoch, hm, hello⟩
        · rw [hdone] at hd
          cases hd
      · rw [hc.sent, Function.update_of_ne Bool.false_ne_true]
        exact hquiet
  | opened y key ha hkey hconn hsent =>
    obtain ⟨c₀, hget₀, hk⟩ := hconn b
    cases hget₀.symm.trans hget
    have hlen := hP.ecdh_length _ _ _ (hkey true)
    refine .opened y key ha hkey (fun d => ?_) fun d z hz => ?_
    · rw [hc.get' d]
      split_ifs with hd
      · rw [hd]
        exact ⟨c', rfl, hc.keyed _ _ hk⟩
      · exact hconn d
    · obtain hz | ⟨rfl, o, ho, rfl⟩ := hc.mem_sent hz
      · exact hsent d z hz
      · refine hk.onItsWay hlen (hc.emits hP (hk.named hid fun hd => ?_) o ho)
        rw [hd, ha]

omit hid in
/-- The first request that is accepted fixes the second key. -/
theorem Phase.opens (hget : (s.side true).connMap.get? id = some c) (hkeyed : ∀ key, HoldsSecret id true a key c)
    (hsent : ∀ y ∈ s.sent true, y.1 < 2 ^ 47 ∧ y.2.msgType ≠ .data ∧ Hello P true id (P.publicKey a) y.2.encData)
    (hquiet : s.sent false = []) (hkey : P.ecdh x (P.publicKey a) = .ok key)
    (hget' : (s.side false).connMap.get? id = some c') (hkeyed' : HoldsSecret id false x key c') : Phase P id a s := by
  obtain ⟨key', hax, hxa⟩ := hP.ecdh_agree a x
  cases hkey.symm.trans hxa
  refine .opened (fun d => if d then a else x) key rfl (fun d => ?_) (fun d => ?_) fun d y hy => ?_
  · cases d with
    | true => exact hax
    | false => exact hkey
  · cases d with
    | true => exact ⟨c, hget, hkeyed key⟩
    | false => exact ⟨c', hget', hkeyed'⟩
  · cases d with
    | true =>
      obtain ⟨he, hm, hello⟩ := hsent y hy
      exact ⟨he, .inl ⟨hm, hello⟩⟩
    | false =>
      rw [hquiet] at hy
      cases hy

omit hid in
theorem Phase.receive {i rAddr now : Nat} {fresh : Except String Prv} (h : Phase P id a s)
    (hs : s.step P id (.receive b i rAddr fresh now) = some t) : Phase P id a t := by
  obtain rfl | ⟨z, l', r, hmem, hread, hl, rfl⟩ := step_receive hs
  · exact h
  cases h with
  | dialed c hget hdone hkeyed hnone hsent hquiet =>
    cases b with
    | true =>
      rw [show (!true) = false from rfl, hquiet] at hmem
      cases hmem
    | false =>
      have hget' : (Function.update s.side false l' true).connMap.get? id = some c := by
        rw [get?_update, if_neg nofun]
        exact hget
      have hself : (Function.update s.side false l' false).connMap.get? id = l'.connMap.get? id := by
        rw [get?_update, if_pos rfl]
      obtain hnone' | ⟨x, key, c', hkey, hg', hc'⟩ := request_opens hP hnone ((hsent z hmem).2.2.read hread) hl
      · exact .dialed c hget' hdone hkeyed (hself.trans hnone') hsent hquiet
      · exact .opens hP hget' hkeyed hsent hquiet hkey (hself.trans hg') hc'
  | opened y key ha hkey hconn hsent =>
    refine .opened y key ha hkey (fun d => ?_) hsent
    rw [get?_update]
    split_ifs with hd
    · subst hd
      obtain ⟨c, hget, hk⟩ := hconn d
      exact hk.receive (hkey d) ((hsent (!d) z hmem).heard hread) hget hl
    · exact hconn d

omit hP hid in
theorem Phase.others {connMap : InsertionMap Nat (Conn Prv Pub)} (h : Phase P id a s)
    (hs : s.step P id (.others b connMap) = some t) : Phase P id a t := by
  cases hs
  have hget : ∀ d, (Function.update s.side b ((s.side b).withOthers id connMap) d).connMap.get? id =
      (s.side d).connMap.get? id := by
    intro d
    rw [get?_update]
    split_ifs with hd
    · rw [hd, get?_withOthers]
    · rfl
  cases h with
  | dialed c hg hdone hkeyed hnone hsent hquiet =>
    exact .dialed c ((hget true).trans hg) hdone hkeyed ((hget false).trans hnone) hsent hquiet
  | opened y key ha hkey hconn hsent =>
    refine .opened y key ha hkey (fun d => ?_) hsent
    rw [hget d]
    exact hconn d

theorem step_phase (s : Handshake Prv Pub) (op : HandshakeOp Prv Pub) (t : Handshake Prv Pub) (h : Phase P id a s)
    (hs : s.step P id op = some t) : Phase P id a t := by
  cases op with
  | call b op => exact h.call hP hid hs
  | receive b i rAddr fresh now => exact h.receive hP hs
  | others b connMap => exact h.others hs

end Step

/-- A Data datagram for a known connection opens under the secret its sender used. -/
theorem decode_sealedData {l : Listener Prv Pub} {sn e : Nat} {data : Bytes} (hP : P.Correct) (hid : id < 2 ^ 64)
    (hk : key.length = 32) (hd : 8 ≤ data.length) (he : e < 2 ^ 47) (hget : l.connMap.get? id = some c)
    (hsec : c.sharedSecret = some key) (hs : c.isSenderOnInit = !b) (h1 : e ≤ c.epochCryptoRcv + 1)
    (h2 : c.epochCryptoRcv ≤ e + 1) (rAddr : Nat) (fresh : Except String Prv) :
    ∃ l', l.decode P (dataHeader id ++ sealedBody P sn e b key (dataHeader id) data) rAddr fresh =
      some (l', .ok ⟨id, data, .data⟩) := by
  have hopen : decryptData P (dataHeader id ++ sealedBody P sn e b key (dataHeader id) data) (!b) c.epochCryptoRcv
      (some key) = _ := decryptData_sealed hP hk hd (by omega) h1 h2 id b
  have hlen : minPacketSize ≤ (dataHeader id ++ sealedBody P sn e b key (dataHeader id) data).length := by
    rw [List.length_append, dataHeader_length, sealedBody_length hP hk]
    exact Nat.add_le_add_left (Nat.add_le_add_right hd 22) 9
  generalize sealedBody P sn e b key (dataHeader id) data = body at hopen hlen ⊢
  have htype := msgTypeOf_dataHeader id body
  have hconn : connIdOf (dataHeader id ++ body) = id := by
    rw [connIdOf, dataHeader, List.append_assoc, ← List.append_assoc,
      field_append (by rfl) (by rw [putUint64_length]), putUint64, getLE_putLE]
    exact Nat.mod_eq_of_lt hid
  rw [Listener.decode_eq_dispatch P l hlen rfl (by decide), Listener.dispatch, htype, hconn]
  simp only [Listener.decodeDataMsg, hget, hs, hsec, hopen, Option.bind_eq_bind, Option.bind_some]
  exact ⟨_, rfl⟩

/-- Behind the handshake of the dialer both sides hold the secret, and read each other. -/
theorem Phase.agreed (hP : P.Correct) (hid : id = keyConnId P (P.publicKey a)) (h : Phase P id a s)
    (hget : (s.side true).connMap.get? id = some c) (hdone : c.isHandshakeDoneOnRcv = true) :
    s.SharesSecret id ∧ s.DataOpens P id := by
  cases h with
  | dialed c₀ hget₀ hdone₀ hkeyed hnone hsent hquiet =>
    cases hget₀.symm.trans hget
    rw [hdone₀] at hdone
    cases hdone
  | opened y key ha hkey hconn hsent =>
    have hlen := hP.ecdh_length _ _ _ (hkey true)
    have hsec : ∀ b c, (s.side b).connMap.get? id = some c →
        c.connId = id ∧ c.isSenderOnInit = b ∧ c.sharedSecret = some key := by
      intro b c' hc'
      obtain ⟨c₀, hget₀, hk⟩ := hconn b
      cases hget₀.symm.trans hc'
      refine ⟨hk.connId, hk.sender, hk.secret fun hb => ?_⟩
      subst hb
      cases hget.symm.trans hc'
      exact hdone
    refine ⟨⟨key, fun b => ?_⟩, fun b z hz ht hfit c' hc' h1 h2 rAddr fresh =>
      ⟨Listener.readFrom_of_fits hfit rAddr, ?_⟩⟩
    · obtain ⟨c', hc', _⟩ := hconn b
      obtain ⟨hcid, _, hs⟩ := hsec b c' hc'
      exact ⟨c', hc', hcid, hs⟩
    · obtain ⟨_, hsend, hs⟩ := hsec (!b) c' hc'
      obtain ⟨he, ⟨hm, _⟩ | ⟨sn, hd⟩⟩ := hsent b z hz
      · exact absurd ht hm
      · rw [hd]
        exact decode_sealedData hP (hid ▸ keyConnId_lt P _) hlen (encodePayload_length_ge _ _) he hc' hs hsend h1 h2
          rAddr fresh

/-- The two sides when the connection is dialed. -/
def start (d l : Listener Prv Pub) : Handshake Prv Pub where
  side b := if b then d else l

theorem phase_start {d₀ d l : Listener Prv Pub} {rAddr : Nat} {idKey : Option Pub} {withCrypto : Bool}
    (hdial : d₀.dialWith P rAddr idKey withCrypto (.ok a) = some (d, .ok c)) (hl : l.connMap.get? c.connId = none) :
    c.connId = keyConnId P (P.publicKey a) ∧ Phase P c.connId a (start d l) := by
  obtain ⟨n, hn, hnew⟩ := Option.bind_eq_some_iff.mp hdial
  have hbytes := uint64_bytes (P := P) (P.publicKey a) []
  rw [List.append_nil, hn] at hbytes
  obtain ⟨_, e, he⟩ | ⟨_, _, rfl, hc⟩ := Listener.newConn_cases P hnew
  · cases he
  cases hc
  refine ⟨Option.some.inj hbytes, .dialed _ ?_ rfl (fun key => ⟨rfl, rfl, rfl, (by decide : 0 < 2 ^ 47), ?_⟩) hl nofun rfl⟩
  · exact InsertionMap.get?_put_self _ _ _
  · intro h
    cases h rfl

/-- Whatever is lost, repeated, delayed or reordered on the way: when the dialer has finished
its handshake the listener holds the same connection with the same secret, and each side
reads the Data datagrams of the other. -/
theorem handshake_agrees (hP : P.Correct) (d₀ d l : Listener Prv Pub) (rAddr : Nat) (a : Prv) (c₀ : Conn Prv Pub)
    (hdial : d₀.dial P rAddr (.ok a) = some (d, .ok c₀) ∨
      ∃ idKey, d₀.dialWithCrypto P rAddr idKey (.ok a) = some (d, .ok c₀))
    (hl : l.connMap.get? c₀.connId = none) (ops : List (HandshakeOp Prv Pub)) (t : Handshake Prv Pub)
    (hrun : run (step P c₀.connId) (start d l) ops = some t) (c : Conn Prv Pub)
    (hget : (t.side true).connMap.get? c₀.connId = some c) (hdone : c.isHandshakeDoneOnRcv = true) :
    t.SharesSecret c₀.connId ∧ t.DataOpens P c₀.connId := by
  obtain ⟨hid, hphase⟩ : c₀.connId = keyConnId P (P.publicKey a) ∧ Phase P c₀.connId a (start d l) := by
    obtain hdial | ⟨idKey, hdial⟩ := hdial
    · exact phase_start hdial hl
    · exact phase_start hdial hl
  exact (run_inv (step_phase hP hid) hphase hrun).agreed hP hid hget hdone

section Session

/-- A dialer and a listener of the default mtu. -/
def sessionSide (prvKeyId : UInt8) (h : prvKeyId ≠ 0) : Listener { prv : UInt8 // prv ≠ 0 } UInt8 :=
  { prvKeyId := ⟨prvKeyId, h⟩, mtu := 1400 }

def sessionDialed : Conn { prv : UInt8 // prv ≠ 0 } UInt8 :=
  Listener.openedConn (getLE (List.replicate 8 3)) 0 ⟨3, by decide⟩ none none true false

/-- The request arrives twice, its answer after the first copy; then data is sent. -/
def sessionOps : List (HandshakeOp { prv : UInt8 // prv ≠ 0 } UInt8) :=
  [.call true (.write 0 [1, 2, 3] (.ok ())), .call true (.flush 0 1 (.ok ())), .receive false 0 0 (.ok ⟨5, by decide⟩) 2,
    .call false (.flush 0 3 (.ok ())), .receive false 0 0 (.ok ⟨7, by decide⟩) 4,
    .receive true 0 0 (.error "") 5, .call true (.flush 0 1000000000 (.ok ()))]

theorem session_agrees :
    ∃ d t c, (sessionSide 9 (by decide)).dial plainHonest 0 (.ok ⟨3, by decide⟩) = some (d, .ok sessionDialed) ∧
      run (step plainHonest sessionDialed.connId) (start d (sessionSide 11 (by decide))) sessionOps = some t ∧
      (t.side true).connMap.get? sessionDialed.connId = some c ∧ c.isHandshakeDoneOnRcv = true ∧
      (∃ x ∈ t.sent true, x.2.msgType = .data ∧ (x.2.encData.length : Int) ≤ (t.side false).mtu) ∧
      t.SharesSecret sessionDialed.connId ∧ t.DataOpens plainHonest sessionDialed.connId := by
  have hend : ∃ t ∈ run (step plainHonest sessionDialed.connId)
        (start ((sessionSide 9 (by decide)).setConn sessionDialed.connId sessionDialed) (sessionSide 11 (by decide)))
        sessionOps,
      (∃ c ∈ (t.side true).connMap.get? sessionDialed.connId, c.isHandshakeDoneOnRcv = true) ∧
      ∃ x ∈ t.sent true, x.2.msgType = .data ∧ (x.2.encData.length : Int) ≤ (t.side false).mtu := by decide +kernel
  obtain ⟨t, ht, ⟨c, hc, hdone⟩, hdata⟩ := hend
  have hdial : (sessionSide 9 (by decide)).dial plainHonest 0 (.ok ⟨3, by decide⟩) =
      some ((sessionSide 9 (by decide)).setConn sessionDialed.connId sessionDialed, .ok sessionDialed) := rfl
  exact ⟨_, t, c, hdial, ht, hc, hdone, hdata, handshake_agrees plainHonest_correct _ _ _ 0 _ _ (.inl hdial) rfl
    sessionOps t ht c hc hdone⟩

/-- The dialer has a larger mtu than its listener. -/
def wideDialer : Listener { prv : UInt8 // prv ≠ 0 } UInt8 := { sessionSide 71 (by decide) with mtu := 1500 }

/-- The request arrives cut and is accepted, its answer ends the handshake, and the dialer writes
a Data datagram of its own mtu. -/
def wideOps : List (HandshakeOp { prv : UInt8 // prv ≠ 0 } UInt8) :=
  [.call true (.write 0 (List.replicate 1450 7) (.ok ())), .call true (.flush 0 1 (.ok ())),
    .receive false 0 0 (.ok ⟨5, by decide⟩) 2, .call false (.flush 0 3 (.ok ())), .receive true 0 0 (.error "") 4,
    .call true (.flush 0 1000000000 (.ok ()))]

/-- The listener reads 1400 bytes of it, which do not open. -/
theorem cut_data_refused :
    ∃ d t, wideDialer.dial plainHonest 0 (.ok ⟨3, by decide⟩) = some (d, .ok sessionDialed) ∧
      run (step plainHonest sessionDialed.connId) (start d (sessionSide 11 (by decide))) wideOps = some t ∧
      (∃ c ∈ (t.side true).connMap.get? sessionDialed.connId, c.isHandshakeDoneOnRcv = true) ∧
      ∃ x ∈ t.sent true, x.2.msgType = .data ∧
        (∃ c ∈ (t.side false).connMap.get? sessionDialed.connId, c.epochCryptoRcv = x.1) ∧
        ∃ r ∈ (t.side false).listen plainHonest ((t.side false).readFrom x.2.encData 0) (.error "") 1000000001,
          r.2.toOption = none := by
  have hend : ∃ t ∈ run (step plainHonest sessionDialed.connId)
        (start (wideDialer.setConn sessionDialed.connId sessionDialed) (sessionSide 11 (by decide))) wideOps,
      (∃ c ∈ (t.side true).connMap.get? sessionDialed.connId, c.isHandshakeDoneOnRcv = true) ∧
      ∃ x ∈ t.sent true, x.2.msgType = .data ∧
        (∃ c ∈ (t.side false).connMap.get? sessionDialed.connId, c.epochCryptoRcv = x.1) ∧
        ∃ r ∈ (t.side false).listen plainHonest ((t.side false).readFrom x.2.encData 0) (.error "") 1000000001,
          r.2.toOption = none := by decide +kernel
  obtain ⟨t, ht, hcut⟩ := hend
  exact ⟨_, t, rfl, ht, hcut⟩

end Session

end Handshake

end Qotp
