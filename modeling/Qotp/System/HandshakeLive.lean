import Qotp.System.NeverCut
import Qotp.System.NeverPanics

namespace Qotp

open Framework

variable {Prv Pub : Type} {P : Primitives Prv Pub}

namespace Listener

variable {l l' l₁ : Listener Prv Pub} {d : Bytes} {rAddr now n id : Nat} {fresh : Except String Prv} {c : Conn Prv Pub}
  {dec : Decoded} {r : Except String (Option (Nat × Nat))}

/-- What is left behind a decoded datagram: the read time, and of a payload that parses what the
connection made of it, with the mark. -/
theorem deliver_spec (hget : l.connMap.get? dec.connId = some c) (h : l.deliver dec n now = some (l', r)) :
    ∃ c₁ res, c.SameBuffers c₁ ∧ Conn.SameCrypto c c₁ ∧ payloadOf dec = some res ∧
      ((∃ e, res = .error e ∧ l' = l.setConn dec.connId c₁) ∨ ∃ p u c₂, res = .ok (p, u) ∧
        c₁.decode p u n now = some c₂ ∧ l' = l.setConn dec.connId (markHandshake c₂ dec.msgType)) := by
  obtain ⟨c₀, hc₀, h⟩ := Option.bind_eq_some_iff.mp h
  obtain ⟨res, hpay, h⟩ := Option.bind_eq_some_iff.mp h
  cases hc₀.symm.trans hget
  generalize hc₁ : (if now > c.measurements.lastReadTimeNano then _ else c) = c₁ at h
  refine ⟨c₁, res, ?_, ?_, hpay, ?_⟩
  · rw [← hc₁]
    split_ifs <;> exact ⟨rfl, rfl, rfl, rfl⟩
  · rw [← hc₁]
    split_ifs
    · exact ⟨_, _, _, _, _, _, _, rfl⟩
    · exact Conn.SameCrypto.refl c
  · rcases res with e | ⟨p, u⟩
    · cases h
      exact .inl ⟨e, rfl, rfl⟩
    · obtain ⟨c₂, hd, h⟩ := Option.bind_eq_some_iff.mp h
      cases h
      exact .inr ⟨p, u, c₂, rfl, hd, rfl⟩

theorem decode_sameCrypto {c c' : Conn Prv Pub} {p : PayloadHeader} {u : Option Bytes}
    (h : c.decode p u n now = some c') : Conn.SameCrypto c c' := by
  obtain ⟨streams, snd, rcv, inFlight, wnd, m, rfl⟩ := Conn.decode_frame h
  exact ⟨_, _, _, _, _, _, _, rfl⟩

/-- An accepted datagram with a payload that parses reaches the connection. -/
theorem listen_ok {p : PayloadHeader} {u : Option Bytes} (hid : connIdOf d = id)
    (hdec : l.decode P d rAddr fresh = some (l₁, .ok dec)) (hpay : payloadOf dec = some (.ok (p, u)))
    (h : l.listen P (.datagram d rAddr) fresh now = some (l', r)) :
    ∃ c₀ c₁ c₂, l₁.connMap.get? id = some c₀ ∧ l.HasBuffersOf id c₁ ∧ Conn.SameCrypto c₀ c₂ ∧
      c₁.decode p u d.length now = some c₂ ∧ l'.connMap.get? id = some (markHandshake c₂ (msgTypeOf d)) := by
  subst hid
  have hlen : d.length ≠ 0 := by
    intro h0
    have hshort : d.length < minPacketSize := by
      rw [h0]
      decide
    rw [decode, if_pos hshort] at hdec
    cases hdec
  obtain ⟨c₀, hc₀⟩ := decode_ok_get hdec
  obtain ⟨hcid, hty⟩ := (decode_effect P hdec).result dec rfl
  unfold listen at h
  dsimp only at h
  rw [if_neg hlen, hdec] at h
  obtain ⟨c₁, res, hsame, hcrypto, hres, hcase⟩ := deliver_spec (hcid ▸ hc₀) h
  cases hpay.symm.trans hres
  obtain ⟨e, he, _⟩ | ⟨p', u', c₂, he, hd, rfl⟩ := hcase
  · cases he
  cases he
  refine ⟨c₀, c₁, c₂, hc₀, ((decode_holds hdec).1 c₀ hc₀).sameBuffers hsame, hcrypto.trans (decode_sameCrypto hd), hd, ?_⟩
  rw [hcid, hty, get?_setConn, if_pos rfl]

/-- Only Data ends the handshake of a listener. -/
theorem listen_undone (hid : connIdOf d = id) (ht : msgTypeOf d ≠ .data)
    (hold : ∀ c, l.connMap.get? id = some c → c.isHandshakeDoneOnRcv = false ∧ c.isSenderOnInit = false)
    (h : l.listen P (.datagram d rAddr) fresh now = some (l', r)) :
    ∀ c, l'.connMap.get? id = some c → c.isHandshakeDoneOnRcv = false := by
  subst hid
  unfold listen at h
  dsimp only at h
  split_ifs at h
  · cases h
    exact fun c hc => (hold c hc).1
  obtain ⟨⟨l₁, res⟩, hdec, h⟩ := Option.bind_eq_some_iff.mp h
  have hkeep := decode_keeps (K := fun c => c.isHandshakeDoneOnRcv = false ∧ c.isSenderOnInit = false) hold
    (fun c c' hu hc => by cases hu <;> exact hc) (fun z idKey ep w secret => ⟨rfl, rfl⟩) hdec
  rcases res with e | dec
  · cases h
    exact fun c hc => (hkeep c hc).1
  obtain ⟨c₀, hc₀⟩ := decode_ok_get hdec
  obtain ⟨hcid, hty⟩ := (decode_effect P hdec).result dec rfl
  obtain ⟨hdone, hsender⟩ := hkeep c₀ hc₀
  obtain ⟨c₁, res, _, hcrypto, _, ⟨_, _, rfl⟩ | ⟨p, u, c₂, _, hd, rfl⟩⟩ := deliver_spec (hcid ▸ hc₀) h
  · intro c hc
    rw [hcid, get?_setConn, if_pos rfl] at hc
    cases hc
    obtain ⟨_, _, _, _, _, _, _, rfl⟩ := hcrypto
    exact hdone
  · intro c hc
    rw [hcid, get?_setConn, if_pos rfl] at hc
    cases hc
    obtain ⟨_, _, _, _, _, _, _, rfl⟩ := hcrypto.trans (decode_sameCrypto hd)
    rw [hty, markHandshake, if_neg (by simp [hdone]), if_neg (by simp [hsender]), if_neg ht]
    exact hdone

end Listener

/-- What the listener reads of a request that carries no ack. -/
theorem SessionMsg.bare_payload {id : Nat} {a idRcv : Prv} {mtu : Int} {o : Conn.Outgoing} (hmtu : 0 ≤ mtu)
    (h : SessionMsg P id a idRcv mtu true o) (hm : o.msgType ≠ .data) (hack : o.header.ack = none) :
    ∃ p w, o.payload = some (.ok (p, some w)) ∧ p.ack = none ∧ (w.length : Int) ≤ mtu := by
  unfold Conn.Outgoing.payload
  cases h with
  | initSnd idSnd hm _ _ => exact ⟨{}, [], if_pos hm, rfl, hmtu⟩
  | initCryptoSnd idSnd key sn hm _ hfit _ =>
    have hlen : (o.userData.getD []).length ≤ (encodePayload o.header o.userData).1.length := by
      cases o.userData with
      | none => exact Nat.zero_le _
      | some d =>
        rw [encodePayload_length]
        exact Nat.le_add_left _ _
    have hne : o.msgType ≠ .initSnd := by simp [hm]
    have hbare : ackOnly o.header o.userData = false := by simp [ackOnly, hack]
    refine ⟨⟨o.header.isClose, none, o.header.streamID % 2 ^ 32, o.header.streamOffset % 2 ^ 48⟩, o.userData.getD [], ?_, rfl,
      by omega⟩
    rw [if_neg hne, decodePayload_encodePayload, wireImage, hbare, hack]
    rfl
  | data hm' => exact absurd hm' hm

namespace Handshake

variable {id : Nat} {a : Prv} {cfg : Bool → ListenerCfg Prv} {s t : Handshake Prv Pub}

/-- Whichever reply arrives first, the dialer is done with it. -/
theorem Trusted.reply_finishes (hP : P.Correct) (hid : id < 2 ^ 64) (hmtu : (cfg true).mtu ≤ 65507) (h : Trusted P id a cfg s)
    {i rAddr now : Nat} {fresh : Except String Prv} {x : Nat × Conn.Outgoing} (hx : (s.sent false)[i]? = some x)
    (hm : x.2.msgType ≠ .data) (hread : (s.side true).readFrom x.2.encData rAddr = .datagram x.2.encData rAddr)
    (hs : s.step P id (.receive true i rAddr fresh now) = some t) :
    ∃ c, (t.side true).connMap.get? id = some c ∧ c.isHandshakeDoneOnRcv = true := by
  obtain ⟨z, hz, hs⟩ := Option.bind_eq_some_iff.mp hs
  obtain ⟨⟨l', r⟩, hl, rfl⟩ := Option.map_eq_some_iff.mp hs
  cases hz.symm.trans hx
  rw [hread] at hl
  have hmem : x ∈ s.sent (!true) := List.mem_of_getElem? hx
  obtain ⟨c, hget⟩ := h.phase.dialer
  have hspeaks := h.speaks true c hget
  have hmsg := h.sent false x hmem
  have hcid := h.phase.connIdOf_sent hid hmem
  obtain ⟨l₁, dec, hdec⟩ := hmsg.opens_reply hP hm hcid hget (hspeaks.dialer rfl).1 rAddr fresh
  obtain ⟨p, u, hpay⟩ := payload_ok x.2
  obtain ⟨c₀, c₁, c₂, hc₀, _, hcrypto, _, hget'⟩ :=
    Listener.listen_ok hcid hdec ((h.payload hP hid hmtu hmem hdec).trans hpay) hl
  refine ⟨_, by rw [get?_update, if_pos rfl]; exact hget', ?_⟩
  have hsender : c₂.isSenderOnInit = true := by
    have h₀ : c₀.isSenderOnInit = true := by
      obtain ⟨c', hc', rfl | ⟨_, hu⟩⟩ := (Listener.decode_effect P hdec).conn hget
      · cases hc₀.symm.trans hc'
        exact hspeaks.sender
      · cases hc₀.symm.trans hc'
        exact hu.rest.sender.trans hspeaks.sender
    obtain ⟨_, _, _, _, _, _, _, rfl⟩ := hcrypto
    exact h₀
  have htype : msgTypeOf x.2.encData = .initRcv ∨ msgTypeOf x.2.encData = .initCryptoRcv := by
    rw [hmsg.msgType_eq]
    cases hmsg with
    | initRcv z key sn hm' _ _ => exact .inl hm'
    | initCryptoRcv z key sn hm' _ _ => exact .inr hm'
    | data hm' _ => exact absurd hm' hm
  unfold Listener.markHandshake
  split_ifs with hdone
  · exact hdone
  · rfl

theorem Phase.named (h : Phase P id a s) (hid : id = keyConnId P (P.publicKey a)) {b : Bool} {c : Conn Prv Pub}
    (hget : (s.side b).connMap.get? id = some c) : c.Named P := by
  cases h with
  | dialed c₀ hget₀ hdone hkeyed hnone hsent hquiet =>
    cases b with
    | true =>
      cases hget₀.symm.trans hget
      exact (hkeyed []).named hid fun _ => rfl
    | false => cases hnone.symm.trans hget
  | opened y key ha hkey hconn hsent =>
    obtain ⟨c', hc', hk⟩ := hconn b
    cases hc'.symm.trans hget
    exact hk.named hid fun hb => by rw [hb, ha]

/-- A request that arrives leaves an ack to write, on a connection that can write it. -/
theorem Trusted.request_pending (hP : P.Correct) (hid : id < 2 ^ 64) (hmtu : 119 ≤ (cfg true).mtu ∧ (cfg true).mtu ≤ 65507)
    (hle : (cfg false).mtu ≤ (cfg true).mtu) (h : Trusted P id a cfg s) {i rAddr now k : Nat} {z : Prv}
    {x : Nat × Conn.Outgoing} (hx : (s.sent true)[i]? = some x) (hm : x.2.msgType ≠ .data) (hack : x.2.header.ack = none)
    (hans : ∀ c, (s.side false).connMap.get? id = some c → c.CanAnswer k (cfg true).mtu)
    (hread : (s.side false).readFrom x.2.encData rAddr = .datagram x.2.encData rAddr)
    (hs : s.step P id (.receive false i rAddr (.ok z) now) = some t) :
    ∃ c, (t.side false).connMap.get? id = some c ∧ c.SnLeft ∧ c.rcv.ackList ≠ [] ∧
      (c.snd.stream k).dataInFlightMap.first = none ∧ (c.snd.stream k).bytesSentOffset < 2 ^ 48 := by
  obtain ⟨x', hx', hs⟩ := Option.bind_eq_some_iff.mp hs
  obtain ⟨⟨l', r⟩, hl, rfl⟩ := Option.map_eq_some_iff.mp hs
  cases hx'.symm.trans hx
  rw [hread] at hl
  have hmem : x ∈ s.sent (!false) := List.mem_of_getElem? hx
  have hmsg := h.sent true x hmem
  have hcid := h.phase.connIdOf_sent hid hmem
  have hlmtu : (s.side false).mtu = (cfg false).mtu := congrArg ListenerCfg.mtu (h.settings false)
  obtain ⟨l₁, dec, hdec⟩ := hmsg.opens_request hP hmtu hm (hlmtu.trans_le hle)
    (congrArg ListenerCfg.prvKeyId (h.settings false)) rAddr z
  obtain ⟨p, w, hpay, hpack, hw⟩ := hmsg.bare_payload (by omega) hm hack
  obtain ⟨c₀, c₁, c₂, hc₀, hheld, hcrypto, hd, hget⟩ :=
    Listener.listen_ok hcid hdec ((h.payload hP hid hmtu.2 hmem hdec).trans hpay) hl
  have hsn : c₀.SnLeft := by
    have hkeep := Listener.decode_keeps (K := Conn.SnLeft) (fun c hc => (hans c (hcid ▸ hc)).1)
      (fun c c' hu hc => by cases hu <;> exact hc) 
      (fun z idKey ep w secret => .inl (show add64 0 1 ≤ 2 ^ 48 - 1 by decide)) hdec
    exact hkeep c₀ (hcid.symm ▸ hc₀)
  -- the buffers are those of a connection that can answer, or new
  have hbuf : c₁.rcv.size + (cfg true).mtu ≤ c₁.rcv.capacity ∧ (c₁.snd.stream k).dataInFlightMap.first = none ∧
      (c₁.snd.stream k).bytesSentOffset < 2 ^ 48 := by
    cases hg : (s.side false).connMap.get? id with
    | some c =>
      obtain ⟨_, hroom, hidle, hoff⟩ := hans c hg
      rw [(hheld.1 c hg).rcv, (hheld.1 c hg).snd]
      exact ⟨hroom, Option.isNone_iff_eq_none.mp hidle, hoff⟩
    | none =>
      have hf := hheld.2 hg
      rw [hf.rcv, hf.snd]
      refine ⟨?_, rfl, show 0 < 2 ^ 48 by decide⟩
      change (0 : Int) + (cfg true).mtu ≤ 16777216
      omega
  obtain ⟨hpend, hsnd⟩ := Conn.decode_pending hpack (by omega) hd
  have hsame := Listener.markHandshake_sameBuffers c₂ (msgTypeOf x.2.encData)
  refine ⟨_, by rw [get?_update, if_pos rfl]; exact hget, ?_, ?_, ?_⟩
  · have hsn₂ : c₂.SnLeft := by
      obtain ⟨_, _, _, _, _, _, _, rfl⟩ := hcrypto
      exact hsn
    unfold Listener.markHandshake
    split_ifs <;> exact hsn₂
  · rw [hsame.rcv]
    exact hpend
  · rw [hsame.snd, (hsnd k).1, (hsnd k).2]
    exact hbuf.2

/-- A listener that is not done can seal its reply. -/
theorem Trusted.replies (hP : P.Correct) (h : Trusted P id a cfg s) {c : Conn Prv Pub}
    (hget : (s.side false).connMap.get? id = some c) (hdone : c.isHandshakeDoneOnRcv = false) (hsn : c.SnLeft) :
    c.Replies P := by
  have hspeaks := h.speaks false c hget
  obtain ⟨key, hkey, _⟩ := hP.ecdh_agree c.prvKeyEpSnd a
  have hkeys : ∃ ep key, c.pubKeyEpRcv = some ep ∧ P.ecdh c.prvKeyEpSnd ep = .ok key :=
    ⟨_, key, hspeaks.listener rfl, hkey⟩
  cases hw : c.isWithCryptoOnInit with
  | true =>
    have hm : c.msgType = .initCryptoRcv := by simp [Conn.msgType, hdone, hspeaks.sender, hw]
    exact ⟨.inr hm, by rw [hm]; exact hkeys, hsn⟩
  | false =>
    have hm : c.msgType = .initRcv := by simp [Conn.msgType, hdone, hspeaks.sender, hw]
    exact ⟨.inl hm, by rw [hm]; exact hkeys, hsn⟩

end Handshake

namespace Session

variable {id : Nat} {a : Prv} {cfg : Bool → ListenerCfg Prv} {s t : Session Prv Pub}

/-- Until the dialer `c` has a reply: only handshake messages are on their way, the listener is not
done either, and the dialer has nothing to acknowledge. -/
structure NoReplyYet (id : Nat) (s : Session Prv Pub) (c : Conn Prv Pub) : Prop where
  hello : ∀ b, ∀ x ∈ s.sent b, x.2.msgType ≠ .data
  listener : ∀ c', (s.side false).connMap.get? id = some c' → c'.isHandshakeDoneOnRcv = false
  acks : c.rcv.ackList = []
  bare : ∀ x ∈ s.sent true, x.2.header.ack = none

def AwaitsReply (id : Nat) (s : Session Prv Pub) : Prop :=
  ∀ c, (s.side true).connMap.get? id = some c → c.isHandshakeDoneOnRcv = false → s.NoReplyYet id c

/-- A call of a dialer that waits for its reply carries no ack. -/
theorem NoReplyYet.bare_call {ch : Channel Prv Pub} (hfit : ∀ b, 119 ≤ (cfg b).mtu ∧ (cfg b).mtu ≤ 65535)
    (hlink : Mirrors P id a cfg s ch) (hinv : ch.Inv) {c c' : Conn Prv Pub} (h : s.NoReplyYet id c)
    (hget : (s.side true).connMap.get? id = some c) {op : ConnOp Prv Pub} (hok : s.Fits id (.call true op))
    (hs : s.step P id (.call true op) = some t) (hget' : (t.side true).connMap.get? id = some c') :
    c'.rcv.ackList = [] ∧ ∀ x ∈ t.sent true, x.2.header.ack = none := by
  have hcall := step_called hs
  obtain ⟨e', he', hm⟩ := hcall.endpoint _ (hlink.models true)
  rw [hlink.trusted.settings true] at he'
  have hconn := (hlink.models true).conn c hget
  have hacks : (ch.side true).conn.rcv.ackList = [] := by rw [hconn]; exact h.acks
  obtain ⟨hq, hsent⟩ := Endpoint.step_acks (hfit true) (hinv.side true) (hlink.fits_call hok).offsetsFit hcall.not_decode he'
  refine ⟨?_, fun x hx => ?_⟩
  · rw [← hm.conn c' hget', List.eq_nil_iff_forall_not_mem]
    intro y hy
    exact absurd (hq y hy) (by rw [hacks]; exact List.not_mem_nil)
  · have hmem : x.2 ∈ e'.sent := by
      rw [hm.sent]
      exact List.mem_map_of_mem hx
    obtain hold | hnew := hsent x.2 hmem
    · rw [(hlink.models true).sent] at hold
      obtain ⟨y, hy, hyx⟩ := List.mem_map.mp hold
      rw [← hyx]
      exact h.bare y hy
    · rw [Option.eq_none_iff_forall_ne_some]
      intro y hy
      obtain ⟨a₀, ha₀, _⟩ := hnew y hy
      rw [hacks] at ha₀
      cases ha₀

section Step

variable (hP : P.Correct) (hid : id = keyConnId P (P.publicKey a)) (hmtu : (cfg true).mtu ≤ 65507)
  (hfit : ∀ b, 119 ≤ (cfg b).mtu ∧ (cfg b).mtu ≤ 65535)

include hP hid hfit in
theorem AwaitsReply.call (h : s.AwaitsReply id) (hord : Intact P id a cfg s) {b : Bool} {op : ConnOp Prv Pub}
    (hok : s.Fits id (.call b op)) (hs : s.step P id (.call b op) = some t) : t.AwaitsReply id := by
  obtain ⟨ch, hlink, hcons, _⟩ := hord
  obtain ⟨c, c', out, hcalled⟩ := Handshake.step_call (step_called hs).handshake
  have hemits := hcalled.emits hP (hlink.trusted.phase.named hid hcalled.get)
  intro c₁ hget₁ hdone₁
  -- the dialer before the call, and whether it was called
  obtain ⟨c₀, hget₀, hdone₀⟩ : ∃ c₀, (s.side true).connMap.get? id = some c₀ ∧ c₀.isHandshakeDoneOnRcv = false := by
    have hget := hget₁
    rw [hcalled.get' true] at hget
    split_ifs at hget with hb
    · cases hget
      exact ⟨c, hb ▸ hcalled.get, hcalled.done.symm.trans hdone₁⟩
    · exact ⟨c₁, hget, hdone₁⟩
  have hu := h c₀ hget₀ hdone₀
  have hcdone : c.isHandshakeDoneOnRcv = false := by
    cases b with
    | true =>
      cases hcalled.get.symm.trans hget₀
      exact hdone₀
    | false => exact hu.listener c hcalled.get
  have hbare : c₁.rcv.ackList = [] ∧ ∀ x ∈ t.sent true, x.2.header.ack = none := by
    cases b with
    | true => exact hu.bare_call hfit hlink hcons.base hget₀ hok hs hget₁
    | false =>
      rw [hcalled.get' true, if_neg (show ¬ true = false by decide), hget₀] at hget₁
      cases hget₁
      refine ⟨hu.acks, fun x hx => ?_⟩
      obtain hx | ⟨hd, _⟩ := hcalled.mem_sent hx
      · exact hu.bare x hx
      · cases hd
  refine ⟨fun d x hx => ?_, fun c₂ hc₂ => ?_, hbare.1, hbare.2⟩
  · obtain hx | ⟨_, o, ho, rfl⟩ := hcalled.mem_sent hx
    · exact hu.hello d x hx
    · obtain ⟨_, hne, _⟩ | ⟨hd, _⟩ := hemits o ho
      · exact hne
      · rw [hcdone] at hd
        cases hd
  · rw [hcalled.get' false] at hc₂
    split_ifs at hc₂ with hb
    · cases hc₂
      exact hcalled.done.trans hcdone
    · exact hu.listener c₂ hc₂

include hP hid hmtu in
theorem AwaitsReply.receive (h : s.AwaitsReply id) (hord : Intact P id a cfg s) {b : Bool} {i rAddr now : Nat}
    {fresh : Except String Prv} (hok : s.Fits id (.receive b i rAddr fresh now))
    (hs : s.step P id (.receive b i rAddr fresh now) = some t) : t.AwaitsReply id := by
  obtain ⟨ch, hlink, _⟩ := hord
  have htrust := hlink.trusted
  have hlt : id < 2 ^ 64 := hid ▸ keyConnId_lt P _
  obtain ⟨h', hstep, rfl⟩ := Option.map_eq_some_iff.mp hs
  intro c₁ hget₁ hdone₁
  cases b with
  | true =>
    -- the first reply ends the waiting
    exfalso
    obtain ⟨c₀, hget₀⟩ := htrust.phase.dialer
    obtain ⟨x, hx, hl⟩ := Option.bind_eq_some_iff.mp hstep
    have hdone₀ : c₀.isHandshakeDoneOnRcv = false := by
      obtain ⟨⟨l', r⟩, hlisten, rfl⟩ := Option.map_eq_some_iff.mp hl
      obtain ⟨c₂, c₃, c₄, hcase, ⟨_, _, _, _, _, _, _, rfl⟩, hg', hmark⟩ := Listener.listen_known hget₀ hlisten
      rw [Handshake.get?_update, if_pos rfl] at hget₁
      cases hg'.symm.trans hget₁
      have h₂ : c₂.isHandshakeDoneOnRcv = c₀.isHandshakeDoneOnRcv := by
        obtain rfl | ⟨_, hu⟩ := hcase
        · rfl
        · cases hu <;> rfl
      obtain rfl | ⟨_, _, rfl, _⟩ := hmark
      · exact h₂.symm.trans hdone₁
      · cases hdone₁
    have hm := (h c₀ hget₀ hdone₀).hello false x (List.mem_of_getElem? hx)
    obtain ⟨c, hc, hd⟩ := htrust.reply_finishes hP hlt hmtu hx hm (hok.readFrom hx) hstep
    cases hc.symm.trans hget₁
    rw [hdone₁] at hd
    cases hd
  | false =>
    obtain ⟨x, hx, hl⟩ := Option.bind_eq_some_iff.mp hstep
    obtain ⟨⟨l', r⟩, hlisten, rfl⟩ := Option.map_eq_some_iff.mp hl
    rw [hok.readFrom hx] at hlisten
    have hmem : x ∈ s.sent (!false) := List.mem_of_getElem? hx
    rw [Handshake.get?_update, if_neg (show ¬ true = false by decide)] at hget₁
    have hu := h c₁ hget₁ hdone₁
    have ht : msgTypeOf x.2.encData ≠ .data := by
      rw [(htrust.sent true x hmem).msgType_eq]
      exact hu.hello true x hmem
    refine ⟨hu.hello, fun c hc => ?_, hu.acks, hu.bare⟩
    rw [Handshake.get?_update, if_pos rfl] at hc
    refine Listener.listen_undone (htrust.phase.connIdOf_sent hlt hmem) ht (fun c₂ hc₂ => ⟨hu.listener c₂ hc₂, ?_⟩) hlisten c hc
    exact (htrust.speaks false c₂ hc₂).sender

include hP hid hmtu hfit in
theorem AwaitsReply.step (h : s.AwaitsReply id) (hord : Intact P id a cfg s) {op : HandshakeOp Prv Pub}
    (hok : s.Fits id op) (hs : s.step P id op = some t) : t.AwaitsReply id := by
  cases op with
  | call b op => exact h.call hP hid hfit hord hok hs
  | receive b i rAddr fresh now => exact h.receive hP hid hmtu hord hok hs
  | others b connMap =>
    cases hs
    have hget : ∀ d, (Function.update s.side b ((s.side b).withOthers id connMap) d).connMap.get? id =
        (s.side d).connMap.get? id := by
      intro d
      rw [Handshake.get?_update]
      split_ifs with hd
      · rw [hd, Handshake.get?_withOthers]
      · rfl
    intro c hc hdone
    have hu := h c ((hget true).symm.trans hc) hdone
    exact ⟨hu.hello, fun c' hc' => hu.listener c' ((hget false).symm.trans hc'), hu.acks, hu.bare⟩

end Step

/-- The listener has a request to acknowledge, and stream `k` is free for the reply. -/
structure OwesReply (id k : Nat) (s : Session Prv Pub) (c : Conn Prv Pub) : Prop where
  get : (s.side false).connMap.get? id = some c
  handshaking : c.isHandshakeDoneOnRcv = false
  snLeft : c.SnLeft
  ack : c.rcv.ackList ≠ []
  idle : (c.snd.stream k).dataInFlightMap.first = none
  offset : (c.snd.stream k).bytesSentOffset < 2 ^ 48

/-- The listener writes its reply. -/
theorem OwesReply.written (hP : P.Correct) (h : Handshake.Trusted P id a cfg s.toHandshake) {c : Conn Prv Pub}
    {k now : Nat} (howes : s.OwesReply id k c) (hnow : c.nextWriteTime ≤ now) :
    ∃ t o, s.step P id (.call false (.flush k now (.ok ()))) = some t ∧ t.sent false = s.sent false ++ [(c.epochCryptoSnd, o)] ∧
      o.msgType ≠ .data ∧ o.header.streamID = k ∧ t.accepted = s.accepted := by
  have hrep := h.replies hP howes.get howes.handshaking howes.snLeft
  obtain ⟨c', o, r, hf, hm, hstream⟩ := Conn.flush_replies (l := (s.side false).cfg) hP hrep hnow howes.ack howes.idle
  have hne : o.msgType ≠ .data := by
    rw [hm]
    obtain ht | ht := hrep.type <;> simp [ht]
  refine ⟨_, o, by
    simp only [step, ConnOp.isLocal, if_true, call, howes.get, Option.bind_some, Endpoint.step, hf, Option.map_some]
    rfl, ?_, hne, hstream, ?_⟩
  · simp
  · exact Function.update_eq_self _ _

/-- A packet names its stream, unless it is a bare ack. -/
theorem stream_of_payload {o : Conn.Outgoing} {k : Nat} (hk : k < 2 ^ 32) (ho : o.header.streamID = k)
    {q : PayloadHeader × Option Bytes} (hq : o.payload.bind Except.toOption = some q) :
    q.1.streamID = 0 ∨ q.1.streamID = k := by
  unfold Conn.Outgoing.payload at hq
  split_ifs at hq
  · cases hq
    exact .inl rfl
  · rw [decodePayload_encodePayload, wireImage] at hq
    split_ifs at hq
    · cases hq
      exact .inl rfl
    · cases hq
      refine .inr ?_
      dsimp only
      rw [ho, Nat.mod_eq_of_lt hk]

/-- A step that is taken was one that exists. -/
theorem enabled_of_step {op : HandshakeOp Prv Pub} (hs : s.step P id op = some t) : s.Enabled id op := by
  cases op with
  | call b op =>
    have hcall := step_called hs
    obtain ⟨c, c', out, hcalled⟩ := Handshake.step_call hcall.handshake
    exact ⟨hcall.isLocal, by rw [hcalled.get]; rfl⟩
  | receive b i rAddr fresh now =>
    obtain ⟨h', hstep, _⟩ := Option.map_eq_some_iff.mp hs
    obtain ⟨x, hx, _⟩ := Option.bind_eq_some_iff.mp hstep
    exact (List.getElem?_eq_some_iff.mp hx).1
  | others b connMap => trivial

/-- The first request arrives, the listener writes, and what it wrote arrives. -/
def lastSteps (s : Session Prv Pub) (k : Nat) (z : Prv) (rAddr now₁ now₂ now₃ : Nat) : List (HandshakeOp Prv Pub) :=
  [.receive false 0 rAddr (.ok z) now₁, .call false (.flush k now₂ (.ok ())),
    .receive true (s.sent false).length rAddr (.ok z) now₃]

section Run

variable (hP : P.Correct) (hid : id = keyConnId P (P.publicKey a)) (hmtu : (cfg true).mtu ≤ 65507)
  (hfit : ∀ b, 119 ≤ (cfg b).mtu ∧ (cfg b).mtu ≤ 65535)

include hP hid hmtu hfit

theorem Alive.step_waits (s : Session Prv Pub) (op : HandshakeOp Prv Pub) (t : Session Prv Pub)
    (h : Alive P id a cfg s ∧ s.AwaitsReply id) (hok : s.Fits id op ∧ s.Unsplit id op) (hs : s.step P id op = some t) :
    Alive P id a cfg t ∧ t.AwaitsReply id := by
  obtain ⟨t', ht', halive⟩ := h.1.step hP hid hmtu hfit s op ⟨hok, enabled_of_step hs⟩
  cases hs.symm.trans ht'
  exact ⟨halive, h.2.step hP hid hmtu hfit h.1.intact hok.1 hs⟩

theorem Alive.step_roomy (s : Session Prv Pub) (op : HandshakeOp Prv Pub) (t : Session Prv Pub)
    (h : (Alive P id a cfg s ∧ s.AwaitsReply id) ∧ s.Roomy cfg) (hok : s.Fits id op ∧ s.Unsplit id op)
    (hs : s.step P id op = some t) : (Alive P id a cfg t ∧ t.AwaitsReply id) ∧ t.Roomy cfg := by
  obtain ⟨ch, hlink, hcons, _⟩ := h.1.1.intact
  exact ⟨Alive.step_waits hP hid hmtu hfit s op t h.1 hok hs, h.2.step hfit hlink hcons.base hok.1 hs⟩

/-- A request arrives at a listener that can answer it. -/
theorem Alive.request_arrives (heq : ∀ b, (cfg (!b)).mtu = (cfg b).mtu) (h : Alive P id a cfg s) (hroom : s.Roomy cfg)
    (hw : s.AwaitsReply id) (hsent : s.sent true ≠ []) {k : Nat} (z : Prv)
    (hans : ∀ c, (s.side false).connMap.get? id = some c → c.CanAnswer k (cfg true).mtu) {c : Conn Prv Pub}
    (hget : (s.side true).connMap.get? id = some c) (hdone : c.isHandshakeDoneOnRcv = false) (rAddr now : Nat)
    (hunsplit : s.Unsplit id (.receive false 0 rAddr (.ok z) now)) :
    s.Fits id (.receive false 0 rAddr (.ok z) now) ∧
    ∃ t, s.step P id (.receive false 0 rAddr (.ok z) now) = some t ∧ Alive P id a cfg t ∧ t.Roomy cfg ∧
      (∃ c', t.OwesReply id k c') ∧ t.sent = s.sent ∧ t.accepted = s.accepted := by
  have hlt : id < 2 ^ 64 := hid ▸ keyConnId_lt P _
  have hu := hw c hget hdone
  obtain ⟨x, hx⟩ : ∃ x, (s.sent true)[0]? = some x :=
    ⟨_, List.getElem?_eq_getElem (List.length_pos_iff.mpr hsent)⟩
  have hmem := List.mem_of_getElem? hx
  obtain ⟨ch, hlink, hcons, _⟩ := h.intact
  have hfits := hroom.fits_receive hP heq hlink.trusted false 0 rAddr (.ok z) now
  obtain ⟨t, hs, halive⟩ := h.step hP hid hmtu hfit s (.receive false 0 rAddr (.ok z) now)
    ⟨⟨hfits, hunsplit⟩, List.length_pos_iff.mpr hsent⟩
  have hw' := hw.receive hP hid hmtu h.intact hfits hs
  have hroom' := hroom.step hfit hlink hcons.base hfits hs
  refine ⟨hfits, t, hs, halive, hroom', ?_⟩
  obtain ⟨h', hh, rfl⟩ := Option.map_eq_some_iff.mp hs
  obtain ⟨c', hget', hsn, hack, hidle, hoff⟩ := hlink.trusted.request_pending hP hlt ⟨(hfit true).1, hmtu⟩ (heq true).le hx
    (hu.hello true x hmem) (hu.bare x hmem) hans (hfits.readFrom hx) hh
  have hside : h'.sent = s.sent ∧ h'.side true = s.side true := by
    obtain ⟨x', _, hl⟩ := Option.bind_eq_some_iff.mp hh
    obtain ⟨r, _, rfl⟩ := Option.map_eq_some_iff.mp hl
    refine ⟨rfl, ?_⟩
    dsimp only
    rw [Function.update_of_ne (show true ≠ false by decide)]
  have hu' := hw' c (by rw [hside.2]; exact hget) hdone
  exact ⟨⟨c', hget', hu'.listener c' hget', hsn, hack, hidle, hoff⟩, hside.1, rfl⟩

/-- The listener flushes the stream on which it owes the reply. -/
theorem Alive.reply_written (h : Alive P id a cfg s) (hroom : s.Roomy cfg) {k : Nat} (hk : k < 2 ^ 32)
    {c : Conn Prv Pub} (howes : s.OwesReply id k c) {now : Nat} (hnow : c.nextWriteTime ≤ now) :
    s.Fits id (.call false (.flush k now (.ok ()))) ∧
    ∃ t o, s.step P id (.call false (.flush k now (.ok ()))) = some t ∧ Alive P id a cfg t ∧ t.Roomy cfg ∧
      t.sent false = s.sent false ++ [(c.epochCryptoSnd, o)] ∧ o.msgType ≠ .data ∧ o.header.streamID = k ∧
      t.accepted = s.accepted := by
  obtain ⟨ch, hlink, hcons, _⟩ := h.intact
  obtain ⟨t, o, hs, hsent, hne, hstream, hacc⟩ := howes.written hP hlink.trusted hnow
  have hok : s.Fits id (.call false (.flush k now (.ok ()))) ∧ s.Unsplit id (.call false (.flush k now (.ok ()))) := by
    refine ⟨⟨hk, fun c' hc' => ?_⟩, fun c' hc' => ?_⟩
    · cases howes.get.symm.trans hc'
      exact howes.offset
    · cases howes.get.symm.trans hc'
      intro _ e he
      rw [howes.idle] at he
      cases he
  obtain ⟨t', ht', halive⟩ := h.step hP hid hmtu hfit s _ ⟨hok, enabled_of_step hs⟩
  cases hs.symm.trans ht'
  exact ⟨hok.1, t, o, hs, halive, hroom.step hfit hlink hcons.base hok.1 hs, hsent, hne, hstream, hacc⟩

/-- The reply arrives at the dialer. -/
theorem Alive.reply_arrives (heq : ∀ b, (cfg (!b)).mtu = (cfg b).mtu) (h : Alive P id a cfg s) (hroom : s.Roomy cfg)
    {i k : Nat} (hk : k < 2 ^ 32) {x : Nat × Conn.Outgoing} (hx : (s.sent false)[i]? = some x) (hne : x.2.msgType ≠ .data)
    (hstream : x.2.header.streamID = k) (hlen : ∀ j, j = 0 ∨ j = k → (s.accepted false j).length < 2 ^ 63)
    (rAddr now : Nat) (fresh : Except String Prv) :
    s.Fits id (.receive true i rAddr fresh now) ∧
    ∃ t, s.step P id (.receive true i rAddr fresh now) = some t ∧ Alive P id a cfg t ∧
      ∃ c, (t.side true).connMap.get? id = some c ∧ c.isHandshakeDoneOnRcv = true := by
  obtain ⟨ch, hlink, _⟩ := h.intact
  have hrec : s.received true i = x.2.payload.bind Except.toOption := by
    unfold received
    rw [show (!true) = false from rfl, hx]
    rfl
  have hunsplit : s.Unsplit id (.receive true i rAddr fresh now) :=
    fun q hq => hlen _ (stream_of_payload hk hstream (hrec.symm.trans hq))
  have hfits := hroom.fits_receive hP heq hlink.trusted true i rAddr fresh now
  obtain ⟨t, hs, halive⟩ := h.step hP hid hmtu hfit s (.receive true i rAddr fresh now)
    ⟨⟨hfits, hunsplit⟩, (List.getElem?_eq_some_iff.mp hx).1⟩
  refine ⟨hfits, t, hs, halive, ?_⟩
  obtain ⟨h', hh, rfl⟩ := Option.map_eq_some_iff.mp hs
  exact hlink.trusted.reply_finishes hP (hid ▸ keyConnId_lt P _) hmtu hx hne (hfits.readFrom hx) hh

/-- From a state of a dialer that waits, three steps end its handshake: a request arrives, the listener
writes, and what it wrote arrives. -/
theorem Alive.can_finish (heq : ∀ b, (cfg (!b)).mtu = (cfg b).mtu) (h : Alive P id a cfg s) (hroom : s.Roomy cfg)
    (hw : s.AwaitsReply id) (hsent : s.sent true ≠ []) {k : Nat} (hk : k < 2 ^ 32) (z : Prv)
    (hans : ∀ c, (s.side false).connMap.get? id = some c → c.CanAnswer k (cfg true).mtu)
    (hlen : ∀ j, j = 0 ∨ j = k → (s.accepted false j).length < 2 ^ 63) {c : Conn Prv Pub}
    (hget : (s.side true).connMap.get? id = some c) (hdone : c.isHandshakeDoneOnRcv = false) (rAddr now₁ now₃ : Nat)
    (hunsplit : s.Unsplit id (.receive false 0 rAddr (.ok z) now₁)) :
    ∃ now₀, ∀ now₂ ≥ now₀, Along (Session.step P id) (Fits id) s (lastSteps s k z rAddr now₁ now₂ now₃) ∧
      ∃ t, run (Session.step P id) s (lastSteps s k z rAddr now₁ now₂ now₃) = some t ∧ Alive P id a cfg t ∧
        ∃ c', (t.side true).connMap.get? id = some c' ∧ c'.isHandshakeDoneOnRcv = true := by
  obtain ⟨hok₁, s₁, hs₁, halive₁, hroom₁, ⟨c₁, howes⟩, hsent₁, hacc₁⟩ :=
    h.request_arrives hP hid hmtu hfit heq hroom hw hsent z hans hget hdone rAddr now₁ hunsplit
  refine ⟨c₁.nextWriteTime, fun now₂ hnow => ?_⟩
  obtain ⟨hok₂, s₂, o, hs₂, halive₂, hroom₂, hsent₂, hne, hstream, hacc₂⟩ :=
    halive₁.reply_written hP hid hmtu hfit hroom₁ hk howes hnow
  have hx : (s₂.sent false)[(s.sent false).length]? = some (c₁.epochCryptoSnd, o) := by
    rw [hsent₂, ← hsent₁]
    exact List.getElem?_concat_length
  rw [← hacc₁, ← hacc₂] at hlen
  obtain ⟨hok₃, s₃, hs₃, halive₃, hfinished⟩ :=
    halive₂.reply_arrives hP hid hmtu hfit heq hroom₂ hk hx hne hstream hlen rAddr now₃ (.ok z)
  refine ⟨along_cons hok₁ hs₁ (along_cons hok₂ hs₂ ⟨hok₃, fun _ _ => trivial⟩), s₃, ?_, halive₃, hfinished⟩
  rw [lastSteps, run_cons]
  refine ⟨s₁, hs₁, ?_⟩
  rw [run_cons]
  refine ⟨s₂, hs₂, ?_⟩
  rw [run_cons]
  exact ⟨s₃, hs₃, rfl⟩

end Run

/-- The dialer is done, the two sides have one secret, and Data opens. -/
def Established (P : Primitives Prv Pub) (id : Nat) (s : Session Prv Pub) : Prop :=
  (∃ c, (s.side true).connMap.get? id = some c ∧ c.isHandshakeDoneOnRcv = true) ∧ s.SharesSecret id ∧ s.DataOpens P id

theorem Alive.established (hP : P.Correct) (hid : id = keyConnId P (P.publicKey a)) (h : Alive P id a cfg s) {c : Conn Prv Pub}
    (hget : (s.side true).connMap.get? id = some c) (hdone : c.isHandshakeDoneOnRcv = true) : s.Established P id := by
  obtain ⟨ch, hlink, _⟩ := h.intact
  exact ⟨⟨c, hget, hdone⟩, hlink.trusted.phase.agreed hP hid hget hdone⟩

theorem awaitsReply_start {d₀ d l : Listener Prv Pub} {c : Conn Prv Pub} (hdial : Dialed P d₀ d l a c)
    (hl : l.connMap.get? c.connId = none) : (start d l).AwaitsReply c.connId := by
  obtain ⟨_, _, _, _, hget, hc, _⟩ := hdial.conn
  intro c' hc' _
  cases hget.symm.trans hc'
  refine ⟨nofun, fun c₂ hc₂ => ?_, ?_, nofun⟩
  · cases hl.symm.trans hc₂
  · rw [hc]
    rfl

/-- The handshake never gets stuck. Whatever was lost, repeated, delayed or reordered before, and whatever the
socket refused to write: once a request is on its way, its arrival, a flush of the listener at any time that the
pacer allows, and the arrival of what is written there establish the session, if it is not established yet. The two
ends have one MTU; a listener with a smaller one would cut the request, one with a larger one refuses it. -/
theorem handshake_can_finish (hP : P.Correct) (d₀ d l : Listener Prv Pub) (c : Conn Prv Pub)
    (hdial : Dialed P d₀ d l a c) (hl : l.connMap.get? c.connId = none) (hd : 119 ≤ d.mtu ∧ d.mtu ≤ 65507)
    (hm : l.mtu = d.mtu) (ops : List (HandshakeOp Prv Pub)) (t : Session Prv Pub)
    (hok : Along (step P c.connId) (fun s op => s.Fits c.connId op ∧ s.Unsplit c.connId op) (start d l) ops)
    (hrun : run (step P c.connId) (start d l) ops = some t) (hsent : t.sent true ≠ []) (k : Nat) (hk : k < 2 ^ 32)
    (hans : ∀ c' ∈ (t.side false).connMap.get? c.connId, c'.CanAnswer k d.mtu)
    (hlen : ∀ j, j = 0 ∨ j = k → (t.accepted false j).length < 2 ^ 63) (z : Prv) (rAddr now₁ now₃ : Nat)
    (hunsplit : t.Unsplit c.connId (.receive false 0 rAddr (.ok z) now₁)) :
    t.Established P c.connId ∨
    ∃ now₀, ∀ now₂ ≥ now₀, Along (step P c.connId) (Fits c.connId) t (t.lastSteps k z rAddr now₁ now₂ now₃) ∧
      ∃ u, run (step P c.connId) t (t.lastSteps k z rAddr now₁ now₂ now₃) = some u ∧ u.Established P c.connId := by
  obtain ⟨hid, _⟩ := mirrors_start hdial hl
  obtain ⟨hfit, heq⟩ := settings_one hd hm
  obtain ⟨⟨halive, hwaits⟩, hroom⟩ := run_inv_along (Alive.step_roomy hP hid hd.2 hfit)
    ⟨⟨alive_start hdial hl, awaitsReply_start hdial hl⟩, fun _ => nofun⟩ hok hrun
  obtain ⟨ch, hlink, _⟩ := halive.intact
  obtain ⟨c', hget⟩ := hlink.trusted.phase.dialer
  cases hdone : c'.isHandshakeDoneOnRcv with
  | true => exact .inl (halive.established hP hid hget hdone)
  | false =>
    refine .inr ?_
    obtain ⟨now₀, h⟩ := halive.can_finish hP hid hd.2 hfit heq hroom hwaits hsent hk z hans hlen hget hdone rAddr now₁ now₃ hunsplit
    refine ⟨now₀, fun now₂ hnow => ?_⟩
    obtain ⟨hfits, u, hu, halive', c₃, hget', hdone'⟩ := h now₂ hnow
    exact ⟨hfits, u, hu, halive'.established hP hid hget' hdone'⟩

/-- The socket of the listener refuses the reply: the listener counts it as sent, but nothing is on its way. -/
def refusedOps : List (HandshakeOp { prv : UInt8 // prv ≠ 0 } UInt8) :=
  [.call true (.write 0 [1, 2, 3] (.ok ())), .call true (.flush 0 1 (.ok ())), .receive false 0 0 (.ok ⟨103, by decide⟩) 2,
    .call false (.flush 0 3 (.error "no buffer space available"))]

theorem refused_unsplit : Along (step plainHonest zeroRttConn.connId)
    (fun s op => s.Fits zeroRttConn.connId op ∧ s.Unsplit zeroRttConn.connId op)
    (start (zeroRttDialer.setConn zeroRttConn.connId zeroRttConn) zeroRttListener) refusedOps := by decide +kernel

theorem refused_waits : ∃ t ∈ run (step plainHonest zeroRttConn.connId)
      (start (zeroRttDialer.setConn zeroRttConn.connId zeroRttConn) zeroRttListener) refusedOps,
    (∀ c ∈ (t.side true).connMap.get? zeroRttConn.connId, c.isHandshakeDoneOnRcv = false) ∧
    (t.sent true).isEmpty = false ∧ (t.sent false).isEmpty = true ∧ (t.accepted false 0).length < 2 ^ 63 ∧
    (∀ c ∈ (t.side false).connMap.get? zeroRttConn.connId, c.isInitSentOnSnd = true ∧ c.CanAnswer 0 200) ∧
    t.Unsplit zeroRttConn.connId (.receive false 0 0 (.ok ⟨107, by decide⟩) 4) := by decide +kernel

theorem refused_finishes : ∃ t, run (step plainHonest zeroRttConn.connId)
      (start (zeroRttDialer.setConn zeroRttConn.connId zeroRttConn) zeroRttListener) refusedOps = some t ∧
    (t.sent false).isEmpty = true ∧ ∃ now₀, ∀ now₂ ≥ now₀,
      Along (step plainHonest zeroRttConn.connId) (Fits zeroRttConn.connId) t (t.lastSteps 0 ⟨107, by decide⟩ 0 4 now₂ 5) ∧
      ∃ u, run (step plainHonest zeroRttConn.connId) t (t.lastSteps 0 ⟨107, by decide⟩ 0 4 now₂ 5) = some u ∧
        u.Established plainHonest zeroRttConn.connId := by
  obtain ⟨t, ht, hdone, hsent, hquiet, hlen, hans, hunsplit⟩ := refused_waits
  refine ⟨t, ht, hquiet, ?_⟩
  have hfin := handshake_can_finish plainHonest_correct _ _ _ _ zeroRtt_dialed rfl (by decide) (by decide) refusedOps t
    refused_unsplit ht (fun h => by rw [h] at hsent; cases hsent) 0 (by decide) (fun c hc => (hans c hc).2)
    (fun j hj => by rw [or_self] at hj; rw [hj]; exact hlen) ⟨107, by decide⟩ 0 4 5 hunsplit
  refine hfin.resolve_left fun hest => ?_
  obtain ⟨⟨c, hc, hd⟩, _⟩ := hest
  rw [hdone c hc] at hd
  cases hd

end Session

end Qotp
