import Qotp.System.Session

namespace Qotp

open Framework

variable {Prv Pub : Type}

namespace Handshake

variable {P : Primitives Prv Pub} {id : Nat} {a idRcv : Prv} {mtu : Int} {s t : Handshake Prv Pub} {b : Bool}
  {c c' : Conn Prv Pub} {l l' : Listener Prv Pub}

section Speaks

variable {d : Bytes} {rAddr now : Nat} {fresh : Except String Prv} {r : Except String (Option (Nat × Nat))}
  {o : Conn.Outgoing}

/-- A reply names the listener it comes from. -/
theorem initRcv_identity (hP : P.Correct) {z b : Prv} {body : Bytes} {m : InitRcvMsg Pub}
    (h : decryptInitRcv P (initRcvHeader P id (P.publicKey z) (P.publicKey idRcv) ++ body) b = some (.ok m)) :
    m.pubKeyIdRcv = P.publicKey idRcv := by
  obtain ⟨_, _, hid, _⟩ := decryptInitRcv_ok h
  rw [initRcvHeader, field_append (by simp [putUint64_length, P.bytes_length]) (by rw [P.bytes_length]),
    hP.newPublicKey_bytes] at hid
  exact (Except.ok.inj hid).symm

/-- A message of the other side leaves the keys that a side seals with. -/
theorem speaks_update (hP : P.Correct) (h : c.SpeaksFor P id a idRcv b) (ho : SessionMsg P id a idRcv mtu (!b) o)
    {n : Nat} (hread : SameHeader P o.encData (o.encData.take n)) (hu : Listener.Update P l (o.encData.take n) c c') :
    c'.SpeaksFor P id a idRcv b := by
  have hrest := hu.rest
  have htype : msgTypeOf (o.encData.take n) = o.msgType := hread.type.trans ho.msgType_eq
  refine ⟨hrest.connId.trans h.connId, hrest.sender.trans h.sender, fun hb => ?_, fun hb => ?_⟩
  · obtain ⟨hprv, hpin⟩ := h.dialer hb
    refine ⟨hrest.prv.trans hprv, ?_⟩
    cases hu with
    | initRcv m ht hd =>
      rw [htype] at ht
      rw [hb] at ho
      cases ho with
      | initRcv z key sn hm hkey he =>
        -- what is left of the reply is longer than its header
        have hlen : 95 ≤ (o.encData.take n).length := (decryptInitRcv_ok hd).1
        have hn := List.length_take_le n o.encData
        rw [he, List.take_append, List.take_of_length_le (by rw [initRcvHeader_length]; omega)] at hd
        exact .inr (congrArg some (initRcv_identity hP hd))
      | initCryptoRcv z key sn hm _ _ => cases hm.symm.trans ht
      | data hm _ => cases hm.symm.trans ht
    | initSnd k secret ht hd hk => exact hpin
    | initCryptoSnd m ht hd => exact hpin
    | initCryptoRcv m ht hd => exact hpin
    | data epoch ht => exact hpin
  · have hep := h.listener hb
    have hnot : ¬ (o.msgType = .initRcv ∨ o.msgType = .initCryptoRcv) := by
      rw [hb] at ho
      cases ho with
      | initSnd _ hm _ _ => simp [hm]
      | initCryptoSnd _ _ _ hm _ _ _ => simp [hm]
      | data hm _ => simp [hm]
    cases hu with
    | initRcv m ht hd => exact absurd (.inl (htype.symm.trans ht)) hnot
    | initCryptoRcv m ht hd => exact absurd (.inr (htype.symm.trans ht)) hnot
    | initSnd k secret ht hd hk => exact hep
    | initCryptoSnd m ht hd => exact hep
    | data epoch ht => exact hep

theorem speaks_mark (h : c.SpeaksFor P id a idRcv b) (done : Bool) :
    ({ c with isHandshakeDoneOnRcv := done } : Conn Prv Pub).SpeaksFor P id a idRcv b :=
  ⟨h.connId, h.sender, h.dialer, h.listener⟩

theorem speaks_receive (hP : P.Correct) (h : c.SpeaksFor P id a idRcv b) (ho : SessionMsg P id a idRcv mtu (!b) o)
    {n : Nat} (hread : SameHeader P o.encData (o.encData.take n)) (hget : l.connMap.get? id = some c)
    (hl : l.listen P (.datagram (o.encData.take n) rAddr) fresh now = some (l', r)) :
    ∃ c', l'.connMap.get? id = some c' ∧ c'.SpeaksFor P id a idRcv b := by
  obtain ⟨c₁, c₂, c', hcase, hsame, hg', hmark⟩ := Listener.listen_known hget hl
  have h₁ : c₁.SpeaksFor P id a idRcv b := by
    obtain rfl | ⟨_, hu⟩ := hcase
    · exact h
    · exact speaks_update hP h ho hread hu
  refine ⟨c', hg', ?_⟩
  obtain rfl | ⟨_, _, rfl, _⟩ := hmark
  · exact h₁.sameCrypto hsame
  · exact speaks_mark (h₁.sameCrypto hsame) true

theorem speaks_deliver {dec : Decoded} {n : Nat} (h : c.SpeaksFor P id a idRcv b) (hget : l.connMap.get? id = some c)
    (hd : l.deliver dec n now = some (l', r)) : ∃ c', l'.connMap.get? id = some c' ∧ c'.SpeaksFor P id a idRcv b := by
  obtain ⟨c₁, c', hsame, hg', hmark⟩ := Listener.deliver_cases hget hd
  refine ⟨c', hg', ?_⟩
  obtain rfl | ⟨_, rfl, _⟩ := hmark
  · exact h.sameCrypto hsame
  · exact speaks_mark (h.sameCrypto hsame) true

/-- The connection that a request opens holds the key the request carries. -/
theorem speaks_opened (hnone : l.connMap.get? id = none) (hd : Hello P true id (P.publicKey a) d)
    (hl : l.listen P (.datagram d rAddr) fresh now = some (l', r)) (hget : l'.connMap.get? id = some c) :
    c.SpeaksFor P id a idRcv false := by
  unfold Listener.listen at hl
  dsimp only at hl
  split_ifs at hl
  · cases hl
    cases hnone.symm.trans hget
  obtain ⟨⟨l₁, res⟩, hdec, hl⟩ := Option.bind_eq_some_iff.mp hl
  have hnone' := hnone
  rw [← hd.conn] at hnone'
  have hnew : ∀ (z : Prv) (idKey : Option Pub) (w : Bool) (secret : Option Bytes), Conn.SpeaksFor P id a idRcv false
      { Listener.openedConn (connIdOf d) rAddr z idKey (some (P.publicKey a)) false w with sharedSecret := secret } :=
    fun z idKey w secret => ⟨hd.conn, rfl, nofun, fun _ => rfl⟩
  cases Listener.decode_opening P hnone' hdec with
  | refused e =>
    cases hl
    cases hnone.symm.trans hget
  | halfOpen k z e err ht hk hf hq herr =>
    cases hl
    rw [Listener.get?_setConn, if_pos hd.conn.symm, (request_key hd).1 _ k hk ht] at hget
    cases hget
    exact hnew z _ _ none
  | initSnd k z key ht hk hf hkey _ hl₁ =>
    rw [(request_key hd).1 _ k hk ht] at hl₁
    obtain ⟨c', hg', hc'⟩ := speaks_deliver (hnew z _ _ _)
      (by rw [hl₁, Listener.get?_setConn, if_pos hd.conn.symm]) hl
    cases hg'.symm.trans hget
    exact hc'
  | initCryptoSnd m z ht hk hf _ hl₁ =>
    rw [(request_key hd).2 _ _ m hk ht] at hl₁
    obtain ⟨c', hg', hc'⟩ := speaks_deliver (hnew z _ _ _)
      (by rw [hl₁, Listener.get?_setConn, if_pos hd.conn.symm]) hl
    cases hg'.symm.trans hget
    exact hc'

end Speaks

/-- Beside the phase of the handshake: what each side seals its messages with, what was
written, and that the dialer has no other secret than the listener. -/
structure Trusted (P : Primitives Prv Pub) (id : Nat) (a : Prv) (cfg : Bool → ListenerCfg Prv) (s : Handshake Prv Pub) :
    Prop where
  phase : Phase P id a s
  settings : ∀ b, (s.side b).cfg = cfg b
  speaks : ∀ b c, (s.side b).connMap.get? id = some c → c.SpeaksFor P id a (cfg false).prvKeyId b
  secret : ∀ c, (s.side true).connMap.get? id = some c → c.sharedSecret = none ∨
    ∃ c', (s.side false).connMap.get? id = some c' ∧ c.sharedSecret = c'.sharedSecret
  sent : ∀ b, ∀ x ∈ s.sent b, SessionMsg P id a (cfg false).prvKeyId (cfg true).mtu b x.2

/-- Every datagram names the connection. -/
theorem Phase.connIdOf_sent (hid : id < 2 ^ 64) (h : Phase P id a s) {x : Nat × Conn.Outgoing} (hx : x ∈ s.sent b) :
    connIdOf x.2.encData = id := by
  cases h with
  | dialed c hget hdone hkeyed hnone hsent hquiet =>
    cases b with
    | true => exact (hsent x hx).2.2.conn
    | false =>
      rw [hquiet] at hx
      cases hx
  | opened y key ha hkey hconn hsent =>
    obtain ⟨_, hello⟩ | ⟨sn, hd⟩ := (hsent b x hx).form
    · exact hello.conn
    · rw [hd, connIdOf, dataHeader, List.append_assoc, ← List.append_assoc,
        field_append (by rfl) (by rw [putUint64_length]), putUint64, getLE_putLE]
      exact Nat.mod_eq_of_lt hid

variable {cfg : Bool → ListenerCfg Prv}

/-- In an open session the secret of a side is the common one, or the dialer has none yet. -/
theorem Trusted.secret_of_keyed (h : Trusted P id a cfg s) {y : Bool → Prv} {key : Bytes}
    (hconn : ∀ b, ∃ c, (s.side b).connMap.get? id = some c ∧ HoldsSecret id b (y b) key c)
    (hget : (s.side b).connMap.get? id = some c) : c.sharedSecret = none ∨ c.sharedSecret = some key := by
  obtain ⟨c₀, hc₀, hk₀⟩ := hconn false
  have hlistener := hk₀.secret nofun
  cases b with
  | false =>
    cases hc₀.symm.trans hget
    exact .inr hlistener
  | true =>
    refine (h.secret c hget).imp_right ?_
    rintro ⟨c', hc', hs⟩
    cases hc₀.symm.trans hc'
    exact hs.trans hlistener

/-- A side reads in a datagram of the other what was encoded there, or refuses it. -/
theorem Trusted.payload (hP : P.Correct) (hid : id < 2 ^ 64) (hmtu : (cfg true).mtu ≤ 65507) (h : Trusted P id a cfg s)
    {x : Nat × Conn.Outgoing} (hx : x ∈ s.sent (!b)) {rAddr : Nat} {fresh : Except String Prv} {dec : Decoded}
    (hdec : (s.side b).decode P x.2.encData rAddr fresh = some (l', .ok dec)) :
    Listener.payloadOf dec = x.2.payload := by
  refine (h.sent (!b) x hx).payload hP hmtu (h.phase.connIdOf_sent hid hx) (fun hb => ?_) (fun hb c hc => ?_)
    (fun hm c hc => ?_) hdec
  · obtain rfl : b = false := by simpa using hb
    exact congrArg ListenerCfg.prvKeyId (h.settings false)
  · obtain rfl : b = true := by simpa using hb
    exact ((h.speaks true c hc).dialer rfl).1
  · cases h.phase with
    | dialed c₀ hget hdone hkeyed hnone hsent hquiet =>
      cases b with
      | true =>
        rw [show (!true) = false from rfl, hquiet] at hx
        cases hx
      | false => exact absurd hm (hsent x hx).2.1
    | opened y key ha hkey hconn hsent =>
      have hsec := h.secret_of_keyed hconn hc
      obtain ⟨hne, _⟩ | ⟨sn, hd⟩ := (hsent (!b) x hx).form
      · exact absurd hm hne
      · exact ⟨sn, x.1, !b, key, hP.ecdh_length _ _ _ (hkey true), hsec, hd⟩

/-- What a call leaves of the keys, and which messages it writes. -/
theorem step_call_speaks (hP : P.Correct) (h : Trusted P id a cfg s) {op : ConnOp Prv Pub}
    (hs : s.step P id (.call b op) = some t) :
    ∃ c c', (s.side b).connMap.get? id = some c ∧ c'.sharedSecret = c.sharedSecret ∧
      c'.SpeaksFor P id a (cfg false).prvKeyId b ∧ t.side = Function.update s.side b ((s.side b).setConn id c') ∧
      ∀ d, ∀ x ∈ t.sent d, x ∈ s.sent d ∨ (d = b ∧ SessionMsg P id a (cfg false).prvKeyId (cfg true).mtu b x.2) := by
  simp only [step] at hs
  split_ifs at hs with hop
  obtain ⟨c, hget, hs⟩ := Option.bind_eq_some_iff.mp hs
  obtain ⟨e, he, rfl⟩ := Option.map_eq_some_iff.mp hs
  have hc := h.speaks b c hget
  refine ⟨c, e.conn, hget, ?_⟩
  have hwrote : ∀ (out : List Conn.Outgoing), e.sent = out →
      (∀ o ∈ out, SessionMsg P id a (cfg false).prvKeyId (cfg true).mtu b o) → ∀ d,
      ∀ x ∈ Function.update s.sent b (s.sent b ++ e.sent.map fun o => (c.epochCryptoSnd, o)) d, x ∈ s.sent d ∨
        (d = b ∧ SessionMsg P id a (cfg false).prvKeyId (cfg true).mtu b x.2) := by
    intro out hout hmsg d x hx
    rw [Function.update_apply] at hx
    split_ifs at hx with hd
    · rw [List.mem_append, List.mem_map] at hx
      obtain hx | ⟨o, ho, rfl⟩ := hx
      · rw [hd]
        exact .inl hx
      · exact .inr ⟨hd, hmsg o (hout ▸ ho)⟩
    · exact .inl hx
  obtain ⟨k, now, w, out, r, hf, hsent⟩ | ⟨hsame, hsent⟩ := Endpoint.step_local hop he
  · rw [List.nil_append] at hsent
    have hsec : e.conn.sharedSecret = c.sharedSecret := by
      obtain ⟨_, _, _, _, _, _, _, _, hc⟩ := Conn.flush_fields P _ hf
      rw [hc]
    obtain ⟨hc', hmsg⟩ := Conn.flush_sessionMsg hP hc (fun hb => by rw [h.settings b, hb])
      (fun hb => by rw [h.settings b, hb]) hf
    exact ⟨hsec, hc', rfl, hwrote out hsent hmsg⟩
  · refine ⟨?_, hc.sameCrypto hsame, rfl, hwrote [] hsent fun o ho => absurd ho List.not_mem_nil⟩
    obtain ⟨_, _, _, _, _, _, _, hc⟩ := hsame
    rw [hc]

variable (hP : P.Correct) (hid : id = keyConnId P (P.publicKey a))

include hP hid

theorem Trusted.call (h : Trusted P id a cfg s) {op : ConnOp Prv Pub} (hs : s.step P id (.call b op) = some t) :
    Trusted P id a cfg t := by
  obtain ⟨c, c', hget, hsec, hc', hside, hsent⟩ := step_call_speaks hP h hs
  have hget' : ∀ d, (t.side d).connMap.get? id = if d = b then some c' else (s.side d).connMap.get? id := by
    intro d
    rw [hside, get?_update, Listener.get?_setConn, if_pos rfl]
  -- the secrets of both sides are as they were
  have hold : ∀ d x, (t.side d).connMap.get? id = some x →
      ∃ x₀, (s.side d).connMap.get? id = some x₀ ∧ x.sharedSecret = x₀.sharedSecret := by
    intro d x hx
    rw [hget' d] at hx
    split_ifs at hx with hd
    · cases hx
      exact ⟨c, hd ▸ hget, hsec⟩
    · exact ⟨x, hx, rfl⟩
  refine ⟨h.phase.call hP hid hs, fun d => ?_, fun d x hx => ?_, fun x hx => ?_, fun d x hx => ?_⟩
  · rw [hside, Function.update_apply]
    split_ifs with hd
    · rw [hd]
      exact h.settings b
    · exact h.settings d
  · rw [hget' d] at hx
    split_ifs at hx with hd
    · cases hx
      exact hd ▸ hc'
    · exact h.speaks d x hx
  · obtain ⟨x₀, hx₀, hsx⟩ := hold true x hx
    rw [hsx]
    refine (h.secret x₀ hx₀).imp_right ?_
    rintro ⟨y₀, hy₀, hs₀⟩
    by_cases hb : false = b
    · subst hb
      cases hget.symm.trans hy₀
      exact ⟨c', by rw [hget' false, if_pos rfl], hs₀.trans hsec.symm⟩
    · exact ⟨y₀, by rw [hget' false, if_neg hb]; exact hy₀, hs₀⟩
  · obtain hx | ⟨rfl, hmsg⟩ := hsent d x hx
    · exact h.sent d x hx
    · exact hmsg

omit hP hid in
/-- The dialer takes the secret from a reply only, and it is the listener's. -/
theorem Trusted.receive_secret (h : Trusted P id a cfg s) {i rAddr now : Nat} {fresh : Except String Prv}
    (hs : s.step P id (.receive b i rAddr fresh now) = some t) (hget : (t.side true).connMap.get? id = some c) :
    c.sharedSecret = none ∨ ∃ c', (t.side false).connMap.get? id = some c' ∧ c.sharedSecret = c'.sharedSecret := by
  obtain rfl | ⟨z, l', r, hmem, hread, hl, rfl⟩ := step_receive hs
  · exact h.secret c hget
  cases h.phase with
  | dialed c₀ hget₀ hdone hkeyed hnone hsent hquiet =>
    cases b with
    | true =>
      rw [show (!true) = false from rfl, hquiet] at hmem
      cases hmem
    | false =>
      rw [get?_update, if_neg nofun] at hget
      refine (h.secret c hget).imp_right ?_
      rintro ⟨c', hc', _⟩
      cases hnone.symm.trans hc'
  | opened y key ha hkey hconn hsent =>
    cases b with
    | true =>
      rw [get?_update, if_pos rfl] at hget
      rw [get?_update, if_neg nofun]
      obtain ⟨c₀, hc₀, hk₀⟩ := hconn true
      obtain ⟨c₁, c₂, c', hcase, hsame, hg', hmark⟩ := Listener.listen_known hc₀ hl
      cases hg'.symm.trans hget
      have hsec₁ : c₁.sharedSecret = none ∨ c₁.sharedSecret = some key := by
        have hold := h.secret_of_keyed hconn hc₀
        obtain rfl | ⟨_, hu⟩ := hcase
        · exact hold
        · have hheard := (hsent false z hmem).heard hread
          have hup := (hk₀.update (hkey true) hheard hu).2
          obtain hello | ht := hheard
          · exact .inr (hup hello.type)
          · rw [hu.secret_of_data ht]
            exact hold
      have hsec : c.sharedSecret = c₁.sharedSecret := by
        obtain ⟨_, _, _, _, _, _, _, rfl⟩ := hsame
        obtain rfl | ⟨_, _, rfl, _⟩ := hmark <;> rfl
      obtain ⟨c', hc', hk'⟩ := hconn false
      rw [hsec]
      exact hsec₁.imp_right fun hs => ⟨c', hc', hs.trans (hk'.secret nofun).symm⟩
    | false =>
      rw [get?_update, if_neg nofun] at hget
      rw [get?_update, if_pos rfl]
      obtain ⟨c₀, hc₀, hk₀⟩ := hconn false
      obtain ⟨c', hc', hk'⟩ := hk₀.receive (hkey false) ((hsent true z hmem).heard hread) hc₀ hl
      exact (h.secret_of_keyed hconn hget).imp_right fun hs => ⟨c', hc', hs.trans (hk'.secret nofun).symm⟩

theorem Trusted.receive (h : Trusted P id a cfg s) {i rAddr now : Nat} {fresh : Except String Prv}
    (hs : s.step P id (.receive b i rAddr fresh now) = some t) : Trusted P id a cfg t := by
  have hphase := h.phase.receive hP hs
  have hsecret := fun c hget => h.receive_secret hs (c := c) hget
  obtain rfl | ⟨z, l', r, hmem, hread, hl, rfl⟩ := step_receive hs
  · exact h
  have hcid := hread.conn.trans (h.phase.connIdOf_sent (hid ▸ keyConnId_lt P _) hmem)
  refine ⟨hphase, fun d => ?_, fun d x hx => ?_, hsecret, h.sent⟩
  · dsimp only
    rw [Function.update_apply]
    split_ifs with hd
    · rw [hd, ← h.settings b]
      exact (Listener.listen_holds hcid hl).1
    · exact h.settings d
  · rw [get?_update] at hx
    split_ifs at hx with hd
    · subst hd
      cases hg : (s.side d).connMap.get? id with
      | some c =>
        obtain ⟨c', hc', hspeaks⟩ := speaks_receive hP (h.speaks d c hg) (h.sent (!d) z hmem) hread hg hl
        cases hc'.symm.trans hx
        exact hspeaks
      | none =>
        -- only the listener can be without the connection
        cases h.phase with
        | dialed c₀ hget₀ hdone hkeyed hnone hsent hquiet =>
          cases d with
          | true => cases hget₀.symm.trans hg
          | false => exact speaks_opened hnone ((hsent z hmem).2.2.read hread) hl hx
        | opened y key ha hkey hconn hsent =>
          obtain ⟨c₀, hc₀, _⟩ := hconn d
          cases hc₀.symm.trans hg
    · exact h.speaks d x hx

omit hP hid in
theorem Trusted.others {connMap : InsertionMap Nat (Conn Prv Pub)} (h : Trusted P id a cfg s)
    (hs : s.step P id (.others b connMap) = some t) : Trusted P id a cfg t := by
  have hphase := h.phase.others hs
  cases hs
  have hget : ∀ d, (Function.update s.side b ((s.side b).withOthers id connMap) d).connMap.get? id =
      (s.side d).connMap.get? id := by
    intro d
    rw [get?_update]
    split_ifs with hd
    · rw [hd, get?_withOthers]
    · rfl
  refine ⟨hphase, fun d => ?_, fun d x hx => h.speaks d x ((hget d).symm.trans hx), fun x hx => ?_, h.sent⟩
  · dsimp only
    rw [Function.update_apply]
    split_ifs with hd
    · rw [hd]
      exact h.settings b
    · exact h.settings d
  · obtain hn | ⟨c', hc', hs⟩ := h.secret x ((hget true).symm.trans hx)
    · exact .inl hn
    · exact .inr ⟨c', (hget false).trans hc', hs⟩

theorem step_trusted (s : Handshake Prv Pub) (op : HandshakeOp Prv Pub) (t : Handshake Prv Pub) (h : Trusted P id a cfg s)
    (hs : s.step P id op = some t) : Trusted P id a cfg t := by
  cases op with
  | call b op => exact h.call hP hid hs
  | receive b i rAddr fresh now => exact h.receive hP hid hs
  | others b connMap => exact h.others hs

end Handshake

end Qotp
