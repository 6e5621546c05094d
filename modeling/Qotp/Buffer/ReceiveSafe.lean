import Qotp.Buffer.ReceiveFaithful

namespace Qotp

open Framework

namespace RcvBuffer

/-- The segments are non-empty pieces of `S`, pairwise disjoint, none of them
below the delivery point. -/
structure Tiled (S : Bytes) (s : RcvBuffer) : Prop where
  nonempty : ∀ e ∈ s.segments.entries, e.2.data ≠ []
  content : ∀ e ∈ s.segments.entries, IsAt S e.1 e.2.data
  above : ∀ e ∈ s.segments.entries, s.nextInOrderOffsetToWaitFor ≤ e.1
  disjoint : ∀ e ∈ s.segments.entries, ∀ f ∈ s.segments.entries, e.1 < f.1 → segEnd e ≤ f.1

/-- Byte `i` was delivered or is stored. -/
def Covered (s : RcvBuffer) (i : Nat) : Prop :=
  i < s.nextInOrderOffsetToWaitFor ∨ ∃ e ∈ s.segments.entries, e.1 ≤ i ∧ i < segEnd e

/-- Where the bytes begin that the preceding segment does not hold. -/
def startAfterPrev (s : RcvBuffer) (o : Nat) : Nat :=
  match s.segments.prev o with
  | none => o
  | some e => max o (segEnd e)

/-- Room for the packet `[o, o+l)` behind the delivery point, given what is stored at
`o`: there it may grow up to the following segment only; at a free offset it may
reach into one following segment, and end inside it only behind a gap. -/
def RoomFor (s : RcvBuffer) (o l : Nat) : Option RcvValue → Prop
  | some v => l ≤ v.data.length ∨ ∀ e ∈ s.segments.entries, o < e.1 → o + l ≤ e.1
  | none => o + l ≤ s.startAfterPrev o ∨
    ∀ e ∈ s.segments.entries, o < e.1 → e.1 < o + l →
      (o + l < segEnd e → s.startAfterPrev o < e.1) ∧
      ∀ f ∈ s.segments.entries, e.1 < f.1 → o + l ≤ f.1

instance (s : RcvBuffer) (o l : Nat) : ∀ v, Decidable (s.RoomFor o l v)
  | some _ => inferInstanceAs (Decidable (_ ∨ _))
  | none => inferInstanceAs (Decidable (_ ∨ _))

/-- The packets that `insert` handles without breaking the tiling: completely
below the delivery point, or completely above it with room. -/
def InsertSafe (s : RcvBuffer) (o l : Nat) : Prop :=
  o + l ≤ s.nextInOrderOffsetToWaitFor ∨
    s.nextInOrderOffsetToWaitFor ≤ o ∧ s.RoomFor o l (s.segments.get? o)

instance (s : RcvBuffer) (o l : Nat) : Decidable (s.InsertSafe o l) :=
  inferInstanceAs (Decidable (_ ∨ _ ∧ _))

theorem tiled_new (S : Bytes) : Tiled S {} := by
  constructor <;> simp

variable {S : Bytes} {s : RcvBuffer}

theorem Tiled.end_le (h : Tiled S s) {e : Nat × RcvValue} (he : e ∈ s.segments.entries) :
    segEnd e ≤ S.length := (h.content e he).end_le (h.nonempty e he)

theorem Tiled.pieces (h : Tiled S s) : Pieces S s := by
  refine ⟨h.content, fun e he => ?_⟩
  have hend := h.end_le he
  have hpos := List.length_pos_iff.mpr (h.nonempty e he)
  unfold segEnd at hend
  omega

/-- Storing a piece that ends before the next segment keeps the tiling. -/
theorem Tiled.put (h : Tiled S s) {segs : Segments} {fo now : Nat} {d : Bytes}
    (hsub : ∀ e ∈ segs.entries, e ∈ s.segments.entries) (hne : d ≠ []) (hd : IsAt S fo d)
    (habove : s.nextInOrderOffsetToWaitFor ≤ fo)
    (hleft : ∀ e ∈ segs.entries, e.1 < fo → segEnd e ≤ fo)
    (hright : ∀ e ∈ segs.entries, fo < e.1 → fo + d.length ≤ e.1) :
    Tiled S { s with segments := segs.put fo ⟨d, now⟩ } := by
  refine ⟨?_, ?_, ?_, fun e he f hf hlt => ?_⟩
  · exact SortedAssoc.forall_put hne fun e he _ => h.nonempty e (hsub e he)
  · exact SortedAssoc.forall_put hd fun e he _ => h.content e (hsub e he)
  · exact SortedAssoc.forall_put habove fun e he _ => h.above e (hsub e he)
  · obtain rfl | ⟨_, he⟩ := SortedAssoc.mem_put.mp he <;>
      obtain rfl | ⟨_, hf⟩ := SortedAssoc.mem_put.mp hf
    · exact absurd hlt (lt_irrefl _)
    · exact hright f hf hlt
    · exact hleft e he hlt
    · exact h.disjoint e (hsub e he) f (hsub f hf) hlt

/-- The outcome of a safe insert: the tiling stays, and nothing but the bytes of
the packet joins what was covered. -/
structure Inserted (S : Bytes) (s : RcvBuffer) (o l : Nat) (s' : RcvBuffer) : Prop where
  tiled : Tiled S s'
  next : s'.nextInOrderOffsetToWaitFor = s.nextInOrderOffsetToWaitFor
  covered : ∀ i, Covered s i ∨ (o ≤ i ∧ i < o + l) → Covered s' i

theorem Tiled.inserted_self (h : Tiled S s) {o l : Nat}
    (hc : ∀ i, o ≤ i → i < o + l → Covered s i) : Inserted S s o l s := by
  refine ⟨h, rfl, fun i hi => ?_⟩
  obtain hi | hi := hi
  · exact hi
  · exact hc i hi.1 hi.2

/-- A piece is stored: every old segment stays or lies under the piece, and every
byte of the packet is in the piece or in a segment that stays. -/
theorem Tiled.inserted_put (h : Tiled S s) {segs : Segments} {o l fo now : Nat} {d : Bytes}
    (hsub : ∀ e ∈ segs.entries, e ∈ s.segments.entries) (hne : d ≠ []) (hd : IsAt S fo d)
    (habove : s.nextInOrderOffsetToWaitFor ≤ fo)
    (hleft : ∀ e ∈ segs.entries, e.1 < fo → segEnd e ≤ fo)
    (hright : ∀ e ∈ segs.entries, fo < e.1 → fo + d.length ≤ e.1)
    (hkeep : ∀ e ∈ s.segments.entries,
      (e ∈ segs.entries ∧ e.1 ≠ fo) ∨ (fo ≤ e.1 ∧ segEnd e ≤ fo + d.length))
    (hnew : ∀ i, o ≤ i → i < o + l → (fo ≤ i ∧ i < fo + d.length) ∨
      ∃ e ∈ segs.entries, e.1 ≠ fo ∧ e.1 ≤ i ∧ i < segEnd e) :
    Inserted S s o l { s with segments := segs.put fo ⟨d, now⟩ } := by
  have hpiece : ∀ i, fo ≤ i → i < fo + d.length →
      Covered { s with segments := segs.put fo ⟨d, now⟩ } i :=
    fun i h1 h2 => .inr ⟨_, SortedAssoc.mem_put.mpr (.inl rfl), h1, h2⟩
  have hstays : ∀ e ∈ segs.entries, e.1 ≠ fo → ∀ i, e.1 ≤ i → i < segEnd e →
      Covered { s with segments := segs.put fo ⟨d, now⟩ } i :=
    fun e he hne i h1 h2 => .inr ⟨e, SortedAssoc.mem_put.mpr (.inr ⟨hne, he⟩), h1, h2⟩
  refine ⟨h.put hsub hne hd habove hleft hright, rfl, fun i hi => ?_⟩
  obtain (hi | ⟨e, he, h1, h2⟩) | ⟨h1, h2⟩ := hi
  · exact .inl hi
  · obtain ⟨hs, hne⟩ | ⟨h3, h4⟩ := hkeep e he
    · exact hstays e hs hne i h1 h2
    · exact hpiece i (h3.trans h1) (h2.trans_le h4)
  · obtain hi | ⟨e, he, hne, h3, h4⟩ := hnew i h1 h2
    · exact hpiece i hi.1 hi.2
    · exact hstays e he hne i h3 h4

/-- The preceding segment ends at or before `startAfterPrev`, everything later
starts at or behind it, and the bytes in between are stored. -/
theorem Tiled.startAfterPrev_spec (h : Tiled S s) (o : Nat) :
    o ≤ s.startAfterPrev o ∧
    (∀ e ∈ s.segments.entries, e.1 < o → segEnd e ≤ s.startAfterPrev o) ∧
    (∀ e ∈ s.segments.entries, o < e.1 → s.startAfterPrev o ≤ e.1) ∧
    ∀ i, o ≤ i → i < s.startAfterPrev o →
      ∃ e ∈ s.segments.entries, e.1 < o ∧ e.1 ≤ i ∧ i < segEnd e := by
  unfold startAfterPrev
  cases hp : s.segments.prev o with
  | none =>
    have hall := SortedAssoc.prev_eq_none.mp hp
    refine ⟨le_rfl, fun e he hlt => ?_, fun e he hlt => hlt.le, fun i h1 h2 => ?_⟩
    · exact absurd hlt (not_lt.mpr (hall e he))
    · exact absurd h1 (not_le.mpr h2)
  | some p =>
    obtain ⟨hmem, hlt, hmax⟩ := SortedAssoc.prev_spec hp
    refine ⟨le_max_left _ _, fun e he he1 => ?_, fun e he he1 => ?_, fun i h1 h2 => ?_⟩
    · by_cases heq : e.1 = p.1
      · obtain ⟨eo, ev⟩ := e
        obtain ⟨po, pv⟩ := p
        dsimp only at heq
        subst heq
        obtain rfl := SortedAssoc.eq_of_mem he hmem
        exact le_max_right _ _
      · have := h.disjoint e he p hmem (lt_of_le_of_ne (hmax e he he1) heq)
        exact (this.trans hlt.le).trans (le_max_left _ _)
    · exact max_le he1.le (h.disjoint p hmem e he (hlt.trans he1))
    · refine ⟨p, hmem, hlt, (hlt.trans_le h1).le, ?_⟩
      have : i < max o (segEnd p) := h2
      omega

theorem Tiled.trimPrev_eq (h : Tiled S s) {o : Nat} {d : Bytes} (hd : IsAt S o d) (hne : d ≠ []) :
    (o + d.length ≤ s.startAfterPrev o ∧ trimPrev s.segments o d = some none) ∨
    (s.startAfterPrev o < o + d.length ∧ trimPrev s.segments o d =
      some (some (s.startAfterPrev o, d.drop (s.startAfterPrev o - o)))) := by
  obtain ⟨r, hr⟩ := h.pieces.trimPrev_ok hd
  have hpos := List.length_pos_iff.mpr hne
  unfold startAfterPrev
  obtain ⟨p, v, hp, hle, rfl⟩ | ⟨m, rfl, ⟨rfl, hend⟩ | ⟨hm, p, v, hp, hend, _⟩⟩ := trimPrev_cases hr
  · refine .inl ⟨?_, hr⟩
    rw [hp]
    exact hle.trans (le_max_right _ _)
  · have hs : (match s.segments.prev o with | none => o | some e => max o (segEnd e)) = o := by
      cases hp : s.segments.prev o with
      | none => rfl
      | some e => exact max_eq_left (hend e.1 e.2 hp)
    rw [hs]
    refine .inr ⟨by omega, ?_⟩
    simpa using hr
  · have hs : max o (segEnd (p, v)) = o + m := by
      unfold segEnd
      dsimp only
      omega
    rw [hp]
    dsimp only
    rw [hs]
    refine .inr ⟨by omega, ?_⟩
    simpa using hr

/-- A larger packet at a stored offset replaces the segment there. -/
theorem Tiled.insert_stored (h : Tiled S s) {o now : Nat} {d : Bytes} {v : RcvValue} (hne : d ≠ [])
    (hd : IsAt S o d) (hnext : s.nextInOrderOffsetToWaitFor ≤ o) (hg : s.segments.get? o = some v)
    (hroom : s.RoomFor o d.length (some v)) :
    ∃ s' delta st, s.insert o now d = some (s', delta, st) ∧ Inserted S s o d.length s' := by
  have hmem := SortedAssoc.get?_eq_some.mp hg
  have hpos := List.length_pos_iff.mpr hne
  unfold insert
  rw [if_neg (by omega), hg]
  dsimp only
  split_ifs with hle
  · refine ⟨_, _, _, rfl, h.inserted_self fun i h1 h2 => ?_⟩
    exact .inr ⟨_, hmem, h1, by unfold segEnd; dsimp only; omega⟩
  · have hlater : ∀ e ∈ s.segments.entries, o < e.1 → o + d.length ≤ e.1 := hroom.resolve_left hle
    have hsub : ∀ e ∈ (s.segments.erase o).entries, e ∈ s.segments.entries :=
      fun e he => (SortedAssoc.mem_erase.mp he).2
    refine ⟨_, _, _, rfl, h.inserted_put hsub hne hd hnext
      (fun e he hlt => h.disjoint e (hsub e he) _ hmem hlt) (fun e he hlt => hlater e (hsub e he) hlt)
      (fun e he => ?_) (fun i h1 h2 => .inl ⟨h1, h2⟩)⟩
    by_cases heo : e.1 = o
    · -- the replaced segment is a beginning of the new one
      obtain ⟨eo, ev⟩ := e
      dsimp only at heo
      subst heo
      obtain rfl := SortedAssoc.eq_of_mem he hmem
      refine .inr ⟨le_rfl, ?_⟩
      unfold segEnd
      dsimp only
      omega
    · exact .inl ⟨SortedAssoc.mem_erase.mpr ⟨heo, he⟩, heo⟩

/-- Where a packet for the free offset `o` begins to bring something new: what is
stored below `fo` ends there, and holds every byte between `o` and `fo`. -/
structure FreeFrom (s : RcvBuffer) (o fo : Nat) : Prop where
  le : o ≤ fo
  free : ∀ e ∈ s.segments.entries, e.1 ≠ o
  below : ∀ e ∈ s.segments.entries, e.1 < fo → segEnd e ≤ fo
  above : ∀ e ∈ s.segments.entries, o < e.1 → fo ≤ e.1
  held : ∀ i, o ≤ i → i < fo → ∃ e ∈ s.segments.entries, e.1 < o ∧ e.1 ≤ i ∧ i < segEnd e

theorem Tiled.freeFrom (h : Tiled S s) {o : Nat} (hg : s.segments.get? o = none) :
    FreeFrom s o (s.startAfterPrev o) := by
  have hfree := SortedAssoc.get?_eq_none.mp hg
  obtain ⟨hle, hleft, hright, hheld⟩ := h.startAfterPrev_spec o
  refine ⟨hle, hfree, fun e he hlt => ?_, hright, hheld⟩
  obtain hl | heq | hl := lt_trichotomy e.1 o
  · exact hleft e he hl
  · exact absurd heq (hfree e he)
  · have := hright e he hl
    omega

namespace FreeFrom

variable {o fo l now : Nat} {r : Bytes}

/-- No later segment is reached. -/
theorem inserted_far (hf : FreeFrom s o fo) (h : Tiled S s) (hne : r ≠ []) (hr : IsAt S fo r)
    (hnext : s.nextInOrderOffsetToWaitFor ≤ o) (hlen : fo + r.length = o + l)
    (hfar : ∀ p v, s.segments.next o = some (p, v) → fo + r.length ≤ p) :
    Inserted S s o l { s with segments := s.segments.put fo ⟨r, now⟩ } := by
  have hpos := List.length_pos_iff.mpr hne
  have hle := hf.le
  have hlater : ∀ e ∈ s.segments.entries, o < e.1 → o + l ≤ e.1 := by
    intro e he hlt
    cases hnx : s.segments.next o with
    | none =>
      have := SortedAssoc.next_eq_none.mp hnx e he
      omega
    | some q =>
      have h1 := hfar q.1 q.2 hnx
      have h2 := (SortedAssoc.next_spec hnx).2.2 e he hlt
      omega
  refine h.inserted_put (fun e he => he) hne hr (hnext.trans hle) hf.below
    (fun e he hlt => ?_) (fun e he => .inl ⟨he, fun heq => ?_⟩) (fun i h1 h2 => ?_)
  · have := hlater e he (by omega)
    omega
  · have := hf.free e he
    have := hlater e he (by omega)
    omega
  · by_cases hi : i < fo
    · obtain ⟨e, he, hlo, h3⟩ := hf.held i h1 hi
      exact .inr ⟨e, he, by omega, h3⟩
    · exact .inl ⟨by omega, by omega⟩

/-- The following segment is covered and removed, and no other is reached. -/
theorem inserted_over (hf : FreeFrom s o fo) (h : Tiled S s) (hne : r ≠ []) (hr : IsAt S fo r)
    (hnext : s.nextInOrderOffsetToWaitFor ≤ o) (hlen : fo + r.length = o + l) {p : Nat} {v : RcvValue}
    (hp : s.segments.next o = some (p, v)) (hover : p + v.data.length ≤ fo + r.length)
    (honly : ∀ e ∈ s.segments.entries, p < e.1 → o + l ≤ e.1) :
    Inserted S s o l { s with segments := (s.segments.erase p).put fo ⟨r, now⟩ } := by
  have hpos := List.length_pos_iff.mpr hne
  have hle := hf.le
  obtain ⟨hmem, hop, hmin⟩ := SortedAssoc.next_spec hp
  dsimp only at hop
  have hsub : ∀ e ∈ (s.segments.erase p).entries, e ∈ s.segments.entries :=
    fun e he => (SortedAssoc.mem_erase.mp he).2
  have hfar : ∀ e ∈ s.segments.entries, e.1 ≠ p → o < e.1 → o + l ≤ e.1 :=
    fun e he hnep hlt => honly e he (lt_of_le_of_ne (hmin e he hlt) (Ne.symm hnep))
  refine h.inserted_put hsub hne hr (hnext.trans hle) (fun e he => hf.below e (hsub e he))
    (fun e he hlt => ?_) (fun e he => ?_) (fun i h1 h2 => ?_)
  · have := hfar e (hsub e he) (SortedAssoc.mem_erase.mp he).1 (by omega)
    omega
  · by_cases hep : e.1 = p
    · obtain ⟨eo, ev⟩ := e
      dsimp only at hep
      subst hep
      obtain rfl := SortedAssoc.eq_of_mem he hmem
      exact .inr ⟨hf.above _ hmem hop, hover⟩
    · refine .inl ⟨SortedAssoc.mem_erase.mpr ⟨hep, he⟩, fun heq => ?_⟩
      have := hf.free e he
      have := hfar e he hep (by omega)
      omega
  · by_cases hi : i < fo
    · obtain ⟨e, he, hlo, h3⟩ := hf.held i h1 hi
      exact .inr ⟨e, SortedAssoc.mem_erase.mpr ⟨by omega, he⟩, by omega, h3⟩
    · exact .inl ⟨by omega, by omega⟩

/-- The packet ends inside the following segment, and is stored up to it. -/
theorem inserted_before (hf : FreeFrom s o fo) (h : Tiled S s) (hr : IsAt S fo r)
    (hnext : s.nextInOrderOffsetToWaitFor ≤ o) (hlen : fo + r.length = o + l) {p : Nat} {v : RcvValue}
    (hp : s.segments.next o = some (p, v)) (hgap : fo < p) (hreach : p < fo + r.length)
    (hinside : fo + r.length < p + v.data.length) :
    Inserted S s o l { s with segments := s.segments.put fo ⟨r.take (p - fo), now⟩ } := by
  have hle := hf.le
  obtain ⟨hmem, hop, hmin⟩ := SortedAssoc.next_spec hp
  dsimp only at hop
  have hslen : fo + (r.take (p - fo)).length = p := by
    rw [List.length_take]
    omega
  refine h.inserted_put (fun e he => he) ?_ (hr.take _) (hnext.trans hle) hf.below
    (fun e he hlt => ?_) (fun e he => .inl ⟨he, fun heq => ?_⟩) (fun i h1 h2 => ?_)
  · apply List.ne_nil_of_length_pos
    omega
  · rw [hslen]
    exact hmin e he (by omega)
  · have := hf.free e he
    have := hmin e he (by omega)
    omega
  · by_cases hi : i < fo
    · obtain ⟨e, he, hlo, h3⟩ := hf.held i h1 hi
      exact .inr ⟨e, he, by omega, h3⟩
    by_cases hip : i < p
    · exact .inl ⟨by omega, by omega⟩
    · refine .inr ⟨_, hmem, by dsimp only; omega, by dsimp only; omega, ?_⟩
      unfold segEnd
      dsimp only
      omega

end FreeFrom

/-- A packet at a free offset: its end behind the preceding segment is stored, up to
the following segment or over it. -/
theorem Tiled.insert_free (h : Tiled S s) (hS : S.length < 2 ^ 63) {o now : Nat} {d : Bytes}
    (hne : d ≠ []) (hd : IsAt S o d) (hnext : s.nextInOrderOffsetToWaitFor ≤ o)
    (hg : s.segments.get? o = none) (hroom : s.RoomFor o d.length none) :
    ∃ s' delta st, s.insert o now d = some (s', delta, st) ∧ Inserted S s o d.length s' := by
  have hpos := List.length_pos_iff.mpr hne
  have hf := h.freeFrom hg
  have hle := hf.le
  unfold insert
  rw [if_neg (by omega), hg]
  dsimp only
  obtain ⟨hcov, ht⟩ | ⟨hlt, ht⟩ := h.trimPrev_eq hd hne
  · refine ⟨s, 0, .duplicate, by simp [ht], h.inserted_self fun i h1 h2 => ?_⟩
    obtain ⟨e, he, _, h3⟩ := hf.held i h1 (by omega)
    exact .inr ⟨e, he, h3⟩
  have hlater := hroom.resolve_left (not_le.mpr hlt)
  generalize s.startAfterPrev o = fo at hf hle hlt ht hlater
  -- the rest of the packet, at the end of the preceding segment
  have hrest : IsAt S fo (d.drop (fo - o)) := by
    have := hd.drop (m := fo - o)
    rwa [Nat.add_sub_cancel' hle] at this
  have hlen : fo + (d.drop (fo - o)).length = o + d.length := by
    rw [List.length_drop]
    omega
  have hrne : d.drop (fo - o) ≠ [] := by
    apply List.ne_nil_of_length_pos
    omega
  obtain ⟨⟨segs, removed, stored⟩, hn⟩ := h.pieces.trimNext_ok hS hrest hrne fun n hn =>
    hf.above n (SortedAssoc.next_spec hn).1 (SortedAssoc.next_spec hn).2.1
  refine ⟨_, _, _, by simp only [ht, hn, Option.bind_eq_bind, Option.bind_some]; rfl, ?_⟩
  obtain ⟨hend, rfl, rfl⟩ | ⟨p, v, hp, hreach, hover, rfl, rfl⟩ |
    ⟨p, v, hp, hreach, hinside, rfl, rfl, _⟩ := trimNext_cases hn
  · exact hf.inserted_far h hrne hrest hnext hlen hend
  · obtain ⟨hmem, hop, _⟩ := SortedAssoc.next_spec hp
    exact hf.inserted_over h hrne hrest hnext hlen hp hover (hlater _ hmem hop (by dsimp only; omega)).2
  · obtain ⟨hmem, hop, _⟩ := SortedAssoc.next_spec hp
    have hend : p + v.data.length ≤ S.length := h.end_le hmem
    have hgap : fo < p := (hlater _ hmem hop (by dsimp only; omega)).1 (by
      unfold segEnd
      dsimp only
      omega)
    rw [sub64_of_le hgap.le (by omega)]
    exact hf.inserted_before h hrest hnext hlen hp hgap hreach hinside

theorem Tiled.insert (h : Tiled S s) (hS : S.length < 2 ^ 63) {o now : Nat} {d : Bytes}
    (hne : d ≠ []) (hd : IsAt S o d) (hsafe : s.InsertSafe o d.length) :
    ∃ s' delta st, s.insert o now d = some (s', delta, st) ∧ Inserted S s o d.length s' := by
  obtain hold | ⟨hnext, hroom⟩ := hsafe
  · refine ⟨s, 0, .duplicate, if_pos hold, h.inserted_self fun i _ hi => ?_⟩
    exact .inl (by omega)
  · cases hg : s.segments.get? o with
    | some v =>
      rw [hg] at hroom
      exact h.insert_stored hne hd hnext hg hroom
    | none =>
      rw [hg] at hroom
      exact h.insert_free hS hne hd hnext hg hroom

/-- Handing out the first segment keeps the tiling and what is covered. -/
theorem Tiled.erase_first (h : Tiled S s) {v : RcvValue}
    (hm : s.segments.min? = some (s.nextInOrderOffsetToWaitFor, v)) :
    Tiled S { s with segments := s.segments.erase s.nextInOrderOffsetToWaitFor
                     nextInOrderOffsetToWaitFor := s.nextInOrderOffsetToWaitFor + v.data.length } := by
  have hmem := (SortedAssoc.min?_spec hm).1
  have hsub : ∀ e ∈ (s.segments.erase s.nextInOrderOffsetToWaitFor).entries,
      e.1 ≠ s.nextInOrderOffsetToWaitFor ∧ e ∈ s.segments.entries := fun e he => SortedAssoc.mem_erase.mp he
  refine ⟨fun e he => h.nonempty e (hsub e he).2, fun e he => h.content e (hsub e he).2,
    fun e he => ?_, fun e he f hf => h.disjoint e (hsub e he).2 f (hsub f hf).2⟩
  have hge := h.above e (hsub e he).2
  exact h.disjoint _ hmem e (hsub e he).2 (lt_of_le_of_ne hge (Ne.symm (hsub e he).1))

theorem covered_erase_first {v : RcvValue}
    (hm : s.segments.min? = some (s.nextInOrderOffsetToWaitFor, v)) {i : Nat} (hi : Covered s i) :
    Covered { s with segments := s.segments.erase s.nextInOrderOffsetToWaitFor
                     nextInOrderOffsetToWaitFor := s.nextInOrderOffsetToWaitFor + v.data.length } i := by
  have hmem := (SortedAssoc.min?_spec hm).1
  obtain hi | ⟨e, he, h1, h2⟩ := hi
  · exact .inl (Nat.lt_add_right _ hi)
  · by_cases heq : e.1 = s.nextInOrderOffsetToWaitFor
    · obtain ⟨eo, ev⟩ := e
      dsimp only at heq
      subst heq
      obtain rfl := SortedAssoc.eq_of_mem he hmem
      exact .inl h2
    · exact .inr ⟨e, SortedAssoc.mem_erase.mpr ⟨heq, he⟩, h1, h2⟩

/-- When nothing is handed out, the byte at the delivery point is missing. -/
theorem Tiled.not_covered_next (h : Tiled S s)
    (hm : ∀ e, s.segments.min? = some e → e.1 ≠ s.nextInOrderOffsetToWaitFor) :
    ¬ Covered s s.nextInOrderOffsetToWaitFor := by
  intro hc
  obtain hc | ⟨e, he, h1, _⟩ := hc
  · exact absurd hc (lt_irrefl _)
  · cases hmin : s.segments.min? with
    | none =>
      rw [SortedAssoc.min?_eq_none.mp hmin] at he
      cases he
    | some f =>
      obtain ⟨hf, hle⟩ := SortedAssoc.min?_spec hmin
      have h3 := h.above f hf
      have h4 := hle e he
      exact hm f hmin (by omega)

end RcvBuffer

/-- A receive buffer in use: the packets it acknowledged (stream, offset, length) and
what each stream has delivered. -/
structure RcvRun where
  rb : ReceiveBuffer
  acked : List (Nat × Nat × Nat) := []
  delivered : Nat → Bytes := fun _ => []

inductive RcvOp where
  | insert (streamID offset nowNano : Nat) (data : Bytes)
  | remove (streamID : Nat)

namespace RcvOp

/-- The data is a non-empty slice of the stream's sequence at its true offset. -/
def Genuine (S : Nat → Bytes) : RcvOp → Prop
  | insert k o _ d => d ≠ [] ∧ IsAt (S k) o d
  | remove _ => True

end RcvOp

namespace RcvRun

def new (capacity : Int) : RcvRun := { rb := .new capacity }

def step (s : RcvRun) : RcvOp → Option RcvRun
  | .insert k o now d => (s.rb.insert k o now d).map fun r =>
    { s with rb := r.1, acked := if r.2 = .bufferFull then s.acked else s.acked ++ [(k, o, d.length)] }
  | .remove k =>
    let r := s.rb.removeOldestInOrder k
    some { s with rb := r.1, delivered := Function.update s.delivered k (s.delivered k ++ r.2.2.1.getD []) }

/-- A packet the buffer has no space for is dropped; any other has to be safe. -/
def StepSafe (s : RcvRun) : RcvOp → Prop
  | .insert k o _ d => s.rb.size + d.length > s.rb.capacity ∨ (s.rb.stream k).InsertSafe o d.length
  | .remove _ => True

/-- Bytes `[0, n)` of the stream all lie in acknowledged packets. -/
def AckedBelow (s : RcvRun) (k n : Nat) : Prop :=
  ∀ i < n, ∃ a ∈ s.acked, a.1 = k ∧ a.2.1 ≤ i ∧ i < a.2.1 + a.2.2

structure Inv (S : Nat → Bytes) (s : RcvRun) : Prop where
  tiled : ∀ k, (s.rb.stream k).Tiled (S k)
  delivered : ∀ k, (s.delivered k).length = (s.rb.stream k).nextInOrderOffsetToWaitFor
  acked : ∀ a ∈ s.acked, ∀ i, a.2.1 ≤ i → i < a.2.1 + a.2.2 → (s.rb.stream a.1).Covered i

variable {S : Nat → Bytes} {s t : RcvRun}

theorem inv_new (S : Nat → Bytes) (capacity : Int) : Inv S (new capacity) :=
  ⟨fun k => RcvBuffer.tiled_new (S k), fun _ => rfl, fun _ ha => by cases ha⟩

theorem step_insert (hi : Inv S s) (hS : ∀ k, (S k).length < 2 ^ 63) {k o now : Nat} {d : Bytes}
    (hg : RcvOp.Genuine S (.insert k o now d)) (hsafe : s.StepSafe (.insert k o now d)) :
    ∃ t, s.step (.insert k o now d) = some t ∧ Inv S t := by
  have hins : s.rb.size + d.length ≤ s.rb.capacity →
      ∃ s' delta st, (s.rb.stream k).insert o now d = some (s', delta, st) ∧
        RcvBuffer.Inserted (S k) (s.rb.stream k) o d.length s' := by
    intro hfit
    have hsafe' := hsafe.resolve_left (by omega)
    exact (hi.tiled k).insert (hS k) hg.1 hg.2 hsafe'
  obtain ⟨⟨rb', st⟩, hr⟩ := ReceiveBuffer.insert_eq_some (fun hfit => by
    obtain ⟨s', delta, st, h, _⟩ := hins hfit
    exact ⟨_, h⟩)
  have hstep : s.step (.insert k o now d) = some { s with
      rb := rb'
      acked := if st = .bufferFull then s.acked else s.acked ++ [(k, o, d.length)] } := by
    simp only [step, hr, Option.map_some]
  refine ⟨_, hstep, ?_⟩
  obtain ⟨_, rfl, _, _, hstr⟩ | ⟨hfit, hst, _, s', delta, hs, _, hstr⟩ := ReceiveBuffer.insert_cases hr
  · refine ⟨fun j => ?_, fun j => ?_, fun a ha => ?_⟩
    · exact hstr j ▸ hi.tiled j
    · exact hstr j ▸ hi.delivered j
    · exact hstr a.1 ▸ hi.acked a (by simpa using ha)
  · obtain ⟨s₁, delta₁, st₁, hs₁, hins⟩ := hins hfit
    rw [hs₁] at hs
    cases hs
    refine ⟨fun j => ?_, fun j => ?_, fun a ha i h1 h2 => ?_⟩
    · rw [hstr j]
      split_ifs with hj
      · exact hj ▸ hins.tiled
      · exact hi.tiled j
    · rw [hstr j]
      by_cases hj : j = k
      · rw [if_pos hj, hins.next, ← hj]
        exact hi.delivered j
      · rw [if_neg hj]
        exact hi.delivered j
    · rw [hstr a.1]
      simp only [hst, if_false] at ha
      obtain ha | ha := List.mem_append.mp ha
      · have hc := hi.acked a ha i h1 h2
        split_ifs with hj
        · exact hins.covered i (.inl (hj ▸ hc))
        · exact hc
      · obtain rfl := List.mem_singleton.mp ha
        rw [if_pos rfl]
        exact hins.covered i (.inr ⟨h1, h2⟩)

/-- A read hands out the segment at the delivery point, or leaves all as it is. -/
theorem step_remove_cases {k : Nat} (h : s.step (.remove k) = some t) :
    t.acked = s.acked ∧
    ((∃ v, (s.rb.stream k).segments.min? = some ((s.rb.stream k).nextInOrderOffsetToWaitFor, v) ∧
      (∀ j, t.rb.stream j = if j = k then
        { s.rb.stream k with
          segments := (s.rb.stream k).segments.erase (s.rb.stream k).nextInOrderOffsetToWaitFor
          nextInOrderOffsetToWaitFor := (s.rb.stream k).nextInOrderOffsetToWaitFor + v.data.length }
        else s.rb.stream j) ∧
      ∀ j, t.delivered j = if j = k then s.delivered k ++ v.data else s.delivered j) ∨
    ((∀ e, (s.rb.stream k).segments.min? = some e → e.1 ≠ (s.rb.stream k).nextInOrderOffsetToWaitFor) ∧
      (∀ j, t.rb.stream j = s.rb.stream j) ∧ ∀ j, t.delivered j = s.delivered j)) := by
  cases h
  have hstr := s.rb.removeOldestInOrder_stream k
  have hpkt := s.rb.removeOldestInOrder_packet k
  refine ⟨rfl, ?_⟩
  dsimp only
  rw [hpkt]
  obtain ⟨v, hm, hr⟩ | ⟨hr, hm⟩ := (s.rb.stream k).removeOldestInOrder_cases
  · rw [hr] at hstr ⊢
    refine .inl ⟨v, hm, hstr, fun j => ?_⟩
    by_cases hj : j = k
    · simp [hj]
    · simp [hj, Function.update_of_ne]
  · rw [hr] at hstr ⊢
    refine .inr ⟨hm, fun j => ?_, fun j => ?_⟩
    · rw [hstr j]
      split_ifs with hj
      · rw [hj]
      · rfl
    · by_cases hj : j = k
      · simp [hj]
      · simp [Function.update_of_ne hj]

theorem step_remove (hi : Inv S s) (k : Nat) (h : s.step (.remove k) = some t) : Inv S t := by
  obtain ⟨hack, ⟨v, hm, hstr, hdel⟩ | ⟨_, hstr, hdel⟩⟩ := step_remove_cases h
  · refine ⟨fun j => ?_, fun j => ?_, fun a ha i h1 h2 => ?_⟩
    · rw [hstr j]
      split_ifs with hj
      · exact hj ▸ (hi.tiled k).erase_first hm
      · exact hi.tiled j
    · rw [hstr j, hdel j]
      split_ifs with hj
      · rw [List.length_append, hi.delivered k]
      · exact hi.delivered j
    · rw [hstr a.1]
      have hc := hi.acked a (hack ▸ ha) i h1 h2
      split_ifs with hj
      · exact RcvBuffer.covered_erase_first hm (hj ▸ hc)
      · exact hc
  · refine ⟨fun j => ?_, fun j => ?_, fun a ha => ?_⟩
    · rw [hstr j]
      exact hi.tiled j
    · rw [hstr j, hdel j]
      exact hi.delivered j
    · rw [hstr a.1]
      exact hi.acked a (hack ▸ ha)

theorem step_total (hS : ∀ k, (S k).length < 2 ^ 63) (s : RcvRun) (op : RcvOp) (hi : Inv S s)
    (hok : op.Genuine S ∧ s.StepSafe op) : ∃ t, s.step op = some t ∧ Inv S t := by
  cases op with
  | insert k o now d => exact step_insert hi hS hok.1 hok.2
  | remove k => exact ⟨_, rfl, step_remove hi k rfl⟩

theorem run_removes_inv {k m : Nat} (hi : Inv S s)
    (h : run step s (List.replicate m (.remove k)) = some t) : Inv S t ∧ t.acked = s.acked := by
  have hstep : ∀ u op v, (Inv S u ∧ u.acked = s.acked) → op = .remove k → u.step op = some v →
      Inv S v ∧ v.acked = s.acked := by
    intro u op v hu hop hv
    subst hop
    exact ⟨step_remove hu.1 k hv, (step_remove_cases hv).1.trans hu.2⟩
  exact run_inv_along hstep ⟨hi, rfl⟩ (along_of_forall fun op hop => List.eq_of_mem_replicate hop) h

/-- Every call that returns data removes a segment, so a nil comes after at most
as many calls as there are segments. -/
theorem drains (k : Nat) (s : RcvRun) :
    ∃ m t, run step s (List.replicate m (.remove k)) = some t ∧
      (t.rb.removeOldestInOrder k).2.2.1 = none := by
  induction hn : (s.rb.stream k).segments.entries.length using Nat.strong_induction_on generalizing s with
  | _ n ih =>
    obtain ⟨v, hm, hr⟩ | ⟨hr, _⟩ := (s.rb.stream k).removeOldestInOrder_cases
    · have hmem := (SortedAssoc.min?_spec hm).1
      obtain ⟨t, ht⟩ : ∃ t, s.step (.remove k) = some t := ⟨_, rfl⟩
      have hstr : t.rb.stream k = (s.rb.stream k).removeOldestInOrder.1 := by
        cases ht
        exact (s.rb.removeOldestInOrder_stream k k).trans (if_pos rfl)
      have hlt : (t.rb.stream k).segments.entries.length < n := by
        rw [hstr, hr, ← hn]
        exact List.length_filter_lt_length_iff_exists.mpr ⟨_, hmem, by simp⟩
      obtain ⟨m, u, hu, hnil⟩ := ih _ hlt t rfl
      exact ⟨m + 1, u, (run_cons _ _ _ _ _).mpr ⟨t, ht, hu⟩, hnil⟩
    · refine ⟨0, s, rfl, ?_⟩
      rw [s.rb.removeOldestInOrder_packet k, hr]

/-- Once a call returns nil, everything acknowledged from 0 on has been delivered. -/
theorem delivered_of_nil (hi : Inv S s) {k n : Nat} (ha : s.AckedBelow k n)
    (hnil : (s.rb.removeOldestInOrder k).2.2.1 = none) : n ≤ (s.delivered k).length := by
  rw [hi.delivered k]
  rw [s.rb.removeOldestInOrder_packet k] at hnil
  obtain ⟨v, _, hr⟩ | ⟨_, hm⟩ := (s.rb.stream k).removeOldestInOrder_cases
  · rw [hr] at hnil
    cases hnil
  · by_contra hlt
    obtain ⟨a, hmem, hk, h1, h2⟩ := ha _ (not_le.mp hlt)
    have hc := hi.acked a hmem _ h1 h2
    rw [hk] at hc
    exact (hi.tiled k).not_covered_next hm hc

/-- If every packet is safe when it arrives, no insert panics and every
acknowledged byte is delivered by reading until nil. -/
theorem acked_bytes_delivered (S : Nat → Bytes) (hS : ∀ k, (S k).length < 2 ^ 63) (capacity : Int)
    (ops : List RcvOp) (hgen : ∀ op ∈ ops, op.Genuine S)
    (hsafe : Along step StepSafe (new capacity) ops) :
    ∃ s, run step (new capacity) ops = some s ∧ ∀ k n, s.AckedBelow k n →
      (∃ m t, run step s (List.replicate m (.remove k)) = some t ∧
        (t.rb.removeOldestInOrder k).2.2.1 = none) ∧
      ∀ m t, run step s (List.replicate m (.remove k)) = some t →
        (t.rb.removeOldestInOrder k).2.2.1 = none → n ≤ (t.delivered k).length := by
  obtain ⟨s, hs, hi⟩ := run_total_along (step_total hS) (inv_new S capacity)
    (along_and (along_of_forall hgen) hsafe)
  refine ⟨s, hs, fun k n ha => ⟨drains k s, fun m t ht hnil => ?_⟩⟩
  obtain ⟨hit, hacked⟩ := run_removes_inv hi ht
  apply delivered_of_nil hit ?_ hnil
  intro i hin
  rw [hacked]
  exact ha i hin

/-- The two halves of a packet in reverse order. -/
def swappedHalves : List RcvOp := [.insert 0 5 1 [5, 6, 7], .insert 0 0 2 [0, 1, 2, 3, 4], .remove 0]

theorem swappedHalves_delivered :
    ∃ s, run step (new 100) swappedHalves = some s ∧ s.AckedBelow 0 8 ∧
      ∀ m t, run step s (List.replicate m (.remove 0)) = some t →
        (t.rb.removeOldestInOrder 0).2.2.1 = none → 8 ≤ (t.delivered 0).length := by
  have hgen : ∀ op ∈ swappedHalves, op.Genuine fun _ => [0, 1, 2, 3, 4, 5, 6, 7] := by
    simp [swappedHalves, RcvOp.Genuine, IsAt]
  have hsafe : Along step StepSafe (new 100) swappedHalves :=
    along_cons (.inr (by decide)) rfl (along_cons (.inr (by decide)) rfl (along_cons trivial rfl trivial))
  obtain ⟨s, hs, h⟩ := acked_bytes_delivered (fun _ => [0, 1, 2, 3, 4, 5, 6, 7]) (fun _ => by decide) 100
    swappedHalves hgen hsafe
  have hacked : s.AckedBelow 0 8 := by
    cases hs
    intro i hi
    by_cases h5 : i < 5
    · exact ⟨(0, 0, 5), by decide, rfl, Nat.zero_le i, h5⟩
    · exact ⟨(0, 5, 3), by decide, rfl, not_lt.mp h5, hi⟩
  exact ⟨s, hs, hacked, (h 0 8 hacked).2⟩

/-- A packet [0, 8) is split on retransmission; its first half is delivered before
the late original and its second half arrive. -/
def lateOriginal : List RcvOp :=
  [.insert 0 0 1 [0, 1, 2, 3, 4], .remove 0, .insert 0 0 2 [0, 1, 2, 3, 4, 5, 6, 7], .insert 0 5 3 [5, 6, 7]]

/-- All eight bytes are acknowledged, but three of them are never delivered. -/
theorem lateOriginal_stuck :
    (∀ op ∈ lateOriginal, op.Genuine fun _ => [0, 1, 2, 3, 4, 5, 6, 7]) ∧
    ∃ s, run step (new 100) lateOriginal = some s ∧ s.AckedBelow 0 8 ∧
      (s.rb.removeOldestInOrder 0).2.2.1 = none ∧ (s.delivered 0).length = 5 := by
  refine ⟨by simp [lateOriginal, RcvOp.Genuine, IsAt], _, rfl, fun i hi => ?_, rfl, rfl⟩
  exact ⟨(0, 0, 8), by decide, rfl, Nat.zero_le i, hi⟩

end RcvRun

end Qotp
