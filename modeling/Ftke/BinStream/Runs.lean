import Ftke.BinStream.Refine

/-!
# Ftke.BinStream.Runs

The same operations on a stream over fragments and on a stream over the flat
buffer, side by side.

The two agree as long as no operation meets one of three slips: a read whose
last byte is the last of the stream and a fragment of its own, a `get` that
crosses a border and ends at the end of the stream — neither sets `EOF_STATE` —
and a `get` for more bytes than remain, which never sets `FAIL_STATE`.
-/

namespace Ftke.BinStream

/-! ## One operation -/

/-- Where an integer read of `k` bytes does what it should. -/
structure ReadMeets (s : OsclBinStream) (k : Nat) : Prop where
  fits : s.tellg + k < 2 ^ 32
  last : s.tellg + k = s.frags.flatten.length →
    s.fragsLeft = 0 ∨ lastLength s ≠ 1 ∨ s.state = .eof

instance (s : OsclBinStream) (k : Nat) : Decidable (ReadMeets s k) :=
  decidable_of_iff (s.tellg + k < 2 ^ 32 ∧ (s.tellg + k = s.frags.flatten.length →
    s.fragsLeft = 0 ∨ lastLength s ≠ 1 ∨ s.state = .eof))
    ⟨fun ⟨h1, h2⟩ => ⟨h1, h2⟩, fun ⟨h1, h2⟩ => ⟨h1, h2⟩⟩

/-- The states in which an operation does what it should. -/
def OsclBinStream.Meets (s : OsclBinStream) : Op → Prop
  | .readUint8 => ReadMeets s 1
  | .readUint16 => ReadMeets s 2
  | .readUint32 => ReadMeets s 4
  | .get size => GetMeets s size.toNat
  | .seek _ | .seekFromCurrentPosition _ | .tellg => True

instance (s : OsclBinStream) (op : Op) : Decidable (s.Meets op) :=
  match op with
  | .readUint8 => inferInstanceAs (Decidable (ReadMeets s 1))
  | .readUint16 => inferInstanceAs (Decidable (ReadMeets s 2))
  | .readUint32 => inferInstanceAs (Decidable (ReadMeets s 4))
  | .get size => inferInstanceAs (Decidable (GetMeets s size.toNat))
  | .seek _ | .seekFromCurrentPosition _ | .tellg => isTrue trivial

variable {s : OsclBinStream} {i : ByteStream}

theorem Sim.tellg_eq (h : Sim s i) : s.tellg = i.p := by
  obtain ⟨⟨pre, post, hat, -, hp⟩, -⟩ := h
  rw [hat.tellg_eq, hp]

theorem Sim.bytes_eq (h : Sim s i) : i.bytes = s.frags.flatten := by
  obtain ⟨⟨pre, post, -, hb, -⟩, -⟩ := h
  exact hb

theorem Sim.p_le (h : Sim s i) : i.p ≤ i.bytes.length := by
  obtain ⟨⟨pre, post, hat, hb, hp⟩, -⟩ := h
  have hlen := hat.length_flatten
  have hpos := hat.pos_le
  rw [hb]
  omega

theorem Sim.repeatRead (h : Sim s i) {k : Nat} (hk : 0 < k) (hm : ReadMeets s k) :
    ∃ s', OsclBinStream.repeatRead OsclBinStream.readUint8 k s = some ((i.readBytes k).1, s') ∧
      Sim s' (i.readBytes k).2 := by
  have htellg := h.tellg_eq
  refine repeatRead_sim hk h.1 (Or.inl h.2) (htellg ▸ hm.fits) fun hsum => hm.last ?_
  rw [htellg, hsum, h.bytes_eq]

theorem Sim.readBytes (h : Sim s i) {k : Nat} (hk : 0 < k) (hm : ReadMeets s k) :
    ∃ s', s.readBytes k = some ((i.readBytes k).1, s') ∧ Sim s' (i.readBytes k).2 := by
  have hread := h.repeatRead hk hm
  obtain ⟨⟨pre, post, hat, -, -⟩, -⟩ := h
  have hfits := hm.fits
  rw [hat.tellg_eq] at hfits
  rw [readBytes_eq hk hat (by omega)]
  exact hread

theorem Sim.readUint8 (h : Sim s i) (hm : ReadMeets s 1) :
    ∃ s', s.readUint8 = some (i.readUint8.1, s') ∧ Sim s' i.readUint8.2 := by
  obtain ⟨s', hread, hsim⟩ := h.repeatRead (Nat.zero_lt_one) hm
  cases hone : s.readUint8 with
  | none => simp [OsclBinStream.repeatRead, hone] at hread
  | some r =>
    obtain ⟨b, t⟩ := r
    simp only [OsclBinStream.repeatRead, hone, Option.bind_eq_bind, Option.bind_some] at hread
    obtain ⟨hb, rfl⟩ := Prod.mk.inj (Option.some.inj hread)
    have hval : b = i.readUint8.1 := (List.cons.inj hb).1
    exact ⟨t, by rw [hval], hsim⟩

/-- **One operation** on a stream over fragments does what it does on the bytes. -/
theorem Sim.exec (h : Sim s i) (e : Endian) {op : Op} (hm : s.Meets op) :
    ∃ s', s.exec e op = some ((i.exec e op).1, s') ∧ Sim s' (i.exec e op).2 := by
  cases op with
  | readUint8 =>
    obtain ⟨s', hread, hsim⟩ := h.readUint8 hm
    exact ⟨s', by rw [OsclBinStream.exec, hread]; rfl, hsim⟩
  | readUint16 =>
    obtain ⟨s', hread, hsim⟩ := h.readBytes (by decide) hm
    exact ⟨s', by rw [OsclBinStream.exec, OsclBinStream.readUint16, hread]; rfl, hsim⟩
  | readUint32 =>
    obtain ⟨s', hread, hsim⟩ := h.readBytes (by decide) hm
    exact ⟨s', by rw [OsclBinStream.exec, OsclBinStream.readUint32, hread]; rfl, hsim⟩
  | get size =>
    obtain ⟨s', hget, hsim⟩ := get_sim h hm
    exact ⟨s', by rw [OsclBinStream.exec, hget]; rfl, hsim⟩
  | seek absPosition =>
    obtain ⟨s', hseek, hsim⟩ := seek_sim h absPosition.toNat
    exact ⟨s', by rw [OsclBinStream.exec, hseek]; rfl, hsim⟩
  | seekFromCurrentPosition offset =>
    obtain ⟨s', hseek, hsim⟩ := seek_sim h ((i.p + offset.toInt) % 2 ^ 32).toNat
    refine ⟨s', ?_, hsim⟩
    rw [OsclBinStream.exec, OsclBinStream.seekFromCurrentPosition, h.tellg_eq, hseek]
    rfl
  | tellg => exact ⟨s, by rw [OsclBinStream.exec, h.tellg_eq]; rfl, h⟩

/-! ## The fragments stay -/

section Frame

variable {s s' : OsclBinStream}

theorem haveRoom_frags (s : OsclBinStream) (size : Nat) :
    (s.haveRoomInCurrentBlock size).2.frags = s.frags := by
  simp only [OsclBinStream.haveRoomInCurrentBlock]
  split
  · rfl
  · dsimp only
    split <;> rfl

theorem fetch_frags {b : UInt8} (h : s.fetch = some (b, s')) : s'.frags = s.frags := by
  obtain ⟨_, -, hs⟩ := Option.map_eq_some_iff.mp h
  rw [← (Prod.mk.inj hs).2]

theorem nextBlock_frags (h : s.nextBlock = some s') : s'.frags = s.frags := by
  obtain ⟨_, -, hs⟩ := Option.map_eq_some_iff.mp h
  rw [← hs]

theorem readUint8_frags {b : UInt8} (h : s.readUint8 = some (b, s')) : s'.frags = s.frags := by
  have hroom := haveRoom_frags s 1
  simp only [OsclBinStream.readUint8] at h
  split at h
  · exact (fetch_frags h).trans hroom
  · split at h
    · obtain ⟨t, ht, hf⟩ := Option.bind_eq_some_iff.mp h
      exact (fetch_frags hf).trans ((nextBlock_frags ht).trans hroom)
    · rw [← (Prod.mk.inj (Option.some.inj h)).2]
      exact hroom

theorem repeatRead_frags {read : OsclBinStream → Option (UInt8 × OsclBinStream)}
    (hread : ∀ s b s', read s = some (b, s') → s'.frags = s.frags) :
    ∀ {k : Nat} {s : OsclBinStream} {bs : List UInt8} {s' : OsclBinStream},
      OsclBinStream.repeatRead read k s = some (bs, s') → s'.frags = s.frags
  | 0, _, _, _, h => by rw [← (Prod.mk.inj (Option.some.inj h)).2]
  | k + 1, s, bs, s', h => by
    simp only [OsclBinStream.repeatRead, Option.bind_eq_bind, Option.bind_eq_some_iff] at h
    obtain ⟨⟨b, t⟩, ht, ⟨bs', t'⟩, ht', heq⟩ := h
    rw [← (Prod.mk.inj (Option.some.inj heq)).2]
    exact (repeatRead_frags hread ht').trans (hread _ _ _ ht)

theorem readBytes_frags {k : Nat} {bs : List UInt8} (h : s.readBytes k = some (bs, s')) :
    s'.frags = s.frags := by
  have hroom := haveRoom_frags s k
  simp only [OsclBinStream.readBytes] at h
  split at h
  · exact (repeatRead_frags (fun _ _ _ => fetch_frags) h).trans hroom
  · exact (repeatRead_frags (fun _ _ _ => readUint8_frags) h).trans hroom

theorem getLoop_frags : ∀ {n : Nat} {data : List UInt8} {left : Nat} {s : OsclBinStream}
    {bs : List UInt8} {s' : OsclBinStream},
    OsclBinStream.getLoop n data left s = some (bs, s') → s'.frags = s.frags
  | 0, _, _, _, _, _, h => by rw [← (Prod.mk.inj (Option.some.inj h)).2]
  | n + 1, data, left, s, bs, s', h => by
    unfold OsclBinStream.getLoop at h
    split at h
    · rw [← (Prod.mk.inj (Option.some.inj h)).2]
    · obtain ⟨t, ht, hloop⟩ := Option.bind_eq_some_iff.mp h
      have hnext := nextBlock_frags ht
      exact (getLoop_frags hloop).trans hnext

theorem get_frags {size : UInt32} {bs : List UInt8} (h : s.get size = some (bs, s')) :
    s'.frags = s.frags := by
  have hroom := haveRoom_frags s size.toNat
  simp only [OsclBinStream.get] at h
  split at h
  · split at h
    · rw [← (Prod.mk.inj (Option.some.inj h)).2]
      exact hroom
    · contradiction
  · exact (getLoop_frags h).trans hroom

theorem seek_frags {absPosition : Nat} (h : s.seek absPosition = some s') : s'.frags = s.frags := by
  simp only [OsclBinStream.seek] at h
  split at h
  · obtain ⟨_, -, hs⟩ := Option.map_eq_some_iff.mp h
    rw [← hs]
  · obtain ⟨_, -, hs⟩ := Option.map_eq_some_iff.mp h
    rw [← hs]
    split <;> rfl

theorem exec_frags {e : Endian} {op : Op} {v : Value} (h : s.exec e op = some (v, s')) :
    s'.frags = s.frags := by
  cases op <;> simp only [OsclBinStream.exec, OsclBinStream.readUint16, OsclBinStream.readUint32,
    Option.map_map] at h
  case tellg => rw [← (Prod.mk.inj (Option.some.inj h)).2]
  all_goals
    obtain ⟨r, hr, hs⟩ := Option.map_eq_some_iff.mp h
    have hs' := (Prod.mk.inj hs).2
    subst hs'
  case readUint8 => exact readUint8_frags hr
  case readUint16 => exact readBytes_frags hr
  case readUint32 => exact readBytes_frags hr
  case get => exact get_frags hr
  case seek => exact seek_frags hr
  case seekFromCurrentPosition => exact seek_frags hr

end Frame

/-! ## Reads for more than there is -/

/-- How many bytes an operation asks for. -/
def Op.asked : Op → Nat
  | .readUint8 => 1
  | .readUint16 => 2
  | .readUint32 => 4
  | .get size => size.toNat
  | .seek _ | .seekFromCurrentPosition _ | .tellg => 0

theorem ByteStream.readBytes_short : ∀ {k : Nat} {i : ByteStream}, i.p ≤ i.bytes.length →
    i.bytes.length < i.p + k → (i.readBytes k).2.state = .fail
  | 0, i, hle, hlt => by omega
  | k + 1, i, hle, hlt => by
    show (ByteStream.readBytes k i.readUint8.2).2.state = .fail
    rcases Nat.lt_or_ge i.p i.bytes.length with hin | hend
    · refine readBytes_short ?_ ?_
      · rw [readUint8_of_lt hin]
        exact hin
      · rw [readUint8_of_lt hin]
        show i.bytes.length < i.p + 1 + k
        omega
    · rw [readUint8_of_ge (by omega)]
      rcases Nat.eq_zero_or_pos k with rfl | hk
      · rfl
      · refine readBytes_short hle ?_
        show i.bytes.length < i.p + k
        omega

theorem ByteStream.exec_short (e : Endian) {i : ByteStream} {op : Op} (hle : i.p ≤ i.bytes.length)
    (hlt : i.bytes.length < i.p + op.asked) : (i.exec e op).2.state = .fail := by
  cases op with
  | readUint8 => exact readBytes_short (k := 1) hle hlt
  | readUint16 => exact readBytes_short hle hlt
  | readUint32 => exact readBytes_short hle hlt
  | get size =>
    show (i.get size.toNat).2.state = .fail
    rw [ByteStream.get, if_neg (show ¬ i.p + size.toNat ≤ _ from Nat.not_le.mpr hlt)]
  | seek _ | seekFromCurrentPosition _ | tellg =>
    rw [Op.asked] at hlt
    omega

/-! ## Both streams -/

/-- The two streams, what their operations returned, and whether the last one was
a read for more bytes than remained. -/
structure Session where
  frag : OsclBinStream
  flat : OsclBinStream
  fragOut : List Value
  flatOut : List Value
  short : Bool
deriving DecidableEq

namespace Session

/-- One operation on both. -/
def step (e : Endian) (s : Session) (op : Op) : Option Session := do
  let (v, frag) ← s.frag.exec e op
  let (w, flat) ← s.flat.exec e op
  return { frag, flat, fragOut := s.fragOut ++ [v], flatOut := s.flatOut ++ [w]
           short := s.flat.frags.flatten.length < s.flat.tellg + op.asked }

/-- The streams right after `Attach`, each an object used before or not. -/
inductive Start (frags : List (List UInt8)) : Session → Prop
  | mk (s0 s1 : OsclBinStream) {frag : OsclBinStream} (h : s0.attachFragments frags = some frag) :
      Start frags ⟨frag, s1.attach frags.flatten, [], [], false⟩

/-- The fragmented stream is the flat one, as far as its user can see, and a read
for more than remained has failed. -/
structure Good (s : Session) : Prop where
  values : s.fragOut = s.flatOut
  position : s.frag.tellg = s.flat.tellg
  state : s.frag.state = s.flat.state
  short : s.short → s.frag.state = .fail ∧ s.flat.state = .fail

/-- Both hold the same bytes at the same position in the same state. -/
def Inv (s : Session) : Prop :=
  ∃ i : ByteStream, Sim s.frag i ∧ Sim s.flat i ∧ s.flat.frags.length = 1 ∧
    s.fragOut = s.flatOut ∧ (s.short → i.state = .fail)

theorem inv_start {frags : List (List UInt8)} (hne : ∀ f ∈ frags, f ≠ [])
    (hfits : frags.flatten.length < 2 ^ 32) {s : Session} (h : Start frags s) : s.Inv := by
  obtain ⟨s0, s1, h⟩ := h
  cases frags with
  | nil => contradiction
  | cons f fs =>
    obtain rfl := Option.some.inj h
    have hflat : (f :: fs).flatten ≠ [] := fun h0 =>
      hne f List.mem_cons_self (List.append_eq_nil_iff.mp h0).1
    refine ⟨⟨(f :: fs).flatten, 0, .good⟩, ⟨⟨[], fs, ?_, rfl, rfl⟩, rfl⟩,
      ⟨⟨[], [], ?_, ?_, rfl⟩, rfl⟩, rfl, rfl, fun h0 => absurd h0 Bool.false_ne_true⟩
    · exact ⟨rfl, rfl, fun h0 => if_neg h0, Nat.zero_le _, hne, hfits⟩
    · refine ⟨rfl, rfl, fun h0 => absurd rfl h0, Nat.zero_le _, fun g hg => ?_, ?_⟩
      · rw [List.mem_singleton.mp hg]
        exact hflat
      · show [(f :: fs).flatten].flatten.length < 2 ^ 32
        rw [List.flatten_singleton]
        exact hfits
    · show _ = [(f :: fs).flatten].flatten
      rw [List.flatten_singleton]

theorem Inv.good {s : Session} (h : s.Inv) : s.Good := by
  obtain ⟨i, hfrag, hflat, -, hout, hshort⟩ := h
  exact
    { values := hout
      position := hfrag.tellg_eq.trans hflat.tellg_eq.symm
      state := hfrag.2.trans hflat.2.symm
      short := fun hs => ⟨hfrag.2.trans (hshort hs), hflat.2.trans (hshort hs)⟩ }

theorem meets_flat {frag flat : OsclBinStream} {i : ByteStream} (hfrag : Sim frag i)
    (hflat : Sim flat i) (hone : flat.frags.length = 1) {op : Op} (hm : frag.Meets op) :
    flat.Meets op := by
  have htellg := hfrag.tellg_eq.trans hflat.tellg_eq.symm
  have hbytes := hfrag.bytes_eq.symm.trans hflat.bytes_eq
  have hstate := hfrag.2.trans hflat.2.symm
  obtain ⟨⟨pre, post, hat, -, -⟩, -⟩ := hflat
  have hnil : pre = [] ∧ post = [] := by
    have hlen := congrArg List.length hat.frags
    rw [hone, List.length_append, List.length_cons] at hlen
    exact ⟨List.length_eq_zero_iff.mp (by omega), List.length_eq_zero_iff.mp (by omega)⟩
  obtain ⟨rfl, rfl⟩ := hnil
  have hleft : flat.fragsLeft = 0 := hat.left
  have hread : ∀ k, ReadMeets frag k → ReadMeets flat k := fun k h =>
    ⟨htellg ▸ h.fits, fun _ => Or.inl hleft⟩
  cases op with
  | readUint8 => exact hread 1 hm
  | readUint16 => exact hread 2 hm
  | readUint32 => exact hread 4 hm
  | get size =>
    have hlen := hat.length_flatten
    have hpos := hat.tellg_eq
    rw [List.flatten_nil, List.length_nil] at hlen hpos
    refine ⟨htellg ▸ hm.fits, fun hsum => Or.inl (by omega), fun hlt => ⟨?_, hleft⟩⟩
    rw [← hbytes, ← htellg] at hlt
    exact hstate ▸ (hm.short hlt).1
  | seek _ | seekFromCurrentPosition _ | tellg => trivial

/-- **Step**: an operation that meets its condition is defined on both streams
and keeps them together. -/
theorem Inv.step (e : Endian) {s : Session} (h : s.Inv) {op : Op} (hm : s.frag.Meets op) :
    ∃ t, s.step e op = some t ∧ t.Inv := by
  obtain ⟨i, hfrag, hflat, hone, hout, -⟩ := h
  obtain ⟨frag, hexec, hsim⟩ := hfrag.exec e hm
  obtain ⟨flat, hexec', hsim'⟩ := hflat.exec e (meets_flat hfrag hflat hone hm)
  have hstep : s.step e op = some ⟨frag, flat, s.fragOut ++ [(i.exec e op).1],
      s.flatOut ++ [(i.exec e op).1],
      s.flat.frags.flatten.length < s.flat.tellg + op.asked⟩ := by
    simp only [Session.step, hexec, hexec', Option.bind_eq_bind, Option.bind_some]
    rfl
  refine ⟨_, hstep, (i.exec e op).2, hsim, hsim', ?_, ?_, ?_⟩
  · rw [exec_frags hexec', hone]
  · rw [hout]
  · intro hs
    rw [hflat.tellg_eq, ← hflat.bytes_eq, decide_eq_true_eq] at hs
    exact ByteStream.exec_short e hfrag.p_le hs

/-- The condition of a run: every operation meets its own. -/
def Meets (s : Session) (op : Op) : Prop := s.frag.Meets op

instance (s : Session) (op : Op) : Decidable (s.Meets op) :=
  inferInstanceAs (Decidable (s.frag.Meets op))

/-- **Fragments and flat buffer agree**: over any partition into non-empty
fragments, in every run whose operations meet their condition, values, positions
and states are the same and short reads have failed; and no operation that meets
its condition is undefined. -/
theorem agree_of_run (e : Endian) (frags : List (List UInt8)) (hne : ∀ f ∈ frags, f ≠ [])
    (hfits : frags.flatten.length < 2 ^ 32) (start : Session) (hstart : Start frags start)
    (ops : List Op) (s : Session) (h : Run (guarded Meets (stepOf (step e))) start ops s) :
    s.Good ∧ ∀ op, s.Meets op → ∃ t, s.step e op = some t := by
  have hinv : s.Inv := by
    refine h.invariant (inv_start hne hfits hstart) ?_
    rintro a op b ha ⟨hm, hab⟩
    obtain ⟨t, ht, hinv⟩ := ha.step e hm
    obtain rfl : t = b := Option.some.inj (ht.symm.trans hab)
    exact hinv
  exact ⟨hinv.good, fun op hm => (hinv.step e hm).imp fun _ ht => ht.1⟩

/-- A stream object that was never attached. -/
def fresh : OsclBinStream := ⟨.good, [], 0, 0, 0, []⟩

/-- Three fragments, read across both borders and over the end, and once more
from the middle. -/
theorem agree_of_run_example : ∃ s : Session, s.Good ∧ s.short ∧ s.frag.tellg = 6 := by
  refine ⟨_, (agree_of_run .big [[1], [2, 3], [4, 5, 6]] (by decide) (by decide)
    ⟨⟨.good, [1], 0, 1, 2, [[1], [2, 3], [4, 5, 6]]⟩, fresh.attach [1, 2, 3, 4, 5, 6], [], [], false⟩
    (.mk fresh fresh rfl)
    [.readUint16, .get 2, .readUint32, .seekFromCurrentPosition (-4), .tellg, .get 3, .seek 5,
      .readUint16] _ (Run.of_foldlM_guarded rfl)).1, by decide, by decide⟩

/-- **A last fragment of one byte**: after reading both bytes of `[1], [2]` the flat
stream is at its end and the fragmented one still good. -/
theorem last_fragment_not_eof : ¬ ∀ (e : Endian) (frags : List (List UInt8)),
    (∀ f ∈ frags, f ≠ []) → frags.flatten.length < 2 ^ 32 → ∀ (start : Session),
      Start frags start → ∀ (ops : List Op) (s : Session),
        Run (stepOf (step e)) start ops s → s.Good := by
  intro h
  have hrun := Run.of_foldlM (f := step .big) (l := [.readUint8, .readUint8])
    (s := ⟨⟨.good, [1], 0, 1, 1, [[1], [2]]⟩, fresh.attach [1, 2], [], [], false⟩) rfl
  have hstate := (h .big [[1], [2]] (by decide) (by decide) _ (.mk fresh fresh rfl) _ _ hrun).state
  exact absurd hstate (by decide)

end Session

end Ftke.BinStream
