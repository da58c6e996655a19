import Ftke.BinStream
import Ftke.Run

/-!
# Ftke.BinStream.Refine

A stream over fragments as a stream over bytes.

`ByteStream` is what the user of a stream sees: a byte sequence, a position and
a state.  Under a condition on the state before an operation, the operation on a
stream over any fragments does what it does there, and hence the same as on the
flat buffer.
-/

namespace Ftke.BinStream

/-- A byte sequence with a reading position. -/
structure ByteStream where
  bytes : List UInt8
  p : Nat
  state : StreamState

namespace ByteStream

/-- Read a byte; behind the end there is none and the stream fails. -/
def readUint8 (i : ByteStream) : UInt8 × ByteStream :=
  if h : i.p < i.bytes.length then
    (i.bytes[i.p], { i with p := i.p + 1
                            state := if i.p + 1 = i.bytes.length then .eof else i.state })
  else (0, { i with state := .fail })

theorem readUint8_of_lt {i : ByteStream} (h : i.p < i.bytes.length) : i.readUint8 =
    (i.bytes[i.p], { i with p := i.p + 1
                            state := if i.p + 1 = i.bytes.length then .eof else i.state }) :=
  dif_pos h

theorem readUint8_of_ge {i : ByteStream} (h : ¬ i.p < i.bytes.length) :
    i.readUint8 = (0, { i with state := .fail }) :=
  dif_neg h

/-- Read `k` bytes one after the other. -/
def readBytes : Nat → ByteStream → List UInt8 × ByteStream
  | 0, i => ([], i)
  | k + 1, i => (i.readUint8.1 :: (readBytes k i.readUint8.2).1, (readBytes k i.readUint8.2).2)

/-- Copy `size` bytes, or what is left of them. -/
def get (i : ByteStream) (size : Nat) : List UInt8 × ByteStream :=
  if i.p + size ≤ i.bytes.length then
    ((i.bytes.drop i.p).take size,
      { i with p := i.p + size
               state := if i.p + size = i.bytes.length then .eof else i.state })
  else (i.bytes.drop i.p, { i with state := .fail })

/-- Go to a position. -/
def seek (i : ByteStream) (absPosition : Nat) : ByteStream :=
  if absPosition < i.bytes.length then { i with p := absPosition }
  else { i with p := i.bytes.length
                state := if absPosition = i.bytes.length then .eof else .fail }

/-- Execute one operation. -/
def exec (e : Endian) (i : ByteStream) : Op → Value × ByteStream
  | .readUint8 => (.uint8 i.readUint8.1, i.readUint8.2)
  | .readUint16 => (.uint16 (e.uint16 (readBytes 2 i).1), (readBytes 2 i).2)
  | .readUint32 => (.uint32 (e.uint32 (readBytes 4 i).1), (readBytes 4 i).2)
  | .get size => (.bytes (i.get size.toNat).1, (i.get size.toNat).2)
  | .seek absPosition => (.void, i.seek absPosition.toNat)
  | .seekFromCurrentPosition offset => (.void, i.seek ((i.p + offset.toInt) % 2 ^ 32).toNat)
  | .tellg => (.position i.p, i)

end ByteStream

/-! ## A stream over fragments -/

/-- The current block stands between the fragments `pre` and `post`. -/
structure At (s : OsclBinStream) (pre post : List (List UInt8)) : Prop where
  frags : s.frags = pre ++ s.block :: post
  left : s.fragsLeft = post.length
  next : post ≠ [] → s.nextFrag = pre.length + 1
  pos_le : s.pos ≤ s.block.length
  nonempty : ∀ f ∈ s.frags, f ≠ []
  fits : s.frags.flatten.length < 2 ^ 32

/-- The stream holds the bytes of `i` and stands at its position. -/
def Pos (s : OsclBinStream) (i : ByteStream) : Prop :=
  ∃ pre post, At s pre post ∧ i.bytes = s.frags.flatten ∧ i.p = pre.flatten.length + s.pos

/-- The stream is in the same state, too. -/
def Sim (s : OsclBinStream) (i : ByteStream) : Prop := Pos s i ∧ s.state = i.state

namespace At

variable {s : OsclBinStream} {pre post : List (List UInt8)} {i : ByteStream}

theorem flatten_eq (h : At s pre post) :
    s.frags.flatten = pre.flatten ++ (s.block ++ post.flatten) := by
  rw [h.frags, List.flatten_append, List.flatten_cons]

theorem length_flatten (h : At s pre post) :
    s.frags.flatten.length = pre.flatten.length + (s.block.length + post.flatten.length) := by
  rw [h.flatten_eq, List.length_append, List.length_append]

theorem length_post_pos (h : At s pre post) (hpost : post ≠ []) : 0 < post.flatten.length := by
  obtain ⟨f, fs, rfl⟩ := List.exists_cons_of_ne_nil hpost
  have hf : f ≠ [] := h.nonempty f (by rw [h.frags]; simp)
  rw [List.flatten_cons, List.length_append]
  have := List.length_pos_of_ne_nil hf
  omega

theorem fragsLeft_eq_zero_iff (h : At s pre post) : s.fragsLeft = 0 ↔ post = [] := by
  rw [h.left, List.length_eq_zero_iff]

theorem tellg_eq (h : At s pre post) : s.tellg = pre.flatten.length + s.pos := by
  have hlen : s.frags.length - s.fragsLeft - 1 = pre.length := by
    rw [h.left, h.frags, List.length_append, List.length_cons]
    omega
  unfold OsclBinStream.tellg
  rw [hlen, h.frags, List.take_left', List.length_flatten]
  rfl

theorem drop_eq (h : At s pre post) (hp : i.p = pre.flatten.length + s.pos)
    (hb : i.bytes = s.frags.flatten) :
    i.bytes.drop i.p = s.block.drop s.pos ++ post.flatten := by
  rw [hb, hp, h.flatten_eq, ← List.drop_drop, List.drop_left', List.drop_append_of_le_length h.pos_le]
  rfl

end At

/-! ## Reading bytes -/

section Read

variable {s : OsclBinStream} {pre post : List (List UInt8)} {i : ByteStream}

theorem haveRoom_eq {size : Nat} (h : At s pre post) (hw : s.pos + size < 2 ^ 32) :
    s.haveRoomInCurrentBlock size = (decide (s.pos + size ≤ s.block.length),
      if s.pos + size = s.block.length ∧ post = [] then { s with state := .eof } else s) := by
  unfold OsclBinStream.haveRoomInCurrentBlock
  rw [wrap32, Nat.mod_eq_of_lt hw]
  simp only [h.fragsLeft_eq_zero_iff]
  split
  · next hlt => rw [if_neg (by omega), decide_eq_true (by omega)]
  · rfl

variable {fs : List (List UInt8)}

theorem nextBlock_eq {f : List UInt8} (h : At s pre (f :: fs)) :
    s.nextBlock = some { s with block := f, pos := 0, fragsLeft := fs.length
                                nextFrag := s.nextFrag + 1 } := by
  have hget : s.frags[s.nextFrag]? = some f := by
    rw [h.next (List.cons_ne_nil f fs), h.frags, List.getElem?_append_right (by omega)]
    simp
  unfold OsclBinStream.nextBlock
  rw [hget, Option.map_some, h.left, List.length_cons, Nat.add_sub_cancel]

theorem at_nextBlock {f : List UInt8} (h : At s pre (f :: fs)) {n : Nat}
    (hn : n ≤ f.length) : At { s with block := f, pos := n, fragsLeft := fs.length
                                      nextFrag := s.nextFrag + 1 } (pre ++ [s.block]) fs where
  frags := by rw [h.frags, List.append_assoc]; rfl
  left := rfl
  next _ := by
    show s.nextFrag + 1 = (pre ++ [s.block]).length + 1
    rw [h.next (List.cons_ne_nil f fs), List.length_append]
    rfl
  pos_le := hn
  nonempty := h.nonempty
  fits := h.fits

theorem At.move (h : At s pre post) {n : Nat} (hn : n ≤ s.block.length) (st : StreamState) :
    At { s with pos := n, state := st } pre post :=
  ⟨h.frags, h.left, h.next, hn, h.nonempty, h.fits⟩

theorem readUint8_inside (h : At s pre post) (hlt : s.pos < s.block.length) :
    s.readUint8 = some (s.block[s.pos], { s with
      pos := s.pos + 1
      state := if s.pos + 1 = s.block.length ∧ post = [] then .eof else s.state }) := by
  have hfits := h.fits
  rw [h.length_flatten] at hfits
  unfold OsclBinStream.readUint8
  rw [haveRoom_eq h (by omega)]
  simp only [decide_eq_true_eq, if_pos (show s.pos + 1 ≤ s.block.length by omega)]
  unfold OsclBinStream.fetch
  split <;> simp only [List.getElem?_eq_getElem hlt, Option.map_some]

theorem readUint8_crossing {f : List UInt8} (h : At s pre (f :: fs))
    (hend : s.pos = s.block.length) (hf : 0 < f.length) :
    s.readUint8 = some (f[0], { s with block := f, pos := 1, fragsLeft := fs.length
                                       nextFrag := s.nextFrag + 1 }) := by
  have hfits := h.fits
  rw [h.length_flatten] at hfits
  have hpost := h.length_post_pos (List.cons_ne_nil f fs)
  unfold OsclBinStream.readUint8
  rw [haveRoom_eq h (by omega), if_neg (by omega)]
  have hroom : ¬ s.pos + 1 ≤ s.block.length := by omega
  have hleft : s.fragsLeft ≠ 0 := by
    rw [h.left, List.length_cons]
    omega
  simp only [decide_eq_true_eq, if_neg hroom, if_pos hleft]
  rw [nextBlock_eq h, Option.bind_some, OsclBinStream.fetch]
  simp only [List.getElem?_eq_getElem hf, Option.map_some]

theorem readUint8_end (h : At s pre []) (hend : s.pos = s.block.length) (hw : s.pos + 1 < 2 ^ 32) :
    s.readUint8 = some (0, { s with state := .fail }) := by
  unfold OsclBinStream.readUint8
  rw [haveRoom_eq h hw, if_neg (by omega)]
  have hroom : ¬ s.pos + 1 ≤ s.block.length := by omega
  have hleft : ¬ s.fragsLeft ≠ 0 := by
    rw [h.left]
    simp
  simp only [decide_eq_true_eq, if_neg hroom, if_neg hleft]

/-- The length of the last fragment. -/
def lastLength (s : OsclBinStream) : Nat := (s.frags.getLast?.map List.length).getD 0

theorem lastLength_eq_one (h : At s pre post) (hone : post.flatten.length = 1) :
    lastLength s = 1 := by
  have hne : post ≠ [] := by
    rintro rfl
    simp at hone
  have hmem := List.getLast_mem hne
  have hle : (post.getLast hne).length ≤ post.flatten.length :=
    List.Sublist.length_le (List.sublist_flatten_of_mem hmem)
  have hpos : 0 < (post.getLast hne).length := List.length_pos_of_ne_nil
    (h.nonempty _ (by rw [h.frags]; exact List.mem_append_right _ (List.mem_cons_of_mem _ hmem)))
  have hlast : s.frags.getLast? = some (post.getLast hne) := by
    rw [h.frags, List.getLast?_append_of_ne_nil _ (List.cons_ne_nil _ _), List.getLast?_cons,
      List.getLast?_eq_some_getLast hne]
    rfl
  rw [lastLength, hlast, Option.map_some, Option.getD_some]
  omega

/-- What `Read_uint8` does to the state: the last byte of the stream sets
`EOF_STATE` unless it is a fragment of its own that was just crossed into. -/
structure StateAfter (s s' : OsclBinStream) (i : ByteStream) : Prop where
  behind : i.p = i.bytes.length → s'.state = .fail
  before : i.p + 1 < i.bytes.length → s'.state = s.state
  last : i.p + 1 = i.bytes.length →
    s'.state = .eof ∨ (s'.state = s.state ∧ s.fragsLeft ≠ 0 ∧ lastLength s = 1)

/-- **Read_uint8** returns the byte at the position and moves behind it. -/
theorem readUint8_pos (h : Pos s i) (hw : i.p + 1 < 2 ^ 32) :
    ∃ s', s.readUint8 = some (i.readUint8.1, s') ∧ Pos s' i.readUint8.2 ∧ s'.frags = s.frags ∧
      (s.fragsLeft = 0 → s'.fragsLeft = 0) ∧ StateAfter s s' i := by
  obtain ⟨pre, post, hat, hb, hp⟩ := h
  have hlen := hat.length_flatten
  have hpos := hat.pos_le
  rw [← hb] at hlen
  rcases Nat.lt_or_ge s.pos s.block.length with hlt | hge
  · -- inside the block
    have hi : i.p < i.bytes.length := by omega
    have hbyte : i.bytes[i.p] = s.block[s.pos] := by
      have hdrop := hat.drop_eq hp hb
      rw [List.drop_eq_getElem_cons hi, List.drop_eq_getElem_cons hlt] at hdrop
      exact (List.cons.inj hdrop).1
    have hend : s.pos + 1 = s.block.length ∧ post = [] ↔ i.p + 1 = i.bytes.length := by
      constructor
      · rintro ⟨h1, rfl⟩
        rw [List.flatten_nil, List.length_nil] at hlen
        omega
      · intro h1
        refine ⟨by omega, ?_⟩
        by_contra hne
        have := hat.length_post_pos hne
        omega
    have hread := readUint8_inside hat hlt
    rw [← hbyte] at hread
    rw [ByteStream.readUint8_of_lt hi]
    refine ⟨_, hread, ⟨pre, post, hat.move (by omega) _, hb, ?_⟩, rfl, id, ?_⟩
    · show i.p + 1 = pre.flatten.length + (s.pos + 1)
      omega
    · simp only [hend]
      exact ⟨fun h0 => by omega, fun h1 => if_neg (by omega), fun h1 => Or.inl (if_pos h1)⟩
  · have hend : s.pos = s.block.length := by omega
    cases post with
    | nil =>
      -- at the end of the stream
      rw [List.flatten_nil, List.length_nil] at hlen
      have hi : ¬ i.p < i.bytes.length := by omega
      rw [ByteStream.readUint8_of_ge hi]
      exact ⟨_, readUint8_end hat hend (by omega), ⟨pre, [], hat.move hpos _, hb, hp⟩, rfl, id,
        fun _ => rfl, fun h1 => by omega, fun h1 => by omega⟩
    | cons f fs =>
      -- across the border of the block
      have hf : 0 < f.length := List.length_pos_of_ne_nil
        (hat.nonempty f (by rw [hat.frags]; simp))
      have hpostlen : (f :: fs).flatten.length = f.length + fs.flatten.length := by
        rw [List.flatten_cons, List.length_append]
      have hi : i.p < i.bytes.length := by omega
      have hbyte : i.bytes[i.p] = f[0] := by
        have hdrop := hat.drop_eq hp hb
        rw [List.drop_eq_getElem_cons hi, List.drop_eq_nil_of_le hge, List.flatten_cons] at hdrop
        obtain ⟨x, f', rfl⟩ := List.exists_cons_of_length_pos hf
        exact (List.cons.inj hdrop).1
      have hread := readUint8_crossing hat hend hf
      rw [← hbyte] at hread
      have hleft : s.fragsLeft ≠ 0 := by
        rw [hat.left, List.length_cons]
        omega
      rw [ByteStream.readUint8_of_lt hi]
      refine ⟨_, hread, ⟨pre ++ [s.block], fs, at_nextBlock hat hf, hb, ?_⟩, rfl,
        fun h0 => absurd h0 hleft, fun h0 => by omega, fun _ => rfl,
        fun h1 => Or.inr ⟨rfl, hleft, lastLength_eq_one hat (by omega)⟩⟩
      rw [List.flatten_append, List.length_append, List.flatten_singleton]
      show i.p + 1 = pre.flatten.length + s.block.length + 1
      omega

/-- The bytes of an integer, one `Read_uint8` after the other: the state comes
out as it should unless the last of them is the last byte of the stream and a
fragment of its own. -/
theorem repeatRead_sim : ∀ {k : Nat} {s : OsclBinStream} {i : ByteStream}, 0 < k → Pos s i →
    s.state = i.state ∨ i.p = i.bytes.length → i.p + k < 2 ^ 32 →
    (i.p + k = i.bytes.length → s.fragsLeft = 0 ∨ lastLength s ≠ 1 ∨ s.state = .eof) →
    ∃ s', OsclBinStream.repeatRead OsclBinStream.readUint8 k s = some ((i.readBytes k).1, s') ∧
      Sim s' (i.readBytes k).2
  | 0, _, _, hk, _, _, _, _ => absurd hk (Nat.lt_irrefl 0)
  | k + 1, s, i, _, hpos, hstate, hw, hlast => by
    obtain ⟨s', hread, hpos', hfrags, hleft, hafter⟩ := readUint8_pos hpos (by omega)
    have hle : i.p ≤ i.bytes.length := by
      obtain ⟨pre, post, hat, hb, hp⟩ := hpos
      have := hat.length_flatten
      have := hat.pos_le
      rw [hb]
      omega
    -- whether the last of the bytes read leaves the right state
    have hlast' : i.p + 1 = i.bytes.length → k = 0 → s'.state = .eof := by
      intro h1 hk
      rcases hafter.last h1 with heof | ⟨hsame, hne, hone⟩
      · exact heof
      · rcases hlast (by omega) with h0 | hnot | heof
        · exact absurd h0 hne
        · exact absurd hone hnot
        · exact hsame.trans heof
    simp only [OsclBinStream.repeatRead, hread, Option.bind_eq_bind, Option.bind_some]
    rcases Nat.eq_zero_or_pos k with rfl | hk
    · refine ⟨s', rfl, hpos', ?_⟩
      show s'.state = i.readUint8.2.state
      rcases Nat.lt_or_ge i.p i.bytes.length with hlt | hge
      · rw [ByteStream.readUint8_of_lt hlt]
        rcases Nat.lt_or_ge (i.p + 1) i.bytes.length with hlt1 | hge1
        · rw [hafter.before hlt1, hstate.resolve_right (by omega)]
          exact (if_neg (by omega)).symm
        · rw [hlast' (by omega) rfl]
          exact (if_pos (by omega)).symm
      · rw [ByteStream.readUint8_of_ge (by omega)]
        exact hafter.behind (by omega)
    · have hstate' : s'.state = i.readUint8.2.state ∨
          i.readUint8.2.p = i.readUint8.2.bytes.length := by
        rcases Nat.lt_or_ge i.p i.bytes.length with hlt | hge
        · rw [ByteStream.readUint8_of_lt hlt]
          rcases Nat.lt_or_ge (i.p + 1) i.bytes.length with hlt1 | hge1
          · left
            rw [hafter.before hlt1, hstate.resolve_right (by omega)]
            exact (if_neg (by omega)).symm
          · right
            show i.p + 1 = i.bytes.length
            omega
        · rw [ByteStream.readUint8_of_ge (by omega)]
          exact Or.inl (hafter.behind (by omega))
      have hp' : i.readUint8.2.bytes = i.bytes ∧ i.readUint8.2.p ≤ i.p + 1 ∧
          (i.p = i.bytes.length → i.readUint8.2.p = i.p) ∧
          (i.p < i.bytes.length → i.readUint8.2.p = i.p + 1) := by
        rcases Nat.lt_or_ge i.p i.bytes.length with hlt | hge
        · rw [ByteStream.readUint8_of_lt hlt]
          exact ⟨rfl, Nat.le_refl _, fun h => absurd h (by omega), fun _ => rfl⟩
        · rw [ByteStream.readUint8_of_ge (by omega)]
          exact ⟨rfl, Nat.le_succ _, fun _ => rfl, fun h => absurd h (by omega)⟩
      obtain ⟨hb', hle', hend', hlt'⟩ := hp'
      obtain ⟨s'', hrest, hsim⟩ := repeatRead_sim hk hpos' hstate' (by omega) (by
        intro hsum
        rw [hb'] at hsum
        have hlt : i.p < i.bytes.length := by
          by_contra hge
          have := hend' (by omega)
          omega
        have hnext := hlt' hlt
        rcases hlast (by omega) with h0 | hnot | heof
        · exact Or.inl (hleft h0)
        · right; left
          rw [lastLength, hfrags]
          exact hnot
        · right; right
          exact (hafter.before (by omega)).trans heof)
      refine ⟨s'', ?_, hsim⟩
      simp only [hrest, Option.bind_some]
      rfl

theorem repeatRead_inside : ∀ {k : Nat} {s : OsclBinStream}, 0 < k → At s pre post →
    s.pos + k ≤ s.block.length →
    OsclBinStream.repeatRead OsclBinStream.readUint8 k s =
      OsclBinStream.repeatRead OsclBinStream.fetch k
        (if s.pos + k = s.block.length ∧ post = [] then { s with state := .eof } else s)
  | 0, _, hk, _, _ => absurd hk (Nat.lt_irrefl 0)
  | k + 1, s, _, hat, hle => by
    have hlt : s.pos < s.block.length := by omega
    have hread := readUint8_inside hat hlt
    rcases Nat.eq_zero_or_pos k with rfl | hk
    · simp only [OsclBinStream.repeatRead, hread, OsclBinStream.fetch]
      split <;> simp [*]
    · rw [if_neg (by omega)] at hread
      have ih := repeatRead_inside (s := { s with pos := s.pos + 1 }) hk (hat.move (by omega) _)
        (by show s.pos + 1 + k ≤ s.block.length; omega)
      have hsum : s.pos + 1 + k = s.pos + (k + 1) := by omega
      simp only [OsclBinStream.repeatRead, hread, Option.bind_eq_bind, Option.bind_some, ih, hsum]
      split <;> simp [OsclBinStream.fetch, List.getElem?_eq_getElem hlt]

theorem readBytes_eq {k : Nat} (hk : 0 < k) (h : At s pre post) (hw : s.pos + k < 2 ^ 32) :
    s.readBytes k = OsclBinStream.repeatRead OsclBinStream.readUint8 k s := by
  unfold OsclBinStream.readBytes
  rw [haveRoom_eq h hw]
  simp only [decide_eq_true_eq]
  split
  · next hle => exact (repeatRead_inside hk h hle).symm
  · next hgt => rw [if_neg (by omega)]

end Read

/-! ## get -/

section Get

variable {s : OsclBinStream} {pre post : List (List UInt8)} {i : ByteStream}

theorem getLoop_zero (n : Nat) (data : List UInt8) (s : OsclBinStream) :
    OsclBinStream.getLoop n data 0 s = some (data, s) := by
  cases n <;> rfl

/-- The loop of `get` copies the front of the fragments left and ends up behind
it, or at the end of the stream. -/
theorem getLoop_eq : ∀ {post pre : List (List UInt8)} {s : OsclBinStream} (data : List UInt8)
    (bytesLeft : Nat), At s pre post → post ≠ [] → 0 < bytesLeft →
    ∃ s' pre' post', OsclBinStream.getLoop post.length data bytesLeft s =
        some (data ++ post.flatten.take bytesLeft, s') ∧ At s' pre' post' ∧
      s'.frags = s.frags ∧ s'.state = s.state ∧
      pre'.flatten.length + s'.pos =
        pre.flatten.length + s.block.length + min bytesLeft post.flatten.length
  | [], _, _, _, _, _, hne, _ => absurd rfl hne
  | f :: fs, pre, s, data, bytesLeft, hat, _, hpos => by
    have hnext := nextBlock_eq hat
    have hstart : (pre ++ [s.block]).flatten.length = pre.flatten.length + s.block.length := by
      rw [List.flatten_append, List.length_append, List.flatten_singleton]
    simp only [List.length_cons, OsclBinStream.getLoop, if_neg (show ¬ bytesLeft = 0 by omega),
      hnext, Option.bind_eq_bind, Option.bind_some, Nat.zero_add, List.flatten_cons,
      List.length_append]
    rcases Nat.lt_or_ge f.length bytesLeft with hgt | hle
    · -- the whole fragment is copied
      have hat' := at_nextBlock hat (Nat.le_refl f.length)
      simp only [if_neg (show ¬ bytesLeft ≤ f.length by omega)]
      rw [List.take_append, List.take_of_length_le (Nat.le_of_lt hgt), List.take_length]
      cases fs with
      | nil =>
        refine ⟨_, _, _, by rw [List.flatten_nil, List.take_nil, List.append_nil]; rfl, hat', rfl,
          rfl, ?_⟩
        rw [hstart, List.flatten_nil, List.length_nil]
        show _ + f.length = _ + min bytesLeft (f.length + 0)
        omega
      | cons g gs =>
        obtain ⟨s', pre', post', hloop, hat'', hfrags, hst, hp⟩ :=
          getLoop_eq (data ++ f) (bytesLeft - f.length) hat'
            (List.cons_ne_nil g gs) (by omega)
        refine ⟨s', pre', post', ?_, hat'', hfrags, hst, ?_⟩
        · rw [← List.append_assoc]
          exact hloop
        · rw [hp, hstart]
          show _ + f.length + _ = _
          omega
    · -- the rest is in this fragment
      have hat' := at_nextBlock hat hle
      simp only [if_pos hle, Nat.sub_self, getLoop_zero]
      rw [List.take_append_of_le_length hle]
      refine ⟨_, _, _, rfl, hat', rfl, rfl, ?_⟩
      rw [hstart]
      show _ + bytesLeft = _
      omega

/-- Whether the stream is where `get` goes wrong: it copies to the very end of the
stream across a border without setting `EOF_STATE`, and it does not notice that
more is asked for than there is. -/
structure GetMeets (s : OsclBinStream) (size : Nat) : Prop where
  fits : s.tellg + size < 2 ^ 32
  last : s.tellg + size = s.frags.flatten.length →
    s.pos + size ≤ s.block.length ∨ s.state = .eof
  short : s.frags.flatten.length < s.tellg + size → s.state = .fail ∧ s.fragsLeft = 0

instance (s : OsclBinStream) (size : Nat) : Decidable (GetMeets s size) :=
  decidable_of_iff (s.tellg + size < 2 ^ 32 ∧
    (s.tellg + size = s.frags.flatten.length → s.pos + size ≤ s.block.length ∨ s.state = .eof) ∧
    (s.frags.flatten.length < s.tellg + size → s.state = .fail ∧ s.fragsLeft = 0))
    ⟨fun ⟨h1, h2, h3⟩ => ⟨h1, h2, h3⟩, fun ⟨h1, h2, h3⟩ => ⟨h1, h2, h3⟩⟩

theorem get_inside (size : UInt32) (h : At s pre post) (hw : s.pos + size.toNat < 2 ^ 32)
    (hroom : s.pos + size.toNat ≤ s.block.length) :
    s.get size = some ((s.block.drop s.pos).take size.toNat, { s with
      pos := s.pos + size.toNat
      state := if s.pos + size.toNat = s.block.length ∧ post = [] then .eof else s.state }) := by
  unfold OsclBinStream.get
  rw [haveRoom_eq h hw]
  simp only [decide_eq_true hroom, if_true]
  split <;> simp

theorem get_outside {size : UInt32} (h : At s pre post) (hw : s.pos + size.toNat < 2 ^ 32)
    (hroom : ¬ s.pos + size.toNat ≤ s.block.length) :
    s.get size = OsclBinStream.getLoop post.length (s.block.drop s.pos)
      (size.toNat - (s.block.length - s.pos)) s := by
  unfold OsclBinStream.get
  rw [haveRoom_eq h hw, if_neg (by omega)]
  simp only [decide_eq_false hroom, Bool.false_eq_true, if_false, h.left]

/-- **get** copies the bytes from the position on and moves behind them. -/
theorem get_sim {size : UInt32} (h : Sim s i) (hm : GetMeets s size.toNat) :
    ∃ s', s.get size = some ((i.get size.toNat).1, s') ∧ Sim s' (i.get size.toNat).2 := by
  obtain ⟨⟨pre, post, hat, hb, hp⟩, hst⟩ := h
  have hlen := hat.length_flatten
  have hpos := hat.pos_le
  have htellg := hat.tellg_eq
  have hdrop := hat.drop_eq hp hb
  rw [← hb] at hlen
  obtain ⟨hfits, hlast, hshort⟩ := hm
  rw [← hb, htellg] at hlast hshort
  rw [htellg] at hfits
  unfold ByteStream.get
  rw [hdrop]
  have hroomlen : (s.block.drop s.pos).length = s.block.length - s.pos := List.length_drop
  by_cases hroom : s.pos + size.toNat ≤ s.block.length
  · -- from the block
    have hend : s.pos + size.toNat = s.block.length ∧ post = [] ↔
        i.p + size.toNat = i.bytes.length := by
      constructor
      · rintro ⟨h1, rfl⟩
        rw [List.flatten_nil, List.length_nil] at hlen
        omega
      · intro h1
        refine ⟨by omega, ?_⟩
        by_contra hne
        have := hat.length_post_pos hne
        omega
    have hget := get_inside size hat (by omega) hroom
    simp only [hend] at hget
    rw [hget, if_pos (show i.p + size.toNat ≤ i.bytes.length by omega),
      List.take_append_of_le_length (by omega), hst]
    refine ⟨_, rfl, ⟨pre, post, hat.move hroom _, hb, ?_⟩, rfl⟩
    show i.p + size.toNat = pre.flatten.length + (s.pos + size.toNat)
    omega
  · rw [get_outside hat (by omega) hroom]
    by_cases hfit : i.p + size.toNat ≤ i.bytes.length
    · -- across borders
      have hne : post ≠ [] := by
        rintro rfl
        rw [List.flatten_nil, List.length_nil] at hlen
        omega
      obtain ⟨s', pre', post', hloop, hat', hfrags, hstate, hp'⟩ := getLoop_eq
        (s.block.drop s.pos) (size.toNat - (s.block.length - s.pos)) hat hne (by omega)
      rw [if_pos hfit, hloop, List.take_append, hroomlen,
        List.take_of_length_le (l := s.block.drop s.pos) (by omega)]
      refine ⟨s', rfl, ⟨pre', post', hat', hb.trans (congrArg _ hfrags.symm), ?_⟩, ?_⟩
      · show i.p + size.toNat = _
        omega
      · rw [hstate]
        show s.state = if i.p + size.toNat = i.bytes.length then .eof else i.state
        split
        · next hsum => exact (hlast (by omega)).resolve_left hroom
        · exact hst
    · -- more than there is
      obtain ⟨hfail, hleft⟩ := hshort (by omega)
      obtain rfl := hat.fragsLeft_eq_zero_iff.mp hleft
      rw [if_neg hfit, List.flatten_nil, List.append_nil]
      exact ⟨s, rfl, ⟨pre, [], hat, hb, hp⟩, hfail⟩

end Get

/-! ## Seek -/

theorem seekLoop_eq (absPosition : Nat) : ∀ (frags : List (List UInt8)) (fragIndex pos : Nat),
    pos ≤ absPosition → pos + frags.flatten.length ≤ absPosition ∧
        OsclBinStream.seekLoop absPosition frags fragIndex pos =
          (fragIndex + frags.length, pos + frags.flatten.length) ∨
      ∃ pre f post, frags = pre ++ f :: post ∧
        OsclBinStream.seekLoop absPosition frags fragIndex pos =
          (fragIndex + pre.length, pos + pre.flatten.length) ∧
        pos + pre.flatten.length ≤ absPosition ∧ absPosition < pos + pre.flatten.length + f.length
  | [], fragIndex, pos, h => Or.inl ⟨h, rfl⟩
  | f :: fs, fragIndex, pos, h => by
    unfold OsclBinStream.seekLoop
    split
    · next hge =>
      rcases seekLoop_eq absPosition fs (fragIndex + 1) (pos + f.length) hge with
        ⟨hend, hloop⟩ | ⟨pre, g, post, hfs, hloop, hle, hlt⟩
      · refine Or.inl ⟨?_, ?_⟩
        · rw [List.flatten_cons, List.length_append]
          omega
        · rw [hloop, List.flatten_cons, List.length_append, List.length_cons, Nat.add_assoc,
            Nat.add_assoc, Nat.add_comm 1]
      · refine Or.inr ⟨f :: pre, g, post, by rw [hfs]; rfl, ?_, ?_, ?_⟩
        · rw [hloop, List.flatten_cons, List.length_append, List.length_cons, Nat.add_assoc,
            Nat.add_assoc, Nat.add_comm 1]
        · rw [List.flatten_cons, List.length_append]
          omega
        · rw [List.flatten_cons, List.length_append]
          omega
    · next hlt =>
      exact Or.inr ⟨[], f, fs, rfl, rfl, by simpa using h, by simpa using hlt⟩

/-- **Seek** goes to the position, or to the end. -/
theorem seek_sim {s : OsclBinStream} {i : ByteStream} (h : Sim s i) (absPosition : Nat) :
    ∃ s', s.seek absPosition = some s' ∧ Sim s' (i.seek absPosition) := by
  obtain ⟨⟨pre, post, hat, hb, hp⟩, hst⟩ := h
  have hne : s.frags ≠ [] := by
    rw [hat.frags]
    exact List.append_ne_nil_of_right_ne_nil _ (List.cons_ne_nil _ _)
  unfold OsclBinStream.seek ByteStream.seek
  rcases seekLoop_eq absPosition s.frags 0 0 (Nat.zero_le _) with
    ⟨hend, hloop⟩ | ⟨pre', f, post', hfrags, hloop, hle, hlt⟩
  · -- behind the last fragment
    have hsplit := List.dropLast_append_getLast hne
    have hget : s.frags[s.frags.length - 1]? = some (s.frags.getLast hne) := by
      rw [← List.getLast?_eq_getElem?, List.getLast?_eq_some_getLast hne]
    rw [Nat.zero_add, Nat.zero_add] at hloop
    rw [Nat.zero_add] at hend
    rw [hloop]
    simp only [ge_iff_le, Nat.le_refl, if_true, hget, Option.map_some]
    rw [if_neg (show ¬ absPosition < i.bytes.length by rw [hb]; omega)]
    refine ⟨_, rfl, ⟨s.frags.dropLast, [], ?_, hb, ?_⟩, ?_⟩
    · exact ⟨hsplit.symm, rfl, fun h => absurd rfl h, Nat.le_refl _, hat.nonempty, hat.fits⟩
    · show i.bytes.length = s.frags.dropLast.flatten.length + (s.frags.getLast hne).length
      rw [hb]
      conv_lhs => rw [← hsplit]
      rw [List.flatten_append, List.length_append, List.flatten_singleton]
    · show (if absPosition = _ then _ else _) = if absPosition = _ then _ else _
      rw [hb]
  · have hlen : s.frags.length = pre'.length + (post'.length + 1) := by
      rw [hfrags, List.length_append, List.length_cons]
    have htotal : s.frags.flatten.length =
        pre'.flatten.length + (f.length + post'.flatten.length) := by
      rw [hfrags, List.flatten_append, List.flatten_cons, List.length_append, List.length_append]
    have hget : s.frags[pre'.length]? = some f := by
      rw [hfrags, List.getElem?_append_right (Nat.le_refl _), Nat.sub_self]
      rfl
    rw [Nat.zero_add, Nat.zero_add] at hloop
    rw [Nat.zero_add] at hle hlt
    rw [hloop]
    simp only [ge_iff_le, if_neg (show ¬ s.frags.length ≤ pre'.length by omega), hget,
      Option.map_some, if_pos (show absPosition - pre'.flatten.length ≤ f.length by omega)]
    rw [if_pos (show absPosition < i.bytes.length by rw [hb]; omega)]
    refine ⟨_, rfl, ⟨pre', post', ?_, hb, ?_⟩, hst⟩
    · refine ⟨hfrags, ?_, fun _ => rfl, ?_, hat.nonempty, hat.fits⟩
      · show s.frags.length - pre'.length - 1 = post'.length
        omega
      · show absPosition - pre'.flatten.length ≤ f.length
        omega
    · show absPosition = pre'.flatten.length + (absPosition - pre'.flatten.length)
      omega

end Ftke.BinStream
