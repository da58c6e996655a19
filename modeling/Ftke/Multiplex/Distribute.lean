import Ftke.Multiplex.Expansion

/-!
# Ftke.Multiplex.Distribute

`BreakPduData` against the multiplex table entry: which byte goes to which channel.

The channels do not change the way through the entry, so `BreakPduData` is the
pass of `Ftke.Multiplex.Expansion` with the channels looked up
(`breakElements_mirrors`), and it distributes a MUX-PDU as the entry says if and
only if the PDU ends on the first pass (`distributes_iff`).
-/

namespace Ftke.Multiplex

variable {σ : Type*}

/-! ## What has been handed over -/

/-- The bytes of the calls of `AlPduData`: the channel and the position of each. -/
def handedOver (handed : List Handover) : List (Nat × Nat) :=
  handed.flatMap fun h => (List.range' h.pdu h.n.toNat).map (Prod.mk h.channel)

mutual

def elementLcns : MultiplexElement → List UInt16
  | .logicalChannelNumber lcn _ => [lcn]
  | .subElementList elements _ => lcns elements
termination_by structural element => element

/-- The logical channels of an entry. -/
def lcns : List MultiplexElement → List UInt16
  | [] => []
  | element :: rest => elementLcns element ++ lcns rest
termination_by structural elements => elements

end

/-- Every logical channel of the entry is open for incoming data. -/
def AllOpen (channels : List (Option (IncomingChannel σ))) (elements : List MultiplexElement) : Prop :=
  ∀ lcn ∈ lcns elements, (findIncoming channels lcn).isSome

instance (channels : List (Option (IncomingChannel σ))) (elements : List MultiplexElement) :
    Decidable (AllOpen channels elements) :=
  List.decidableBAll _ _

/-! ## Channels do not come or go -/

/-- The same numbers are open. -/
def SameOpen (m m' : CPVH223Multiplex σ) : Prop :=
  ∀ lcn, findIncoming m'.iIncomingChannels lcn = findIncoming m.iIncomingChannels lcn

theorem findIncoming_modify (channels : List (Option (IncomingChannel σ))) (f : σ → σ)
    (lcn : UInt16) (i : Nat) :
    findIncoming (channels.modify i (Option.map fun rep => { rep with state := f rep.state })) lcn =
      findIncoming channels lcn := by
  induction channels generalizing i with
  | nil => simp
  | cons channel rest ih =>
    cases i with
    | zero => cases channel <;> rfl
    | succ i =>
      simp only [findIncoming] at ih
      simp only [findIncoming, List.modify_succ_cons, List.findIdx?_cons, ih]

theorem sameOpen_setState (m : CPVH223Multiplex σ) (i : Nat) (f : σ → σ) :
    SameOpen m (m.setState i f) :=
  fun lcn => findIncoming_modify m.iIncomingChannels f lcn i

variable (code : ChannelCode σ)

theorem sameOpen_detectData (m : CPVH223Multiplex σ) (i : Nat) : SameOpen m (detectData code i m) := by
  intro lcn
  rw [detectData]
  split
  · split <;> rfl
  · rfl

theorem sameOpen_afterData (m : CPVH223Multiplex σ) (i s : Nat) : SameOpen m (afterData code i s m) := by
  intro lcn
  rw [afterData]
  split
  · split <;> rfl
  · exact sameOpen_setState m i _ lcn

/-- From `m` to `m'` these bytes were handed over. -/
structure Mirrors (octets : List (UInt16 × Nat)) (m m' : Demux σ) : Prop where
  sameOpen : SameOpen m.toCPVH223Multiplex m'.toCPVH223Multiplex
  handed : (handedOver m'.handed).map (Prod.map some id) = (handedOver m.handed).map (Prod.map some id) ++
    octets.map (Prod.map (findIncoming m.iIncomingChannels) id)

theorem Mirrors.refl (m : Demux σ) : Mirrors [] m m :=
  ⟨fun _ => rfl, by simp⟩

theorem Mirrors.trans {o o' : List (UInt16 × Nat)} {m m' m'' : Demux σ} (h : Mirrors o m m')
    (h' : Mirrors o' m' m'') : Mirrors (o ++ o') m m'' := by
  refine ⟨fun lcn => (h'.sameOpen lcn).trans (h.sameOpen lcn), ?_⟩
  have hsame : findIncoming m'.iIncomingChannels = findIncoming m.iIncomingChannels :=
    funext h.sameOpen
  rw [h'.handed, h.handed, hsame, List.append_assoc, List.map_append]

variable {elements : List MultiplexElement}

theorem AllOpen.of_sameOpen {m m' : CPVH223Multiplex σ}
    (h : AllOpen m.iIncomingChannels elements) (hsame : SameOpen m m') :
    AllOpen m'.iIncomingChannels elements :=
  fun lcn hmem => by rw [hsame lcn]; exact h lcn hmem

/-! ## BreakPduData is the pass -/

/-- A turn of the loop is a turn of the pass. -/
structure Turn.Mirrors (turn : Turn σ) (pass : Pass) (m : Demux σ) : Prop where
  ret : turn.ret = pass.ret
  pdu_size : turn.pdu_size = pass.pdu_size
  demuxed_size : turn.demuxed_size = pass.demuxed_size
  pdu : turn.mux.pdu = pass.pdu
  mux : Multiplex.Mirrors pass.octets m turn.mux

variable (mem : Nat → UInt8)

theorem elementData_mirrors {lcn : UInt16} {repeatCount : RepeatCount} {s d : Nat} {m : Demux σ}
    (hs : s < 2 ^ 16) (hopen : (findIncoming m.iIncomingChannels lcn).isSome) :
    (elementData code mem lcn repeatCount s d m).Mirrors
      (walkElement (.logicalChannelNumber lcn repeatCount) s d m.pdu) m := by
  obtain ⟨i, hi⟩ := Option.isSome_iff_exists.mp hopen
  have hle := octets_le repeatCount s
  have hlen : (UInt16.ofNat (repeatCount.octets s)).toNat = repeatCount.octets s := by
    rw [UInt16.toNat_ofNat', Nat.mod_eq_of_lt (by omega)]
  rw [elementData, hi, walkElement]
  refine ⟨rfl, rfl, rfl, rfl, fun lcn' => ?_, ?_⟩
  · exact (sameOpen_afterData code _ i _ lcn').trans
      ((sameOpen_detectData code _ i lcn').trans (sameOpen_setState _ i _ lcn'))
  · simp only [alPduData, handedOver, List.flatMap_append, List.map_append, List.flatMap_cons,
      List.flatMap_nil, List.append_nil, hlen, List.map_map]
    congr 1
    exact List.map_congr_left fun _ _ => by simp [hi]

/-- And the whole loop is a pass over the list. -/
structure WalksTo (r : Nat × Demux σ) (w : Walk) (m : Demux σ) : Prop where
  ret : r.1 = w.ret
  pdu : r.2.pdu = w.pdu
  mux : Mirrors w.octets m r.2

theorem repeatData_mirrors {sub : Demux σ → Nat × Demux σ} {walk : Nat → Walk} {s : Nat}
    {m₀ : Demux σ}
    (hsub : ∀ m : Demux σ, SameOpen m₀.toCPVH223Multiplex m.toCPVH223Multiplex →
      WalksTo (sub m) (walk m.pdu) m) :
    ∀ (k d : Nat) (m : Demux σ), SameOpen m₀.toCPVH223Multiplex m.toCPVH223Multiplex →
      (repeatData sub s k d m).Mirrors (walkRepeat walk s k d m.pdu) m
  | 0, d, m, _ => ⟨rfl, rfl, rfl, rfl, .refl m⟩
  | k + 1, d, m, hsame => by
    have h := hsub m hsame
    rw [repeatData, walkRepeat]
    simp only [h.ret, h.pdu]
    split
    · exact ⟨rfl, rfl, rfl, rfl, h.mux.sameOpen, h.mux.handed⟩
    · have ih := repeatData_mirrors (s := s) hsub k (d + (walk m.pdu).ret)
        { (sub m).2 with pdu := (walk m.pdu).pdu + (d + (walk m.pdu).ret) }
        fun lcn => (h.mux.sameOpen lcn).trans (hsame lcn)
      have hmoved : Mirrors (walk m.pdu).octets m
          { (sub m).2 with pdu := (walk m.pdu).pdu + (d + (walk m.pdu).ret) } :=
        ⟨h.mux.sameOpen, h.mux.handed⟩
      exact ⟨ih.ret, ih.pdu_size, ih.demuxed_size, ih.pdu, hmoved.trans ih.mux⟩

theorem walkRepeat_size (walk : Nat → Walk) (s : Nat) :
    ∀ k d p, (walkRepeat walk s k d p).pdu_size = s
  | 0, _, _ => rfl
  | k + 1, d, p => by
    rw [walkRepeat]
    split
    · rfl
    · exact walkRepeat_size walk s k _ _

theorem walkElement_size_le (element : MultiplexElement) (s d p : Nat) :
    (walkElement element s d p).pdu_size ≤ s := by
  cases element with
  | logicalChannelNumber lcn repeatCount => exact Nat.sub_le _ _
  | subElementList elements repeatCount => exact le_of_eq (walkRepeat_size _ s _ d p)

theorem breakElements_cons {element : MultiplexElement} {rest : List MultiplexElement} {s d : Nat}
    {m : Demux σ} (hs : s < 2 ^ 16)
    (hturn : (breakElement code mem element s d m).Mirrors (walkElement element s d m.pdu) m)
    (hrest : ∀ {s d : Nat} {m' : Demux σ}, s < 2 ^ 16 →
      SameOpen m.toCPVH223Multiplex m'.toCPVH223Multiplex →
      WalksTo (breakElements code mem rest s d m') (walkElements rest s d m'.pdu) m') :
    WalksTo (breakElements code mem (element :: rest) s d m)
      (walkElements (element :: rest) s d m.pdu) m := by
  have hle := walkElement_size_le element s d m.pdu
  rw [breakElements, walkElements, Pass.andThen]
  simp only [hturn.ret]
  cases (walkElement element s d m.pdu).ret with
  | some ret => exact ⟨rfl, hturn.pdu, hturn.mux⟩
  | none =>
    have h := hrest (d := (walkElement element s d m.pdu).demuxed_size) (lt_of_le_of_lt hle hs)
      hturn.mux.sameOpen
    rw [hturn.pdu] at h
    simp only [hturn.pdu_size, hturn.demuxed_size, Option.elim_none]
    exact ⟨h.ret, h.pdu, hturn.mux.trans h.mux⟩

/-- **BreakPduData is the pass**, with the channels looked up. -/
theorem breakElements_walksTo (elements : List MultiplexElement) :
    ∀ {s d : Nat} {m : Demux σ}, s < 2 ^ 16 → AllOpen m.iIncomingChannels elements →
      WalksTo (breakElements code mem elements s d m) (walkElements elements s d m.pdu) m := by
  induction elements using elements_induction with
  | nil => exact fun _ _ => ⟨rfl, rfl, .refl _⟩
  | channel lcn repeatCount rest ih =>
    intro s d m hs hopen
    have hrest : AllOpen m.iIncomingChannels rest :=
      fun lcn' hmem => hopen lcn' (by simp [lcns, hmem])
    refine breakElements_cons code mem hs ?_ fun hs' hsame => ih hs' (hrest.of_sameOpen hsame)
    rw [breakElement]
    exact elementData_mirrors code mem hs (hopen lcn (by simp [lcns, elementLcns]))
  | sub elements repeatCount rest ihsub ihrest =>
    intro s d m hs hopen
    have hrest : AllOpen m.iIncomingChannels rest :=
      fun lcn' hmem => hopen lcn' (by simp [lcns, hmem])
    have hsub : AllOpen m.iIncomingChannels elements :=
      fun lcn' hmem => hopen lcn' (by simp [lcns, elementLcns, hmem])
    refine breakElements_cons code mem hs ?_ fun hs' hsame => ihrest hs' (hrest.of_sameOpen hsame)
    rw [breakElement, walkElement]
    refine repeatData_mirrors (fun m' hsame => ihsub hs (hsub.of_sameOpen hsame)) _ d m ?_
    exact fun _ => rfl

/-! ## The MUX-PDU as a whole -/

/-- The MUX-PDU is distributed as the entry says: its bytes are handed over in
order, each once, to the channels of the cyclic expansion, nothing outside it is
read, and the value returned is their number. -/
structure Distributes (elements : List MultiplexElement) (size : UInt16) (m : CPVH223Multiplex σ)
    (r : Nat × Demux σ) : Prop where
  positions : (handedOver r.2.handed).map Prod.snd = List.range size.toNat
  channels : (handedOver r.2.handed).map (fun octet => some octet.1) =
    (cyclicExpansion size.toNat elements).map (findIncoming m.iIncomingChannels)
  inside : ∀ octet ∈ handedOver r.2.handed, octet.2 < size.toNat
  ret : r.1 = size.toNat

/-- The first pass over the entry is long enough for the PDU. -/
def EndsOnFirstPass (elements : List MultiplexElement) (size : UInt16) : Prop :=
  size = 0 ∨ firstPass elements false size.toNat

instance (elements : List MultiplexElement) (size : UInt16) : Decidable (EndsOnFirstPass elements size) :=
  inferInstanceAs (Decidable (_ ∨ _))

theorem walk_zero (elements : List MultiplexElement) :
    ∀ {d p : Nat}, (walkElements elements 0 d p).octets = [] ∧
      ((walkElements elements 0 d p).ret = 0 ∨ (walkElements elements 0 d p).ret = d) := by
  induction elements using elements_induction with
  | nil => exact ⟨rfl, .inl rfl⟩
  | channel lcn repeatCount rest ih =>
    intro d p
    rw [walk_channel_all (Nat.le_zero.mp (octets_le repeatCount 0))]
    exact ⟨rfl, .inr rfl⟩
  | sub elements repeatCount rest ihsub ihrest =>
    intro d p
    rw [walk_sub]
    cases repeatCount.loopCnt 0 with
    | zero => exact ihrest
    | succ k =>
      rw [walkRepeat_last (Nat.zero_le _)]
      refine ⟨ihsub.1, .inr ?_⟩
      have hret := (ihsub (d := 0) (p := p)).2
      change d + _ = d
      omega

theorem cyclicExpansion_eq {n : Nat} (hn : 0 < n) (h : n ≤ (expandElements n elements).length) :
    cyclicExpansion n elements = (expandElements n elements).take n := by
  have hcopies := @take_copies _ _ [] n n n hn h (le_refl n)
  rwa [List.append_nil, List.take_take, Nat.min_self] at hcopies

theorem distributes_iff_follows {size : UInt16}
    {m : CPVH223Multiplex σ} (hopen : AllOpen m.iIncomingChannels elements) :
    Distributes elements size m (breakPduData code mem elements size.toNat ⟨m, 0, []⟩) ↔
      (walkElements elements size.toNat 0 0).octets.map Prod.snd = List.range size.toNat ∧
      (walkElements elements size.toNat 0 0).octets.map
          (fun octet => findIncoming m.iIncomingChannels octet.1) =
        (cyclicExpansion size.toNat elements).map (findIncoming m.iIncomingChannels) ∧
      (walkElements elements size.toNat 0 0).ret = size.toNat := by
  have h := breakElements_walksTo code mem elements (s := size.toNat) (d := 0) (m := ⟨m, 0, []⟩)
    size.toNat_lt hopen
  rw [← breakPduData] at h
  generalize breakPduData code mem elements size.toNat ⟨m, 0, []⟩ = r at h ⊢
  have hpositions : (handedOver r.2.handed).map Prod.snd =
      (walkElements elements size.toNat 0 0).octets.map Prod.snd := by
    simpa [Function.comp_def, handedOver] using congrArg (List.map Prod.snd) h.mux.handed
  have hchannels : (handedOver r.2.handed).map (fun octet => some octet.1) =
      (walkElements elements size.toNat 0 0).octets.map
        (fun octet => findIncoming m.iIncomingChannels octet.1) := by
    simpa [Function.comp_def, handedOver] using congrArg (List.map Prod.fst) h.mux.handed
  rw [← hpositions, ← hchannels, ← h.ret]
  refine ⟨fun hd => ⟨hd.positions, hd.channels, hd.ret⟩, fun hd => ⟨hd.1, hd.2.1, ?_, hd.2.2⟩⟩
  intro octet hmem
  have hposition : octet.2 ∈ List.range size.toNat := hd.1 ▸ List.mem_map_of_mem hmem
  exact List.mem_range.mp hposition

/-- **BreakPduData distributes a MUX-PDU as its multiplex table entry says if and
only if the PDU ends on the first pass over the entry.** -/
theorem distributes_iff (code : ChannelCode σ) (mem : Nat → UInt8) (elements : List MultiplexElement)
    (size : UInt16) (m : CPVH223Multiplex σ) (hopen : AllOpen m.iIncomingChannels elements) :
    Distributes elements size m (breakPduData code mem elements size.toNat ⟨m, 0, []⟩) ↔
      EndsOnFirstPass elements size := by
  rw [distributes_iff_follows code mem hopen]
  by_cases hzero : size = 0
  · subst hzero
    obtain ⟨hoctets, hret⟩ := walk_zero elements (d := 0) (p := 0)
    have hret : (walkElements elements 0 0 0).ret = 0 := hret.elim id id
    refine ⟨fun _ => .inl rfl, fun _ => ?_⟩
    simp [hoctets, hret, cyclicExpansion]
  · have hpos : 0 < size.toNat := by
      by_contra hsize
      exact hzero (UInt16.toNat_inj.mp (by simpa using hsize))
    constructor
    · rintro ⟨hpositions, -, hret⟩
      refine .inr (firstPass_of_walk elements (d := 0) (p := 0) hpos (by omega) ?_)
      have hlength : (walkElements elements size.toNat 0 0).octets.length = size.toNat := by
        simpa using congrArg List.length hpositions
      exact ⟨by rw [hpositions, hlength, List.range_eq_range'], by omega⟩
    · rintro (h | h)
      · exact absurd h hzero
      · have hfollows := walk_of_firstPass elements (d := 0) (p := 0) hpos (le_refl _) h
        refine ⟨by rw [hfollows.positions, List.range_eq_range'], ?_, by rw [hfollows.ret]; omega⟩
        rw [cyclicExpansion_eq hpos hfollows.le_length, ← hfollows.channels, List.map_map]
        rfl

/-! ## A list that is repeated -/

section
/-- A channel that keeps the bytes. -/
def keepBytes : ChannelCode (List UInt8) where
  alPduData buf s := (s ++ buf, true)
  alDispatch s := (s, true)
  resetAlPdu _ := []
  getNumSdusIn _ := 0

/-- Two segmentable channels are open. -/
def twoChannels : CPVH223Multiplex (List UInt8) where
  iIncomingChannels := [some ⟨1, true, []⟩, some ⟨2, true, []⟩]
  iLcnEnd := none
  iMuxDescriptorR _ := none
  lcnDataDetected := []

/-- One byte of each channel in turn until the closing flag. -/
def alternating : List MultiplexElement :=
  [.subElementList [.logicalChannelNumber 1 (.finite 1), .logicalChannelNumber 2 (.finite 1)]
    .untilClosingFlag]

/-- Three bytes by turns: the bytes are right, but then three more are read that the
PDU does not have, and no byte is reported. -/
theorem repetition_overruns :
    AllOpen twoChannels.iIncomingChannels alternating ∧
      (breakPduData keepBytes (fun _ => 0) alternating 3 ⟨twoChannels, 0, []⟩).1 = 0 ∧
      (1, 5) ∈ handedOver
        (breakPduData keepBytes (fun _ => 0) alternating 3 ⟨twoChannels, 0, []⟩).2.handed ∧
      ¬Distributes alternating 3 twoChannels
        (breakPduData keepBytes (fun _ => 0) alternating 3 ⟨twoChannels, 0, []⟩) := by
  refine ⟨by decide, by decide, by decide, fun h => absurd h.ret (by decide)⟩

/-- A list of two channels that ends the PDU in its first pass. -/
theorem distributes_iff_two :
    Distributes [.logicalChannelNumber 1 (.finite 2), .logicalChannelNumber 2 .untilClosingFlag] 5
      twoChannels (breakPduData keepBytes (fun _ => 0)
        [.logicalChannelNumber 1 (.finite 2), .logicalChannelNumber 2 .untilClosingFlag] 5
        ⟨twoChannels, 0, []⟩) :=
  (distributes_iff keepBytes (fun _ => 0)
    [.logicalChannelNumber 1 (.finite 2), .logicalChannelNumber 2 .untilClosingFlag] 5 twoChannels
    (by decide)).mpr (by decide)

end

end Ftke.Multiplex
