import Ftke.Srp.Sendings

/-!
# Ftke.Srp.Retries

How often a command is sent again, in a run of `SRP`.

The commands that the calls hand to the lower layer are the log of a run, and
they are the ones of the output.  In `Srp_1_4` a command is sent again only while
its counter allows it; in `Srp_1_3` those before the one acknowledged are sent
again with a counter that starts anew, whatever has been counted.
-/

namespace Ftke.Srp

namespace Endpoint

variable {s t : Endpoint}

/-! ## What every call sends -/

/-- What `pduQueued` sends. -/
def pduSends (s : Endpoint) (avail : Nat) : List Sending :=
  match s.tx.iStatus with
  | .idle => s.tx.srp_0_1Sends avail
  | .waitResponse => s.tx.srp_1_1Sends avail

/-- What `frameReceived` sends, besides the response to a command. -/
def frameSends (s : Endpoint) (seqNum : UInt8) (event : Event) (avail : Nat) : List Sending :=
  match s.tx.iStatus, event with
  | .waitResponse, .response | .waitResponse, .nsrpResponse | .waitResponse, .wnsrpResponse =>
    s.tx.srp_1_3Sends seqNum event avail
  | _, _ => []

/-- What `UpperLayerRx` sends. -/
def upperLayerSends (s : Endpoint) (frag : List UInt8) (allocs : Allocs) : List Sending :=
  if s.rx.iCcsrlSduSize > 0 then
    if frag.length / s.rx.iCcsrlSduSize + 1 > allocs.numMsgAvail then []
    else
      let (s, ok) := chunkLoop allocs.numbered allocs.packets s frag
      if ok then s.pduSends allocs.avail else []
  else if allocs.numMsgAvail = 0 ∨ allocs.packets = 0 then []
  else (s.queuePacket [] frag).pduSends allocs.avail

/-- The commands that a call hands to the lower layer. -/
def sends (s : Endpoint) : Call → List Sending
  | .lowerLayerRx pFrame allocs =>
    let (event, seqNum, s) := s.srpGetEventNoFromAL1 pFrame
    s.frameSends seqNum event allocs.avail
  | .upperLayerRx frag allocs => s.upperLayerSends frag allocs
  | .timeoutOccurred timerID =>
    match s.tx.iStatus with
    | .idle => []
    | .waitResponse => s.tx.srp_1_4Sends timerID
  | .useNSRP _ | .disableWNSRPSupport => []

/-- A call that returns, with its commands added to the log. -/
def LoggedStep (a : Endpoint × List Sending) (call : Call) (b : Endpoint × List Sending) : Prop :=
  Step a.1 call b.1 ∧ b.2 = a.2 ++ a.1.sends call

/-- The frame is a command of the other side, which is answered. -/
def Answers (s : Endpoint) : Call → Prop
  | .lowerLayerRx pFrame _ => (s.srpGetEventNoFromAL1 pFrame).1 = .command ∨
      (s.srpGetEventNoFromAL1 pFrame).1 = .wnsrpCommand
  | _ => False

/-- No command is acknowledged while one before it has been sent again already. -/
def Fresh (s : Endpoint) : Call → Prop
  | .lowerLayerRx pFrame _ =>
    let (event, seqNum, s) := s.srpGetEventNoFromAL1 pFrame
    event = .wnsrpResponse → s.tx.Once seqNum
  | _ => True

/-! ## What every call keeps -/

/-- The counters of `t` follow those of `s` and the commands sent. -/
def Follows (s : Endpoint) (log : List Sending) (t : Endpoint) : Prop := s.tx.Follows log t.tx

theorem follows_status (s : Endpoint) (status : WnsrpStatus) :
    s.Follows [] { s with tx := s.tx.wnsrpStatusSet status } := Sender.follows_wnsrpStatusSet s.tx status

theorem follows_countResponse (s : Endpoint) : s.Follows [] s.countResponse := by
  have hcount : s.Follows [] { s with tx := { s.tx with iN402Counter := s.tx.iN402Counter + 1 } } :=
    Sender.follows_nil (fun _ => rfl) rfl (.refl _)
  unfold countResponse
  split
  · simp only
    split
    · exact hcount
    · exact Sender.Follows.trans hcount (follows_status _ _)
  · exact .refl _

theorem follows_fullSupport (s : Endpoint) : s.Follows [] s.fullSupport := by
  unfold fullSupport
  split
  · exact follows_status s _
  · exact .refl _

theorem follows_srpGetEventNoFromAL1 (s : Endpoint) (pFrame : List UInt8) :
    s.Follows [] (s.srpGetEventNoFromAL1 pFrame).2.2 := by
  unfold srpGetEventNoFromAL1
  split
  · exact .refl _
  · simp only
    split
    · split
      · exact follows_status s _
      · exact .refl _
    · split
      · exact follows_countResponse s
      · split
        · split
          · exact Sender.Follows.trans (follows_countResponse s)
              (Sender.follows_nil (fun _ => rfl) rfl (.refl _))
          · exact follows_countResponse s
        · split
          · split
            · exact .refl _
            · exact follows_fullSupport s
          · split
            · split
              · exact .refl _
              · exact follows_fullSupport s
            · exact .refl _

theorem follows_queuePacket (s : Endpoint) (mark data : List UInt8) :
    s.Follows [] (s.queuePacket mark data) := Sender.follows_nil (fun _ => rfl) rfl (.refl _)

theorem follows_noPacket (s : Endpoint) (numbered : Bool) : s.Follows [] (s.noPacket numbered) := by
  unfold noPacket
  split
  · exact Sender.follows_nil (fun _ => rfl) rfl (.refl _)
  · exact .refl _

theorem follows_chunkLoop (numbered : Bool) : ∀ (packets : Nat) (s : Endpoint) (buf : List UInt8),
    s.Follows [] (chunkLoop numbered packets s buf).1
  | _, _, [] => by
    unfold chunkLoop
    exact .refl _
  | 0, s, _ :: _ => follows_noPacket s numbered
  | packets + 1, s, b :: buf => by
    unfold chunkLoop
    simp only
    split
    · exact follows_queuePacket s _ _
    · exact Sender.Follows.trans (follows_queuePacket s _ _) (follows_chunkLoop numbered packets _ _)

variable {out : Output}

theorem follows_send {r : Except Fault (Sender × List MediaData)}
    (h : s.send r = .ok (t, out)) : ∃ lower, r = .ok (t.tx, lower) ∧ out.lower = lower := by
  cases r with
  | error e => cases h
  | ok result =>
    cases h
    exact ⟨_, rfl, rfl⟩

theorem follows_pduQueued {avail : Nat} (h : s.pduQueued avail = .ok (t, out)) :
    s.Follows (s.pduSends avail) t ∧ out.lower = (s.pduSends avail).map Sending.packet := by
  unfold pduQueued at h
  unfold pduSends
  cases hstatus : s.tx.iStatus with
  | idle =>
    rw [hstatus] at h
    obtain ⟨lower, heq, rfl⟩ := follows_send h
    exact Sender.follows_srp_0_1 heq
  | waitResponse =>
    rw [hstatus] at h
    obtain ⟨lower, heq, rfl⟩ := follows_send h
    obtain ⟨hfollows, hlower⟩ := Sender.follows_srp_1_1 s.tx avail
    rw [Except.ok.inj heq] at hfollows hlower
    exact ⟨hfollows, hlower⟩

theorem follows_upperLayerRx {frag : List UInt8} {allocs : Allocs}
    (h : s.upperLayerRx frag allocs = .ok (t, out)) :
    s.Follows (s.upperLayerSends frag allocs) t ∧
      out.lower = (s.upperLayerSends frag allocs).map Sending.packet := by
  unfold upperLayerRx at h
  unfold upperLayerSends
  split at h
  · next hsize =>
    rw [if_pos hsize]
    split at h
    · next hfull =>
      cases h
      rw [if_pos hfull]
      exact ⟨.refl _, rfl⟩
    · next hfull =>
      rw [if_neg hfull]
      have hloop := follows_chunkLoop allocs.numbered allocs.packets s frag
      generalize chunkLoop allocs.numbered allocs.packets s frag = result at h hloop ⊢
      obtain ⟨u, ok⟩ := result
      cases ok with
      | true =>
        obtain ⟨hfollows, hlower⟩ := follows_pduQueued h
        exact ⟨Sender.Follows.trans hloop hfollows, hlower⟩
      | false =>
        cases h
        exact ⟨hloop, rfl⟩
  · next hsize =>
    rw [if_neg hsize]
    split at h
    · next hfull =>
      cases h
      rw [if_pos (.inl hfull)]
      exact ⟨.refl _, rfl⟩
    · next hfull =>
      split at h
      · next hpackets =>
        cases h
        rw [if_pos (.inr hpackets)]
        exact ⟨follows_noPacket s _, rfl⟩
      · next hpackets =>
        rw [if_neg (not_or.mpr ⟨hfull, hpackets⟩)]
        obtain ⟨hfollows, hlower⟩ := follows_pduQueued h
        exact ⟨Sender.Follows.trans (follows_queuePacket s [] frag) hfollows, hlower⟩

theorem follows_frameReceived {pPkt : MediaData} {event : Event} {allocs : Allocs}
    (h : s.frameReceived pPkt event allocs = .ok (t, out)) :
    (s.tx.iActiveWnsrpCommandSave.Nodup → (event = .wnsrpResponse → s.tx.Once pPkt.seqNum) →
      s.Follows (s.frameSends pPkt.seqNum event allocs.avail) t) ∧
      (event ≠ .command → event ≠ .wnsrpCommand →
        out.lower = (s.frameSends pPkt.seqNum event allocs.avail).map Sending.packet) := by
  have hcommand (h : s.commandReceived pPkt event allocs.rx = .ok (t, out)) : s.Follows [] t := by
    unfold commandReceived at h
    simp only at h
    split at h
    · cases h
    · cases h
      exact .refl _
  have hresponse (h : s.send (s.tx.srp_1_3 pPkt.seqNum event allocs.avail) = .ok (t, out)) :
      (s.tx.iActiveWnsrpCommandSave.Nodup → (event = .wnsrpResponse → s.tx.Once pPkt.seqNum) →
        s.Follows (s.tx.srp_1_3Sends pPkt.seqNum event allocs.avail) t) ∧
        out.lower = (s.tx.srp_1_3Sends pPkt.seqNum event allocs.avail).map Sending.packet := by
    obtain ⟨lower, heq, rfl⟩ := follows_send h
    exact Sender.follows_srp_1_3 heq
  unfold frameReceived at h
  unfold frameSends
  cases hstatus : s.tx.iStatus with
  | idle =>
    rw [hstatus] at h
    cases event with
    | command => exact ⟨fun _ _ => hcommand h, by simp⟩
    | wnsrpCommand => exact ⟨fun _ _ => hcommand h, by simp⟩
    | nop | pdu | response | nsrpResponse | timeout | wnsrpResponse =>
      cases h
      exact ⟨fun _ _ => .refl _, fun _ _ => rfl⟩
  | waitResponse =>
    rw [hstatus] at h
    cases event with
    | command => exact ⟨fun _ _ => hcommand h, by simp⟩
    | wnsrpCommand => exact ⟨fun _ _ => hcommand h, by simp⟩
    | response | nsrpResponse | wnsrpResponse =>
      exact ⟨(hresponse h).1, fun _ _ => (hresponse h).2⟩
    | nop | pdu | timeout =>
      cases h
      exact ⟨fun _ _ => .refl _, fun _ _ => rfl⟩

/-- **One call**: the counters follow what is sent again, when nothing before an
acknowledged command has been sent again already; and the log has the commands of
the output. -/
theorem follows_exec {call : Call} (h : s.exec call = .ok (t, out)) :
    ((s.tx.iActiveWnsrpCommandSave ++ s.tx.iFreeWnsrpCommandSave).Nodup → s.Fresh call →
      s.Follows (s.sends call) t) ∧
      (¬ s.Answers call → out.lower = (s.sends call).map Sending.packet) := by
  cases call with
  | lowerLayerRx pFrame allocs =>
    have hevent := follows_srpGetEventNoFromAL1 s pFrame
    change s.lowerLayerRx pFrame allocs = .ok (t, out) at h
    unfold lowerLayerRx at h
    simp only [sends, Fresh, Answers]
    split at h
    · cases h
    · generalize s.srpGetEventNoFromAL1 pFrame = result at h hevent ⊢
      obtain ⟨event, seqNum, u⟩ := result
      obtain ⟨hfollows, hlower⟩ := follows_frameReceived h
      refine ⟨fun hnodup hfresh => ?_, fun hnot => ?_⟩
      · have hnodup' := (hevent.lists.nodup_iff.mpr hnodup)
        exact Sender.Follows.trans hevent (hfollows (List.nodup_append.mp hnodup').1 hfresh)
      · exact hlower (fun h => hnot (.inl h)) (fun h => hnot (.inr h))
  | upperLayerRx frag allocs =>
    obtain ⟨hfollows, hlower⟩ := follows_upperLayerRx h
    exact ⟨fun _ _ => hfollows, fun _ => hlower⟩
  | timeoutOccurred timerID =>
    change s.timeoutOccurred timerID = .ok (t, out) at h
    unfold timeoutOccurred at h
    simp only [sends]
    cases hstatus : s.tx.iStatus with
    | idle =>
      rw [hstatus] at h
      cases h
      exact ⟨fun _ _ => .refl _, fun _ => rfl⟩
    | waitResponse =>
      rw [hstatus] at h
      obtain ⟨lower, heq, rfl⟩ := follows_send h
      obtain ⟨hfollows, hlower⟩ := Sender.follows_srp_1_4 heq
      exact ⟨fun _ _ => hfollows, fun _ => hlower⟩
  | useNSRP aUseNsrp =>
    cases h
    refine ⟨fun _ _ => ?_, fun _ => rfl⟩
    unfold useNSRP
    split
    · exact .refl _
    · exact Sender.follows_nil (fun _ => rfl) rfl (.refl _)
  | disableWNSRPSupport =>
    cases h
    refine ⟨fun _ _ => ?_, fun _ => rfl⟩
    have hmode : s.Follows [] (if s.tx.iCurWnsrpStatus = .wnsrpTxSupport then
        { s with tx := s.tx.wnsrpStatusSet .noWnsrpSupport } else s) := by
      split
      · exact follows_status s _
      · exact .refl _
    exact Sender.Follows.trans hmode (Sender.follows_nil (fun _ => rfl) rfl (.refl _))

/-! ## Runs -/

/-- The counters count what has been sent again, and no more than the maximum. -/
structure Counted (max : Nat) (a : Endpoint × List Sending) : Prop where
  counter : ∀ name, retransmissions name a.2 = (a.1.tx.timer name).N400Counter
  bound : ∀ name, (a.1.tx.timer name).N400Counter ≤ max
  max_eq : a.1.tx.iN400MaxCounter = max
  nodup : (a.1.tx.iActiveWnsrpCommandSave ++ a.1.tx.iFreeWnsrpCommandSave).Nodup

theorem counted_srpInitL (tx : Sender) (iCcsrlSduSize iWNSRPRxWindow : Nat) :
    Counted tx.iN400MaxCounter (srpInitL tx iCcsrlSduSize iWNSRPRxWindow, []) where
  counter name := by cases name <;> rfl
  bound name := by cases name <;> exact Nat.zero_le _
  max_eq := rfl
  nodup := List.nodup_range

theorem Counted.step {max : Nat} {a b : Endpoint × List Sending} {call : Call} (h : Counted max a)
    (hfresh : a.1.Fresh call) (hstep : LoggedStep a call b) : Counted max b := by
  obtain ⟨⟨out, hexec⟩, hlog⟩ := hstep
  have hfollows := (follows_exec hexec).1 h.nodup hfresh
  have hmax := hfollows.max
  refine ⟨fun name => ?_, fun name => ?_, by rw [hmax, h.max_eq], hfollows.lists.nodup_iff.mpr h.nodup⟩
  · rw [hfollows.counter name, ← h.counter name, hlog, retransmissions, List.foldl_append]
    rfl
  · have hbound := hfollows.bound name
    rw [h.max_eq] at hbound
    exact hbound (h.bound name)

/-- **In every run** in which no command is acknowledged while one before it has
been sent again, no command is sent again more often than `iN400MaxCounter`. -/
theorem retransmissions_le {tx : Sender} {iCcsrlSduSize iWNSRPRxWindow : Nat} {calls : List Call}
    {s : Endpoint} {log : List Sending}
    (h : Run (guarded (fun a call => a.1.Fresh call) LoggedStep)
      (srpInitL tx iCcsrlSduSize iWNSRPRxWindow, []) calls (s, log)) (name : TimerName) :
    retransmissions name log ≤ tx.iN400MaxCounter := by
  have hcounted : Counted tx.iN400MaxCounter (s, log) :=
    h.invariant (counted_srpInitL tx iCcsrlSduSize iWNSRPRxWindow)
      fun _ _ _ ha hstep => ha.step hstep.1 hstep.2
  rw [hcounted.counter name]
  exact hcounted.bound name

/-! ## A command sent again too often -/

/-- The timeouts are those of timers that run. -/
def TimerRuns (s : Endpoint) : Call → Prop
  | .timeoutOccurred timerID =>
    (if timerID = s.tx.iWNSRPTxWindow then s.tx.iSrpCommandSave
      else s.tx.iWnsrpCommandSave timerID).isTimerActive = true
  | _ => True

/-- A sender that may send each command again once. -/
def onceAgain : Sender := { withWindow 2 with iN400MaxCounter := 1 }

/-- The state and the log after a call. -/
def next (a : Endpoint × List Sending) (call : Call) : Endpoint × List Sending :=
  match a.1.exec call with
  | .ok (t, _) => (t, a.2 ++ a.1.sends call)
  | .error _ => a

theorem loggedStep_next (a : Endpoint × List Sending) (call : Call) (h : (a.1.exec call).isOk = true) :
    LoggedStep a call (next a call) := by
  unfold next
  cases hexec : a.1.exec call with
  | error e =>
    rw [hexec] at h
    cases h
  | ok result => exact ⟨⟨result.2, hexec⟩, rfl⟩

/-- Two chunks from the upper layer. -/
def twoChunks : Endpoint × List Sending := next (srpInitL onceAgain 1 5, []) (.upperLayerRx [1, 2] plenty)

/-- The response to the second chunk. -/
def secondResponse : Call := .lowerLayerRx (srpResponseCreate 1 .wnsrpResponse).bytes plenty

/-- Two chunks are sent, and the second one is acknowledged. -/
theorem retransmissions_second :
    retransmissions (.wnsrp 0) (next twoChunks secondResponse).2 = 1 ∧
      retransmissions (.wnsrp 0) (next twoChunks secondResponse).2 ≤ onceAgain.iN400MaxCounter := by
  have hfirst : Run (guarded (fun a call => a.1.Fresh call) LoggedStep) (srpInitL onceAgain 1 5, [])
      [.upperLayerRx [1, 2] plenty] twoChunks :=
    Run.snoc (l := []) (.nil _) ⟨trivial, loggedStep_next _ _ rfl⟩
  have hsecond := Run.snoc hfirst ⟨?_, loggedStep_next _ secondResponse rfl⟩
  · exact ⟨rfl, retransmissions_le hsecond (.wnsrp 0)⟩
  · intro _ earlier pTimer later pPkt _ _ _ _ t _
    refine ⟨?_, Nat.one_pos⟩
    show (if t = 1 then RespTimer.srpT401Start _ else if t = 0 then .srpT401Start _ else .new).N400Counter = 0
    split
    · rfl
    · split <;> rfl

/-- The first of two chunks times out, and then the second one is acknowledged:
the first is sent again a second time. -/
theorem retransmissions_twice : ¬ ∀ (tx : Sender) (iCcsrlSduSize iWNSRPRxWindow : Nat) (calls : List Call)
    (s : Endpoint) (log : List Sending),
    Run (guarded (fun a call => a.1.TimerRuns call) LoggedStep)
      (srpInitL tx iCcsrlSduSize iWNSRPRxWindow, []) calls (s, log) →
      ∀ name, retransmissions name log ≤ tx.iN400MaxCounter := by
  intro h
  have hfirst : Run (guarded (fun a call => a.1.TimerRuns call) LoggedStep) (srpInitL onceAgain 1 5, [])
      [.upperLayerRx [1, 2] plenty] twoChunks :=
    Run.snoc (l := []) (.nil _) ⟨trivial, loggedStep_next _ _ rfl⟩
  have htimeout := Run.snoc (i := Call.timeoutOccurred 0) hfirst ⟨(rfl : twoChunks.1.TimerRuns (.timeoutOccurred 0)),
    loggedStep_next _ (.timeoutOccurred 0) rfl⟩
  have hsecond := Run.snoc (i := secondResponse) htimeout ⟨trivial, loggedStep_next _ secondResponse rfl⟩
  have hle : 2 ≤ 1 := h onceAgain 1 5 _ _ _ hsecond (.wnsrp 0)
  omega

end Endpoint

end Ftke.Srp
