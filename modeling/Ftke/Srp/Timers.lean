import Ftke.Run
import Ftke.Srp.Endpoint
import Mathlib.Data.List.Forall2
import Mathlib.Data.List.Range

/-!
# Ftke.Srp.Timers

The WNSRP timers and the queue: the active timers hold the first packets of the
queue, in order.

The invariant also says that the packet of the SRP timer, while it runs, is the
first one of the queue; so a response to it frees the first active timer, and
`Srp_1_3`, which does not look for a free timer, finds one, unless there is no
timer at all.
-/

namespace Ftke.Srp

namespace Sender

/-! ## The invariant -/

/-- A timer waits for the response to this packet. -/
def Holds (s : Sender) (timer : Nat) (pPkt : MediaData) : Prop :=
  (s.iWnsrpCommandSave timer).pPkt = some (srpCommandCreate pPkt .wnsrpCommand)

/-- The active timers hold the packets in front of the queue, and every timer is
active or free. -/
structure Matched (s : Sender) : Prop where
  held : ∃ sent unsent, s.iSrpWaitQueue = sent ++ unsent ∧
    List.Forall₂ s.Holds s.iActiveWnsrpCommandSave sent
  all : (s.iActiveWnsrpCommandSave ++ s.iFreeWnsrpCommandSave).Perm (List.range s.iWNSRPTxWindow)
  running : ∀ timer, (s.iWnsrpCommandSave timer).isTimerActive = true → timer ∈ s.iActiveWnsrpCommandSave

/-- And so does the timer of the SRP command, which is sent as long as it is not
known that the other side has WNSRP. -/
structure Inv (s : Sender) : Prop extends s.Matched where
  srp : s.iSrpCommandSave.isTimerActive = true → ∃ pPkt rest, s.iSrpWaitQueue = pPkt :: rest ∧
    s.iSrpCommandSave.pPkt = some (srpCommandCreate pPkt .srpCommand)
  full : s.iCurWnsrpStatus = .wnsrpFullSupport → s.iSrpCommandSave.isTimerActive = false

variable {s : Sender}

theorem Matched.nodup (h : s.Matched) :
    (s.iActiveWnsrpCommandSave ++ s.iFreeWnsrpCommandSave).Nodup :=
  h.all.nodup_iff.mpr List.nodup_range

/-! ## Timers that change hands -/

variable {pPkt : MediaData}

theorem holds_setTimer {timer t : Nat} {new : RespTimer} (hne : t ≠ timer)
    (h : s.Holds t pPkt) : (s.setTimer timer new).Holds t pPkt := by
  simp only [Holds, setTimer, if_neg hne]
  exact h

variable {l free active : List Nat} {sent rest : List MediaData}

theorem forall₂_setTimer {timer : Nat} {new : RespTimer}
    (h : List.Forall₂ s.Holds l sent) (hnot : timer ∉ l) :
    List.Forall₂ (s.setTimer timer new).Holds l sent := by
  induction h with
  | nil => exact .nil
  | cons hh _ ih =>
    rw [List.mem_cons, not_or] at hnot
    exact .cons (holds_setTimer (fun he => hnot.1 he.symm) hh) (ih hnot.2)

theorem Matched.sendWnsrp {timer : Nat} (h : Matched { s with iFreeWnsrpCommandSave := timer :: free })
    (hget : s.srpSendWaitGet s.iActiveWnsrpCommandSave.length = some pPkt) :
    Matched { s.sendWnsrp timer pPkt with iFreeWnsrpCommandSave := free } := by
  obtain ⟨sent, unsent, hqueue, hheld⟩ := h.held
  have hnot : timer ∉ s.iActiveWnsrpCommandSave := fun hmem =>
    (List.nodup_append.mp h.nodup).2.2 timer hmem timer List.mem_cons_self rfl
  have hlen := hheld.length_eq
  -- the packet is the first one that has not been sent
  obtain ⟨unsent', rfl⟩ : ∃ unsent', unsent = pPkt :: unsent' := by
    have hget' : (sent ++ unsent)[sent.length]? = some pPkt := by
      rw [← hqueue, ← hlen]
      exact hget
    rw [List.getElem?_append_right (Nat.le_refl _), Nat.sub_self] at hget'
    cases unsent with
    | nil => simp at hget'
    | cons p unsent' => exact ⟨unsent', by rw [show p = pPkt by simpa using hget']⟩
  refine ⟨⟨sent ++ [pPkt], unsent', by rw [List.append_assoc]; exact hqueue, ?_⟩, ?_, ?_⟩
  · refine List.rel_append (forall₂_setTimer hheld hnot) (.cons ?_ .nil)
    simp only [Holds, setTimer, if_true]
    rfl
  · show ((s.iActiveWnsrpCommandSave ++ [timer]) ++ free).Perm _
    rw [List.append_assoc]
    exact h.all
  · intro t ht
    show t ∈ s.iActiveWnsrpCommandSave ++ [timer]
    by_cases heq : t = timer
    · exact List.mem_append_right _ (List.mem_singleton.mpr heq)
    · refine List.mem_append_left _ (h.running t ?_)
      simp only [Sender.sendWnsrp, addActiveWnsrpTimer, setTimer, if_neg heq] at ht
      exact ht

theorem release_eq {timer : Nat} (h : timer ∈ s.iActiveWnsrpCommandSave) :
    s.release timer = { s.setTimer timer (s.iWnsrpCommandSave timer).srpT401Stop with
      iFreeWnsrpCommandSave := s.iFreeWnsrpCommandSave ++ [timer]
      iActiveWnsrpCommandSave := s.iActiveWnsrpCommandSave.erase timer } := if_pos h

theorem release_of_not_mem {timer : Nat} (h : timer ∉ s.iActiveWnsrpCommandSave) :
    s.release timer = s.setTimer timer (s.iWnsrpCommandSave timer).srpT401Stop := if_neg h

theorem matched_release {earlier later : List Nat} {timer : Nat} {sent₁ sent₂ unsent : List MediaData}
    (hactive : s.iActiveWnsrpCommandSave = earlier ++ timer :: later)
    (h₁ : List.Forall₂ s.Holds earlier sent₁) (h₂ : List.Forall₂ s.Holds later sent₂)
    (hqueue : s.iSrpWaitQueue = (sent₁ ++ sent₂) ++ unsent)
    (hall : (s.iActiveWnsrpCommandSave ++ s.iFreeWnsrpCommandSave).Perm (List.range s.iWNSRPTxWindow))
    (hrun : ∀ t, (s.iWnsrpCommandSave t).isTimerActive = true → t ∈ s.iActiveWnsrpCommandSave) :
    (s.release timer).Matched := by
  have hnodup : (earlier ++ timer :: later).Nodup := by
    have h := hall.nodup_iff.mpr List.nodup_range
    rw [hactive] at h
    exact (List.nodup_append.mp h).1
  obtain ⟨-, hlater, hdisj⟩ := List.nodup_append.mp hnodup
  have hnot₁ : timer ∉ earlier := fun hm => hdisj timer hm timer List.mem_cons_self rfl
  have hnot₂ : timer ∉ later := (List.nodup_cons.mp hlater).1
  have herase : s.iActiveWnsrpCommandSave.erase timer = earlier ++ later := by
    rw [hactive, List.erase_append_right _ hnot₁, List.erase_cons_head]
  have hmem : timer ∈ s.iActiveWnsrpCommandSave := by rw [hactive]; simp
  rw [release_eq hmem, herase]
  refine ⟨⟨sent₁ ++ sent₂, unsent, hqueue, ?_⟩, ?_, fun t ht => ?_⟩
  · exact List.rel_append (forall₂_setTimer h₁ hnot₁) (forall₂_setTimer h₂ hnot₂)
  · show ((earlier ++ later) ++ (s.iFreeWnsrpCommandSave ++ [timer])).Perm (List.range s.iWNSRPTxWindow)
    rw [hactive] at hall
    refine List.Perm.trans ?_ hall
    rw [← List.append_assoc]
    refine List.perm_append_comm.trans ?_
    rw [List.append_assoc, List.append_assoc, List.singleton_append, List.cons_append]
    exact List.perm_middle.symm
  · show t ∈ earlier ++ later
    by_cases heq : t = timer
    · subst heq
      simp [setTimer, RespTimer.srpT401Stop] at ht
    · simp only [setTimer, if_neg heq] at ht
      have hin := hrun t ht
      rw [hactive] at hin
      rw [List.mem_append] at hin ⊢
      exact hin.imp_right fun hm => (List.mem_cons.mp hm).resolve_left heq

/-! ## Responses -/

theorem waitingFor_cases (h : List.Forall₂ s.Holds l sent)
    (seqNum : UInt8) : (s.waitingFor seqNum l = .ok none ∧ ∀ p ∈ sent, p.seqNum ≠ seqNum) ∨
      ∃ earlier timer later sent₁ pPkt sent₂, l = earlier ++ timer :: later ∧
        sent = sent₁ ++ pPkt :: sent₂ ∧ List.Forall₂ s.Holds earlier sent₁ ∧
        List.Forall₂ s.Holds later sent₂ ∧ (∀ p ∈ sent₁, p.seqNum ≠ seqNum) ∧ pPkt.seqNum = seqNum ∧
        s.waitingFor seqNum l = .ok (some (earlier, timer)) := by
  induction h with
  | nil => exact .inl ⟨rfl, by simp⟩
  | @cons timer pPkt l sent hh hrest ih =>
    have hpkt : (s.iWnsrpCommandSave timer).pPkt = some (srpCommandCreate pPkt .wnsrpCommand) := hh
    have hseq : (srpCommandCreate pPkt .wnsrpCommand).seqNum = pPkt.seqNum := rfl
    by_cases heq : pPkt.seqNum = seqNum
    · refine .inr ⟨[], timer, l, [], pPkt, sent, rfl, rfl, .nil, hrest, by simp, heq, ?_⟩
      simp only [waitingFor, hpkt, hseq, if_pos heq]
    · rcases ih with ⟨hw, hne⟩ | ⟨e, t, l', s₁, p, s₂, rfl, rfl, h₁, h₂, hne, hp, hw⟩
      · refine .inl ⟨?_, fun p hp => ?_⟩
        · simp only [waitingFor, hpkt, hseq, if_neg heq, hw]
          rfl
        · rcases List.mem_cons.mp hp with rfl | hp
          · exact heq
          · exact hne p hp
      · refine .inr ⟨timer :: e, t, l', pPkt :: s₁, p, s₂, rfl, rfl, .cons hh h₁, h₂, ?_, hp, ?_⟩
        · intro p' hp'
          rcases List.mem_cons.mp hp' with rfl | hp'
          · exact heq
          · exact hne p' hp'
        · simp only [waitingFor, hpkt, hseq, if_neg heq, hw]
          rfl

theorem foldl_resend (earlier : List Nat) : ∀ s : Sender,
    ((earlier.foldl resend s) = { s with iWnsrpCommandSave := (earlier.foldl resend s).iWnsrpCommandSave }) ∧
      (∀ t, ((earlier.foldl resend s).iWnsrpCommandSave t).pPkt = (s.iWnsrpCommandSave t).pPkt) ∧
      ∀ t, ((earlier.foldl resend s).iWnsrpCommandSave t).isTimerActive = true →
        t ∈ earlier ∨ (s.iWnsrpCommandSave t).isTimerActive = true := by
  induction earlier with
  | nil => exact fun s => ⟨rfl, fun _ => rfl, fun _ => .inr⟩
  | cons timer earlier ih =>
    intro s
    obtain ⟨hsame, hpkt, hrun⟩ := ih (s.resend timer)
    refine ⟨hsame, fun t => (hpkt t).trans ?_, fun t ht => ?_⟩
    · by_cases heq : t = timer
      · subst heq
        simp only [resend, setTimer, if_true]
      · simp only [resend, setTimer, if_neg heq]
    · rcases hrun t ht with hin | hact
      · exact .inl (List.mem_cons_of_mem _ hin)
      · by_cases heq : t = timer
        · exact .inl (heq ▸ List.mem_cons_self)
        · simp only [resend, setTimer, if_neg heq] at hact
          exact .inr hact

/-- **A number acknowledged**: its packet leaves the queue, and the timer that
waits for it, if there is one, is released, after the commands before have been
sent again. -/
theorem Matched.acknowledged (h : s.Matched) (seqNum : UInt8) :
    ((s.srpCommandClear seqNum).waitingFor seqNum s.iActiveWnsrpCommandSave = .ok none ∧
      (s.srpCommandClear seqNum).Matched) ∨
    ∃ earlier timer, (s.srpCommandClear seqNum).waitingFor seqNum s.iActiveWnsrpCommandSave =
        .ok (some (earlier, timer)) ∧ timer ∈ s.iActiveWnsrpCommandSave ∧
      ((s.srpCommandClear seqNum).release timer).Matched ∧
      ((earlier.foldl resend (s.srpCommandClear seqNum)).release timer).Matched := by
  obtain ⟨sent, unsent, hqueue, hheld⟩ := h.held
  -- the queue is not looked at
  have hheld' : List.Forall₂ (s.srpCommandClear seqNum).Holds s.iActiveWnsrpCommandSave sent := hheld
  rcases waitingFor_cases hheld' seqNum with ⟨hw, hne⟩ |
    ⟨earlier, timer, later, sent₁, pPkt, sent₂, hactive, rfl, h₁, h₂, hne, hp, hw⟩
  · refine .inl ⟨hw, ⟨sent, unsent.eraseP fun p => p.seqNum = seqNum, ?_, hheld'⟩, h.all, h.running⟩
    show s.iSrpWaitQueue.eraseP _ = _
    rw [hqueue]
    exact List.eraseP_append_right _ fun p hp' => by simpa using hne p hp'
  · have hclear : (s.srpCommandClear seqNum).iSrpWaitQueue = (sent₁ ++ sent₂) ++ unsent := by
      show s.iSrpWaitQueue.eraseP _ = _
      rw [hqueue, List.append_assoc,
        List.eraseP_append_right _ fun p hp' => by simpa using hne p hp', List.cons_append,
        List.eraseP_cons_of_pos (by simpa using hp), List.append_assoc]
    refine .inr ⟨earlier, timer, hw, by rw [hactive]; simp,
      matched_release hactive h₁ h₂ hclear h.all h.running, ?_⟩
    obtain ⟨hsame, hpkt, hrun⟩ := foldl_resend earlier (s.srpCommandClear seqNum)
    have hkeep (l : List Nat) (sent : List MediaData)
        (hl : List.Forall₂ (s.srpCommandClear seqNum).Holds l sent) :
        List.Forall₂ (earlier.foldl resend (s.srpCommandClear seqNum)).Holds l sent :=
      hl.imp fun t p hh => (hpkt t).trans hh
    generalize earlier.foldl resend (s.srpCommandClear seqNum) = t at hsame hpkt hrun hkeep ⊢
    have hactive' : t.iActiveWnsrpCommandSave = earlier ++ timer :: later := by rw [hsame]; exact hactive
    have hclear' : t.iSrpWaitQueue = (sent₁ ++ sent₂) ++ unsent := by rw [hsame]; exact hclear
    have hall : (t.iActiveWnsrpCommandSave ++ t.iFreeWnsrpCommandSave).Perm
        (List.range t.iWNSRPTxWindow) := by rw [hsame]; exact h.all
    refine matched_release hactive' (hkeep _ _ h₁) (hkeep _ _ h₂) hclear' hall fun i hi => ?_
    rw [hactive']
    rcases hrun i hi with hin | hact
    · exact List.mem_append_left _ hin
    · have hmem := h.running i hact
      rwa [hactive] at hmem

/-! ## One call of the sending half -/

/-- What the calls keep, besides the invariant. -/
structure Keeps (s t : Sender) : Prop where
  inv : t.Inv
  window : t.iWNSRPTxWindow = s.iWNSRPTxWindow
  mode : t.iCurWnsrpStatus = s.iCurWnsrpStatus

theorem Matched.exists_free (h : s.Matched) (hw : 0 < s.iWNSRPTxWindow)
    (hnil : s.iActiveWnsrpCommandSave = []) : s.iFreeWnsrpCommandSave ≠ [] := by
  intro hfree
  have hlen := h.all.length_eq
  rw [hnil, hfree, List.length_range] at hlen
  exact absurd hlen (Nat.ne_of_lt hw)

section
variable (s) (timer : Nat)

@[simp] theorem queue_release : (s.release timer).iSrpWaitQueue = s.iSrpWaitQueue := by
  unfold release removeActiveWnsrpTimer
  split <;> rfl

@[simp] theorem srp_release : (s.release timer).iSrpCommandSave = s.iSrpCommandSave := by
  unfold release removeActiveWnsrpTimer
  split <;> rfl

@[simp] theorem window_release : (s.release timer).iWNSRPTxWindow = s.iWNSRPTxWindow := by
  unfold release removeActiveWnsrpTimer
  split <;> rfl

@[simp] theorem mode_release : (s.release timer).iCurWnsrpStatus = s.iCurWnsrpStatus := by
  unfold release removeActiveWnsrpTimer
  split <;> rfl

theorem release_clear (seqNum : UInt8) :
    (s.release timer).srpCommandClear seqNum = (s.srpCommandClear seqNum).release timer := by
  have hactive : (s.srpCommandClear seqNum).iActiveWnsrpCommandSave = s.iActiveWnsrpCommandSave := rfl
  by_cases hmem : timer ∈ s.iActiveWnsrpCommandSave
  · rw [release_eq hmem, release_eq (hactive ▸ hmem)]
    rfl
  · rw [release_of_not_mem hmem, release_of_not_mem (hactive ▸ hmem)]
    rfl

end

theorem free_release {timer : Nat} (h : timer ∈ s.iActiveWnsrpCommandSave) :
    (s.release timer).iFreeWnsrpCommandSave ≠ [] := by
  rw [release_eq h]
  simp

theorem Inv.held_cons (h : s.Inv) (hqueue : s.iSrpWaitQueue = pPkt :: rest) {oldest : Nat}
    (hactive : s.iActiveWnsrpCommandSave = oldest :: active) :
    s.Holds oldest pPkt ∧ ∃ sent unsent, rest = sent ++ unsent ∧ List.Forall₂ s.Holds active sent := by
  obtain ⟨sent, unsent, hq, hheld⟩ := h.held
  rw [hactive] at hheld
  obtain ⟨p, sent', hp, hrest, rfl⟩ := List.forall₂_cons_left_iff.mp hheld
  rw [hqueue, List.cons_append] at hq
  obtain ⟨rfl, rfl⟩ := List.cons.inj hq
  exact ⟨hp, sent', unsent, rfl, hrest⟩

theorem Inv.waitingFor_first (h : s.Inv) (hqueue : s.iSrpWaitQueue = pPkt :: rest) {oldest : Nat}
    (hactive : s.iActiveWnsrpCommandSave = oldest :: active) :
    (s.srpCommandClear pPkt.seqNum).waitingFor pPkt.seqNum s.iActiveWnsrpCommandSave =
      .ok (some ([], oldest)) := by
  have hpkt : ((s.srpCommandClear pPkt.seqNum).iWnsrpCommandSave oldest).pPkt =
    some (srpCommandCreate pPkt .wnsrpCommand) := (h.held_cons hqueue hactive).1
  have hseq : (srpCommandCreate pPkt .wnsrpCommand).seqNum = pPkt.seqNum := rfl
  rw [hactive]
  simp only [waitingFor, hpkt, hseq, if_true]

theorem clear_cons {seqNum : UInt8} (hqueue : s.iSrpWaitQueue = pPkt :: rest) (hne : pPkt.seqNum ≠ seqNum) :
    (s.srpCommandClear seqNum).iSrpWaitQueue = pPkt :: rest.eraseP fun p => p.seqNum = seqNum := by
  show s.iSrpWaitQueue.eraseP _ = _
  rw [hqueue, List.eraseP_cons_of_neg (by simpa using hne)]

theorem Matched.stopSrp (h : s.Matched) (timer : RespTimer) :
    Inv { s with iSrpCommandSave := timer.srpT401Stop } :=
  ⟨⟨h.held, h.all, h.running⟩, fun ha => absurd ha Bool.false_ne_true, fun _ => rfl⟩

theorem Inv.acknowledge_wnsrp (h : s.Inv) (seqNum : UInt8)
    (hoff : s.iSrpCommandSave.isTimerActive = false) :
    ∃ t lower go, s.acknowledge seqNum .wnsrpResponse = .ok (t, lower, go) ∧ s.Keeps t ∧
      (go = true → t.iFreeWnsrpCommandSave ≠ []) := by
  have hact : (s.srpCommandClear seqNum).iActiveWnsrpCommandSave = s.iActiveWnsrpCommandSave := rfl
  rcases h.acknowledged seqNum with ⟨hw, hm⟩ | ⟨earlier, timer, hw, hmem, -, hm⟩
  · refine ⟨s.srpCommandClear seqNum, [], false, ?_, ⟨⟨hm, fun ha => ?_, fun _ => hoff⟩, rfl, rfl⟩, by simp⟩
    · simp only [acknowledge, hact, hw]
      rfl
    · rw [show (s.srpCommandClear seqNum).iSrpCommandSave = s.iSrpCommandSave from rfl, hoff] at ha
      contradiction
  · have hstep : s.acknowledge seqNum .wnsrpResponse =
        .ok ((earlier.foldl resend (s.srpCommandClear seqNum)).release timer,
          earlier.filterMap fun t => ((s.srpCommandClear seqNum).iWnsrpCommandSave t).pPkt, true) := by
      simp only [acknowledge, hact, hw]
      rfl
    have hsame := (foldl_resend earlier (s.srpCommandClear seqNum)).1
    refine ⟨_, _, _, hstep, ?_⟩
    generalize earlier.foldl resend (s.srpCommandClear seqNum) = t at hsame hm
    refine ⟨⟨⟨hm, ?_, ?_⟩, ?_, ?_⟩, ?_⟩
    · intro ha
      rw [srp_release, hsame, show (s.srpCommandClear seqNum).iSrpCommandSave = s.iSrpCommandSave from rfl,
        hoff] at ha
      contradiction
    · intro _
      rw [srp_release, hsame]
      exact hoff
    · rw [window_release, hsame]
      rfl
    · rw [mode_release, hsame]
      rfl
    · intro _
      refine free_release ?_
      rw [hsame]
      exact hmem

/-- The state after an NSRP response has been looked for among the timers. -/
def releaseFound (s : Sender) (found : Option (List Nat × Nat)) : Sender :=
  found.elim s fun p => s.release p.2

section
variable {seqNum : UInt8} {found : Option (List Nat × Nat)}
  (hfound : (s.srpCommandClear seqNum).waitingFor seqNum s.iActiveWnsrpCommandSave = .ok found)
include hfound

theorem acknowledge_nsrp_off
    (hoff : ((s.srpCommandClear seqNum).releaseFound found).iSrpCommandSave.isTimerActive = false) :
    s.acknowledge seqNum .nsrpResponse = .ok ((s.srpCommandClear seqNum).releaseFound found, [], false) := by
  have hact : (s.srpCommandClear seqNum).iActiveWnsrpCommandSave = s.iActiveWnsrpCommandSave := rfl
  have hoff' := Bool.eq_false_iff.mp hoff
  simp only [acknowledge, hact, hfound]
  cases found with
  | none => exact if_neg hoff'
  | some p => exact if_neg hoff'

theorem acknowledge_nsrp_on {pPkt : MediaData}
    (hon : ((s.srpCommandClear seqNum).releaseFound found).iSrpCommandSave.isTimerActive = true)
    (hpkt : ((s.srpCommandClear seqNum).releaseFound found).iSrpCommandSave.pPkt = some pPkt) :
    s.acknowledge seqNum .nsrpResponse =
      if pPkt.seqNum = seqNum then
        .ok ({ (s.srpCommandClear seqNum).releaseFound found with
          iSrpCommandSave := ((s.srpCommandClear seqNum).releaseFound found).iSrpCommandSave.srpT401Stop },
          [], true)
      else .ok ((s.srpCommandClear seqNum).releaseFound found, [], false) := by
  have hact : (s.srpCommandClear seqNum).iActiveWnsrpCommandSave = s.iActiveWnsrpCommandSave := rfl
  simp only [acknowledge, hact, hfound]
  cases found with
  | none =>
    refine (if_pos hon).trans ?_
    rw [show (s.srpCommandClear seqNum).iSrpCommandSave.pPkt = some pPkt from hpkt]
    rfl
  | some p =>
    refine (if_pos hon).trans ?_
    rw [show ((s.srpCommandClear seqNum).release p.2).iSrpCommandSave.pPkt = some pPkt from hpkt]
    rfl

end

theorem Inv.acknowledge_nsrp (h : s.Inv) (hw : 0 < s.iWNSRPTxWindow) (seqNum : UInt8) :
    ∃ t lower go, s.acknowledge seqNum .nsrpResponse = .ok (t, lower, go) ∧ s.Keeps t ∧
      (go = true → t.iFreeWnsrpCommandSave ≠ []) := by
  -- the state after the timer has been released, if there was one
  obtain ⟨found, hfound, hm, hqueue, hsrp, hwin, hmode, hfree⟩ : ∃ found,
      (s.srpCommandClear seqNum).waitingFor seqNum s.iActiveWnsrpCommandSave = .ok found ∧
      ((s.srpCommandClear seqNum).releaseFound found).Matched ∧
      ((s.srpCommandClear seqNum).releaseFound found).iSrpWaitQueue =
        (s.srpCommandClear seqNum).iSrpWaitQueue ∧
      ((s.srpCommandClear seqNum).releaseFound found).iSrpCommandSave = s.iSrpCommandSave ∧
      ((s.srpCommandClear seqNum).releaseFound found).iWNSRPTxWindow = s.iWNSRPTxWindow ∧
      ((s.srpCommandClear seqNum).releaseFound found).iCurWnsrpStatus = s.iCurWnsrpStatus ∧
      (found ≠ none → ((s.srpCommandClear seqNum).releaseFound found).iFreeWnsrpCommandSave ≠ []) := by
    rcases h.acknowledged seqNum with ⟨hw, hm⟩ | ⟨earlier, timer, hw, hmem, hm, -⟩
    · exact ⟨none, hw, hm, rfl, rfl, rfl, rfl, fun hne => absurd rfl hne⟩
    · exact ⟨some (earlier, timer), hw, hm, queue_release _ _, srp_release _ _, window_release _ _,
        mode_release _ _, fun _ => free_release hmem⟩
  by_cases hon : s.iSrpCommandSave.isTimerActive = true
  · obtain ⟨pPkt, rest, hq, hpkt⟩ := h.srp hon
    have hstep := acknowledge_nsrp_on hfound (by rw [hsrp]; exact hon) (by rw [hsrp]; exact hpkt)
    have hseq : (srpCommandCreate pPkt .srpCommand).seqNum = pPkt.seqNum := rfl
    rw [hseq] at hstep
    by_cases heq : pPkt.seqNum = seqNum
    · rw [if_pos heq] at hstep
      refine ⟨_, _, _, hstep, ⟨hm.stopSrp _, hwin, hmode⟩, fun _ => ?_⟩
      show ((s.srpCommandClear seqNum).releaseFound found).iFreeWnsrpCommandSave ≠ []
      cases hl : s.iActiveWnsrpCommandSave with
      | nil =>
        rw [hl] at hfound
        obtain rfl : found = none := (Except.ok.inj hfound).symm
        exact h.exists_free hw hl
      | cons oldest active =>
        have hfirst := h.waitingFor_first hq hl
        rw [heq, hfound] at hfirst
        exact hfree (by rw [Except.ok.inj hfirst]; simp)
    · rw [if_neg heq] at hstep
      refine ⟨_, _, _, hstep, ⟨⟨hm, fun _ => ?_, fun hf => ?_⟩, hwin, hmode⟩, by simp⟩
      · exact ⟨pPkt, _, hqueue.trans (clear_cons hq heq), by rw [hsrp, hpkt]⟩
      · rw [hsrp]
        exact h.full (hmode ▸ hf)
  · have hoff := Bool.eq_false_iff.mpr hon
    have hstep := acknowledge_nsrp_off hfound (by rw [hsrp]; exact hoff)
    refine ⟨_, _, _, hstep, ⟨⟨hm, fun ha => ?_, fun _ => ?_⟩, hwin, hmode⟩, by simp⟩
    · rw [hsrp] at ha
      exact absurd ha hon
    · rw [hsrp]
      exact hoff

theorem Inv.acknowledge_srp (h : s.Inv) (hw : 0 < s.iWNSRPTxWindow) (seqNum : UInt8) :
    ∃ t lower go, s.acknowledge seqNum .response = .ok (t, lower, go) ∧ s.Keeps t ∧
      (go = true → t.iFreeWnsrpCommandSave ≠ []) := by
  by_cases hon : s.iSrpCommandSave.isTimerActive = true
  · obtain ⟨pPkt, rest, hq, hpkt⟩ := h.srp hon
    have hseq : (srpCommandCreate pPkt .srpCommand).seqNum = pPkt.seqNum := rfl
    match hl : s.iActiveWnsrpCommandSave with
    | [] =>
      have hm : (s.srpCommandClear pPkt.seqNum).Matched := by
        rcases h.acknowledged pPkt.seqNum with ⟨-, hm⟩ | ⟨-, timer, -, hmem, -⟩
        · exact hm
        · rw [hl] at hmem
          contradiction
      refine ⟨{ s.srpCommandClear pPkt.seqNum with iSrpCommandSave := s.iSrpCommandSave.srpT401Stop },
        [], true, ?_, ⟨hm.stopSrp _, rfl, rfl⟩,
        fun _ => h.exists_free hw hl⟩
      simp only [acknowledge, hon, if_true, hl, hpkt, hseq]
      rfl
    | oldest :: active =>
      have hm : ((s.srpCommandClear pPkt.seqNum).release oldest).Matched := by
        have hfirst := h.waitingFor_first hq hl
        rcases h.acknowledged pPkt.seqNum with ⟨hw, -⟩ | ⟨earlier, timer, hw, -, hm, -⟩
        · rw [hw] at hfirst
          exact absurd (Except.ok.inj hfirst) (by simp)
        · rw [hw] at hfirst
          have heq := Option.some.inj (Except.ok.inj hfirst)
          rw [← (Prod.mk.inj heq).2]
          exact hm
      refine ⟨{ (s.srpCommandClear pPkt.seqNum).release oldest with
          iSrpCommandSave := s.iSrpCommandSave.srpT401Stop }, [], true, ?_,
        ⟨hm.stopSrp _, window_release _ _, mode_release _ _⟩,
        fun _ => free_release (by rw [show (s.srpCommandClear pPkt.seqNum).iActiveWnsrpCommandSave =
          s.iActiveWnsrpCommandSave from rfl, hl]; exact List.mem_cons_self)⟩
      simp only [acknowledge, hon, if_true, hl, srp_release, hpkt, hseq, release_clear]
      rfl
  · refine ⟨s, [], false, ?_, ⟨h, rfl, rfl⟩, by simp⟩
    simp only [acknowledge, if_neg hon]

/-- **The first part of `Srp_1_3`** keeps the invariant, and leaves a free timer
when it goes on. -/
theorem Inv.acknowledge (h : s.Inv) (hw : 0 < s.iWNSRPTxWindow) (seqNum : UInt8) (event : Event)
    (hevent : event = .wnsrpResponse → s.iSrpCommandSave.isTimerActive = false) :
    ∃ t lower go, s.acknowledge seqNum event = .ok (t, lower, go) ∧ s.Keeps t ∧
      (go = true → t.iFreeWnsrpCommandSave ≠ []) := by
  cases event with
  | wnsrpResponse => exact h.acknowledge_wnsrp seqNum (hevent rfl)
  | nsrpResponse => exact h.acknowledge_nsrp hw seqNum
  | response => exact h.acknowledge_srp hw seqNum
  | nop | pdu | command | timeout | wnsrpCommand => exact ⟨s, [], false, rfl, ⟨h, rfl, rfl⟩, by simp⟩

theorem Inv.sendSrp (h : s.Inv) (hget : s.srpSendWaitGet 0 = some pPkt)
    (hmode : s.iCurWnsrpStatus ≠ .wnsrpFullSupport) : (s.sendSrp pPkt).Inv := by
  refine ⟨⟨h.held, h.all, h.running⟩, fun _ => ?_, fun hf => absurd hf hmode⟩
  obtain ⟨rest, hq⟩ : ∃ rest, s.iSrpWaitQueue = pPkt :: rest := by
    have hget' : s.iSrpWaitQueue[0]? = some pPkt := hget
    cases hq : s.iSrpWaitQueue with
    | nil => simp [hq] at hget'
    | cons p rest => exact ⟨rest, by rw [hq] at hget'; rw [show p = pPkt by simpa using hget']⟩
  exact ⟨pPkt, rest, hq, rfl⟩

theorem Inv.sendWnsrp {timer : Nat} (h : Inv { s with iFreeWnsrpCommandSave := timer :: free })
    (hget : s.srpSendWaitGet s.iActiveWnsrpCommandSave.length = some pPkt) :
    Inv { s.sendWnsrp timer pPkt with iFreeWnsrpCommandSave := free } :=
  ⟨h.toMatched.sendWnsrp hget, h.srp, h.full⟩

theorem Inv.setStatus (h : s.Inv) (status : SrpStatus) : Inv { s with iStatus := status } :=
  ⟨⟨h.held, h.all, h.running⟩, h.srp, h.full⟩

theorem Inv.idleIfDone (h : s.Inv) : s.idleIfDone.Inv := by
  unfold Sender.idleIfDone
  split
  · exact h.setStatus _
  · exact h

theorem idleIfDone_window (s : Sender) : s.idleIfDone.iWNSRPTxWindow = s.iWNSRPTxWindow := by
  unfold idleIfDone
  split <;> rfl

/-- **The second part of `Srp_1_3`**, when there is a free timer. -/
theorem Inv.sendNextWnsrp (h : s.Inv) (hfree : s.iFreeWnsrpCommandSave ≠ []) (avail : Nat) :
    ∃ t lower, s.sendNextWnsrp avail = .ok (t, lower) ∧ t.Inv ∧ t.iWNSRPTxWindow = s.iWNSRPTxWindow := by
  unfold Sender.sendNextWnsrp
  split
  · exact ⟨_, _, rfl, h.idleIfDone, idleIfDone_window s⟩
  · exact ⟨_, _, rfl, h, rfl⟩
  · next pPkt avail' hget =>
    match hl : s.iFreeWnsrpCommandSave with
    | [] => exact absurd hl hfree
    | timer :: free =>
      have hfree' : Inv { s with iFreeWnsrpCommandSave := timer :: free } := by
        rw [← hl]
        exact h
      have hsend := hfree'.sendWnsrp hget
      simp only [getFreeWnsrpTimer, hl]
      exact ⟨_, _, rfl, hsend.idleIfDone, idleIfDone_window _⟩

theorem Inv.sendNext (h : s.Inv) (hfree : s.iFreeWnsrpCommandSave ≠ []) (avail : Nat) :
    ∃ t lower, s.sendNext avail = .ok (t, lower) ∧ t.Inv ∧ t.iWNSRPTxWindow = s.iWNSRPTxWindow := by
  unfold Sender.sendNext
  split
  · exact h.sendNextWnsrp hfree avail
  · next hmode =>
    split
    · split
      · exact ⟨_, _, rfl, h.idleIfDone, idleIfDone_window s⟩
      · exact h.sendNextWnsrp hfree _
    · exact ⟨_, _, rfl, h.setStatus _, rfl⟩
    · next pPkt avail' hget =>
      have hsend := h.sendSrp hget hmode
      split
      · exact ⟨_, _, rfl, hsend.idleIfDone, idleIfDone_window _⟩
      · obtain ⟨t, lower, heq, ht, hwin⟩ := hsend.sendNextWnsrp hfree avail'
        refine ⟨t, srpCommandCreate pPkt .srpCommand :: lower, ?_, ht, hwin⟩
        simp only [heq]
        rfl

/-- **`Srp_1_3`** uses no null timer. -/
theorem Inv.srp_1_3 (h : s.Inv) (hw : 0 < s.iWNSRPTxWindow) (seqNum : UInt8) (event : Event) (avail : Nat)
    (hevent : event = .wnsrpResponse → s.iSrpCommandSave.isTimerActive = false) :
    ∃ t lower, s.srp_1_3 seqNum event avail = .ok (t, lower) ∧ t.Inv ∧
      t.iWNSRPTxWindow = s.iWNSRPTxWindow := by
  obtain ⟨t, resent, go, hack, ⟨ht, hwin, -⟩, hfree⟩ := h.acknowledge hw seqNum event hevent
  cases go with
  | false => exact ⟨t, resent, by rw [Sender.srp_1_3, hack]; rfl, ht, hwin⟩
  | true =>
    obtain ⟨u, lower, hnext, hu, hwin'⟩ := ht.sendNext (hfree rfl) avail
    refine ⟨u, resent ++ lower, ?_, hu, hwin'.trans hwin⟩
    rw [Sender.srp_1_3, hack]
    change (t.sendNext avail).bind _ = _
    rw [hnext]
    rfl

/-! ## Packets and timeouts -/

/-- **The loop** over the free timers. -/
theorem Inv.wnsrpLoop : ∀ (free : List Nat) (avail : Nat) (s : Sender),
    Inv { s with iFreeWnsrpCommandSave := free } → (wnsrpLoop free avail s).1.Inv ∧
      (wnsrpLoop free avail s).1.iWNSRPTxWindow = s.iWNSRPTxWindow
  | [], _, _, h => ⟨h, rfl⟩
  | timer :: free, avail, s, h => by
    unfold Sender.wnsrpLoop
    split
    · exact ⟨h, rfl⟩
    · exact ⟨h, rfl⟩
    · next pPkt avail' hget =>
      exact Inv.wnsrpLoop free avail' (s.sendWnsrp timer pPkt) (h.sendWnsrp hget)

theorem Inv.srp_0_1 (h : s.Inv) {avail : Nat} {t : Sender} {lower : List MediaData}
    (hstep : s.srp_0_1 avail = .ok (t, lower)) : t.Inv ∧ t.iWNSRPTxWindow = s.iWNSRPTxWindow := by
  have hloop (u : Sender) (hu : u.Inv) (a : Nat) :=
    Inv.wnsrpLoop u.iFreeWnsrpCommandSave a u hu
  unfold Sender.srp_0_1 at hstep
  split at hstep
  · obtain ⟨hi, hwin⟩ := hloop s h avail
    simp only at hstep
    split at hstep
    · obtain ⟨rfl, -⟩ := Prod.mk.inj (Except.ok.inj hstep)
      exact ⟨hi.setStatus _, hwin⟩
    · obtain ⟨rfl, -⟩ := Prod.mk.inj (Except.ok.inj hstep)
      exact ⟨hi, hwin⟩
  · next hmode =>
    split at hstep
    · contradiction
    · obtain ⟨rfl, -⟩ := Prod.mk.inj (Except.ok.inj hstep)
      exact ⟨h, rfl⟩
    · next pPkt avail' hget =>
      have hsend := h.sendSrp hget hmode
      simp only at hstep
      split at hstep
      · obtain ⟨rfl, -⟩ := Prod.mk.inj (Except.ok.inj hstep)
        exact ⟨hsend.setStatus _, rfl⟩
      · obtain ⟨hi, hwin⟩ := hloop _ hsend avail'
        split at hstep
        · obtain ⟨rfl, -⟩ := Prod.mk.inj (Except.ok.inj hstep)
          exact ⟨hi.setStatus _, hwin⟩
        · obtain ⟨rfl, -⟩ := Prod.mk.inj (Except.ok.inj hstep)
          exact ⟨hi, hwin⟩

theorem srp_0_1_ne_nullTimer (s : Sender) (avail : Nat) : s.srp_0_1 avail ≠ .error .nullTimer := by
  unfold srp_0_1
  split
  · simp only
    split <;> simp
  · split
    · simp
    · simp
    · simp only
      split
      · simp
      · split <;> simp

theorem Inv.srp_1_1 (h : s.Inv) (avail : Nat) : (s.srp_1_1 avail).1.Inv ∧
    (s.srp_1_1 avail).1.iWNSRPTxWindow = s.iWNSRPTxWindow := by
  unfold Sender.srp_1_1
  split
  · exact ⟨h, rfl⟩
  · exact Inv.wnsrpLoop s.iFreeWnsrpCommandSave avail s h

/-- The timer of this number runs, and may send its command again. -/
def MayFire (s : Sender) (timerID : Nat) : Prop :=
  let timer := if timerID = s.iWNSRPTxWindow then s.iSrpCommandSave else s.iWnsrpCommandSave timerID
  timer.isTimerActive = true ∧ s.srpN400Check timer = true

theorem Inv.retry (h : s.Inv) {timer : Nat} (hmem : timer ∈ s.iActiveWnsrpCommandSave) (n : Nat) :
    Inv (s.setTimer timer { s.iWnsrpCommandSave timer with N400Counter := n }) := by
  refine ⟨⟨?_, h.all, fun t ht => ?_⟩, h.srp, h.full⟩
  · obtain ⟨sent, unsent, hq, hheld⟩ := h.held
    refine ⟨sent, unsent, hq, hheld.imp fun t p hh => ?_⟩
    by_cases heq : t = timer
    · subst heq
      simpa only [Holds, setTimer, if_true] using hh
    · exact holds_setTimer heq hh
  · by_cases heq : t = timer
    · exact heq ▸ hmem
    · simp only [setTimer, if_neg heq] at ht
      exact h.running t ht

/-- **`Srp_1_4`** for a timer that runs. -/
theorem Inv.srp_1_4 (h : s.Inv) {id : Nat} (hfire : s.MayFire id) : s.srp_1_4 id ≠ .error .nullTimer ∧
    ∀ t lower, s.srp_1_4 id = .ok (t, lower) → t.Inv ∧ t.iWNSRPTxWindow = s.iWNSRPTxWindow := by
  obtain ⟨hon, hcheck⟩ := hfire
  unfold Sender.srp_1_4
  by_cases hid : id = s.iWNSRPTxWindow
  · rw [if_pos hid] at hon hcheck ⊢
    obtain ⟨pPkt, rest, hq, hpkt⟩ := h.srp hon
    simp only [hpkt, hcheck, if_true]
    refine ⟨by simp, fun t lower heq => ?_⟩
    obtain ⟨rfl, -⟩ := Prod.mk.inj (Except.ok.inj heq)
    exact ⟨⟨⟨h.held, h.all, h.running⟩, fun _ => ⟨pPkt, rest, hq, rfl⟩, h.full⟩, rfl⟩
  · rw [if_neg hid] at hon hcheck ⊢
    have hmem := h.running id hon
    have hlt : id < s.iWNSRPTxWindow := by
      have hin := h.all.subset (List.mem_append_left _ hmem)
      exact List.mem_range.mp hin
    have hfind : s.findActiveWnsrpTimer id = some id := by
      cases hf : s.findActiveWnsrpTimer id with
      | none => simpa using List.find?_eq_none.mp hf id hmem
      | some timer =>
        have hp := List.find?_some hf
        rw [show timer = id by simpa using hp]
    rw [if_pos hlt, hfind]
    simp only [hcheck, if_true]
    split
    · exact ⟨by simp, fun t lower heq => by contradiction⟩
    · refine ⟨by simp, fun t lower heq => ?_⟩
      obtain ⟨rfl, -⟩ := Prod.mk.inj (Except.ok.inj heq)
      exact ⟨h.retry hmem _, rfl⟩

/-! ## The status of the other side -/

theorem foldl_release_fields : ∀ (l : List Nat) (s : Sender),
    (l.foldl release s).iCurWnsrpStatus = s.iCurWnsrpStatus ∧
      (l.foldl release s).iWNSRPTxWindow = s.iWNSRPTxWindow ∧
      (l.foldl release s).iSrpWaitQueue = s.iSrpWaitQueue ∧
      (l.foldl release s).iSrpCommandSave = s.iSrpCommandSave
  | [], _ => ⟨rfl, rfl, rfl, rfl⟩
  | timer :: l, s => by
    obtain ⟨h₁, h₂, h₃, h₄⟩ := foldl_release_fields l (s.release timer)
    exact ⟨h₁.trans (mode_release _ _), h₂.trans (window_release _ _), h₃.trans (queue_release _ _),
      h₄.trans (srp_release _ _)⟩

theorem foldl_release_spec : ∀ (l : List Nat) (s : Sender), s.iActiveWnsrpCommandSave = l →
    (s.iActiveWnsrpCommandSave ++ s.iFreeWnsrpCommandSave).Perm (List.range s.iWNSRPTxWindow) →
    (∀ t, (s.iWnsrpCommandSave t).isTimerActive = true → t ∈ s.iActiveWnsrpCommandSave) →
    (l.foldl release s).iActiveWnsrpCommandSave = [] ∧
      (l.foldl release s).iFreeWnsrpCommandSave.Perm (List.range s.iWNSRPTxWindow) ∧
      ∀ t, ((l.foldl release s).iWnsrpCommandSave t).isTimerActive = false
  | [], s, hl, hall, hrun => by
    refine ⟨hl, by rwa [hl] at hall, fun t => Bool.eq_false_iff.mpr fun ht => ?_⟩
    have hmem := hrun t ht
    rw [hl] at hmem
    exact absurd hmem List.not_mem_nil
  | timer :: l, s, hl, hall, hrun => by
    have hmem : timer ∈ s.iActiveWnsrpCommandSave := by rw [hl]; exact List.mem_cons_self
    have heq := release_eq hmem
    have hwin := window_release s timer
    rw [hl, List.erase_cons_head] at heq
    rw [← hwin]
    refine foldl_release_spec l (s.release timer) (by rw [heq]) ?_ fun t ht => ?_
    · rw [hwin, heq]
      rw [hl] at hall
      refine List.Perm.trans ?_ hall
      show (l ++ (s.iFreeWnsrpCommandSave ++ [timer])).Perm _
      rw [← List.append_assoc]
      exact List.perm_append_singleton _ _
    · rw [heq] at ht ⊢
      show t ∈ l
      by_cases he : t = timer
      · subst he
        simp [setTimer, RespTimer.srpT401Stop] at ht
      · simp only [setTimer, if_neg he] at ht
        have hin := hrun t ht
        rw [hl] at hin
        exact (List.mem_cons.mp hin).resolve_left he

/-- **`WnsrpStatusSet`** keeps the invariant. -/
theorem Inv.wnsrpStatusSet (h : s.Inv) (status : WnsrpStatus) :
    (s.wnsrpStatusSet status).Inv ∧ (s.wnsrpStatusSet status).iWNSRPTxWindow = s.iWNSRPTxWindow ∧
      (s.wnsrpStatusSet status).iCurWnsrpStatus = status := by
  cases status with
  | wnsrpTxSupport =>
    refine ⟨⟨⟨h.held, h.all, h.running⟩, h.srp, fun hf => ?_⟩, rfl, rfl⟩
    exact absurd (show WnsrpStatus.wnsrpTxSupport = .wnsrpFullSupport from hf) (by decide)
  | wnsrpFullSupport =>
    simp only [Sender.wnsrpStatusSet]
    split
    · exact ⟨Matched.stopSrp (s := { s with iCurWnsrpStatus := .wnsrpFullSupport })
        ⟨h.held, h.all, h.running⟩ s.iSrpCommandSave, rfl, rfl⟩
    · next hoff =>
      exact ⟨⟨⟨h.held, h.all, h.running⟩, h.srp, fun _ => Bool.eq_false_iff.mpr hoff⟩, rfl, rfl⟩
  | noWnsrpSupport =>
    simp only [Sender.wnsrpStatusSet]
    have hfields := foldl_release_fields s.iActiveWnsrpCommandSave
      { s with iCurWnsrpStatus := .noWnsrpSupport }
    have hspec := foldl_release_spec s.iActiveWnsrpCommandSave
      { s with iCurWnsrpStatus := .noWnsrpSupport } rfl h.all h.running
    generalize s.iActiveWnsrpCommandSave.foldl release { s with iCurWnsrpStatus := .noWnsrpSupport } = t
      at hfields hspec ⊢
    obtain ⟨hmode, hwin, hqueue, hsrp⟩ := hfields
    obtain ⟨hnil, hfree, hoff⟩ := hspec
    refine ⟨⟨⟨⟨[], t.iSrpWaitQueue, rfl, by rw [hnil]; exact .nil⟩, ?_, fun i hi => ?_⟩, ?_, ?_⟩, hwin, hmode⟩
    · rw [hnil, hwin]
      exact hfree
    · rw [hoff i] at hi
      contradiction
    · rw [hsrp, hqueue]
      exact h.srp
    · rw [hmode]
      exact fun hf => by simp at hf

end Sender

namespace Endpoint

/-! ## One call -/

variable {s : Endpoint}

/-- A state with the same window that keeps the invariant. -/
structure Keeps (s t : Endpoint) : Prop where
  inv : t.tx.Inv
  window : t.tx.iWNSRPTxWindow = s.tx.iWNSRPTxWindow

theorem Keeps.trans {s t u : Endpoint} (h : s.Keeps t) (h' : t.Keeps u) : s.Keeps u :=
  ⟨h'.inv, h'.window.trans h.window⟩

theorem keeps_refl (h : s.tx.Inv) : s.Keeps s := ⟨h, rfl⟩

theorem keeps_status (h : s.tx.Inv) (status : WnsrpStatus) :
    s.Keeps { s with tx := s.tx.wnsrpStatusSet status } :=
  ⟨(h.wnsrpStatusSet status).1, (h.wnsrpStatusSet status).2.1⟩

theorem keeps_countResponse (h : s.tx.Inv) : s.Keeps s.countResponse := by
  have hcount : Sender.Inv { s.tx with iN402Counter := s.tx.iN402Counter + 1 } :=
    ⟨⟨h.held, h.all, h.running⟩, h.srp, h.full⟩
  unfold countResponse
  split
  · simp only
    split
    · exact ⟨hcount, rfl⟩
    · obtain ⟨hinv, hwin, -⟩ := hcount.wnsrpStatusSet .noWnsrpSupport
      exact ⟨hinv, hwin⟩
  · exact keeps_refl h

theorem keeps_fullSupport (h : s.tx.Inv) : s.Keeps s.fullSupport := by
  unfold fullSupport
  split
  · exact keeps_status h _
  · exact keeps_refl h

theorem srp_off_fullSupport (h : s.tx.Inv) (hmode : s.tx.iCurWnsrpStatus ≠ .noWnsrpSupport) :
    s.fullSupport.tx.iSrpCommandSave.isTimerActive = false := by
  refine (keeps_fullSupport h).inv.full ?_
  unfold fullSupport
  split
  · exact (h.wnsrpStatusSet _).2.2
  · next htx =>
    cases hm : s.tx.iCurWnsrpStatus with
    | noWnsrpSupport => exact absurd hm hmode
    | wnsrpTxSupport => exact absurd hm htx
    | wnsrpFullSupport => rfl

theorem ite_event_ne {p : Prop} [Decidable p] {a b event : Event} (ha : a ≠ event) (hb : b ≠ event) :
    (if p then a else b) ≠ event := by
  split
  · exact ha
  · exact hb

/-- **Reading a frame**; a WNSRP response stops the SRP timer. -/
theorem srpGetEventNoFromAL1_keeps (h : s.tx.Inv) (pFrame : List UInt8) :
    s.Keeps (s.srpGetEventNoFromAL1 pFrame).2.2 ∧
      ((s.srpGetEventNoFromAL1 pFrame).1 = .wnsrpResponse →
        (s.srpGetEventNoFromAL1 pFrame).2.2.tx.iSrpCommandSave.isTimerActive = false) := by
  unfold srpGetEventNoFromAL1
  split
  · exact ⟨keeps_refl h, by simp⟩
  simp only
  split
  · constructor
    · split
      · exact keeps_status h _
      · exact keeps_refl h
    · exact fun hevent => absurd hevent (ite_event_ne (by decide) (by decide))
  split
  · exact ⟨keeps_countResponse h, fun hevent => absurd hevent (ite_event_ne (by decide) (by decide))⟩
  split
  · have hcount := keeps_countResponse h
    split
    · exact ⟨⟨⟨⟨hcount.inv.held, hcount.inv.all, hcount.inv.running⟩, hcount.inv.srp, hcount.inv.full⟩,
        hcount.window⟩, by simp⟩
    · exact ⟨hcount, by simp⟩
  split
  · split
    · exact ⟨keeps_refl h, by simp⟩
    · exact ⟨keeps_fullSupport h, fun hevent => absurd hevent (ite_event_ne (by decide) (by decide))⟩
  split
  · split
    · exact ⟨keeps_refl h, by simp⟩
    · next hno => exact ⟨keeps_fullSupport h, fun _ => srp_off_fullSupport h fun hm => hno (.inr hm)⟩
  · exact ⟨keeps_refl h, by simp⟩

/-- What a call of the sending half may return. -/
def Safe (s : Endpoint) (r : Except Fault (Endpoint × Output)) : Prop :=
  r ≠ .error .nullTimer ∧ ∀ t out, r = .ok (t, out) → s.Keeps t

theorem Safe.trans {s t : Endpoint} {r : Except Fault (Endpoint × Output)} (h : s.Keeps t)
    (hr : t.Safe r) : s.Safe r :=
  ⟨hr.1, fun u out heq => h.trans (hr.2 u out heq)⟩

theorem safe_ok {t : Endpoint} (h : s.Keeps t) (out : Output) : s.Safe (.ok (t, out)) := by
  refine ⟨by simp, fun u out' heq => ?_⟩
  obtain ⟨rfl, -⟩ := Prod.mk.inj (Except.ok.inj heq)
  exact h

theorem safe_send {r : Except Fault (Sender × List MediaData)} (hne : r ≠ .error .nullTimer)
    (hok : ∀ tx lower, r = .ok (tx, lower) → tx.Inv ∧ tx.iWNSRPTxWindow = s.tx.iWNSRPTxWindow) :
    s.Safe (s.send r) := by
  match r with
  | .error fault =>
    refine ⟨fun heq => hne ?_, fun t out heq => by contradiction⟩
    have hf : Except.error fault = (Except.error .nullTimer : Except Fault (Endpoint × Output)) := heq
    rw [Except.error.inj hf]
  | .ok (tx, lower) => exact safe_ok ⟨(hok tx lower rfl).1, (hok tx lower rfl).2⟩ _

/-- **`LowerLayerRx`**. -/
theorem safe_lowerLayerRx (h : s.tx.Inv) (hw : 0 < s.tx.iWNSRPTxWindow) (pFrame : List UInt8)
    (allocs : Allocs) : s.Safe (s.lowerLayerRx pFrame allocs) := by
  unfold lowerLayerRx
  split
  · exact ⟨by simp, fun t out heq => by contradiction⟩
  obtain ⟨hkeeps, hoff⟩ := srpGetEventNoFromAL1_keeps h pFrame
  simp only
  generalize s.srpGetEventNoFromAL1 pFrame = r at hkeeps hoff ⊢
  obtain ⟨event, seqNum, t⟩ := r
  have hkeeps : s.Keeps t := hkeeps
  have hoff : event = .wnsrpResponse → t.tx.iSrpCommandSave.isTimerActive = false := hoff
  refine Safe.trans hkeeps ?_
  have hwt : 0 < t.tx.iWNSRPTxWindow := hkeeps.window ▸ hw
  have hresponse (hevent : event = .wnsrpResponse → t.tx.iSrpCommandSave.isTimerActive = false) :
      t.Safe (t.send (t.tx.srp_1_3 seqNum event allocs.avail)) := by
    obtain ⟨u, lower, heq, hu, hwin⟩ := hkeeps.inv.srp_1_3 hwt seqNum event allocs.avail hevent
    rw [heq]
    refine safe_send (by simp) fun tx lower' hok => ?_
    obtain ⟨rfl, -⟩ := Prod.mk.inj (Except.ok.inj hok)
    exact ⟨hu, hwin⟩
  have hcommand (ev : Event) : t.Safe (t.commandReceived ⟨seqNum, pFrame⟩ ev allocs.rx) := by
    unfold commandReceived
    simp only
    split
    · exact ⟨by simp, fun t out heq => by contradiction⟩
    · refine safe_ok ?_ _
      exact ⟨hkeeps.inv, rfl⟩
  unfold frameReceived
  split
  · exact hcommand _
  · exact hcommand _
  · exact hresponse hoff
  · exact hresponse hoff
  · exact hresponse hoff
  · exact safe_ok (keeps_refl hkeeps.inv) _

theorem keeps_queuePacket (h : s.tx.Inv) (mark data : List UInt8) : s.Keeps (s.queuePacket mark data) := by
  have hqueue : ∃ pPkt, (s.queuePacket mark data).tx.iSrpWaitQueue = s.tx.iSrpWaitQueue ++ [pPkt] :=
    ⟨_, rfl⟩
  obtain ⟨last, hqueue⟩ := hqueue
  refine ⟨⟨⟨?_, h.all, h.running⟩, fun hon => ?_, h.full⟩, rfl⟩
  · obtain ⟨sent, unsent, hq, hheld⟩ := h.held
    exact ⟨sent, unsent ++ [last], by rw [hqueue, hq, List.append_assoc], hheld⟩
  · obtain ⟨pPkt, rest, hq, hpkt⟩ := h.srp hon
    exact ⟨pPkt, rest ++ [last], by rw [hqueue, hq, List.cons_append], hpkt⟩

theorem keeps_noPacket (h : s.tx.Inv) (numbered : Bool) : s.Keeps (s.noPacket numbered) := by
  unfold noPacket
  split
  · exact ⟨⟨⟨h.held, h.all, h.running⟩, h.srp, h.full⟩, rfl⟩
  · exact keeps_refl h

theorem keeps_chunkLoop {numbered : Bool} : ∀ (packets : Nat) {s : Endpoint} (buf : List UInt8),
    s.tx.Inv → s.Keeps (chunkLoop numbered packets s buf).1
  | 0, _, [], h => keeps_refl h
  | _ + 1, _, [], h => keeps_refl h
  | 0, _, _ :: _, h => keeps_noPacket h numbered
  | packets + 1, s, b :: buf, h => by
    unfold chunkLoop
    simp only
    split
    · exact keeps_queuePacket h _ _
    · have hqueue := keeps_queuePacket h [0x00] ((b :: buf).take s.rx.iCcsrlSduSize)
      exact hqueue.trans (keeps_chunkLoop packets _ hqueue.inv)

theorem safe_pduQueued (h : s.tx.Inv) (avail : Nat) : s.Safe (s.pduQueued avail) := by
  unfold pduQueued
  split
  · exact safe_send (s.tx.srp_0_1_ne_nullTimer avail) fun tx lower heq => h.srp_0_1 heq
  · refine safe_send (by simp) fun tx lower heq => ?_
    obtain ⟨rfl, -⟩ := Prod.mk.inj (Except.ok.inj heq)
    exact h.srp_1_1 avail

/-- **`UpperLayerRx`**. -/
theorem safe_upperLayerRx (h : s.tx.Inv) (frag : List UInt8) (allocs : Allocs) :
    s.Safe (s.upperLayerRx frag allocs) := by
  unfold upperLayerRx
  split
  · split
    · exact safe_ok (keeps_refl h) _
    · have hloop := @keeps_chunkLoop allocs.numbered allocs.packets s frag h
      simp only
      split
      · exact Safe.trans hloop (safe_pduQueued hloop.inv _)
      · exact safe_ok hloop _
  · split
    · exact safe_ok (keeps_refl h) _
    split
    · exact safe_ok (keeps_noPacket h _) _
    · have hqueue := keeps_queuePacket h [] frag
      exact Safe.trans hqueue (safe_pduQueued hqueue.inv _)

/-! ## Runs -/

/-- The calls of `SRP` between `SrpStart` and `SrpStop`. -/
inductive Call
  | lowerLayerRx (pFrame : List UInt8) (allocs : Allocs)
  | upperLayerRx (frag : List UInt8) (allocs : Allocs)
  | timeoutOccurred (timerID : Nat)
  | useNSRP (aUseNsrp : Bool)
  | disableWNSRPSupport

/-- What a call does. -/
def exec (s : Endpoint) : Call → Except Fault (Endpoint × Output)
  | .lowerLayerRx pFrame allocs => s.lowerLayerRx pFrame allocs
  | .upperLayerRx frag allocs => s.upperLayerRx frag allocs
  | .timeoutOccurred timerID => s.timeoutOccurred timerID
  | .useNSRP aUseNsrp => .ok (s.useNSRP aUseNsrp, ⟨[], []⟩)
  | .disableWNSRPSupport => .ok (s.disableWNSRPSupport, ⟨[], []⟩)

/-- A call that returns. -/
def Step (s : Endpoint) (call : Call) (t : Endpoint) : Prop := ∃ out, s.exec call = .ok (t, out)

/-- The timeouts are those of timers that run, and none is the last one. -/
def InTime (s : Endpoint) : Call → Prop
  | .timeoutOccurred timerID => s.tx.MayFire timerID
  | _ => True

/-- The active timers hold the first packets of the queue, active and free timers
are all the timers, and no call uses a null timer. -/
structure Good (s : Endpoint) : Prop where
  held : s.tx.iActiveWnsrpCommandSave.map (fun timer => (s.tx.iWnsrpCommandSave timer).pPkt) =
    (s.tx.iSrpWaitQueue.take s.tx.iActiveWnsrpCommandSave.length).map fun pPkt =>
      some (srpCommandCreate pPkt .wnsrpCommand)
  all : (s.tx.iActiveWnsrpCommandSave ++ s.tx.iFreeWnsrpCommandSave).Perm
    (List.range s.tx.iWNSRPTxWindow)
  noNull : ∀ call, s.InTime call → s.exec call ≠ .error .nullTimer

/-- **Every call** in time. -/
theorem safe_exec (h : s.tx.Inv) (hw : 0 < s.tx.iWNSRPTxWindow) {call : Call} (htime : s.InTime call) :
    s.Safe (s.exec call) := by
  cases call with
  | lowerLayerRx pFrame allocs => exact safe_lowerLayerRx h hw pFrame allocs
  | upperLayerRx frag allocs => exact safe_upperLayerRx h frag allocs
  | timeoutOccurred timerID =>
    obtain ⟨hne, hok⟩ := h.srp_1_4 htime
    show s.Safe (s.timeoutOccurred timerID)
    unfold timeoutOccurred
    split
    · exact safe_ok (keeps_refl h) _
    · exact safe_send hne fun tx lower heq => hok tx lower heq
  | useNSRP aUseNsrp =>
    refine safe_ok ?_ _
    unfold useNSRP
    split
    · exact keeps_refl h
    · exact ⟨⟨⟨h.held, h.all, h.running⟩, h.srp, h.full⟩, rfl⟩
  | disableWNSRPSupport =>
    refine safe_ok ?_ _
    have hmode : s.Keeps (if s.tx.iCurWnsrpStatus = .wnsrpTxSupport then
        { s with tx := s.tx.wnsrpStatusSet .noWnsrpSupport } else s) := by
      split
      · exact keeps_status h _
      · exact keeps_refl h
    have hinv := hmode.inv
    exact ⟨⟨⟨hinv.held, hinv.all, hinv.running⟩, hinv.srp, hinv.full⟩, hmode.window⟩

theorem good_of_inv (h : s.tx.Inv) (hw : 0 < s.tx.iWNSRPTxWindow) : s.Good := by
  refine ⟨?_, h.all, fun call htime => (safe_exec h hw htime).1⟩
  obtain ⟨sent, unsent, hq, hheld⟩ := h.held
  rw [hq, hheld.length_eq, List.take_left]
  clear hq
  generalize s.tx.iActiveWnsrpCommandSave = active at hheld
  induction hheld with
  | nil => rfl
  | cons hh _ ih =>
    rw [List.map_cons, List.map_cons, ih]
    exact congrArg (· :: _) hh

theorem inv_srpInitL (tx : Sender) (iCcsrlSduSize iWNSRPRxWindow : Nat) :
    (srpInitL tx iCcsrlSduSize iWNSRPRxWindow).tx.Inv := by
  refine ⟨⟨⟨[], [], rfl, .nil⟩, List.Perm.refl _, fun t ht => ?_⟩, fun hon => ?_, fun _ => rfl⟩
  · exact absurd ht Bool.false_ne_true
  · exact absurd hon Bool.false_ne_true

/-- **Every run with a timer** keeps the timers and the queue together. -/
theorem matched_of_run {tx : Sender} (hw : 0 < tx.iWNSRPTxWindow) {iCcsrlSduSize iWNSRPRxWindow : Nat}
    {calls : List Call} {s : Endpoint}
    (h : Run (guarded InTime Step) (srpInitL tx iCcsrlSduSize iWNSRPRxWindow) calls s) : s.Good := by
  have hinv : s.tx.Inv ∧ 0 < s.tx.iWNSRPTxWindow := by
    refine h.invariant (I := fun s => s.tx.Inv ∧ 0 < s.tx.iWNSRPTxWindow)
      ⟨inv_srpInitL tx iCcsrlSduSize iWNSRPRxWindow, hw⟩ ?_
    rintro a call b ⟨ha, hwa⟩ ⟨htime, out, hstep⟩
    obtain ⟨hb, hwin⟩ := (safe_exec ha hwa htime).2 b out hstep
    exact ⟨hb, by rw [hwin]; exact hwa⟩
  exact good_of_inv hinv.1 hinv.2

/-! ## No timer at all -/

/-- A sender with the defaults, but for its window. -/
def withWindow (window : Nat) : Sender where
  iWNSRPTxWindow := window
  iN400MaxCounter := 100
  iN402MaxCounter := 3
  iObserver := false
  iHandleWNSRP := true
  iUseNSRP := true
  iFirstNSRPResp := false
  iN402Counter := 0
  iSendSeqNumber := 0
  iStatus := .idle
  iCurWnsrpStatus := .wnsrpTxSupport
  iSrpWaitQueue := []
  iSrpCommandSave := .new
  iWnsrpCommandSave := fun _ => .new
  iFreeWnsrpCommandSave := []
  iActiveWnsrpCommandSave := []

/-- Allocations that go through. -/
def plenty : Allocs := ⟨⟨true, true⟩, 16, 16, 16, false⟩

/-- Two chunks are queued, and the first is acknowledged: `Srp_1_3` takes a timer
that is not there. -/
theorem null_timer : ∃ calls s, Run (guarded InTime Step) (srpInitL (withWindow 0) 1 5) calls s ∧ ¬ s.Good := by
  refine ⟨_, _, Run.snoc (l := []) (i := Call.upperLayerRx [1, 2] plenty) (.nil _) ⟨trivial, _, rfl⟩, fun h => ?_⟩
  refine h.noNull (.lowerLayerRx (srpResponseCreate 0 .nsrpResponse).bytes plenty) trivial ?_
  rfl

/-- **The timers and the queue keep together in every run** if and only if there
is a timer. -/
theorem good_iff (window : Nat) : (∀ tx : Sender, tx.iWNSRPTxWindow = window →
    ∀ (iCcsrlSduSize iWNSRPRxWindow : Nat) (calls : List Call) (s : Endpoint),
      Run (guarded InTime Step) (srpInitL tx iCcsrlSduSize iWNSRPRxWindow) calls s → s.Good) ↔
    0 < window := by
  constructor
  · intro h
    by_contra hzero
    obtain rfl : window = 0 := Nat.le_zero.mp (Nat.not_lt.mp hzero)
    obtain ⟨calls, s, hrun, hbad⟩ := null_timer
    exact hbad (h (withWindow 0) rfl 1 5 calls s hrun)
  · rintro hw tx rfl _ _ calls s hrun
    exact matched_of_run hw hrun

/-- The window may be zero. -/
theorem window_of_zero_fails : ¬ ∀ (tx : Sender) (iCcsrlSduSize iWNSRPRxWindow : Nat) (calls : List Call)
    (s : Endpoint), Run (guarded InTime Step) (srpInitL tx iCcsrlSduSize iWNSRPRxWindow) calls s →
      s.Good := by
  intro h
  obtain ⟨calls, s, hrun, hbad⟩ := null_timer
  exact hbad (h (withWindow 0) 1 5 calls s hrun)

end Endpoint

end Ftke.Srp
