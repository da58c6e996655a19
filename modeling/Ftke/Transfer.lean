import Mathlib.Data.List.Basic
import Mathlib.Data.List.Perm.Basic

/-!
# Ftke.Transfer

Messages handed from one party to another.

A `Log` says what has become of the messages accepted so far.  `Delivered` is
that none was duplicated or overtook another, and that each one is accounted
for; the rules say how it is kept when messages are accepted, moved, taken or lost.
-/

namespace Ftke

variable {Msg : Type*}

/-- The messages accepted for transfer, and what has become of them. -/
structure Log (Msg : Type*) where
  accepted : List Msg
  dequeued : List Msg
  cleared : List Msg
  discarded : List Msg
  deriving DecidableEq, Repr

namespace Log

def empty : Log Msg := ⟨[], [], [], []⟩

/-- A message is accepted. -/
def accept (log : Log Msg) (msg : Msg) : Log Msg := { log with accepted := log.accepted ++ [msg] }

/-- Messages are taken by the receiver. -/
def dequeue (log : Log Msg) (msgs : List Msg) : Log Msg := { log with dequeued := log.dequeued ++ msgs }

/-- Messages on the way are cleared. -/
def clear (log : Log Msg) (msgs : List Msg) : Log Msg := { log with cleared := log.cleared ++ msgs }

/-- Messages on the way are discarded. -/
def discard (log : Log Msg) (msgs : List Msg) : Log Msg := { log with discarded := log.discarded ++ msgs }

/-- With `onTheWay` the messages neither taken nor lost: the messages taken, and after them those on the
way, are accepted ones in their order, and with those lost they are all that were accepted. -/
structure Delivered (log : Log Msg) (onTheWay : List Msg) : Prop where
  inOrder : (log.dequeued ++ onTheWay).Sublist log.accepted
  all : (log.dequeued ++ onTheWay ++ log.cleared ++ log.discarded).Perm log.accepted

variable {log : Log Msg} {way way' msgs : List Msg}

theorem delivered_empty : (empty : Log Msg).Delivered [] := ⟨List.Sublist.refl _, List.Perm.refl _⟩

namespace Delivered

theorem accept (h : log.Delivered way) (msg : Msg) : (log.accept msg).Delivered (way ++ [msg]) where
  inOrder := by
    rw [← List.append_assoc]
    exact h.inOrder.append (List.Sublist.refl _)
  all := by
    have hmove : (log.dequeued ++ (way ++ [msg]) ++ log.cleared ++ log.discarded).Perm
        (log.dequeued ++ way ++ log.cleared ++ log.discarded ++ [msg]) := by
      simp only [List.append_assoc]
      exact (List.perm_append_comm.append_left _).append_left _ |>.trans (by simp)
    exact hmove.trans (h.all.append_right _)

theorem dequeue (h : log.Delivered (msgs ++ way)) : (log.dequeue msgs).Delivered way where
  inOrder := by
    have hin := h.inOrder
    rwa [← List.append_assoc] at hin
  all := by
    have hall := h.all
    rwa [← List.append_assoc] at hall

theorem clear (h : log.Delivered way) (hsub : way'.Sublist way) (hperm : (way' ++ msgs).Perm way) :
    (log.clear msgs).Delivered way' where
  inOrder := (hsub.append_left _).trans h.inOrder
  all := by
    have hmove : (way' ++ (log.cleared ++ msgs)).Perm (way ++ log.cleared) := by
      have hcomm : (way' ++ (log.cleared ++ msgs)).Perm (way' ++ (msgs ++ log.cleared)) :=
        List.perm_append_comm.append_left way'
      refine hcomm.trans ?_
      rw [← List.append_assoc]
      exact hperm.append_right _
    have hall := h.all
    simp only [List.append_assoc] at hall
    have hpad := (hmove.append_right log.discarded).append_left log.dequeued
    simp only [List.append_assoc] at hpad
    simpa only [Log.clear, List.append_assoc] using hpad.trans hall

theorem discard (h : log.Delivered way) (hsub : way'.Sublist way) (hperm : (way' ++ msgs).Perm way) :
    (log.discard msgs).Delivered way' where
  inOrder := (hsub.append_left _).trans h.inOrder
  all := by
    have hmove : (way' ++ (log.cleared ++ log.discarded ++ msgs)).Perm (way ++ (log.cleared ++ log.discarded)) := by
      have hcomm : (way' ++ (log.cleared ++ log.discarded ++ msgs)).Perm
          (way' ++ (msgs ++ (log.cleared ++ log.discarded))) := List.perm_append_comm.append_left way'
      refine hcomm.trans ?_
      rw [← List.append_assoc]
      exact hperm.append_right _
    have hall := h.all
    simp only [List.append_assoc] at hall
    have hpad := hmove.append_left log.dequeued
    simp only [List.append_assoc] at hpad
    simpa only [Log.discard, List.append_assoc] using hpad.trans hall

end Delivered

end Log

end Ftke
