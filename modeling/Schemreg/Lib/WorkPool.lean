import Mathlib.Data.List.Perm.Basic
import Mathlib.Data.List.Nodup

/-
  Accounts of a pool that works through a list of items, in any order and with several at a time.

  An item is pending, or it was started under a ticket; a ticket is running, or it has settled with
  an outcome. `Accounts` says that nothing is lost and nothing is done twice. Both moves of a pool
  keep it (`Accounts.start`, `Accounts.settle`), so once nothing is pending or running, the outcomes
  are those of all items, one of each (`Accounts.all_settled`).
-/

namespace WorkPool

variable {α ι β : Type}

/-- The ticket and the item of an outcome. -/
def ticket (x : ι × α × β) : ι × α := (x.1, x.2.1)

structure Accounts (items pending : List α) (started running : List (ι × α))
    (settled : List (ι × α × β)) : Prop where
  items : (pending ++ started.map Prod.snd).Perm items
  started : started.Perm (running ++ settled.map ticket)

variable {items pending : List α} {started running : List (ι × α)} {settled : List (ι × α × β)}

theorem Accounts.init (items : List α) :
    Accounts items items ([] : List (ι × α)) [] ([] : List (ι × α × β)) where
  items := by
    rw [List.map_nil, List.append_nil]
  started := List.Perm.refl _

variable [DecidableEq α]

theorem Accounts.start (h : Accounts items pending started running settled) {i : ι} {a : α}
    (ha : a ∈ pending) :
    Accounts items (pending.erase a) (started ++ [(i, a)]) ((i, a) :: running) settled where
  items := by
    rw [List.map_append]
    have hmoved : (pending.erase a ++ (started.map Prod.snd ++ [a])).Perm
        (a :: pending.erase a ++ started.map Prod.snd) := by
      rw [← List.append_assoc]
      exact List.perm_append_singleton _ _
    exact hmoved.trans (((List.perm_cons_erase ha).symm.append_right _).trans h.items)
  started := (List.perm_append_singleton _ _).trans (h.started.cons _)

theorem Accounts.settle [DecidableEq ι] (h : Accounts items pending started running settled) {i : ι}
    {a : α} (ha : (i, a) ∈ running) (outcome : β) :
    Accounts items pending started (running.erase (i, a)) (settled ++ [(i, a, outcome)]) where
  items := h.items
  started := by
    rw [List.map_append]
    have hmoved : (running.erase (i, a) ++ (settled.map ticket ++ [(i, a)])).Perm
        ((i, a) :: running.erase (i, a) ++ settled.map ticket) := by
      rw [← List.append_assoc]
      exact List.perm_append_singleton _ _
    exact h.started.trans (((List.perm_cons_erase ha).append_right _).trans hmoved.symm)

omit [DecidableEq α] in
/-- Of different items, none is running twice. -/
theorem Accounts.running_nodup (h : Accounts items pending started running settled)
    (hitems : items.Nodup) : running.Nodup := by
  have hboth := h.items.nodup_iff.mpr hitems
  have hstarted : started.Nodup :=
    List.Nodup.of_map Prod.snd (List.nodup_append.mp hboth).2.1
  exact (List.nodup_append.mp (h.started.nodup_iff.mp hstarted)).1

omit [DecidableEq α] in
theorem Accounts.all_settled (h : Accounts items [] started [] settled) :
    started.Perm (settled.map ticket) ∧ (settled.map fun x => x.2.1).Perm items := by
  refine ⟨h.started, ?_⟩
  have hitems := (h.started.map Prod.snd).symm
  rw [List.nil_append, List.map_map] at hitems
  exact hitems.trans h.items

end WorkPool
