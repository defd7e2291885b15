import Mathlib.Data.Finset.Card
import Mathlib.Data.List.Nodup

/-
  A counting semaphore that hands out its permits in the order in which they were asked for.

  `available` are the permits that nobody holds. A party that asks stands at the end of `queue`;
  the first of the queue takes a permit as soon as there is one. A party may leave the queue, and
  a party that holds a permit gives it back.

  `Balanced n sem holds waits` relates the semaphore to the parties: those that hold a permit and
  the free permits are `n` together, and the queue lists the parties that wait. Every operation
  keeps it, and it bounds the holders (`Balanced.card_le`).
-/

namespace Permits

variable {ι : Type} [DecidableEq ι]

structure Semaphore (ι : Type) where
  available : Nat
  queue : List ι
  deriving DecidableEq, Repr

namespace Semaphore

def new (permits : Nat) : Semaphore ι := ⟨permits, []⟩

/-- A party asks for a permit. -/
def enqueue (sem : Semaphore ι) (c : ι) : Semaphore ι := { sem with queue := sem.queue ++ [c] }

/-- The first of the queue takes a permit. -/
def acquire (sem : Semaphore ι) (c : ι) : Option (Semaphore ι) :=
  match sem.queue with
  | d :: queue => if d = c ∧ 0 < sem.available then some ⟨sem.available - 1, queue⟩ else none
  | [] => none

/-- A party gives up waiting. -/
def leave (sem : Semaphore ι) (c : ι) : Semaphore ι := { sem with queue := sem.queue.erase c }

/-- A party gives its permit back. -/
def release (sem : Semaphore ι) : Semaphore ι := { sem with available := sem.available + 1 }

theorem acquire_eq_some {sem sem' : Semaphore ι} {c : ι} :
    sem.acquire c = some sem' ↔
      ∃ queue, sem.queue = c :: queue ∧ 0 < sem.available ∧ sem' = ⟨sem.available - 1, queue⟩ := by
  unfold acquire
  cases hqueue : sem.queue with
  | nil => simp
  | cons d queue =>
    dsimp only
    split
    · rename_i h
      obtain ⟨rfl, hpos⟩ := h
      constructor
      · intro heq
        exact ⟨queue, rfl, hpos, (Option.some.inj heq).symm⟩
      · rintro ⟨queue', heq, -, rfl⟩
        rw [(List.cons.inj heq).2]
    · rename_i h
      constructor
      · intro heq
        cases heq
      · rintro ⟨queue', heq, hpos, -⟩
        exact absurd ⟨(List.cons.inj heq).1, hpos⟩ h

end Semaphore

/-- The permits of the holders and the free ones are `n`, and the queue lists who waits. -/
structure Balanced (n : Nat) (sem : Semaphore ι) (holds waits : ι → Prop) : Prop where
  permits : ∃ holders : Finset ι, (∀ c, c ∈ holders ↔ holds c) ∧ holders.card + sem.available = n
  nodup : sem.queue.Nodup
  queue : ∀ c, c ∈ sem.queue ↔ waits c

variable {n : Nat} {sem sem' : Semaphore ι} {holds holds' waits waits' : ι → Prop} {c : ι}

omit [DecidableEq ι] in
theorem balanced_new (hholds : ∀ c, ¬ holds c) (hwaits : ∀ c, ¬ waits c) :
    Balanced n (Semaphore.new n : Semaphore ι) holds waits where
  permits := ⟨∅, fun c => by simp [hholds c], by simp [Semaphore.new]⟩
  nodup := List.nodup_nil
  queue c := by simp [Semaphore.new, hwaits c]

omit [DecidableEq ι] in
/-- Only the descriptions of the holders and of the queue change. -/
theorem Balanced.congr (h : Balanced n sem holds waits) (hholds : ∀ d, holds' d ↔ holds d)
    (hwaits : ∀ d, waits' d ↔ waits d) : Balanced n sem holds' waits' where
  permits := by
    obtain ⟨holders, hmem, hcard⟩ := h.permits
    exact ⟨holders, fun d => (hmem d).trans (hholds d).symm, hcard⟩
  nodup := h.nodup
  queue d := (h.queue d).trans (hwaits d).symm

omit [DecidableEq ι] in
theorem Balanced.enqueue (h : Balanced n sem holds waits) (new : ¬ waits c)
    (hholds : ∀ d, holds' d ↔ holds d) (hwaits : ∀ d, waits' d ↔ waits d ∨ d = c) :
    Balanced n (sem.enqueue c) holds' waits' where
  permits := (h.congr hholds fun _ => Iff.rfl).permits
  nodup := by
    have hc : c ∉ sem.queue := fun hc => new ((h.queue c).mp hc)
    refine List.Nodup.append h.nodup (List.nodup_singleton c) ?_
    intro d hd hd'
    rw [List.mem_singleton] at hd'
    exact hc (hd' ▸ hd)
  queue d := by rw [Semaphore.enqueue, List.mem_append, List.mem_singleton, h.queue, hwaits]

theorem Balanced.acquire (h : Balanced n sem holds waits) (taken : sem.acquire c = some sem')
    (hc : ¬ holds c) (hholds : ∀ d, holds' d ↔ d = c ∨ holds d)
    (hwaits : ∀ d, waits' d ↔ d ≠ c ∧ waits d) : Balanced n sem' holds' waits' := by
  obtain ⟨queue, hqueue, hpos, rfl⟩ := Semaphore.acquire_eq_some.mp taken
  obtain ⟨holders, hmem, hcard⟩ := h.permits
  have hnodup : (c :: queue).Nodup := hqueue ▸ h.nodup
  refine ⟨⟨insert c holders, fun d => ?_, ?_⟩, (List.nodup_cons.mp hnodup).2, fun d => ?_⟩
  · rw [Finset.mem_insert, hmem, hholds]
  · rw [Finset.card_insert_of_notMem fun hin => hc ((hmem c).mp hin)]
    dsimp only
    omega
  · rw [hwaits, ← h.queue d, hqueue, List.mem_cons]
    constructor
    · intro hd
      exact ⟨fun heq => (List.nodup_cons.mp hnodup).1 (heq ▸ hd), Or.inr hd⟩
    · rintro ⟨hne, heq | hd⟩
      · exact absurd heq hne
      · exact hd

theorem Balanced.leave (h : Balanced n sem holds waits) (hholds : ∀ d, holds' d ↔ holds d)
    (hwaits : ∀ d, waits' d ↔ d ≠ c ∧ waits d) : Balanced n (sem.leave c) holds' waits' where
  permits := (h.congr hholds fun _ => Iff.rfl).permits
  nodup := h.nodup.erase c
  queue d := by rw [Semaphore.leave, h.nodup.mem_erase_iff, h.queue, hwaits]

theorem Balanced.release (h : Balanced n sem holds waits) (hc : holds c)
    (hholds : ∀ d, holds' d ↔ d ≠ c ∧ holds d) (hwaits : ∀ d, waits' d ↔ waits d) :
    Balanced n sem.release holds' waits' := by
  obtain ⟨holders, hmem, hcard⟩ := h.permits
  refine ⟨⟨holders.erase c, fun d => ?_, ?_⟩, h.nodup, fun d => (h.queue d).trans (hwaits d).symm⟩
  · rw [Finset.mem_erase, hmem, hholds]
  · have herase := Finset.card_erase_add_one ((hmem c).mpr hc)
    simp only [Semaphore.release]
    omega

omit [DecidableEq ι] in
/-- However the holders are counted, they are no more than the permits. -/
theorem Balanced.card_le (h : Balanced n sem holds waits) (B : Finset ι)
    (hB : ∀ c ∈ B, holds c) : B.card ≤ n := by
  obtain ⟨holders, hmem, hcard⟩ := h.permits
  have hle : B.card ≤ holders.card := Finset.card_le_card fun c hc => (hmem c).mpr (hB c hc)
  omega

/-- Somebody who waits in vain has all permits in the hands of others: where a permit is free,
    the first of the queue can take it. -/
theorem Balanced.enabled (h : Balanced n sem holds waits) (hn : 0 < n) (hc : waits c) :
    (∃ d, holds d) ∨ ∃ d sem', waits d ∧ sem.acquire d = some sem' := by
  obtain ⟨holders, hmem, hcard⟩ := h.permits
  by_cases hfree : 0 < sem.available
  · have hin := (h.queue c).mpr hc
    cases hqueue : sem.queue with
    | nil => simp [hqueue] at hin
    | cons d queue =>
      refine Or.inr ⟨d, ⟨sem.available - 1, queue⟩, (h.queue d).mp (by simp [hqueue]), ?_⟩
      exact Semaphore.acquire_eq_some.mpr ⟨queue, hqueue, hfree, rfl⟩
  · have hpos : 0 < holders.card := by omega
    obtain ⟨d, hd⟩ := Finset.card_pos.mp hpos
    exact Or.inl ⟨d, (hmem d).mp hd⟩

end Permits
