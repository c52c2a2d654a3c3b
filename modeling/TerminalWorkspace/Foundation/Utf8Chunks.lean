import TerminalWorkspace.Foundation.Utf8
import Mathlib.Data.List.Induction

/-! Decoding a byte string chunk by chunk. A decoder that starts anew at each chunk agrees
with one that reads all the bytes, unless a chunk goes on with a sequence that the bytes
before it have left unfinished; then it puts out more. -/
namespace Utf8

/-- What reading `bytes` from a state to their end puts out. -/
def drain (s : Option Pending) (bytes : List UInt8) : List Item :=
  (feed s bytes).1 ++ flush (feed s bytes).2

/-- The next byte belongs to the unfinished sequence. -/
def continued (s : Option Pending) : List UInt8 → Bool
  | [] => false
  | b :: _ => s.any fun p => decide (p.lower ≤ b.toNat ∧ b.toNat ≤ p.upper)

/-- An unfinished sequence waits for continuation bytes. -/
def Waits (s : Option Pending) : Prop := ∀ p ∈ s, 0x80 ≤ p.lower ∧ p.upper ≤ 0xBF

theorem items_eq_drain (bytes : List UInt8) : items bytes = drain none bytes := rfl

theorem items_append (a b : List UInt8) :
    items (a ++ b) = (feed none a).1 ++ drain (feed none a).2 b := by
  simp only [items, drain, feed_append, List.append_assoc]

theorem drain_cons (s : Option Pending) (b : UInt8) (bs : List UInt8) :
    drain s (b :: bs) = (step s b.toNat).1 ++ drain (step s b.toNat).2 bs := by
  simp only [drain, feed, List.append_assoc]

theorem waits_none : Waits none := nofun

theorem waits_start (b : ℕ) : Waits (start b).2 := by
  unfold start
  split_ifs <;> simp [Waits]

theorem waits_step {s : Option Pending} (h : Waits s) (b : ℕ) : Waits (step s b).2 := by
  cases s with
  | none => exact waits_start b
  | some p =>
    simp only [step]
    split_ifs
    · exact waits_none
    · rintro q ⟨⟩
      exact ⟨le_rfl, le_rfl⟩
    · exact waits_start b

theorem waits_feed {s : Option Pending} (h : Waits s) (bytes : List UInt8) :
    Waits (feed s bytes).2 := by
  induction bytes generalizing s with
  | nil => exact h
  | cons b bs ih => exact ih (waits_step h b.toNat)

/-- A sequence that is not continued is one error, and the rest is read from the start. -/
theorem drain_of_not_continued {s : Option Pending} {bytes : List UInt8}
    (h : continued s bytes = false) : drain s bytes = flush s ++ drain none bytes := by
  cases s with
  | none => rfl
  | some p =>
    cases bytes with
    | nil => rfl
    | cons b bs =>
      have hrange : ¬(p.lower ≤ b.toNat ∧ b.toNat ≤ p.upper) := of_decide_eq_false h
      have hstep : step (some p) b.toNat = (none :: (start b.toNat).1, (start b.toNat).2) :=
        if_neg hrange
      rw [drain_cons, drain_cons, hstep]
      rfl

/-- A continuation byte is an error at the start of a sequence. -/
theorem drain_continuation {b : UInt8} (h : 0x80 ≤ b.toNat ∧ b.toNat ≤ 0xBF) (bs : List UInt8) :
    drain none (b :: bs) = none :: drain none bs := by
  have hstart : start b.toNat = ([none], none) := by
    rw [start, if_neg (by omega), if_neg (by omega), if_neg (by omega), if_neg (by omega)]
  rw [drain_cons, step, hstart]
  rfl

/-- Starting anew never puts out less, and puts out more where a sequence is cut. -/
theorem length_drain (bytes : List UInt8) : ∀ {s : Option Pending}, Waits s →
    (drain s bytes).length + (if continued s bytes then 1 else 0) ≤
      (flush s).length + (drain none bytes).length := by
  induction bytes with
  | nil =>
    intro s _
    rw [show continued s [] = false from rfl]
    simp [drain, feed, flush]
  | cons b bs ih =>
    intro s hs
    by_cases hcontinued : continued s (b :: bs) = true
    · obtain ⟨p, rfl, hrange⟩ : ∃ p, s = some p ∧ p.lower ≤ b.toNat ∧ b.toNat ≤ p.upper := by
        cases s with
        | none => cases hcontinued
        | some p => exact ⟨p, rfl, of_decide_eq_true hcontinued⟩
      have hwaits := hs p rfl
      have hnone := drain_continuation (b := b) (by omega) bs
      rw [if_pos hcontinued, hnone, drain_cons]
      have hnext := ih (waits_step hs b.toNat)
      simp only [step, if_pos hrange] at hnext ⊢
      split_ifs at hnext ⊢ <;> simp [flush] at hnext ⊢ <;> omega
    · have hfalse : continued s (b :: bs) = false := by simpa using hcontinued
      rw [drain_of_not_continued hfalse, hfalse]
      simp

/-- Each chunk starts a sequence of its own. -/
def StartsAnew (chunks : List (List UInt8)) : Prop :=
  ∀ first chunk, first ++ [chunk] <+: chunks →
    continued (feed none first.flatten).2 chunk = false

theorem startsAnew_nil : StartsAnew [] := by
  intro first chunk h
  exact absurd (List.prefix_nil.mp h) (by simp)

theorem startsAnew_concat (chunks : List (List UInt8)) (chunk : List UInt8) :
    StartsAnew (chunks ++ [chunk]) ↔
      StartsAnew chunks ∧ continued (feed none chunks.flatten).2 chunk = false := by
  constructor
  · intro h
    exact ⟨fun first c hfirst => h first c (hfirst.trans (List.prefix_append _ _)),
      h chunks chunk (List.prefix_refl _)⟩
  · rintro ⟨hchunks, hlast⟩ first c hfirst
    rcases List.prefix_concat_iff.mp hfirst with heq | hprefix
    · obtain ⟨rfl, hc⟩ := List.append_inj' heq rfl
      cases hc
      exact hlast
    · exact hchunks first c hprefix

theorem items_concat (chunks : List (List UInt8)) (chunk : List UInt8) :
    items (chunks ++ [chunk]).flatten =
      (feed none chunks.flatten).1 ++ drain (feed none chunks.flatten).2 chunk := by
  rw [List.flatten_append, List.flatten_singleton, items_append]

/-- Chunks that start anew are decoded one by one as they are decoded together. -/
theorem items_flatMap {chunks : List (List UInt8)} (h : StartsAnew chunks) :
    chunks.flatMap items = items chunks.flatten := by
  induction chunks using List.reverseRecOn with
  | nil => rfl
  | append_singleton chunks chunk ih =>
    obtain ⟨hchunks, hlast⟩ := (startsAnew_concat chunks chunk).mp h
    rw [List.flatMap_append, List.flatMap_singleton, ih hchunks, items_concat,
      drain_of_not_continued hlast, items_eq_drain, items_eq_drain, drain, List.append_assoc]

/-- Decoding chunk by chunk never puts out less, and puts out more where a chunk goes on with
an unfinished sequence. -/
theorem length_items_flatten (chunks : List (List UInt8)) :
    (items chunks.flatten).length ≤ (chunks.flatMap items).length ∧
      ((chunks.flatMap items).length = (items chunks.flatten).length → StartsAnew chunks) := by
  induction chunks using List.reverseRecOn with
  | nil => exact ⟨le_rfl, fun _ => startsAnew_nil⟩
  | append_singleton chunks chunk ih =>
    obtain ⟨ihlength, ihanew⟩ := ih
    have hchunk := length_drain chunk (waits_feed waits_none chunks.flatten)
    have hbefore : (items chunks.flatten).length =
        (feed none chunks.flatten).1.length + (flush (feed none chunks.flatten).2).length :=
      List.length_append
    rw [← items_eq_drain] at hchunk
    rw [items_concat, List.flatMap_append, List.flatMap_singleton, List.length_append,
      List.length_append, startsAnew_concat]
    refine ⟨by omega, fun heq => ⟨ihanew (by omega), ?_⟩⟩
    by_contra hcontinued
    rw [if_pos (by simpa using hcontinued)] at hchunk
    omega

end Utf8
