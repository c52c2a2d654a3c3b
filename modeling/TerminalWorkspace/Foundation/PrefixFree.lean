import Mathlib.Data.List.Basic
import Mathlib.Data.Set.Basic

/-! Words that can be told from the front of a text. A language is given with the texts
that may follow a word; lists of words, with separators and a closing symbol, inherit the
property. -/
namespace PrefixFree

section Words
variable {σ : Type*} {words : Set (List σ)} {stops : Set (List σ)}

/-- Where a text starts with the word, it starts with no other word of the language. -/
def ReadAlone (words stops : Set (List σ)) (u : List σ) : Prop :=
  ∀ v ∈ words, ∀ s ∈ stops, ∀ t ∈ stops, u ++ s = v ++ t → u = v ∧ s = t

/-- The words after the first, each behind its separator. -/
theorem intercalate_cons (sep : σ) (u : List σ) (us : List (List σ)) :
    [sep].intercalate (u :: us) = u ++ us.flatMap (sep :: ·) := by
  induction us generalizing u with
  | nil => simp
  | cons v us ih => simp [List.intercalate_cons_cons, ih]

variable {sep close : σ} {us vs : List (List σ)} {s t : List σ}

theorem rest_mem_stops (hsep : ∀ s, sep :: s ∈ stops) (hclose : ∀ s, close :: s ∈ stops)
    (us : List (List σ)) (s : List σ) : us.flatMap (sep :: ·) ++ close :: s ∈ stops := by
  cases us with
  | nil => exact hclose s
  | cons u us => exact hsep _

theorem rest_eq (hne : sep ≠ close) (hsep : ∀ s, sep :: s ∈ stops) (hclose : ∀ s, close :: s ∈ stops)
    (hus : ∀ u ∈ us, ReadAlone words stops u) (hvs : ∀ v ∈ vs, v ∈ words)
    (h : us.flatMap (sep :: ·) ++ close :: s = vs.flatMap (sep :: ·) ++ close :: t) :
    us = vs ∧ s = t := by
  induction us generalizing vs with
  | nil =>
    cases vs with
    | nil => exact ⟨rfl, List.tail_eq_of_cons_eq h⟩
    | cons v vs => exact absurd (List.head_eq_of_cons_eq h).symm hne
  | cons u us ih =>
    cases vs with
    | nil => exact absurd (List.head_eq_of_cons_eq h) hne
    | cons v vs =>
      have htail : u ++ (us.flatMap (sep :: ·) ++ close :: s) =
          v ++ (vs.flatMap (sep :: ·) ++ close :: t) := by simpa using h
      obtain ⟨rfl, hrest⟩ := hus u List.mem_cons_self v (hvs v List.mem_cons_self) _
        (rest_mem_stops hsep hclose us s) _ (rest_mem_stops hsep hclose vs t) htail
      obtain ⟨rfl, rfl⟩ := ih (fun u hu => hus u (List.mem_cons_of_mem _ hu))
        (fun v hv => hvs v (List.mem_cons_of_mem _ hv)) hrest
      exact ⟨rfl, rfl⟩

/-- A separated and closed list of words is read as it was written. -/
theorem separated_eq (hne : sep ≠ close) (hsep : ∀ s, sep :: s ∈ stops)
    (hclose : ∀ s, close :: s ∈ stops)
    (hstart : ∀ w ∈ words, ∀ s t, w ++ s ≠ close :: t)
    (hus : ∀ u ∈ us, u ∈ words ∧ ReadAlone words stops u) (hvs : ∀ v ∈ vs, v ∈ words)
    (h : [sep].intercalate us ++ close :: s = [sep].intercalate vs ++ close :: t) :
    us = vs ∧ s = t := by
  cases us with
  | nil =>
    cases vs with
    | nil => exact ⟨rfl, List.tail_eq_of_cons_eq h⟩
    | cons v vs =>
      rw [intercalate_cons, List.append_assoc] at h
      exact absurd h.symm (hstart v (hvs v List.mem_cons_self) _ _)
  | cons u us =>
    obtain ⟨hu, hread⟩ := hus u List.mem_cons_self
    rw [intercalate_cons, List.append_assoc] at h
    cases vs with
    | nil => exact absurd h (hstart u hu _ _)
    | cons v vs =>
      rw [intercalate_cons, List.append_assoc] at h
      obtain ⟨rfl, hrest⟩ := hread v (hvs v List.mem_cons_self) _
        (rest_mem_stops hsep hclose us s) _ (rest_mem_stops hsep hclose vs t) h
      obtain ⟨rfl, rfl⟩ := rest_eq hne hsep hclose
        (fun u hu => (hus u (List.mem_cons_of_mem _ hu)).2)
        (fun v hv => hvs v (List.mem_cons_of_mem _ hv)) hrest
      exact ⟨rfl, rfl⟩

end Words

section Code
variable {α σ : Type*} {code : α → List σ}

/-- A closed sequence of codes is read as it was written, if no code starts with the
closing symbol and a decoder finds every code. -/
theorem flatMap_eq {decode : List σ → Option (α × List σ)}
    (hdecode : ∀ a s, decode (code a ++ s) = some (a, s)) {close : σ}
    (hstart : ∀ a s t, code a ++ s ≠ close :: t) {l m : List α} {s t : List σ}
    (h : l.flatMap code ++ close :: s = m.flatMap code ++ close :: t) : l = m ∧ s = t := by
  induction l generalizing m with
  | nil =>
    cases m with
    | nil => exact ⟨rfl, List.tail_eq_of_cons_eq h⟩
    | cons b m => exact absurd (by simpa using h.symm) (hstart b _ s)
  | cons a l ih =>
    cases m with
    | nil => exact absurd (by simpa using h) (hstart a _ t)
    | cons b m =>
      rw [List.flatMap_cons, List.flatMap_cons, List.append_assoc, List.append_assoc] at h
      have hread := congrArg decode h
      rw [hdecode, hdecode] at hread
      obtain ⟨rfl, hrest⟩ := Prod.mk.inj (Option.some.inj hread)
      obtain ⟨rfl, rfl⟩ := ih hrest
      exact ⟨rfl, rfl⟩

end Code

/-- A word of symbols that do not occur at the start of what follows is read alone. -/
theorem run_eq {σ : Type*} {symbol : σ → Bool} {u v s t : List σ} (hu : ∀ c ∈ u, symbol c)
    (hv : ∀ c ∈ v, symbol c) (hs : ∀ c ∈ s.head?, symbol c = false)
    (ht : ∀ c ∈ t.head?, symbol c = false) (h : u ++ s = v ++ t) : u = v ∧ s = t := by
  have htake (w r : List σ) (hw : ∀ c ∈ w, symbol c) (hr : ∀ c ∈ r.head?, symbol c = false) :
      (w ++ r).takeWhile symbol = w := by
    rw [List.takeWhile_append_of_pos hw]
    cases r with
    | nil => simp
    | cons c r => simp [hr c rfl]
  have hword : u = v := by rw [← htake u s hu hs, h, htake v t hv ht]
  subst hword
  exact ⟨rfl, List.append_cancel_left h⟩

end PrefixFree
