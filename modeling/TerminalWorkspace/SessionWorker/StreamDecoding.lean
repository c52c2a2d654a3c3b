import TerminalWorkspace.Foundation.Runs
import TerminalWorkspace.Foundation.Utf8Errors
import TerminalWorkspace.SessionWorker.OutputCoalescer

/-! Output does not depend on where it was cut: the loop of the decoder agrees with the machine
that reads byte after byte, and every schedule of the coalescer puts out what decoding all the
bytes at once does. -/
namespace SessionWorker
open Utf8 Runs

section Loop

/-- The loop of `decode`: the text of the rest, and what is kept for the next chunk. -/
def decodeRest (rest : List UInt8) : List Char × List UInt8 :=
  match hresult : fromUtf8 rest with
  | .ok text => (text, [])
  | .error error =>
    let decoded := decodeLossy (rest.take error.validUpTo)
    match hlen : error.errorLen with
    | some bad =>
      let next := decodeRest (rest.drop (error.validUpTo + bad))
      (decoded ++ Char.ofNat 0xFFFD :: next.1, next.2)
    | none => (decoded, rest.drop error.validUpTo)
termination_by rest.length
decreasing_by
  exact length_drop_lt hresult hlen

/-- The loop puts out what the machine does, and keeps the bytes of the unfinished sequence. -/
theorem decodeRest_eq (rest : List UInt8) :
    decodeRest rest = (render (feed none rest).1, hold none [] rest) := by
  fun_induction decodeRest rest with
  | case1 rest text hok =>
    have hfeed := feed_of_ok hok
    rw [hfeed, render_map_some, hold_of_idle (by rw [hfeed])]
  | case2 rest error herror decoded bad hlen next ih =>
    obtain ⟨text, hgood, hfeed, hhold⟩ := feed_of_wrong herror hlen
    have hdecoded : decoded = text := decodeLossy_of_feed hgood
    have hnext : next = _ := ih
    rw [hnext, hdecoded, hfeed, hhold]
    simp [render, Function.comp_def]
  | case3 rest error herror decoded hlen =>
    obtain ⟨text, hgood, hfeed, hhold⟩ := feed_of_cut herror hlen
    have hdecoded : decoded = text := decodeLossy_of_feed hgood
    rw [hdecoded, hfeed, hhold, render_map_some]

theorem decode_eq_decodeRest (d : Utf8StreamDecoder) (bytes : List UInt8) :
    d.decode bytes = ((decodeRest (d.incomplete ++ bytes)).1,
      ⟨(decodeRest (d.incomplete ++ bytes)).2⟩) := by
  rw [decodeRest_eq]
  rfl

end Loop

section Schedules

/-- A call before the final one. -/
inductive Call where
  | push (chunk : List UInt8) (now : ℕ)
  | pollFlush (now : ℕ)

/-- The coalescer, and the texts that its calls have returned. -/
structure Coalescing where
  coalescer : OutputCoalescer
  emitted : List (List Char)

def call (s : Coalescing) : Call → Coalescing
  | .push chunk now =>
    let r := s.coalescer.push chunk now
    ⟨r.2, s.emitted ++ r.1.toList⟩
  | .pollFlush now =>
    let r := s.coalescer.pollFlush now
    ⟨r.2, s.emitted ++ r.1.toList⟩

def coalesce (window maxBytes : ℕ) (calls : List Call) : Coalescing :=
  run call ⟨.new window maxBytes, []⟩ calls

/-- The texts of the calls, and that of the call of `finish` at the end. -/
def texts (window maxBytes : ℕ) (calls : List Call) : List (List Char) :=
  let s := coalesce window maxBytes calls
  s.emitted ++ s.coalescer.finish.1.toList

def chunks : List Call → List (List UInt8)
  | [] => []
  | .push chunk _ :: calls => chunk :: chunks calls
  | .pollFlush _ :: calls => chunks calls

variable {c : OutputCoalescer}

theorem flush_incomplete (h : c.decoder.incomplete.length ≤ 3) :
    c.flush.2.decoder.incomplete.length ≤ 3 ∧ c.flush.2.pending = [] ∧
      c.flush.2.maxBytes = c.maxBytes := by
  rw [OutputCoalescer.flush]
  split_ifs with hempty
  · exact ⟨h, hempty, rfl⟩
  · exact ⟨length_hold_le _, rfl, rfl⟩

/-- What is buffered after a push, above the longest unfinished sequence, is below the bound. -/
theorem push_bounds (h : c.decoder.incomplete.length ≤ 3) (chunk : List UInt8) (now : ℕ) :
    (c.push chunk now).2.decoder.incomplete.length ≤ 3 ∧
      (c.push chunk now).2.maxBytes = c.maxBytes ∧
      (3 < c.maxBytes → (c.push chunk now).2.pending.length +
        (c.push chunk now).2.decoder.incomplete.length < c.maxBytes) := by
  simp only [OutputCoalescer.push]
  split_ifs with hfull
  · obtain ⟨hincomplete, hpending, hmax⟩ := flush_incomplete (c := { c with
      pendingSince := some (c.pendingSince.getD now)
      pending := c.pending ++ chunk }) h
    refine ⟨hincomplete, hmax, fun hthree => ?_⟩
    rw [hpending, List.length_nil, Nat.zero_add]
    exact Nat.lt_of_le_of_lt hincomplete hthree
  · exact ⟨h, rfl, fun _ => Nat.lt_of_not_le hfull⟩

theorem pollFlush_bounds (h : c.decoder.incomplete.length ≤ 3) (now : ℕ) :
    (c.pollFlush now).2.decoder.incomplete.length ≤ 3 ∧
      (c.pollFlush now).2.maxBytes = c.maxBytes := by
  obtain ⟨hincomplete, -, hmax⟩ := flush_incomplete h
  rw [OutputCoalescer.pollFlush]
  split
  · split_ifs
    · exact ⟨hincomplete, hmax⟩
    · exact ⟨h, rfl⟩
  · exact ⟨h, rfl⟩

/-- What every call keeps, when `received` has been pushed so far. -/
structure Coalescing.Sound (maxBytes : ℕ) (received : List UInt8) (s : Coalescing) : Prop where
  holds : s.coalescer.Holds received s.emitted.flatten
  incomplete : s.coalescer.decoder.incomplete.length ≤ 3
  maxBytes : s.coalescer.maxBytes = maxBytes

theorem flatten_toList (texts : List (List Char)) (text : Option (List Char)) :
    (texts ++ text.toList).flatten = texts.flatten ++ text.getD [] := by
  cases text with
  | none => simp
  | some text => simp

theorem sound_call {maxBytes : ℕ} {received : List UInt8} {s : Coalescing}
    (h : s.Sound maxBytes received) (next : Call) :
    (call s next).Sound maxBytes (received ++ (chunks [next]).flatten) := by
  cases next with
  | push chunk now =>
    obtain ⟨hincomplete, hmax, -⟩ := push_bounds h.incomplete chunk now
    refine ⟨?_, hincomplete, hmax.trans h.maxBytes⟩
    have hpush := h.holds.push chunk now
    rw [← flatten_toList] at hpush
    rw [chunks, chunks, List.flatten_singleton]
    exact hpush
  | pollFlush now =>
    obtain ⟨hincomplete, hmax⟩ := pollFlush_bounds h.incomplete now
    refine ⟨?_, hincomplete, hmax.trans h.maxBytes⟩
    have hpoll := h.holds.pollFlush now
    rw [← flatten_toList] at hpoll
    rw [chunks, chunks, List.flatten_nil, List.append_nil]
    exact hpoll

theorem chunks_cons (next : Call) (calls : List Call) :
    chunks (next :: calls) = chunks [next] ++ chunks calls := by
  cases next with
  | push => rfl
  | pollFlush => rfl

theorem sound_run {maxBytes : ℕ} {received : List UInt8} {s : Coalescing}
    (h : s.Sound maxBytes received) (calls : List Call) :
    (run call s calls).Sound maxBytes (received ++ (chunks calls).flatten) := by
  induction calls generalizing s received with
  | nil => simpa [chunks] using h
  | cons next calls ih =>
    have hrest := ih (sound_call h next)
    rwa [List.append_assoc, ← List.flatten_append, ← chunks_cons] at hrest

theorem sound_coalesce (window maxBytes : ℕ) (calls : List Call) :
    (coalesce window maxBytes calls).Sound maxBytes (chunks calls).flatten := by
  have hnew : Coalescing.Sound maxBytes [] ⟨.new window maxBytes, []⟩ :=
    ⟨OutputCoalescer.holds_new window maxBytes, Nat.zero_le 3, rfl⟩
  exact sound_run hnew calls

/-- Whatever the chunks, the thresholds and the instants of the calls: all bytes are decoded as
they would be at once, and few of them are kept back. -/
theorem texts_flatten (window maxBytes : ℕ) (calls : List Call) :
    (texts window maxBytes calls).flatten = decodeLossy (chunks calls).flatten ∧
      (coalesce window maxBytes calls).coalescer.decoder.incomplete.length ≤ 3 ∧
      (coalesce window maxBytes calls).coalescer.finish.2.decoder.incomplete = [] ∧
      (3 < maxBytes → ∀ chunk now,
        let c := (coalesce window maxBytes (calls ++ [.push chunk now])).coalescer
        c.pending.length + c.decoder.incomplete.length < maxBytes) := by
  have hsound := sound_coalesce window maxBytes calls
  obtain ⟨htext, hempty⟩ := hsound.holds.finish
  refine ⟨?_, hsound.incomplete, hempty.2, fun hthree chunk now => ?_⟩
  · rw [texts, flatten_toList, htext]
  · have hpushed := (push_bounds hsound.incomplete chunk now).2.2
    rw [hsound.maxBytes] at hpushed
    rw [coalesce, run_append]
    exact hpushed hthree

end Schedules

end SessionWorker
