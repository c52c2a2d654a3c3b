import TerminalWorkspace.Foundation.Utf8

/-! The buffer between a session's reader and the terminal: bytes are collected for a while and
decoded as one stream, whatever the places at which they were cut. -/
namespace SessionWorker
open Utf8

def coalesceWindowMs : ℕ := 12

def coalesceMaxBytes : ℕ := 64 * 1024

structure Utf8StreamDecoder where
  incomplete : List UInt8
  deriving DecidableEq, Repr

namespace Utf8StreamDecoder
variable (d : Utf8StreamDecoder)

/-- Decode what is complete; an unfinished sequence at the end waits for the next chunk. -/
def decode (bytes : List UInt8) : List Char × Utf8StreamDecoder :=
  let buffer := d.incomplete ++ bytes
  (render (feed none buffer).1, ⟨hold none [] buffer⟩)

def finish : List Char × Utf8StreamDecoder :=
  if d.incomplete = [] then ([], d) else ([Char.ofNat 0xFFFD], ⟨[]⟩)

/-- The decoder has read `consumed`. -/
def Tracks (consumed : List UInt8) : Prop :=
  feed none d.incomplete = ([], (feed none consumed).2)

theorem tracks_nil : Tracks ⟨[]⟩ [] := rfl

variable {d} {consumed : List UInt8}

theorem Tracks.decode (h : d.Tracks consumed) (bytes : List UInt8) :
    render (feed none consumed).1 ++ (d.decode bytes).1 = render (feed none (consumed ++ bytes)).1 ∧
      (d.decode bytes).2.Tracks (consumed ++ bytes) := by
  have hfeed : feed none (d.incomplete ++ bytes) = feed (feed none consumed).2 bytes := by
    rw [feed_append, h]
    simp
  constructor
  · simp only [Utf8StreamDecoder.decode, hfeed, feed_append, render, List.map_append]
  · simp only [Tracks, Utf8StreamDecoder.decode]
    rw [feed_hold none [] _ rfl, hfeed, feed_append]

/-- At the end every byte has been decoded. -/
theorem Tracks.finish (h : d.Tracks consumed) :
    render (feed none consumed).1 ++ d.finish.1 = decodeLossy consumed := by
  have hpending := feed_pending h
  rw [Utf8StreamDecoder.finish, decodeLossy, items, List.map_append]
  split_ifs with hempty
  · rw [hpending.mpr hempty]
    rfl
  · cases hstate : (feed none consumed).2 with
    | none => exact absurd (hpending.mp hstate) hempty
    | some p => rfl

/-- Nothing is held back exactly when what was decoded is all there is. -/
theorem Tracks.complete (h : d.Tracks consumed) (hempty : d.incomplete = []) :
    render (feed none consumed).1 = decodeLossy consumed := by
  rw [← h.finish, Utf8StreamDecoder.finish, if_pos hempty, List.append_nil]

end Utf8StreamDecoder

structure OutputCoalescer where
  pending : List UInt8
  pendingSince : Option ℕ
  window : ℕ
  maxBytes : ℕ
  decoder : Utf8StreamDecoder
  deriving DecidableEq, Repr

namespace OutputCoalescer
variable (c : OutputCoalescer)

def new (window maxBytes : ℕ) : OutputCoalescer := ⟨[], none, window, maxBytes, ⟨[]⟩⟩

/-- The text that is ready, `none` when there is none: no event is sent for it. -/
def nonEmpty (text : List Char) : Option (List Char) := if text = [] then none else some text

def flush : Option (List Char) × OutputCoalescer :=
  if c.pending = [] then (none, { c with pendingSince := none })
  else
    let decoded := c.decoder.decode c.pending
    (nonEmpty decoded.1, { c with pending := [], pendingSince := none, decoder := decoded.2 })

def push (chunk : List UInt8) (now : ℕ) : Option (List Char) × OutputCoalescer :=
  let c := { c with pendingSince := some (c.pendingSince.getD now), pending := c.pending ++ chunk }
  if c.maxBytes ≤ c.pending.length + c.decoder.incomplete.length then c.flush else (none, c)

def pollFlush (now : ℕ) : Option (List Char) × OutputCoalescer :=
  match c.pendingSince with
  | some since => if c.window ≤ now - since then c.flush else (none, c)
  | none => (none, c)

def finish : Option (List Char) × OutputCoalescer :=
  let flushed := c.flush
  let rest := flushed.2.decoder.finish
  (nonEmpty (flushed.1.getD [] ++ rest.1), { flushed.2 with decoder := rest.2 })

/-- Nothing is buffered. -/
def Empty : Prop := c.pending = [] ∧ c.decoder.incomplete = []

instance : Decidable c.Empty := inferInstanceAs (Decidable (_ ∧ _))

/-- `received` has gone in and `text` has come out. -/
def Holds (received : List UInt8) (text : List Char) : Prop :=
  ∃ consumed, received = consumed ++ c.pending ∧ c.decoder.Tracks consumed ∧
    text = render (feed none consumed).1

theorem holds_new (window maxBytes : ℕ) : (new window maxBytes).Holds [] [] :=
  ⟨[], rfl, Utf8StreamDecoder.tracks_nil, rfl⟩

variable {c} {received : List UInt8} {text : List Char}

theorem getD_nonEmpty (text : List Char) : (nonEmpty text).getD [] = text := by
  rw [nonEmpty]
  split_ifs with h
  · exact h.symm
  · rfl

/-- After a flush nothing is pending but an unfinished character. -/
theorem Holds.flush (h : c.Holds received text) :
    c.flush.2.Holds received (text ++ c.flush.1.getD []) ∧ c.flush.2.pending = [] := by
  obtain ⟨consumed, hreceived, htracks, rfl⟩ := h
  rw [OutputCoalescer.flush]
  split_ifs with hempty
  · exact ⟨⟨consumed, hreceived, htracks, List.append_nil _⟩, hempty⟩
  · obtain ⟨htext, htracks⟩ := htracks.decode c.pending
    refine ⟨⟨consumed ++ c.pending, ?_, htracks, ?_⟩, rfl⟩
    · exact hreceived.trans (List.append_nil _).symm
    · rw [getD_nonEmpty, htext]

theorem Holds.push (h : c.Holds received text) (chunk : List UInt8) (now : ℕ) :
    (c.push chunk now).2.Holds (received ++ chunk) (text ++ (c.push chunk now).1.getD []) := by
  obtain ⟨consumed, hreceived, htracks, htext⟩ := h
  have hpushed : { c with
      pendingSince := some (c.pendingSince.getD now)
      pending := c.pending ++ chunk }.Holds (received ++ chunk) text :=
    ⟨consumed, by rw [hreceived, List.append_assoc], htracks, htext⟩
  simp only [OutputCoalescer.push]
  split_ifs
  · exact hpushed.flush.1
  · simpa using hpushed

theorem Holds.pollFlush (h : c.Holds received text) (now : ℕ) :
    (c.pollFlush now).2.Holds received (text ++ (c.pollFlush now).1.getD []) := by
  rw [OutputCoalescer.pollFlush]
  split
  · split_ifs
    · exact h.flush.1
    · simpa using h
  · simpa using h

/-- The last flush completes the text. -/
theorem Holds.finish (h : c.Holds received text) :
    text ++ c.finish.1.getD [] = decodeLossy received ∧ c.finish.2.Empty := by
  obtain ⟨⟨consumed, hreceived, htracks, htext⟩, hpending⟩ := h.flush
  rw [hpending, List.append_nil] at hreceived
  subst hreceived
  constructor
  · simp only [OutputCoalescer.finish, getD_nonEmpty]
    rw [← List.append_assoc, htext, htracks.finish]
  · refine ⟨hpending, ?_⟩
    simp only [OutputCoalescer.finish, Utf8StreamDecoder.finish]
    split_ifs with hempty
    · exact hempty
    · rfl

theorem Holds.complete (h : c.Holds received text) (hempty : c.Empty) :
    text = decodeLossy received := by
  obtain ⟨consumed, hreceived, htracks, rfl⟩ := h
  rw [hempty.1, List.append_nil] at hreceived
  rw [hreceived, htracks.complete hempty.2]

/-- An empty buffer has nothing to flush. -/
theorem Empty.finish (h : c.Empty) : c.finish.1 = none ∧ c.finish.2.Empty := by
  obtain ⟨hpending, hincomplete⟩ := h
  simp [OutputCoalescer.finish, OutputCoalescer.flush, hpending, Utf8StreamDecoder.finish,
    hincomplete, nonEmpty, Empty]

theorem Empty.pollFlush (h : c.Empty) (now : ℕ) :
    (c.pollFlush now).1 = none ∧ (c.pollFlush now).2.Empty := by
  rw [OutputCoalescer.pollFlush]
  split
  · split_ifs
    · rw [OutputCoalescer.flush, if_pos h.1]
      exact ⟨rfl, h⟩
    · exact ⟨rfl, h⟩
  · exact ⟨rfl, h⟩

end OutputCoalescer
end SessionWorker
