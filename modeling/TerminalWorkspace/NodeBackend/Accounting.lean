import TerminalWorkspace.NodeBackend.Relay

/-! What the relay keeps for a socket to come, what it has dropped, and what its messages say
of both. -/
namespace NodeBackend
open JsText Runs

@[simp] theorem byteLength_nil : byteLength [] = 0 := rfl

@[simp] theorem byteLength_append (s t : JsString) :
    byteLength (s ++ t) = byteLength s + byteLength t := by
  simp [byteLength]

theorem byteLength_eq_zero {s : JsString} : byteLength s = 0 ↔ s = [] := by
  constructor
  · intro h
    cases s with
    | nil => rfl
    | cons c s =>
      have hempty := List.eq_nil_of_length_eq_zero h
      simp only [utf8Bytes, toText, List.map_cons, Utf8.encode_cons,
        List.append_eq_nil_iff] at hempty
      exact absurd hempty.1 (by simp [String.utf8EncodeChar]; split_ifs <;> simp)
  · rintro rfl
    rfl

/-- A data message: what is missing before it, and what it carries. -/
structure Part where
  missing : JsString
  payload : JsString
  deriving DecidableEq, Repr

/-- The text of the message. -/
def Part.announced (part : Part) : JsString :=
  if 0 < byteLength part.missing then
    droppedNotice (byteLength part.missing) ++ part.payload
  else part.payload

/-- The output the message stands for. -/
def Part.output (part : Part) : JsString := part.missing ++ part.payload

/-- The output is what the messages stand for, then what has been dropped since, then what is
still in the buffer. -/
structure Accounts (maxBytes : ℕ) (parts : List Part) (dropped : JsString) (r : Relay) :
    Prop where
  bufferBytes : r.session.bufferBytes = byteLength r.session.buffer.flatten
  droppedBytes : r.session.droppedBytes = byteLength dropped
  detached : dropped ++ r.session.buffer.flatten = r.detached
  bounded : r.session.bufferBytes ≤ maxBytes ∨ r.session.buffer.length = 1
  sent : dataSent r = parts.map Part.announced
  output : parts.flatMap Part.output ++ r.detached = r.output

/-- An open socket has been given all there was. -/
def CaughtUp (r : Relay) : Prop := openSocket r ≠ none → r.detached = []

section Evict
variable {maxBytes : ℕ}

/-- The loop takes chunks off the front until the rest fits or is a single chunk. -/
structure Evicted (maxBytes : ℕ) (buffer : List JsString) (droppedBytes : ℕ) (front : JsString)
    (result : List JsString × ℕ × ℕ) : Prop where
  buffer : front ++ result.1.flatten = buffer.flatten
  bufferBytes : result.2.1 = byteLength result.1.flatten
  droppedBytes : result.2.2 = droppedBytes + byteLength front
  bounded : result.2.1 ≤ maxBytes ∨ result.1.length = 1

theorem evict_evicted (buffer : List JsString) (droppedBytes : ℕ) :
    ∃ front, Evicted maxBytes buffer droppedBytes front
      (evict maxBytes buffer (byteLength buffer.flatten) droppedBytes) := by
  induction buffer generalizing droppedBytes with
  | nil => exact ⟨[], rfl, rfl, rfl, .inl (Nat.zero_le _)⟩
  | cons evicted buffer ih =>
    cases buffer with
    | nil => exact ⟨[], rfl, rfl, rfl, .inr rfl⟩
    | cons next buffer =>
      by_cases hlimit : maxBytes < byteLength (evicted :: next :: buffer).flatten
      · obtain ⟨front, h⟩ := ih (droppedBytes + byteLength evicted)
        have hbytes : byteLength (evicted :: next :: buffer).flatten - byteLength evicted =
            byteLength (next :: buffer).flatten := by
          rw [List.flatten_cons, byteLength_append, Nat.add_sub_cancel_left]
        refine ⟨evicted ++ front, ?_⟩
        rw [evict, if_pos hlimit]
        simp only [hbytes]
        refine ⟨?_, h.bufferBytes, ?_, h.bounded⟩
        · rw [List.append_assoc, h.buffer, List.flatten_cons (l := evicted)]
        · rw [h.droppedBytes, byteLength_append, Nat.add_assoc]
      · rw [evict, if_neg hlimit]
        exact ⟨[], rfl, rfl, rfl, .inl (not_lt.mp hlimit)⟩

end Evict

section Relay
variable {maxBytes : ℕ} {r : Relay} {parts : List Part} {dropped : JsString}

@[simp] theorem dataSent_send_data (ws : ℕ) (data : JsString) :
    dataSent (send r ws (.data data)) = dataSent r ++ [data] := by
  simp [dataSent, send]

theorem dataSent_send_other (ws : ℕ) {message : Message} (h : ∀ data, message ≠ .data data) :
    dataSent (send r ws message) = dataSent r := by
  cases message with
  | data data => exact absurd rfl (h data)
  | _ => simp [dataSent, send]

theorem Accounts.send_other (h : Accounts maxBytes parts dropped r) (ws : ℕ) {message : Message}
    (hmessage : ∀ data, message ≠ .data data) :
    Accounts maxBytes parts dropped (send r ws message) :=
  { h with sent := (dataSent_send_other ws hmessage).trans h.sent }

/-- A step that changes neither the buffer nor what has been sent. -/
theorem Accounts.of_unchanged {r' : Relay} (h : Accounts maxBytes parts dropped r)
    (hsession : r'.session.buffer = r.session.buffer ∧
      r'.session.bufferBytes = r.session.bufferBytes ∧
      r'.session.droppedBytes = r.session.droppedBytes)
    (hghosts : r'.sent = r.sent ∧ r'.output = r.output ∧ r'.detached = r.detached) :
    Accounts maxBytes parts dropped r' := by
  obtain ⟨hbuffer, hbytes, hdropped⟩ := hsession
  obtain ⟨hsent, houtput, hdetached⟩ := hghosts
  constructor
  · rw [hbytes, hbuffer, h.bufferBytes]
  · rw [hdropped, h.droppedBytes]
  · rw [hbuffer, hdetached, h.detached]
  · rw [hbytes, hbuffer]
    exact h.bounded
  · rw [dataSent, hsent]
    exact h.sent
  · rw [hdetached, houtput, h.output]

/-- Output goes to the open socket, or to the end of the buffer. -/
theorem Accounts.shellData (h : Accounts maxBytes parts dropped r) (hcaught : CaughtUp r)
    (data : JsString) :
    (∃ parts dropped, Accounts maxBytes parts dropped
      (broadcast maxBytes { r with output := r.output ++ data } (.data data))) ∧
      CaughtUp (broadcast maxBytes { r with output := r.output ++ data } (.data data)) := by
  have hopen : openSocket { r with output := r.output ++ data } = openSocket r := rfl
  unfold broadcast
  rw [hopen]
  cases hsocket : openSocket r with
  | some ws =>
    have hnone := hcaught (hsocket ▸ Option.some_ne_none ws)
    refine ⟨⟨parts ++ [⟨[], data⟩], dropped, { h with sent := ?_, output := ?_ }⟩, fun _ => hnone⟩
    · rw [dataSent_send_data, List.map_append]
      exact congrArg (· ++ [data]) h.sent
    · have houtput := h.output
      rw [hnone, List.append_nil] at houtput
      change (parts ++ [(⟨[], data⟩ : Part)]).flatMap Part.output ++ r.detached = r.output ++ data
      rw [hnone, List.append_nil, List.flatMap_append, houtput]
      simp [Part.output]
  | none =>
    have hbytes : r.session.bufferBytes + byteLength data =
        byteLength (r.session.buffer ++ [data]).flatten := by
      rw [h.bufferBytes, List.flatten_append, byteLength_append, List.flatten_singleton]
    obtain ⟨front, hevict⟩ := evict_evicted (r.session.buffer ++ [data]) r.session.droppedBytes
    rw [← hbytes] at hevict
    refine ⟨⟨parts, dropped ++ front, ⟨hevict.bufferBytes, ?_, ?_, hevict.bounded, h.sent, ?_⟩⟩,
      fun hne => absurd hsocket hne⟩
    · exact hevict.droppedBytes.trans (by rw [h.droppedBytes, byteLength_append])
    · change dropped ++ front ++ _ = r.detached ++ data
      rw [List.append_assoc]
      refine (congrArg (dropped ++ ·) hevict.buffer).trans ?_
      rw [List.flatten_append, List.flatten_singleton, ← List.append_assoc, h.detached]
    · change parts.flatMap Part.output ++ (r.detached ++ data) = r.output ++ data
      rw [← List.append_assoc, h.output]

theorem openSocket_setReadyState {ws : ℕ} {readyState : ReadyState} (h : readyState ≠ .opened)
    (hopen : openSocket (setReadyState r ws readyState) ≠ none) : openSocket r ≠ none := by
  obtain ⟨attached, hattached⟩ := Option.ne_none_iff_exists'.mp hopen
  obtain ⟨hws, hstate⟩ := Option.filter_eq_some_iff.mp hattached
  have hset : (r.sockets.set ws readyState)[attached]? = some .opened := beq_iff_eq.mp hstate
  have hbefore : r.sockets[attached]? = some .opened := by
    rw [List.getElem?_set] at hset
    split_ifs at hset
    · exact absurd (Option.some.inj hset) h
    · exact hset
  have hsome : openSocket r = some attached :=
    Option.filter_eq_some_iff.mpr ⟨hws, beq_iff_eq.mpr hbefore⟩
  rw [hsome]
  exact Option.some_ne_none attached

theorem CaughtUp.setReadyState (h : CaughtUp r) (ws : ℕ) {readyState : ReadyState}
    (hstate : readyState ≠ .opened) : CaughtUp (setReadyState r ws readyState) :=
  fun hopen => h (openSocket_setReadyState hstate hopen)

theorem Accounts.setReadyState (h : Accounts maxBytes parts dropped r) (ws : ℕ)
    (readyState : ReadyState) : Accounts maxBytes parts dropped (setReadyState r ws readyState) :=
  h.of_unchanged ⟨rfl, rfl, rfl⟩ ⟨rfl, rfl, rfl⟩

/-- Neither a status nor an error message touches the buffer. -/
theorem Accounts.broadcast_other (h : Accounts maxBytes parts dropped r) {message : Message}
    (hmessage : ∀ data, message ≠ .data data) :
    Accounts maxBytes parts dropped (broadcast maxBytes r message) := by
  unfold broadcast
  split
  · exact h.send_other _ hmessage
  · rename_i data _
    exact absurd rfl (hmessage data)
  · exact h

theorem CaughtUp.broadcast_other (h : CaughtUp r) {message : Message}
    (hmessage : ∀ data, message ≠ .data data) : CaughtUp (broadcast maxBytes r message) := by
  unfold broadcast
  split
  · exact h
  · rename_i data _
    exact absurd rfl (hmessage data)
  · exact h

/-- Once the buffer is flushed to a socket, nothing is left for a later one. -/
theorem Accounts.flushBuffer (h : Accounts maxBytes parts dropped r) (ws : ℕ) :
    (∃ parts dropped, Accounts maxBytes parts dropped (flushBuffer r ws)) ∧
      CaughtUp (flushBuffer r ws) := by
  unfold NodeBackend.flushBuffer
  split_ifs with hheld
  · have hmessage : replayData r.session =
        (⟨dropped, r.session.buffer.flatten⟩ : Part).announced := by
      rw [replayData, Part.announced, h.droppedBytes]
    refine ⟨⟨parts ++ [⟨dropped, r.session.buffer.flatten⟩], [],
      ⟨rfl, rfl, rfl, .inl (Nat.zero_le _), ?_, ?_⟩⟩, fun _ => rfl⟩
    · change dataSent (send r ws (.data (replayData r.session))) = _
      rw [dataSent_send_data, h.sent, hmessage, List.map_append]
      rfl
    · change (parts ++ [_]).flatMap Part.output ++ [] = r.output
      rw [List.append_nil, List.flatMap_append, List.flatMap_singleton, Part.output, h.detached,
        h.output]
  · rw [not_or, not_not, not_not] at hheld
    have hdropped : dropped = [] := byteLength_eq_zero.mp (h.droppedBytes ▸ hheld.2)
    have hdetached := h.detached
    rw [hdropped, hheld.1] at hdetached
    exact ⟨⟨parts, dropped, h⟩, fun _ => hdetached.symm⟩

theorem Accounts.replayFailure (h : Accounts maxBytes parts dropped r) (ws : ℕ) :
    Accounts maxBytes parts dropped (replayFailure r ws) := by
  unfold NodeBackend.replayFailure
  split
  · exact h.send_other ws nofun
  · exact h

theorem Accounts.attach (h : Accounts maxBytes parts dropped r) :
    (∃ parts dropped, Accounts maxBytes parts dropped (attach r)) ∧ CaughtUp (attach r) := by
  have hclosed : Accounts maxBytes parts dropped (closeAttached r) := by
    unfold closeAttached
    split
    · exact h.setReadyState _ _
    · exact h
  have htaken : Accounts maxBytes parts dropped (takeOver (closeAttached r) r.sockets.length) :=
    hclosed.of_unchanged ⟨rfl, rfl, rfl⟩ ⟨rfl, rfl, rfl⟩
  have hstatus (state : JsString) : Accounts maxBytes parts dropped
      (send (takeOver (closeAttached r) r.sockets.length) r.sockets.length (.status state)) :=
    htaken.send_other _ nofun
  exact ((hstatus _).replayFailure _).flushBuffer _

/-- The relay is accounted for, and an open socket has been given all there was. -/
def Accounted (maxBytes : ℕ) (r : Relay) : Prop :=
  (∃ parts dropped, Accounts maxBytes parts dropped r) ∧ CaughtUp r

theorem accounted_new : Accounted maxBytes newRelay :=
  ⟨⟨[], [], rfl, rfl, rfl, .inl (Nat.zero_le _), rfl, rfl⟩, fun _ => rfl⟩

theorem Accounted.step (h : Accounted maxBytes r) (event : RelayEvent) :
    Accounted maxBytes (step maxBytes r event) := by
  obtain ⟨⟨parts, dropped, haccounts⟩, hcaught⟩ := h
  cases event with
  | shellData chunk => exact haccounts.shellData hcaught _
  | statusChange state =>
    have haccounts' : Accounts maxBytes parts dropped
        { r with session := { r.session with state } } :=
      haccounts.of_unchanged ⟨rfl, rfl, rfl⟩ ⟨rfl, rfl, rfl⟩
    have hcaught' : CaughtUp { r with session := { r.session with state } } := hcaught
    exact ⟨⟨parts, dropped, haccounts'.broadcast_other nofun⟩, hcaught'.broadcast_other nofun⟩
  | failSession message =>
    have haccounts' (state : JsString) : Accounts maxBytes parts dropped
        { r with session := { r.session with state, failureMessage := some message } } :=
      haccounts.of_unchanged ⟨rfl, rfl, rfl⟩ ⟨rfl, rfl, rfl⟩
    have hcaught' (state : JsString) : CaughtUp
        { r with session := { r.session with state, failureMessage := some message } } := hcaught
    exact ⟨⟨parts, dropped, (haccounts' _).broadcast_other nofun⟩,
      (hcaught' _).broadcast_other nofun⟩
  | attach => exact haccounts.attach
  | startClosing ws =>
    simp only [NodeBackend.step]
    split_ifs
    · exact ⟨⟨parts, dropped, haccounts.setReadyState ws _⟩, hcaught.setReadyState ws nofun⟩
    · exact ⟨⟨parts, dropped, haccounts⟩, hcaught⟩
  | close ws =>
    have hclosed := haccounts.setReadyState ws .closed
    simp only [NodeBackend.step]
    split_ifs
    · exact ⟨⟨parts, dropped, hclosed.of_unchanged ⟨rfl, rfl, rfl⟩ ⟨rfl, rfl, rfl⟩⟩,
        fun hopen => absurd rfl hopen⟩
    · exact ⟨⟨parts, dropped, hclosed⟩, hcaught.setReadyState ws nofun⟩

/-- The counters, the buffer and the messages of every run: the bytes held and dropped are
those broadcast since the last flush, the buffer is the end of them, and the messages, with
what each announces as missing put back, are the output up to what is still held. -/
theorem relay_accounts (maxBytes : ℕ) (events : List RelayEvent) :
    let r := run (NodeBackend.step maxBytes) newRelay events
    r.session.bufferBytes = byteLength r.session.buffer.flatten ∧
      r.session.bufferBytes + r.session.droppedBytes = byteLength r.detached ∧
      r.session.buffer.flatten <:+ r.detached ∧
      (r.session.bufferBytes ≤ maxBytes ∨ r.session.buffer.length = 1) ∧
      ∃ (parts : List Part) (dropped : JsString), dataSent r = parts.map Part.announced ∧
        byteLength dropped = r.session.droppedBytes ∧
        parts.flatMap Part.output ++ dropped ++ r.session.buffer.flatten = r.output := by
  obtain ⟨⟨parts, dropped, h⟩, -⟩ :=
    run_invariant_of_step (fun r event (h : Accounted maxBytes r) => h.step event) accounted_new
      events
  refine ⟨h.bufferBytes, ?_, ⟨dropped, h.detached⟩, h.bounded, parts, dropped, h.sent,
    h.droppedBytes.symm, ?_⟩
  · rw [← h.detached, byteLength_append, h.bufferBytes, h.droppedBytes, Nat.add_comm]
  · rw [List.append_assoc, h.detached, h.output]

end Relay
end NodeBackend
