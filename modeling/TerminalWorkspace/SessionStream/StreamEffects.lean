import TerminalWorkspace.SessionStream.WorkerStream

/-! What one action does to the streams: nothing, one more message in the buffer or on its way
to a stream, an attachment, or one event sent. -/
namespace SessionStream

def Outgoing.message? : Outgoing → Option Message
  | .message sent => some sent
  | _ => none

/-- The version of the connection state that an event reports. -/
def Outgoing.version? : Outgoing → Option ℕ
  | .message ⟨_, .status _ version⟩ => some version
  | .snapshot _ version => some version
  | _ => none

def messages (events : List Outgoing) : List Message := events.filterMap Outgoing.message?

def versions (events : List Outgoing) : List ℕ := events.filterMap Outgoing.version?

def StreamCall.pendingOn (streamId : ℕ) : StreamCall → List Outgoing
  | .emitting emittingId pending => if emittingId = streamId then pending else []
  | _ => []

def Worker.pendingOn (streamId : ℕ) : Worker → List Outgoing
  | .sending message sendingId => if sendingId = streamId then [.message message] else []
  | .closing closingId => if closingId = streamId then [.close] else []
  | _ => []

/-- The events on their way to a stream: taken under the lock and not yet emitted. -/
def World.pendingOn (w : World) (streamId : ℕ) : List Outgoing :=
  w.calls.flatMap (StreamCall.pendingOn streamId) ++ w.worker.pendingOn streamId

def World.sentOn (w : World) (streamId : ℕ) : List Outgoing :=
  w.sent.filterMap fun event => if event.1 = streamId then some event.2 else none

/-- The event an action emits. -/
def World.emits (w : World) : Action → Option (ℕ × Outgoing)
  | .sendMessage =>
    match w.worker with
    | .sending message streamId => some (streamId, .message message)
    | _ => none
  | .sendNext call =>
    match w.calls[call]? with
    | some (.emitting streamId (event :: _)) => some (streamId, event)
    | _ => none
  | _ => none

/-- The newest `limit` of a list. -/
def newest {α : Type*} (limit : ℕ) (l : List α) : List α := l.drop (l.length - limit)

section Lists
variable {α : Type*}

@[simp] theorem messages_append (l l' : List Outgoing) :
    messages (l ++ l') = messages l ++ messages l' := List.filterMap_append

@[simp] theorem versions_append (l l' : List Outgoing) :
    versions (l ++ l') = versions l ++ versions l' := List.filterMap_append

@[simp] theorem messages_map_message (l : List Message) : messages (l.map .message) = l := by
  unfold messages
  rw [List.filterMap_map]
  show l.filterMap some = l
  exact List.filterMap_some

@[simp] theorem messages_nil : messages [] = [] := rfl

@[simp] theorem versions_nil : versions [] = [] := rfl

theorem messages_cons (event : Outgoing) (l : List Outgoing) :
    messages (event :: l) = event.message?.toList ++ messages l := by
  unfold messages
  rw [List.filterMap_cons]
  cases event.message? <;> rfl

theorem versions_cons (event : Outgoing) (l : List Outgoing) :
    versions (event :: l) = event.version?.toList ++ versions l := by
  unfold versions
  rw [List.filterMap_cons]
  cases event.version? <;> rfl

/-- Replacing one entry of a list. -/
theorem set_split {l : List α} {i : ℕ} {a : α} (h : l[i]? = some a) :
    ∃ before after, l = before ++ a :: after ∧ ∀ b, l.set i b = before ++ b :: after := by
  obtain ⟨hi, ha⟩ := List.getElem?_eq_some_iff.mp h
  refine ⟨l.take i, l.drop (i + 1), ?_, fun b => List.set_eq_take_append_cons_drop.trans ?_⟩
  · rw [← ha, List.getElem_cons_drop, List.take_append_drop]
  · rw [if_pos hi]

@[simp] theorem newest_nil (limit : ℕ) : newest limit ([] : List α) = [] := List.drop_nil

theorem newest_concat (limit : ℕ) (l : List α) (a : α) :
    newest limit (newest limit l ++ [a]) = newest limit (l ++ [a]) := by
  unfold newest
  simp only [List.length_append, List.length_drop, List.length_singleton]
  rcases Nat.le_total l.length limit with hle | hle
  · simp [Nat.sub_eq_zero_of_le hle]
  · have hpre : l.length - (l.length - limit) = limit := by omega
    have hdrop : l.length + 1 - limit = (l.length - limit) + 1 := by omega
    have hout : limit + 1 - limit = 1 := by omega
    rw [hpre, hdrop, hout, ← List.drop_append_of_le_length (Nat.sub_le _ _), List.drop_drop]

theorem newest_sublist (limit : ℕ) (l : List α) : (newest limit l).Sublist l :=
  List.drop_sublist _ _

theorem pushBuffered_eq (buffered : List Message) (message : Message) :
    pushBuffered buffered message = newest nativeSessionBufferLimit (buffered ++ [message]) := by
  unfold pushBuffered newest
  dsimp only
  split
  · rfl
  · rename_i h
    rw [Nat.sub_eq_zero_of_le (by omega)]
    rfl

end Lists

/-- Two lists of events that carry the same messages and the same versions. -/
structure SameTraffic (l l' : List Outgoing) : Prop where
  messages_eq : messages l' = messages l
  versions_eq : versions l' = versions l

theorem SameTraffic.refl (l : List Outgoing) : SameTraffic l l := ⟨rfl, rfl⟩

theorem sameTraffic_concat_close (l : List Outgoing) : SameTraffic l (l ++ [.close]) :=
  ⟨by simp [messages_cons, Outgoing.message?], by simp [versions_cons, Outgoing.version?]⟩

/-- What an action can do, as far as the order on the streams goes. -/
inductive Effect (w : World) (a : Action) (w' : World) : Prop where
  | quiet
      (history_eq : w'.history = w.history)
      (buffered_eq : w'.state.bufferedMessages = w.state.bufferedMessages)
      (streamId_eq : w'.state.streamId = w.state.streamId ∨ w'.state.streamId = none)
      (counter_le : w.streamCounter ≤ w'.streamCounter)
      (version_le : w.stateVersion ≤ w'.stateVersion)
      (sent : ∀ s, SameTraffic (w.sentOn s) (w'.sentOn s))
      (pending : ∀ s, SameTraffic (w.pendingOn s) (w'.pendingOn s))
  | buffer (message : Message)
      (seq_eq : message.seq = (producedMessages w.history).length)
      (version_le : ∀ v ∈ (Outgoing.message message).version?, v ≤ w.stateVersion)
      (detached : w.state.streamId = none)
      (eq : w' = { w with
        state.bufferedMessages := pushBuffered w.state.bufferedMessages message
        worker := .idle
        history := .produced message none :: w.history })
      (silent : ∀ s, w.worker.pendingOn s = [])
  | produce (message : Message) (streamId : ℕ)
      (seq_eq : message.seq = (producedMessages w.history).length)
      (version_eq : ∀ v ∈ (Outgoing.message message).version?, v = w.stateVersion)
      (attached : w.state.streamId = some streamId)
      (eq : w' = { w with
        worker := .sending message streamId
        history := .produced message (some streamId) :: w.history })
      (silent : ∀ s, w.worker.pendingOn s = [])
  | attach (call : ℕ) (found : w.calls[call]? = some .opening)
      (eq : w' = openNativeSessionStream w call)
  | send (streamId : ℕ) (event : Outgoing) (before after : List Outgoing)
      (emits_eq : w.emits a = some (streamId, event))
      (history_eq : w'.history = w.history)
      (state_eq : w'.state = w.state)
      (counter_eq : w'.streamCounter = w.streamCounter)
      (version_eq : w'.stateVersion = w.stateVersion)
      (sent : w'.sentOn streamId = w.sentOn streamId ++ [event])
      (pending : w.pendingOn streamId = before ++ event :: after)
      (pending' : w'.pendingOn streamId = before ++ after)
      (others : ∀ s, s ≠ streamId → w'.sentOn s = w.sentOn s ∧ w'.pendingOn s = w.pendingOn s)

section Step
variable (w : World) (a : Action)

theorem sentOn_emit (streamId s : ℕ) (event : Outgoing) :
    (emitSessionStreamEvent w streamId event).sentOn s =
      w.sentOn s ++ if streamId = s then [event] else [] := by
  unfold World.sentOn emitSessionStreamEvent
  rw [List.filterMap_append]
  split
  · rename_i h
    simp [h]
  · rename_i h
    simp [h]

/-- A call that owes nothing to any stream can be replaced by another such call. -/
theorem flatMap_pendingOn_set {calls : List StreamCall} {i : ℕ} {c c' : StreamCall}
    (h : calls[i]? = some c) (hc : ∀ s, c.pendingOn s = []) (hc' : ∀ s, c'.pendingOn s = [])
    (s : ℕ) : (calls.set i c').flatMap (StreamCall.pendingOn s) =
      calls.flatMap (StreamCall.pendingOn s) := by
  obtain ⟨before, after, hsplit, hset⟩ := set_split h
  rw [hset, hsplit]
  simp [hc, hc']

theorem effect_self : Effect w a w :=
  .quiet rfl rfl (.inl rfl) (Nat.le_refl _) (Nat.le_refl _) (fun _ => .refl _) fun _ => .refl _

theorem effect_emit (body : MessageBody)
    (hversion : ∀ m, ∀ v ∈ (Outgoing.message ⟨m, body⟩).version?, v = w.stateVersion)
    (hsilent : ∀ s, w.worker.pendingOn s = []) :
    Effect w a (emitNativeSessionMessage w body) := by
  unfold emitNativeSessionMessage
  dsimp only
  split
  · rename_i streamId hattached
    exact .produce _ streamId rfl (hversion _) hattached rfl hsilent
  · rename_i hdetached
    exact .buffer _ rfl (fun v hv => Nat.le_of_eq (hversion _ v hv)) hdetached rfl hsilent

theorem effect_setState (nextState : String) (hidle : w.worker = .idle) :
    Effect w a (setNativeSessionConnectionState w nextState) := by
  refine .quiet rfl rfl (.inl rfl) (Nat.le_refl _) (Nat.le_succ _) (fun _ => .refl _) fun s => ?_
  unfold World.pendingOn setNativeSessionConnectionState
  rw [hidle]
  exact .refl _

theorem effect_takeStream (hidle : w.worker = .idle) : Effect w a (takeStream w) := by
  unfold takeStream
  split
  · rename_i streamId _
    refine .quiet rfl rfl (.inr rfl) (Nat.le_refl _) (Nat.le_refl _) (fun _ => .refl _) fun s => ?_
    unfold World.pendingOn
    simp only [hidle, Worker.pendingOn, List.append_nil]
    split
    · exact sameTraffic_concat_close _
    · simpa using SameTraffic.refl _
  · refine .quiet rfl rfl (.inl rfl) (Nat.le_refl _) (Nat.le_refl _) (fun _ => .refl _) fun s => ?_
    unfold World.pendingOn
    rw [hidle]
    exact .refl _

theorem effect_sendClose (streamId : ℕ) (hclosing : w.worker = .closing streamId) :
    Effect w a (emitSessionStreamEvent { w with worker := .ended } streamId .close) := by
  refine .quiet rfl rfl (.inl rfl) (Nat.le_refl _) (Nat.le_refl _) (fun s => ?_) fun s => ?_
  · rw [sentOn_emit]
    split
    · exact sameTraffic_concat_close _
    · rw [List.append_nil]
      exact .refl _
  · unfold World.pendingOn emitSessionStreamEvent
    simp only [hclosing, Worker.pendingOn, List.append_nil]
    split
    · exact ⟨by simp [messages_cons, Outgoing.message?], by simp [versions_cons, Outgoing.version?]⟩
    · simpa using SameTraffic.refl _

theorem effect_sendMessage (message : Message) (streamId : ℕ)
    (hsending : w.worker = .sending message streamId) (hemits : w.emits a = some (streamId, .message message)) :
    Effect w a (emitSessionStreamEvent { w with worker := .idle } streamId (.message message)) := by
  refine .send streamId (.message message) (w.calls.flatMap (StreamCall.pendingOn streamId)) []
    hemits rfl rfl rfl rfl ?_ ?_ ?_ ?_
  · rw [sentOn_emit, if_pos rfl]
    rfl
  · simp [World.pendingOn, hsending, Worker.pendingOn]
  · simp [World.pendingOn, emitSessionStreamEvent, Worker.pendingOn]
  · intro s hs
    rw [sentOn_emit, if_neg (Ne.symm hs), List.append_nil]
    exact ⟨rfl, by simp [World.pendingOn, emitSessionStreamEvent, Worker.pendingOn, hsending,
      Ne.symm hs]⟩

theorem effect_sendNext (call streamId : ℕ) (event : Outgoing) (pending : List Outgoing)
    (hcall : w.calls[call]? = some (.emitting streamId (event :: pending)))
    (hemits : w.emits a = some (streamId, event)) :
    Effect w a (emitSessionStreamEvent
      { w with calls := w.calls.set call (.emitting streamId pending) } streamId event) := by
  obtain ⟨before, after, hsplit, hset⟩ := set_split hcall
  refine .send streamId event (before.flatMap (StreamCall.pendingOn streamId))
    (pending ++ after.flatMap (StreamCall.pendingOn streamId) ++ w.worker.pendingOn streamId)
    hemits rfl rfl rfl rfl ?_ ?_ ?_ ?_
  · rw [sentOn_emit, if_pos rfl]
    rfl
  · rw [World.pendingOn, hsplit]
    simp [StreamCall.pendingOn]
  · rw [World.pendingOn, emitSessionStreamEvent, hset]
    simp [StreamCall.pendingOn]
  · intro s hs
    rw [sentOn_emit, if_neg (Ne.symm hs), List.append_nil]
    refine ⟨rfl, ?_⟩
    rw [World.pendingOn, World.pendingOn, emitSessionStreamEvent, hset, hsplit]
    simp [StreamCall.pendingOn, Ne.symm hs]

theorem effect_lookup (call : StreamCall) (hcall : ∀ s, call.pendingOn s = []) :
    Effect w a (if w.registered then { w with calls := w.calls ++ [call] } else w) := by
  split
  · refine .quiet rfl rfl (.inl rfl) (Nat.le_refl _) (Nat.le_refl _) (fun _ => .refl _) fun s => ?_
    unfold World.pendingOn
    simpa [hcall] using SameTraffic.refl _
  · exact effect_self w a

theorem effect_detach (call : ℕ) (requestStreamId : Option ℕ)
    (hcall : w.calls[call]? = some (.closing requestStreamId)) :
    Effect w a (closeNativeSessionStream w call requestStreamId) := by
  have hpending : ∀ s, (closeNativeSessionStream w call requestStreamId).pendingOn s =
      w.pendingOn s := by
    intro s
    unfold World.pendingOn closeNativeSessionStream
    rw [flatMap_pendingOn_set hcall (fun _ => rfl) fun _ => rfl]
  refine .quiet rfl rfl ?_ (Nat.le_refl _) (Nat.le_refl _) (fun _ => .refl _) fun s => ?_
  · show (if _ then none else w.state.streamId) = _ ∨ (if _ then none else w.state.streamId) = _
    split
    · exact .inr rfl
    · exact .inl rfl
  · rw [hpending]
    exact .refl _

/-- Every action has one of these effects. -/
theorem step_effect : Effect w a (step w a) := by
  cases a with
  | emitOutput output =>
    simp only [step]
    split
    · rename_i hidle
      exact effect_emit w _ _ (fun _ _ hv => nomatch hv) fun _ => by rw [hidle]; rfl
    · exact effect_self w _
  | emitError error =>
    simp only [step]
    split
    · rename_i hidle
      exact effect_emit w _ _ (fun _ _ hv => nomatch hv) fun _ => by rw [hidle]; rfl
    · exact effect_self w _
  | setConnectionState nextState =>
    simp only [step]
    split
    · rename_i hidle
      exact effect_setState w _ nextState hidle
    · exact effect_self w _
  | emitStatus =>
    simp only [step]
    split
    · rename_i state hset
      refine effect_emit w _ _ (fun _ v hv => ?_) fun _ => by rw [hset]; rfl
      exact (Option.some.inj hv).symm
    · exact effect_self w _
  | sendMessage =>
    simp only [step]
    split
    · rename_i message streamId hsending
      exact effect_sendMessage w _ message streamId hsending (by simp [World.emits, hsending])
    · exact effect_self w _
  | takeStream =>
    simp only [step]
    split
    · rename_i hidle
      exact effect_takeStream w _ hidle
    · exact effect_self w _
  | sendClose =>
    simp only [step]
    split
    · rename_i streamId hclosing
      exact effect_sendClose w _ streamId hclosing
    · exact effect_self w _
  | unregister =>
    exact .quiet rfl rfl (.inl rfl) (Nat.le_refl _) (Nat.le_refl _) (fun _ => .refl _)
      fun _ => .refl _
  | lookupOpen => exact effect_lookup w _ .opening fun _ => rfl
  | attach call =>
    simp only [step]
    split
    · rename_i hfound
      exact .attach call hfound rfl
    · exact effect_self w _
  | sendNext call =>
    simp only [step]
    split
    · rename_i streamId event pending hcall
      exact effect_sendNext w _ call streamId event pending hcall (by simp [World.emits, hcall])
    · exact effect_self w _
  | lookupClose requestStreamId => exact effect_lookup w _ (.closing requestStreamId) fun _ => rfl
  | detach call =>
    simp only [step]
    split
    · rename_i requestStreamId hcall
      exact effect_detach w _ call requestStreamId hcall
    · exact effect_self w _
  | otherSession =>
    exact .quiet rfl rfl (.inl rfl) (Nat.le_succ _) (Nat.le_refl _) (fun _ => .refl _)
      fun _ => .refl _

end Step

end SessionStream
