import Mathlib.Data.List.Range
import TerminalWorkspace.SessionStream.StreamEffects

/-! Order on a stream. What a stream is owed follows from the history alone; the sections
that emit keep to it as long as none of them overtakes something older that waits for the
same stream. -/
namespace SessionStream
open Runs

/-- The messages produced since the last attachment while no stream was attached. -/
def detachedRun : List HistoryEvent → List Message
  | [] => []
  | .produced message none :: history => detachedRun history ++ [message]
  | .produced _ (some _) :: history => detachedRun history
  | .attached _ :: _ => []

/-- The messages owed to a stream: those buffered when it was attached, except the oldest
beyond the limit, and those produced while it was attached. -/
def owed (streamId : ℕ) : List HistoryEvent → List Message
  | [] => []
  | .produced message attachedId :: history =>
    if attachedId = some streamId then owed streamId history ++ [message]
    else owed streamId history
  | .attached attachedId :: history =>
    if attachedId = streamId then
      owed streamId history ++ newest nativeSessionBufferLimit (detachedRun history)
    else owed streamId history

/-- Each stream has a subsequence of the worker's messages in their order, and nothing it is
owed is missing, apart from what is still on its way; no status follows a newer one. -/
structure OrderedStreams (w : World) : Prop where
  inOrder : ∀ streamId, (messages (w.sentOn streamId)).Sublist (producedMessages w.history)
  complete : ∀ streamId, ∀ message ∈ owed streamId w.history,
    message ∈ messages (w.sentOn streamId) ∨ message ∈ messages (w.pendingOn streamId)
  statusInOrder : ∀ streamId, (versions (w.sentOn streamId)).Pairwise (· ≤ ·)

/-- No older message waits for the stream, and where the event reports a status, no older
status does. -/
structure Oldest (w : World) (streamId : ℕ) (event : Outgoing) : Prop where
  messages_le : ∀ message ∈ event.message?, ∀ other ∈ messages (w.pendingOn streamId),
    message.seq ≤ other.seq
  versions_le : ∀ version ∈ event.version?, ∀ other ∈ versions (w.pendingOn streamId),
    version ≤ other

instance (w : World) (streamId : ℕ) (event : Outgoing) : Decidable (Oldest w streamId event) :=
  decidable_of_iff
    ((∀ message ∈ event.message?, ∀ other ∈ messages (w.pendingOn streamId),
        message.seq ≤ other.seq) ∧
      ∀ version ∈ event.version?, ∀ other ∈ versions (w.pendingOn streamId), version ≤ other)
    ⟨fun h => ⟨h.1, h.2⟩, fun h => ⟨h.messages_le, h.versions_le⟩⟩

/-- The action overtakes nothing. -/
def EmitsOldest (w : World) (a : Action) : Prop :=
  ∀ event ∈ w.emits a, Oldest w event.1 event.2

instance (w : World) (a : Action) : Decidable (EmitsOldest w a) :=
  inferInstanceAs (Decidable (∀ event ∈ w.emits a, _))

/-- Sending the oldest of the waiting messages keeps the order of all of them. -/
theorem messages_send {sent before after : List Outgoing} {event : Outgoing}
    (hsorted : ((messages sent ++ messages (before ++ event :: after)).map Message.seq).Pairwise
      (· < ·))
    (holdest : ∀ message ∈ event.message?, ∀ other ∈ messages (before ++ event :: after),
      message.seq ≤ other.seq) :
    messages (sent ++ [event]) ++ messages (before ++ after) =
      messages sent ++ messages (before ++ event :: after) := by
  cases hmessage : event.message? with
  | none => simp [messages_cons, hmessage]
  | some message =>
    have hbefore : messages before = [] := by
      rw [List.eq_nil_iff_forall_not_mem]
      intro other hother
      have hle := holdest message (by simp [hmessage]) other (by simp [hother])
      simp only [messages_append, messages_cons, hmessage, Option.toList_some, List.map_append,
        List.pairwise_append] at hsorted
      have hlt := hsorted.2.1.2.2 other.seq (List.mem_map_of_mem hother) message.seq (by simp)
      omega
    simp [messages_cons, hmessage, hbefore]

theorem versions_send {sent before after : List Outgoing} {event : Outgoing}
    (hsorted : (versions sent).Pairwise (· ≤ ·))
    (hle : ∀ v ∈ versions sent, ∀ v' ∈ versions (before ++ event :: after), v ≤ v')
    (holdest : ∀ version ∈ event.version?, ∀ other ∈ versions (before ++ event :: after),
      version ≤ other) :
    (versions (sent ++ [event])).Pairwise (· ≤ ·) ∧
      ∀ v ∈ versions (sent ++ [event]), ∀ v' ∈ versions (before ++ after), v ≤ v' := by
  have hmem : ∀ v' ∈ versions (before ++ after), v' ∈ versions (before ++ event :: after) := by
    intro v' hv'
    rw [versions_append, versions_cons]
    rw [versions_append, List.mem_append] at hv'
    rcases hv' with hv' | hv'
    · exact List.mem_append_left _ hv'
    · exact List.mem_append_right _ (List.mem_append_right _ hv')
  cases hversion : event.version? with
  | none =>
    rw [versions_append, versions_cons, hversion]
    simp only [Option.toList_none, versions_nil, List.append_nil]
    exact ⟨hsorted, fun v hv v' hv' => hle v hv v' (hmem v' hv')⟩
  | some version =>
    have hself : version ∈ versions (before ++ event :: after) := by
      simp [versions_cons, hversion]
    rw [versions_append, versions_cons, hversion]
    simp only [Option.toList_some, versions_nil, List.append_nil, List.mem_append,
      List.mem_singleton]
    refine ⟨List.pairwise_append.mpr ⟨hsorted, List.pairwise_singleton _ _, ?_⟩, ?_⟩
    · intro v hv v' hv'
      rw [List.mem_singleton] at hv'
      exact hv' ▸ hle v hv version hself
    · rintro v (hv | rfl) v' hv'
      · exact hle v hv v' (hmem v' hv')
      · exact holdest v hversion v' (hmem v' hv')

/-- The messages are numbered in the order they were produced. -/
def Numbered (history : List HistoryEvent) : Prop :=
  (producedMessages history).map Message.seq = List.range (producedMessages history).length

/-- Everything a stream is owed was sent or is on its way, in this order. -/
structure Accounted (w : World) : Prop where
  numbered : Numbered w.history
  run_sublist : (detachedRun w.history).Sublist (producedMessages w.history)
  owed_sublist : ∀ s, (owed s w.history).Sublist (producedMessages w.history)
  buffered : w.state.bufferedMessages = newest nativeSessionBufferLimit (detachedRun w.history)
  attached : ∀ s, w.state.streamId = some s → detachedRun w.history = [] ∧ s < w.streamCounter
  accounted : ∀ s, messages (w.sentOn s) ++ messages (w.pendingOn s) = owed s w.history
  fresh : ∀ s, w.streamCounter ≤ s → owed s w.history = []

/-- No status that was sent is newer than one on its way, and none is newer than the state. -/
structure StatusesCurrent (w : World) : Prop where
  sorted : ∀ s, (versions (w.sentOn s)).Pairwise (· ≤ ·)
  sent_le : ∀ s, ∀ v ∈ versions (w.sentOn s), ∀ v' ∈ versions (w.pendingOn s), v ≤ v'
  current : ∀ s, ∀ v ∈ versions (w.sentOn s ++ w.pendingOn s), v ≤ w.stateVersion
  buffered : ∀ v ∈ versions (w.state.bufferedMessages.map .message), v ≤ w.stateVersion
  attached : ∀ s, w.state.streamId = some s → w.state.bufferedMessages = [] ∧ s < w.streamCounter
  fresh : ∀ s, w.streamCounter ≤ s → versions (w.sentOn s ++ w.pendingOn s) = []

section History
variable {history : List HistoryEvent} {message : Message} {streamId : Option ℕ}

theorem numbered_produced (h : Numbered history)
    (hseq : message.seq = (producedMessages history).length) :
    Numbered (.produced message streamId :: history) := by
  unfold Numbered at h ⊢
  simp [producedMessages, h, hseq, List.range_succ]

theorem sublist_produced {l : List Message} (h : l.Sublist (producedMessages history)) :
    l.Sublist (producedMessages (.produced message streamId :: history)) :=
  h.trans (List.sublist_append_left _ _)

theorem increasing_of_numbered {l : List Message} (h : Numbered history)
    (hl : l.Sublist (producedMessages history)) : (l.map Message.seq).Pairwise (· < ·) := by
  have hrange : ((producedMessages history).map Message.seq).Pairwise (· < ·) := by
    rw [h]
    exact List.pairwise_lt_range
  exact hrange.sublist (hl.map _)

end History

theorem accounted_initial (streamCounter : ℕ) : Accounted (World.initial streamCounter) where
  numbered := rfl
  run_sublist := List.Sublist.refl _
  owed_sublist _ := List.Sublist.refl _
  buffered := (newest_nil _).symm
  attached _ h := nomatch h
  accounted _ := rfl
  fresh _ _ := rfl

theorem statusesCurrent_initial (streamCounter : ℕ) :
    StatusesCurrent (World.initial streamCounter) where
  sorted _ := List.Pairwise.nil
  sent_le _ _ hv := nomatch hv
  current _ _ hv := nomatch hv
  buffered _ hv := nomatch hv
  attached _ h := nomatch h
  fresh _ _ := rfl

/-- Attaching adds what was buffered to what waits for the stream. -/
theorem pendingOn_attach {w : World} {call : ℕ} (hfound : w.calls[call]? = some .opening) (s : ℕ) :
    (openNativeSessionStream w call).pendingOn s = w.pendingOn s ∧
        s ≠ w.state.streamId.getD w.streamCounter ∨
      s = w.state.streamId.getD w.streamCounter ∧ ∃ before after,
        w.pendingOn s = before ++ after ∧
        (openNativeSessionStream w call).pendingOn s = before ++
          (.snapshot w.state.connectionState w.stateVersion ::
            w.state.bufferedMessages.map .message) ++ after := by
  obtain ⟨before, after, hsplit, hset⟩ := set_split hfound
  by_cases hs : s = w.state.streamId.getD w.streamCounter
  · refine .inr ⟨hs, before.flatMap (StreamCall.pendingOn s),
      after.flatMap (StreamCall.pendingOn s) ++ w.worker.pendingOn s, ?_, ?_⟩
    · rw [World.pendingOn, hsplit]
      simp [StreamCall.pendingOn]
    · rw [World.pendingOn, openNativeSessionStream, hset]
      simp [StreamCall.pendingOn, hs]
  · refine .inl ⟨?_, hs⟩
    rw [World.pendingOn, World.pendingOn, openNativeSessionStream, hset, hsplit]
    simp [StreamCall.pendingOn, Ne.symm hs]

section Preserved
variable {w w' : World} {a : Action}

theorem Accounted.attach (h : Accounted w) {call : ℕ}
    (hfound : w.calls[call]? = some .opening) : Accounted (openNativeSessionStream w call) := by
  have howed : ∀ s, owed s (openNativeSessionStream w call).history =
      if w.state.streamId.getD w.streamCounter = s then
        owed s w.history ++ w.state.bufferedMessages else owed s w.history := by
    intro s
    rw [h.buffered]
    rfl
  -- a new stream is owed nothing yet, and an old one leaves nothing in the buffer
  have hcases : ∀ s, w.state.streamId.getD w.streamCounter = s →
      owed s w.history = [] ∨ w.state.bufferedMessages = [] := by
    intro s hs
    cases hid : w.state.streamId with
    | none =>
      rw [hid] at hs
      exact .inl (h.fresh s hs.le)
    | some streamId =>
      rw [h.buffered, (h.attached streamId hid).1]
      exact .inr rfl
  refine ⟨h.numbered, List.nil_sublist _, ?_, (newest_nil _).symm, ?_, ?_, ?_⟩
  · intro s
    rw [howed]
    split
    · rename_i hs
      rcases hcases s hs with hnil | hnil
      · rw [hnil, List.nil_append, h.buffered]
        exact (newest_sublist _ _).trans h.run_sublist
      · rw [hnil, List.append_nil]
        exact h.owed_sublist s
    · exact h.owed_sublist s
  · intro s hs
    refine ⟨rfl, ?_⟩
    have hs : w.state.streamId.getD w.streamCounter = s := Option.some.inj hs
    show s < if w.state.streamId = none then w.streamCounter + 1 else w.streamCounter
    cases hid : w.state.streamId with
    | none =>
      rw [hid] at hs
      rw [if_pos rfl, ← hs]
      exact Nat.lt_succ_self _
    | some streamId =>
      rw [hid] at hs
      rw [if_neg (by simp), ← hs]
      exact (h.attached streamId hid).2
  · intro s
    rw [howed]
    show messages (w.sentOn s) ++ _ = _
    rcases pendingOn_attach hfound s with ⟨hsame, hs⟩ | ⟨hs, before, after, hold, hnew⟩
    · rw [hsame, if_neg (Ne.symm hs)]
      exact h.accounted s
    · have haccounted := h.accounted s
      rw [if_pos hs.symm, hnew]
      rw [hold] at haccounted
      rcases hcases s hs.symm with hnil | hnil
      · rw [hnil] at haccounted ⊢
        simp only [messages_append, List.append_eq_nil_iff] at haccounted
        simp [messages_cons, Outgoing.message?, haccounted]
      · rw [hnil]
        simpa [messages_cons, Outgoing.message?] using haccounted
  · intro s hs
    have hs : (if w.state.streamId = none then w.streamCounter + 1 else w.streamCounter) ≤ s := hs
    rw [howed, if_neg]
    · refine h.fresh s (Nat.le_trans ?_ hs)
      split
      · exact Nat.le_succ _
      · exact Nat.le_refl _
    · intro heq
      cases hid : w.state.streamId with
      | none =>
        rw [hid, if_pos rfl] at hs
        rw [hid] at heq
        exact absurd (heq ▸ hs) (Nat.not_succ_le_self _)
      | some streamId =>
        rw [hid, if_neg (by simp)] at hs
        rw [hid, Option.getD_some] at heq
        exact absurd (h.attached streamId hid).2 (Nat.not_lt.mpr (heq ▸ hs))

theorem Accounted.step (h : Accounted w) (hallowed : EmitsOldest w a) :
    Accounted (step w a) := by
  cases step_effect w a with
  | quiet history_eq buffered_eq streamId_eq counter_le _ sent pending =>
    refine ⟨history_eq ▸ h.numbered, history_eq ▸ h.run_sublist,
      fun s => history_eq ▸ h.owed_sublist s, ?_, ?_, ?_, ?_⟩
    · rw [buffered_eq, history_eq]
      exact h.buffered
    · intro s hs
      rcases streamId_eq with heq | heq
      · rw [history_eq]
        obtain ⟨hrun, hlt⟩ := h.attached s (heq ▸ hs)
        exact ⟨hrun, Nat.lt_of_lt_of_le hlt counter_le⟩
      · rw [heq] at hs
        exact nomatch hs
    · intro s
      rw [(sent s).messages_eq, (pending s).messages_eq, history_eq]
      exact h.accounted s
    · intro s hs
      rw [history_eq]
      exact h.fresh s (Nat.le_trans counter_le hs)
  | buffer message seq_eq _ detached eq silent =>
    rw [eq]
    refine ⟨numbered_produced h.numbered seq_eq, h.run_sublist.append_right _, ?_, ?_, ?_, ?_, ?_⟩
    · exact fun s => sublist_produced (h.owed_sublist s)
    · show pushBuffered _ _ = newest _ (detachedRun w.history ++ [message])
      rw [pushBuffered_eq, h.buffered, newest_concat]
    · intro s hs
      rw [detached] at hs
      exact nomatch hs
    · intro s
      have haccounted := h.accounted s
      unfold World.pendingOn at haccounted ⊢
      rw [silent] at haccounted
      exact haccounted
    · exact h.fresh
  | produce message streamId seq_eq _ attached eq silent =>
    rw [eq]
    obtain ⟨hrun, hlt⟩ := h.attached streamId attached
    refine ⟨numbered_produced h.numbered seq_eq, sublist_produced h.run_sublist, ?_, h.buffered,
      ?_, ?_, ?_⟩
    · intro s
      show (if _ then owed s w.history ++ [message] else owed s w.history).Sublist _
      split
      · exact (h.owed_sublist s).append_right _
      · exact sublist_produced (h.owed_sublist s)
    · exact h.attached
    · intro s
      have haccounted := h.accounted s
      show _ = if some streamId = some s then owed s w.history ++ [message] else owed s w.history
      unfold World.pendingOn at haccounted ⊢
      rw [silent, List.append_nil] at haccounted
      show messages (w.sentOn s) ++ _ = _
      by_cases hs : streamId = s
      · rw [if_pos (congrArg some hs), ← haccounted]
        simp [Worker.pendingOn, hs, messages_cons, Outgoing.message?]
      · rw [if_neg (by simpa using hs), ← haccounted]
        simp [Worker.pendingOn, hs]
    · intro s hs
      show (if some streamId = some s then owed s w.history ++ [message] else owed s w.history) = []
      have hs : w.streamCounter ≤ s := hs
      rw [if_neg (by rw [Option.some.injEq]; omega)]
      exact h.fresh s hs
  | attach call found eq =>
    rw [eq]
    exact h.attach found
  | send streamId event before after emits_eq history_eq state_eq counter_eq _ sent pending pending'
      others =>
    refine ⟨history_eq ▸ h.numbered, history_eq ▸ h.run_sublist,
      fun s => history_eq ▸ h.owed_sublist s, ?_, ?_, ?_, ?_⟩
    · rw [state_eq, history_eq]
      exact h.buffered
    · rw [state_eq, history_eq, counter_eq]
      exact h.attached
    · intro s
      rw [history_eq]
      by_cases hs : s = streamId
      · subst hs
        have holdest := (hallowed _ emits_eq).messages_le
        have haccounted := h.accounted s
        have hsorted := increasing_of_numbered h.numbered (h.owed_sublist s)
        rw [pending] at holdest
        rw [← haccounted, pending] at hsorted
        rw [sent, pending', messages_send hsorted holdest, ← pending, haccounted]
      · rw [(others s hs).1, (others s hs).2]
        exact h.accounted s
    · rw [history_eq, counter_eq]
      exact h.fresh

theorem versions_pushBuffered_le {message : Message}
    (hold : ∀ v ∈ versions (w.state.bufferedMessages.map .message), v ≤ w.stateVersion)
    (hnew : ∀ v ∈ (Outgoing.message message).version?, v ≤ w.stateVersion) :
    ∀ v ∈ versions ((pushBuffered w.state.bufferedMessages message).map .message),
      v ≤ w.stateVersion := by
  intro v hv
  have hsub : (versions ((pushBuffered w.state.bufferedMessages message).map .message)).Sublist
      (versions ((w.state.bufferedMessages ++ [message]).map .message)) := by
    rw [pushBuffered_eq]
    exact ((newest_sublist _ _).map _).filterMap _
  have hv := hsub.subset hv
  rw [List.map_append, versions_append, List.mem_append] at hv
  rcases hv with hv | hv
  · exact hold v hv
  · exact hnew v (by simpa [versions_cons] using hv)

theorem StatusesCurrent.attach (h : StatusesCurrent w) {call : ℕ}
    (hfound : w.calls[call]? = some .opening) :
    StatusesCurrent (openNativeSessionStream w call) := by
  -- what was buffered reaches only a new stream
  have hfresh : ∀ s, s = w.state.streamId.getD w.streamCounter →
      versions (w.sentOn s) = [] ∨ w.state.bufferedMessages = [] := by
    intro s hs
    cases hid : w.state.streamId with
    | none =>
      rw [hid] at hs
      have hnil := h.fresh s hs.ge
      rw [versions_append, List.append_eq_nil_iff] at hnil
      exact .inl hnil.1
    | some streamId => exact .inr (h.attached streamId hid).1
  have hcounter : w.streamCounter ≤ (openNativeSessionStream w call).streamCounter := by
    show _ ≤ if w.state.streamId = none then w.streamCounter + 1 else w.streamCounter
    split
    · exact Nat.le_succ _
    · exact Nat.le_refl _
  have hpending : ∀ s, ∀ v ∈ versions ((openNativeSessionStream w call).pendingOn s),
      v ∈ versions (w.pendingOn s) ∨ v = w.stateVersion ∨
        s = w.state.streamId.getD w.streamCounter ∧
          v ∈ versions (w.state.bufferedMessages.map .message) := by
    intro s v hv
    rcases pendingOn_attach hfound s with ⟨hsame, -⟩ | ⟨hs, before, after, hold, hnew⟩
    · exact .inl (hsame ▸ hv)
    · rw [hnew] at hv
      rw [hold]
      simp only [versions_append, versions_cons, Outgoing.version?, Option.toList_some,
        List.mem_append, List.mem_singleton] at hv ⊢
      tauto
  refine ⟨h.sorted, ?_, ?_, fun _ hv => (by cases hv), ?_, ?_⟩
  · intro s v hv v' hv'
    rcases hpending s v' hv' with hv' | rfl | ⟨hs, hv'⟩
    · exact h.sent_le s v hv v' hv'
    · exact h.current s v (by rw [versions_append]; exact List.mem_append_left _ hv)
    · rcases hfresh s hs with hnil | hnil
      · have hv : v ∈ versions (w.sentOn s) := hv
        rw [hnil] at hv
        cases hv
      · rw [hnil] at hv'
        cases hv'
  · intro s v hv
    rw [versions_append, List.mem_append] at hv
    rcases hv with hv | hv
    · exact h.current s v (by rw [versions_append]; exact List.mem_append_left _ hv)
    · rcases hpending s v hv with hv | rfl | ⟨-, hv⟩
      · exact h.current s v (by rw [versions_append]; exact List.mem_append_right _ hv)
      · exact Nat.le_refl _
      · exact h.buffered v hv
  · intro s hs
    refine ⟨rfl, ?_⟩
    have hs : w.state.streamId.getD w.streamCounter = s := Option.some.inj hs
    show s < if w.state.streamId = none then w.streamCounter + 1 else w.streamCounter
    cases hid : w.state.streamId with
    | none =>
      rw [hid] at hs
      rw [if_pos rfl, ← hs]
      exact Nat.lt_succ_self _
    | some streamId =>
      rw [hid] at hs
      rw [if_neg (by simp), ← hs]
      exact (h.attached streamId hid).2
  · intro s hs
    have hother : s ≠ w.state.streamId.getD w.streamCounter := by
      have hs : (if w.state.streamId = none then w.streamCounter + 1 else w.streamCounter) ≤ s := hs
      cases hid : w.state.streamId with
      | none =>
        rw [hid, if_pos rfl] at hs
        rw [Option.getD_none]
        omega
      | some streamId =>
        rw [hid, if_neg (by simp)] at hs
        have hlt := (h.attached streamId hid).2
        rw [Option.getD_some]
        omega
    rcases pendingOn_attach hfound s with ⟨hsame, -⟩ | ⟨hs', -⟩
    · rw [hsame]
      exact h.fresh s (hcounter.trans hs)
    · exact absurd hs' hother

theorem StatusesCurrent.step (h : StatusesCurrent w) (hallowed : EmitsOldest w a) :
    StatusesCurrent (step w a) := by
  cases step_effect w a with
  | quiet _ buffered_eq streamId_eq counter_le version_le sent pending =>
    refine ⟨?_, ?_, ?_, ?_, ?_, ?_⟩
    · intro s
      rw [(sent s).versions_eq]
      exact h.sorted s
    · intro s
      rw [(sent s).versions_eq, (pending s).versions_eq]
      exact h.sent_le s
    · intro s v hv
      rw [versions_append, (sent s).versions_eq, (pending s).versions_eq, ← versions_append] at hv
      exact (h.current s v hv).trans version_le
    · intro v hv
      rw [buffered_eq] at hv
      exact (h.buffered v hv).trans version_le
    · intro s hs
      rcases streamId_eq with heq | heq
      · obtain ⟨hnil, hlt⟩ := h.attached s (heq ▸ hs)
        exact ⟨buffered_eq.trans hnil, Nat.lt_of_lt_of_le hlt counter_le⟩
      · rw [heq] at hs
        cases hs
    · intro s hs
      rw [versions_append, (sent s).versions_eq, (pending s).versions_eq, ← versions_append]
      exact h.fresh s (counter_le.trans hs)
  | buffer message _ version_le detached eq silent =>
    rw [eq]
    have hpending : ∀ s, World.pendingOn { w with
        state.bufferedMessages := pushBuffered w.state.bufferedMessages message
        worker := .idle
        history := .produced message none :: w.history } s = w.pendingOn s := by
      intro s
      unfold World.pendingOn
      rw [silent]
      rfl
    refine ⟨h.sorted, ?_, ?_, versions_pushBuffered_le h.buffered version_le, ?_, ?_⟩
    · intro s
      rw [hpending]
      exact h.sent_le s
    · intro s
      rw [hpending]
      exact h.current s
    · intro s hs
      rw [detached] at hs
      cases hs
    · intro s
      rw [hpending]
      exact h.fresh s
  | produce message streamId _ version_eq attached eq silent =>
    rw [eq]
    have hpending : ∀ s, ∀ v ∈ versions (World.pendingOn { w with
        worker := .sending message streamId
        history := .produced message (some streamId) :: w.history } s),
        v ∈ versions (w.pendingOn s) ∨ v = w.stateVersion := by
      intro s v hv
      unfold World.pendingOn at hv ⊢
      rw [versions_append, List.mem_append] at hv ⊢
      rcases hv with hv | hv
      · exact .inl (.inl hv)
      · refine .inr (version_eq v ?_)
        simp only [Worker.pendingOn] at hv
        split at hv
        · simpa [versions_cons] using hv
        · cases hv
    refine ⟨h.sorted, ?_, ?_, h.buffered, h.attached, ?_⟩
    · intro s v hv v' hv'
      rcases hpending s v' hv' with hv' | rfl
      · exact h.sent_le s v hv v' hv'
      · exact h.current s v (by rw [versions_append]; exact List.mem_append_left _ hv)
    · intro s v hv
      rw [versions_append, List.mem_append] at hv
      rcases hv with hv | hv
      · exact h.current s v (by rw [versions_append]; exact List.mem_append_left _ hv)
      · rcases hpending s v hv with hv | rfl
        · exact h.current s v (by rw [versions_append]; exact List.mem_append_right _ hv)
        · exact Nat.le_refl _
    · intro s hs
      have hnil := h.fresh s hs
      have hs : w.streamCounter ≤ s := hs
      have hlt := (h.attached streamId attached).2
      unfold World.pendingOn at hnil ⊢
      rw [silent] at hnil
      rw [Worker.pendingOn, if_neg (by omega)]
      exact hnil
  | attach call found eq =>
    rw [eq]
    exact h.attach found
  | send streamId event before after emits_eq _ state_eq counter_eq version_eq sent pending pending'
      others =>
    have hsend := versions_send (h.sorted streamId) (pending ▸ h.sent_le streamId)
      (pending ▸ (hallowed _ emits_eq).versions_le)
    rw [← sent, ← pending'] at hsend
    refine ⟨?_, ?_, ?_, ?_, ?_, ?_⟩
    · intro s
      by_cases hs : s = streamId
      · exact hs ▸ hsend.1
      · rw [(others s hs).1]
        exact h.sorted s
    · intro s
      by_cases hs : s = streamId
      · exact hs ▸ hsend.2
      · rw [(others s hs).1, (others s hs).2]
        exact h.sent_le s
    · intro s v hv
      rw [version_eq]
      apply h.current s v
      by_cases hs : s = streamId
      · subst hs
        rw [sent, pending'] at hv
        rw [pending]
        simp only [versions_append, versions_cons, List.mem_append, versions_nil,
          List.append_nil] at hv ⊢
        tauto
      · rwa [(others s hs).1, (others s hs).2] at hv
    · rw [state_eq, version_eq]
      exact h.buffered
    · rw [state_eq, counter_eq]
      exact h.attached
    · intro s hs
      rw [counter_eq] at hs
      by_cases heq : s = streamId
      · subst heq
        have hnil := h.fresh s hs
        rw [pending] at hnil
        rw [sent, pending']
        simp only [versions_append, versions_cons, versions_nil, List.append_eq_nil_iff] at hnil ⊢
        tauto
      · rw [(others s heq).1, (others s heq).2]
        exact h.fresh s hs

end Preserved

/-- In every run in which no event overtakes an older one that waits for the same stream,
every state reached has its streams in order. -/
theorem orderedStreams_run (streamCounter : ℕ) {actions reached : List Action}
    (hallowed : Allowed step EmitsOldest (World.initial streamCounter) actions)
    (hreached : reached <+: actions) :
    OrderedStreams (run step (World.initial streamCounter) reached) := by
  have hallowed := hallowed.of_prefix hreached
  have haccounted : Accounted (run step (World.initial streamCounter) reached) :=
    run_invariant (fun _ _ h ha => h.step ha) (accounted_initial streamCounter) hallowed
  have hstatuses : StatusesCurrent (run step (World.initial streamCounter) reached) :=
    run_invariant (fun _ _ h ha => h.step ha) (statusesCurrent_initial streamCounter) hallowed
  refine ⟨?_, ?_, hstatuses.sorted⟩
  · intro streamId
    refine List.Sublist.trans ?_ (haccounted.owed_sublist streamId)
    rw [← haccounted.accounted streamId]
    exact List.sublist_append_left _ _
  · intro streamId message hmessage
    rw [← haccounted.accounted streamId] at hmessage
    exact List.mem_append.mp hmessage

/-- Output before and after an attachment, with the open call not interrupted. -/
def quietOpen : List Action :=
  [.emitOutput "login", .lookupOpen, .attach 0, .sendNext 0, .sendNext 0, .emitOutput "prompt",
    .sendMessage]

theorem orderedStreams_quietOpen :
    OrderedStreams (run step (World.initial 1) quietOpen) ∧
      messages ((run step (World.initial 1) quietOpen).sentOn 1) =
        [⟨0, .data "login"⟩, ⟨1, .data "prompt"⟩] :=
  ⟨orderedStreams_run 1 (by decide +kernel) (List.prefix_refl quietOpen), by decide +kernel⟩

/-- The worker's next output is emitted between the lock of the open call and its events. -/
def racingOpen : List Action :=
  [.emitOutput "login", .lookupOpen, .attach 0, .emitOutput "prompt", .sendMessage, .sendNext 0,
    .sendNext 0]

/-- The buffer holds a status from before the snapshot that the open call sends first. -/
def supersededStatus : List Action :=
  [.setConnectionState "connected", .emitStatus, .setConnectionState "error", .emitStatus,
    .lookupOpen, .attach 0, .sendNext 0, .sendNext 0]

theorem not_every_stream_ordered :
    ¬ OrderedStreams (run step (World.initial 1) racingOpen) ∧
      ¬ OrderedStreams (run step (World.initial 1) supersededStatus) := by
  constructor
  · intro h
    exact absurd (h.inOrder 1) (by decide +kernel)
  · intro h
    exact absurd (h.statusInOrder 1) (by decide +kernel)

end SessionStream
