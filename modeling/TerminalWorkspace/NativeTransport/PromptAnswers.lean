import TerminalWorkspace.NativeTransport.PromptReader

/-! Which credentials the reader writes to the terminal, whatever the remote side prints. -/
namespace NativeTransport
open Runs

def ofKind (kind : PromptResponseKind) (responses : List PromptResponse) : List PromptResponse :=
  responses.filter (·.kind == kind)

theorem ofKind_append (kind : PromptResponseKind) (first second : List PromptResponse) :
    ofKind kind (first ++ second) = ofKind kind first ++ ofKind kind second :=
  List.filter_append ..

theorem ofKind_cons_self {kind : PromptResponseKind} {response : PromptResponse}
    (h : response.kind = kind) (responses : List PromptResponse) :
    ofKind kind (response :: responses) = response :: ofKind kind responses := by
  simp [ofKind, h]

theorem ofKind_cons_other {kind : PromptResponseKind} {response : PromptResponse}
    (h : response.kind ≠ kind) (responses : List PromptResponse) :
    ofKind kind (response :: responses) = ofKind kind responses := by
  simp [ofKind, h]

/-- The attempts of a kind follow its credentials in order; only when they are used up is the
last one repeated. -/
def InChainOrder (credentials attempts : List PromptResponse) : Prop :=
  attempts <+: credentials ∨
    ∃ last, credentials.getLast? = some last ∧
      ∃ repeats, attempts = credentials ++ List.replicate repeats last

section Reader
variable {r : Reader} {responses : List PromptResponse}

/-- A response taken is the first of its kind; what is left of the others is the same. -/
theorem ofKind_takePromptResponse {kind : PromptResponseKind} {response : PromptResponse}
    {rest : List PromptResponse} (h : takePromptResponse responses kind = some (response, rest)) :
    ofKind kind responses = response :: ofKind kind rest ∧ response.kind = kind ∧
      ∀ other ≠ kind, ofKind other rest = ofKind other responses := by
  obtain ⟨found, hfind, hpair⟩ := Option.map_eq_some_iff.mp h
  obtain ⟨rfl, rfl⟩ := Prod.ext_iff.mp hpair
  obtain ⟨hkind, before, after, rfl, hbefore⟩ := List.find?_eq_some_iff_append.mp hfind
  have hnone : ofKind kind before = [] := List.filter_eq_nil_iff.mpr fun b hb => by
    simpa using hbefore b hb
  have hkind' : found.kind = kind := by simpa using hkind
  have herase : (before ++ found :: after).eraseP (·.kind == kind) = before ++ after := by
    rw [List.eraseP_append_right _ (by simpa using hbefore)]
    simp [hkind']
  simp only [herase]
  refine ⟨?_, hkind', fun other hother => ?_⟩
  · rw [ofKind_append, ofKind_append, hnone, ofKind_cons_self hkind']
    rfl
  · rw [ofKind_append, ofKind_append, ofKind_cons_other (hkind' ▸ hother.symm)]

theorem ofKind_of_take_none {kind : PromptResponseKind}
    (h : takePromptResponse responses kind = none) : ofKind kind responses = [] := by
  have hfind := List.find?_eq_none.mp (Option.map_eq_none_iff.mp h)
  exact List.filter_eq_nil_iff.mpr hfind

/-- The last response of a kind. -/
theorem find?_reverse_ofKind {kind : PromptResponseKind} {response : PromptResponse}
    (h : responses.reverse.find? (·.kind == kind) = some response) :
    (ofKind kind responses).getLast? = some response ∧ response.kind = kind := by
  have hkind := List.find?_some h
  refine ⟨?_, by simpa using hkind⟩
  rw [ofKind, List.getLast?_eq_head?_reverse, ← List.filter_reverse, List.head?_filter]
  exact h

/-- What the reader has tried of each kind, and what is left of it. -/
def TriedInOrder (r : Reader) : Prop :=
  ∀ kind, ofKind kind r.attempts ++ ofKind kind r.promptResponses =
      ofKind kind r.reusableResponses ∨
    ofKind kind r.promptResponses = [] ∧ ∃ last,
      (ofKind kind r.reusableResponses).getLast? = some last ∧
        ∃ repeats, ofKind kind r.attempts =
          ofKind kind r.reusableResponses ++ List.replicate repeats last

/-- One attempt: the chosen response is the next of its kind, or the last one again. -/
theorem TriedInOrder.choose (h : TriedInOrder r) {kind : PromptResponseKind}
    {response : PromptResponse} {rest : List PromptResponse}
    (hchoose : chooseResponse r kind = some (response, rest)) :
    TriedInOrder { r with promptResponses := rest, attempts := r.attempts ++ [response] } := by
  intro other
  unfold chooseResponse at hchoose
  split at hchoose
  · rename_i taken htake
    obtain rfl := Option.some.inj hchoose
    obtain ⟨hfirst, hkind, hothers⟩ := ofKind_takePromptResponse htake
    simp only [ofKind_append]
    by_cases hother : other = kind
    · subst hother
      rw [ofKind_cons_self hkind]
      rcases h other with hsplit | ⟨hnone, -⟩
      · rw [hfirst] at hsplit
        exact .inl (by simpa [ofKind] using hsplit)
      · cases hnone.symm.trans hfirst
    · rw [ofKind_cons_other (hkind ▸ Ne.symm hother), hothers other hother]
      simpa [ofKind] using h other
  · rename_i hnone
    obtain ⟨again, hfind, hpair⟩ := Option.map_eq_some_iff.mp hchoose
    obtain ⟨rfl, rfl⟩ := Prod.ext_iff.mp hpair
    obtain ⟨hlast, hkind⟩ := find?_reverse_ofKind hfind
    have hused := ofKind_of_take_none hnone
    simp only [ofKind_append]
    by_cases hother : other = kind
    · subst hother
      rw [ofKind_cons_self hkind]
      refine .inr ⟨hused, again, hlast, ?_⟩
      rcases h other with hsplit | ⟨-, last, hlast', repeats, hrepeats⟩
      · rw [hused, List.append_nil] at hsplit
        exact ⟨1, by rw [hsplit]; rfl⟩
      · obtain rfl := Option.some.inj (hlast.symm.trans hlast')
        refine ⟨repeats + 1, ?_⟩
        rw [hrepeats, List.append_assoc, List.replicate_succ']
        rfl
    · rw [ofKind_cons_other (hkind ▸ Ne.symm hother)]
      simpa [ofKind] using h other

theorem TriedInOrder.slide (h : TriedInOrder r) (promptWindow : List UInt8) :
    TriedInOrder { r with promptWindow } := h

theorem TriedInOrder.answer (writes : ℕ → Bool) (h : TriedInOrder r) (fuel : ℕ) :
    TriedInOrder (answerPrompts writes fuel r) := by
  induction fuel generalizing r with
  | zero => exact h
  | succ fuel ih =>
    rw [answerPrompts]
    split
    · exact h
    · split
      · exact h
      · rename_i response rest hchoose
        have htried := h.choose hchoose
        split_ifs
        · exact ih htried
        · exact htried

theorem answerPrompts_reusable (writes : ℕ → Bool) (fuel : ℕ) (r : Reader) :
    (answerPrompts writes fuel r).reusableResponses = r.reusableResponses := by
  induction fuel generalizing r with
  | zero => rfl
  | succ fuel ih =>
    rw [answerPrompts]
    split
    · rfl
    · split
      · rfl
      · split_ifs
        · exact ih _
        · rfl

theorem TriedInOrder.read (writes : ℕ → Bool) (h : TriedInOrder r) (result : ReadResult) :
    TriedInOrder (readStep writes r result) ∧
      (readStep writes r result).reusableResponses = r.reusableResponses := by
  cases result with
  | bytes output =>
    simp only [readStep]
    split_ifs
    · have hanswered := (h.slide (slideWindow r output)).answer writes 2
      have hreusable := answerPrompts_reusable writes 2
        { r with promptWindow := slideWindow r output }
      revert hanswered hreusable
      generalize answerPrompts writes 2 { r with promptWindow := slideWindow r output } = answered
      intro hanswered hreusable
      exact ⟨hanswered, hreusable⟩
    · exact ⟨h, rfl⟩
  | eof =>
    simp only [readStep]
    split_ifs <;> exact ⟨h, rfl⟩
  | error =>
    simp only [readStep]
    split_ifs <;> exact ⟨h, rfl⟩

theorem tried_spawn (responses : List PromptResponse) :
    TriedInOrder (spawnJumpSessionReader responses) := fun _ => .inl rfl

theorem run_readStep (writes : ℕ → Bool) (responses : List PromptResponse)
    (reads : List ReadResult) :
    TriedInOrder (run (readStep writes) (spawnJumpSessionReader responses) reads) ∧
      (run (readStep writes) (spawnJumpSessionReader responses) reads).reusableResponses =
        responses := by
  have hstep : ∀ r result, TriedInOrder r ∧ r.reusableResponses = responses →
      TriedInOrder (readStep writes r result) ∧
        (readStep writes r result).reusableResponses = responses := by
    intro r result hr
    obtain ⟨hread, hsame⟩ := hr.1.read writes result
    exact ⟨hread, hsame.trans hr.2⟩
  exact run_invariant_of_step hstep ⟨tried_spawn responses, rfl⟩ reads

end Reader

/-- Whatever the terminal prints and however it is read, the credentials of each kind are tried
in the order of the chain, and only the last of a kind is ever tried again, once all of its
kind have been. -/
theorem attempts_inChainOrder (host : BackendHostConnection) (writes : ℕ → Bool)
    (reads : List ReadResult) (kind : PromptResponseKind) :
    InChainOrder (ofKind kind (buildPromptResponses host))
      (ofKind kind (run (readStep writes) (spawnJumpSessionReader (buildPromptResponses host))
        reads).attempts) := by
  obtain ⟨htried, hreusable⟩ := run_readStep writes (buildPromptResponses host) reads
  have horder := htried kind
  rw [hreusable] at horder
  rcases horder with hsplit | ⟨-, hrepeated⟩
  · exact .inl ⟨_, hsplit⟩
  · exact .inr hrepeated

/-- The prompt of a single host is printed twice, and its password is written twice. -/
theorem password_written_twice :
    ¬ ∀ (host : BackendHostConnection) (writes : ℕ → Bool) (reads : List ReadResult)
        (kind : PromptResponseKind),
      ofKind kind (run (readStep writes) (spawnJumpSessionReader (buildPromptResponses host))
        reads).attempts <+: ofKind kind (buildPromptResponses host) := by
  intro h
  have htwice := h (directHost "host".toList "root".toList) (fun _ => true)
    [.bytes (asciiBytes "password:"), .bytes (asciiBytes "password:")] .password
  revert htwice
  decide +kernel

end NativeTransport
