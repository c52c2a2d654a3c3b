import TerminalWorkspace.Connections.ConnectPaths
import TerminalWorkspace.Foundation.Indexed
import TerminalWorkspace.HostTrust.Launches
import TerminalWorkspace.VaultStores.References

/-! A host key is trusted by the user's choice for that host: in every run in which a launch
joins another one only for the same address and no less strict a policy, and no two prompts for
different hosts have one key. -/
namespace HostTrust
open JsText JsNumbers Inventory Connections VaultStores Runs

section Contract

/-- A prompt shows the address of a host. -/
def FingerprintTrustPromptRequest.Shows (request : FingerprintTrustPromptRequest)
    (host : HostRecord) : Prop :=
  request.hostId = host.id ∧ request.hostname = host.hostname ∧ request.port = host.port

/-- The launch whose promise a launch has. -/
def World.owner (w : World) (launch : Launch) : Option Launch :=
  match launch.stage with
  | .joined k => w.launches[k]?
  | _ => some launch

/-- The trust step has returned, with the known hosts of that moment. -/
def Stage.Returns (stage : Stage) (result : EnsureTrustedHostKeyResult)
    (knownHosts : List KnownHostRecord) : Prop :=
  stage = .returned result knownHosts ∨ stage = .settled result knownHosts

def needsTrust (host : HostRecord) : Bool := needsTrustedKey host.toBackendConnectionHost

def World.Chosen (w : World) (record : KnownHostRecord) : Prop :=
  ∃ prompt ∈ w.prompts, ∃ accepted ∈ prompt.request.candidates, ∃ now,
    prompt.answer = some (some accepted) ∧ record = createKnownHostRecord accepted now ∧
      record.hostname = prompt.request.hostname ∧ record.port = prompt.request.port

/-- What the trust prompts promise, when the store starts with `known`. -/
structure TrustByChoice (known : List KnownHostRecord) (w : World) : Prop where
  /-- A record is added for a key that was accepted in a prompt that showed its address. -/
  chosen : ∀ record ∈ w.knownHosts, record ∈ known ∨ w.Chosen record
  /-- Whoever waits on a prompt waits on one that shows the own host. -/
  ownPrompt : ∀ launch ∈ w.launches, ∀ own, w.owner launch = some own → ∀ p,
    own.stage = .prompting p → ∃ prompt, w.prompts[p]? = some prompt ∧
      prompt.request.Shows launch.host
  /-- Whoever gets an answer gets that of a prompt that showed the own host. -/
  ownAnswer : ∀ launch ∈ w.launches, ∀ own, w.owner launch = some own → ∀ accepted,
    own.stage = .answered (some accepted) → ∃ prompt ∈ w.prompts,
      prompt.request.Shows launch.host ∧ prompt.answer = some (some accepted)
  /-- Where no prompt is shown, every prompt that is waited on has its answer. -/
  answered : w.pendingRequest = none → ∀ launch ∈ w.launches, ∀ p,
    launch.stage = .prompting p → ∃ prompt accepted, w.prompts[p]? = some prompt ∧
      prompt.answer = some accepted
  /-- A launch that needs a trusted key, and may go on, finds one. -/
  found : ∀ launch ∈ w.launches, needsTrust launch.host = true →
    ∀ own, w.owner launch = some own → ∀ result knownHosts, own.stage.Returns result knownHosts →
      result.ok = true →
        (findKnownHostMatch knownHosts launch.host.toBackendConnectionHost).isSome

/-- A launch is for the address of the one that it joins, which needs a trusted key if it does. -/
def SameTrust (host other : HostRecord) : Prop :=
  host.id = other.id ∧ host.hostname = other.hostname ∧ host.port = other.port ∧
    (needsTrust host = true → needsTrust other = true)

instance (host other : HostRecord) : Decidable (SameTrust host other) :=
  inferInstanceAs (Decidable (_ ∧ _ ∧ _ ∧ _))

/-- A launch joins only one with the same trust, and a prompt that is asked for has the key of
the active one only if it shows the same host. -/
def Distinct (w : World) : Action → Prop
  | .launch host =>
    ∀ k ∈ w.inFlight.get? host.id, ∀ other ∈ w.launches[k]?, SameTrust host other.host
  | .scanned l (some (_ :: _)) =>
    ∀ launch ∈ w.launches[l]?, ∀ p ∈ w.activePrompt, ∀ prompt ∈ w.prompts[p]?,
      prompt.request.key = getPromptKey launch.host.id launch.host.hostname launch.host.port →
        prompt.request.Shows launch.host
  | _ => True

end Contract

section Invariant

/-- A launch of its own stands where the prompts let it. -/
def World.Placed (w : World) (host : HostRecord) : Stage → Prop
  | .joined k => ∃ other, w.launches[k]? = some other ∧ (∀ j, other.stage ≠ .joined j) ∧
      SameTrust host other.host
  | .scanning => True
  | .prompting p => ∃ prompt, w.prompts[p]? = some prompt ∧ prompt.request.Shows host
  | .answered accepted => ∀ entry ∈ accepted, ∃ prompt ∈ w.prompts,
      prompt.request.Shows host ∧ prompt.answer = some (some entry)
  | .returned result knownHosts | .settled result knownHosts =>
    needsTrust host = true → result.ok = true →
      (findKnownHostMatch knownHosts host.toBackendConnectionHost).isSome

/-- What every run of distinct steps keeps. -/
structure Sound (known : List KnownHostRecord) (w : World) : Prop where
  placed : ∀ (l : ℕ) (launch : Launch), w.launches[l]? = some launch → w.Placed launch.host launch.stage
  inFlight : ∀ hostId (k : ℕ), w.inFlight.get? hostId = some k → ∃ other, w.launches[k]? = some other ∧
    other.host.id = hostId ∧ ∀ j, other.stage ≠ .joined j
  shown : ∀ prompt ∈ w.prompts, ∀ candidate ∈ prompt.request.candidates,
    candidate.hostname = prompt.request.hostname ∧ candidate.port = prompt.request.port
  accepted : ∀ prompt ∈ w.prompts, ∀ entry, prompt.answer = some (some entry) →
    entry ∈ prompt.request.candidates
  pending : ∀ (p : ℕ) prompt, w.prompts[p]? = some prompt →
    (prompt.answer = none ↔ w.pendingRequest = some p)
  active : ∀ p, w.pendingRequest = some p → w.activePrompt = some p
  opener : ∀ (l : ℕ) (launch : Launch) (p : ℕ) prompt, w.launches[l]? = some launch →
    launch.stage = .prompting p → w.prompts[p]? = some prompt → prompt.opener = l →
      w.activePrompt = some p
  chosen : ∀ record ∈ w.knownHosts, record ∈ known ∨ w.Chosen record

theorem sound_initial (known : List KnownHostRecord) : Sound known (.initial known) := by
  refine ⟨?_, ?_, ?_, ?_, ?_, ?_, ?_, fun record hrecord => .inl hrecord⟩
  all_goals simp [World.initial]

variable {known : List KnownHostRecord} {w : World}

theorem Sound.trustByChoice (h : Sound known w) : TrustByChoice known w := by
  have howner : ∀ launch ∈ w.launches, ∀ own, w.owner launch = some own →
      w.Placed own.host own.stage ∧ SameTrust launch.host own.host := by
    intro launch hlaunch own hown
    obtain ⟨l, hl⟩ := List.mem_iff_getElem?.mp hlaunch
    have hplaced := h.placed l launch hl
    unfold World.owner at hown
    split at hown
    · next k hstage =>
      rw [hstage] at hplaced
      obtain ⟨other, hother, -, hsame⟩ := hplaced
      obtain rfl := Option.some.inj (hown.symm.trans hother)
      exact ⟨h.placed k own hother, hsame⟩
    · obtain rfl := Option.some.inj hown
      exact ⟨hplaced, rfl, rfl, rfl, id⟩
  have hshows : ∀ {launch own : Launch} {request : FingerprintTrustPromptRequest},
      SameTrust launch.host own.host → request.Shows own.host → request.Shows launch.host :=
    fun hsame hshows => ⟨hshows.1.trans hsame.1.symm, hshows.2.1.trans hsame.2.1.symm,
      hshows.2.2.trans hsame.2.2.1.symm⟩
  refine ⟨h.chosen, ?_, ?_, ?_, ?_⟩
  · intro launch hlaunch own hown p hstage
    obtain ⟨hplaced, hsame⟩ := howner launch hlaunch own hown
    rw [hstage] at hplaced
    obtain ⟨prompt, hprompt, hown⟩ := hplaced
    exact ⟨prompt, hprompt, hshows hsame hown⟩
  · intro launch hlaunch own hown accepted hstage
    obtain ⟨hplaced, hsame⟩ := howner launch hlaunch own hown
    rw [hstage] at hplaced
    obtain ⟨prompt, hprompt, hown, hanswer⟩ := hplaced accepted rfl
    exact ⟨prompt, hprompt, hshows hsame hown, hanswer⟩
  · intro hnone launch hlaunch p hstage
    obtain ⟨l, hl⟩ := List.mem_iff_getElem?.mp hlaunch
    have hplaced := h.placed l launch hl
    rw [hstage] at hplaced
    obtain ⟨prompt, hprompt, -⟩ := hplaced
    cases hanswer : prompt.answer with
    | none =>
      rw [(h.pending p prompt hprompt).mp hanswer] at hnone
      cases hnone
    | some accepted => exact ⟨prompt, accepted, hprompt, hanswer⟩
  · intro launch hlaunch hneeds own hown result knownHosts hreturns hok
    obtain ⟨hplaced, hsame⟩ := howner launch hlaunch own hown
    have hmatch : (findKnownHostMatch knownHosts own.host.toBackendConnectionHost).isSome := by
      rcases hreturns with hstage | hstage
      · rw [hstage] at hplaced
        exact hplaced (hsame.2.2.2 hneeds) hok
      · rw [hstage] at hplaced
        exact hplaced (hsame.2.2.2 hneeds) hok
    rwa [findKnownHostMatch, hsame.2.1, hsame.2.2.1]

end Invariant

section Continuing
variable {known : List KnownHostRecord} {w next : World} {l : ℕ} {host : HostRecord}
  {old stage : Stage}

/-- Launches keep their hosts, and prompts what they show and what they were answered. -/
structure Continues (w next : World) : Prop where
  launches : ∀ (k : ℕ) (other : Launch), w.launches[k]? = some other →
    (∀ j, other.stage ≠ .joined j) → ∃ other', next.launches[k]? = some other' ∧
      (∀ j, other'.stage ≠ .joined j) ∧ other'.host = other.host
  prompts : ∀ (p : ℕ) prompt, w.prompts[p]? = some prompt → ∃ prompt',
    next.prompts[p]? = some prompt' ∧ prompt'.request = prompt.request ∧
      ∀ answer, prompt.answer = some answer → prompt'.answer = some answer

theorem Continues.mem_prompts (h : Continues w next) {prompt : Prompt} (hmem : prompt ∈ w.prompts)
    {answer : Option KnownHostScanResult} (hanswer : prompt.answer = some answer) :
    ∃ prompt' ∈ next.prompts, prompt'.request = prompt.request ∧ prompt'.answer = some answer := by
  obtain ⟨p, hp⟩ := List.mem_iff_getElem?.mp hmem
  obtain ⟨prompt', hp', hrequest, hanswers⟩ := h.prompts p prompt hp
  exact ⟨prompt', List.mem_of_getElem? hp', hrequest, hanswers answer hanswer⟩

theorem Continues.placed (h : Continues w next) (hplaced : w.Placed host stage) :
    next.Placed host stage := by
  cases stage with
  | joined k =>
    obtain ⟨other, hother, hown, hsame⟩ := hplaced
    obtain ⟨other', hother', hown', hhost⟩ := h.launches k other hother hown
    exact ⟨other', hother', hown', by rwa [hhost]⟩
  | scanning => trivial
  | prompting p =>
    obtain ⟨prompt, hprompt, hshows⟩ := hplaced
    obtain ⟨prompt', hprompt', hrequest, -⟩ := h.prompts p prompt hprompt
    exact ⟨prompt', hprompt', by rwa [hrequest]⟩
  | answered accepted =>
    intro entry hentry
    obtain ⟨prompt, hprompt, hshows, hanswer⟩ := hplaced entry hentry
    obtain ⟨prompt', hprompt', hrequest, hanswer'⟩ := h.mem_prompts hprompt hanswer
    exact ⟨prompt', hprompt', by rwa [hrequest], hanswer'⟩
  | returned result knownHosts => exact hplaced
  | settled result knownHosts => exact hplaced

theorem Continues.chosen (h : Continues w next) {record : KnownHostRecord}
    (hchosen : w.Chosen record) : next.Chosen record := by
  obtain ⟨prompt, hprompt, accepted, haccepted, now, hanswer, hrecord, hhostname, hport⟩ := hchosen
  obtain ⟨prompt', hprompt', hrequest, hanswer'⟩ := h.mem_prompts hprompt hanswer
  rw [← hrequest] at haccepted hhostname hport
  exact ⟨prompt', hprompt', accepted, haccepted, now, hanswer', hrecord, hhostname, hport⟩

theorem continues_of_prompts (hlaunches : next.launches = w.launches)
    (hprompts : w.prompts <+: next.prompts) : Continues w next where
  launches k other hother hown := ⟨other, by rw [hlaunches, hother], hown, rfl⟩
  prompts p prompt hp := by
    obtain ⟨rest, hrest⟩ := hprompts
    refine ⟨prompt, ?_, rfl, fun answer h => h⟩
    rw [← hrest, List.getElem?_append_left (List.getElem?_eq_some_iff.mp hp).1, hp]

theorem setStage_launches (hl : w.launches[l]? = some ⟨host, old⟩) {i : ℕ} {launch : Launch}
    (h : (w.setStage l stage).launches[i]? = some launch) :
    (i = l ∧ launch = ⟨host, stage⟩) ∨ (i ≠ l ∧ w.launches[i]? = some launch) := by
  obtain ⟨earlier, hearlier, ⟨rfl, rfl⟩ | ⟨hne, rfl⟩⟩ := Indexed.getElem?_modify_some h
  · obtain rfl := Option.some.inj (hl.symm.trans hearlier)
    exact .inl ⟨rfl, rfl⟩
  · exact .inr ⟨hne, hearlier⟩

theorem setStage_self (hl : w.launches[l]? = some ⟨host, old⟩) :
    (w.setStage l stage).launches[l]? = some ⟨host, stage⟩ := by
  simp [World.setStage, hl]

theorem setStage_other {i : ℕ} (hne : i ≠ l) :
    (w.setStage l stage).launches[i]? = w.launches[i]? := by
  simp [World.setStage, Ne.symm hne]

theorem continues_setStage (hl : w.launches[l]? = some ⟨host, old⟩)
    (hnew : ∀ j, stage ≠ .joined j) : Continues w (w.setStage l stage) where
  launches k other hother hown := by
    by_cases hkl : k = l
    · subst hkl
      obtain rfl := Option.some.inj (hl.symm.trans hother)
      exact ⟨⟨host, stage⟩, setStage_self hl, hnew, rfl⟩
    · exact ⟨other, (setStage_other hkl).trans hother, hown, rfl⟩
  prompts p prompt hp := ⟨prompt, hp, rfl, fun answer h => h⟩

end Continuing

section Steps
variable {known : List KnownHostRecord} {w : World} {l : ℕ} {host : HostRecord}
  {old stage : Stage}

theorem Sound.setStage (h : Sound known w) (stage : Stage) (hl : w.launches[l]? = some ⟨host, old⟩)
    (hnew : ∀ j, stage ≠ .joined j) (hplaced : w.Placed host stage)
    (hopener : ∀ p prompt, stage = .prompting p → w.prompts[p]? = some prompt →
      prompt.opener = l → w.activePrompt = some p) :
    Sound known (w.setStage l stage) := by
  have hcontinues := continues_setStage hl hnew
  refine ⟨?_, ?_, h.shown, h.accepted, h.pending, h.active, ?_,
    fun record hrecord => (h.chosen record hrecord).imp_right hcontinues.chosen⟩
  · intro i launch hi
    rcases setStage_launches hl hi with ⟨-, rfl⟩ | ⟨-, hi⟩
    · exact hcontinues.placed hplaced
    · exact hcontinues.placed (h.placed i launch hi)
  · intro hostId k hk
    obtain ⟨other, hother, hid, hown⟩ := h.inFlight hostId k hk
    obtain ⟨other', hother', hown', hhost⟩ := hcontinues.launches k other hother hown
    exact ⟨other', hother', by rwa [hhost], hown'⟩
  · intro i launch p prompt hi hstage hprompt hopens
    rcases setStage_launches hl hi with ⟨rfl, rfl⟩ | ⟨-, hi⟩
    · exact hopener p prompt hstage hprompt hopens
    · exact h.opener i launch p prompt hi hstage hprompt hopens

/-- A launch begins, with or without an entry of its own. -/
theorem Sound.begins (h : Sound known w) (hplaced : w.Placed host stage)
    (hwaits : ∀ p, stage ≠ .prompting p) :
    Sound known { w with launches := w.launches ++ [⟨host, stage⟩] } := by
  have hcontinues : Continues w { w with launches := w.launches ++ [⟨host, stage⟩] } :=
    ⟨fun k other hother hown => ⟨other, Indexed.getElem?_concat_of_some hother, hown, rfl⟩,
      fun p prompt hp => ⟨prompt, hp, rfl, fun answer hanswer => hanswer⟩⟩
  refine ⟨?_, ?_, h.shown, h.accepted, h.pending, h.active, ?_,
    fun record hrecord => (h.chosen record hrecord).imp_right hcontinues.chosen⟩
  · intro i launch hi
    rcases Indexed.getElem?_concat_some hi with hi | ⟨-, rfl⟩
    · exact hcontinues.placed (h.placed i launch hi)
    · exact hcontinues.placed hplaced
  · intro hostId k hk
    obtain ⟨other, hother, hid, hown⟩ := h.inFlight hostId k hk
    exact ⟨other, Indexed.getElem?_concat_of_some hother, hid, hown⟩
  · intro i launch p prompt hi hstage hprompt hopens
    rcases Indexed.getElem?_concat_some hi with hi | ⟨-, rfl⟩
    · exact h.opener i launch p prompt hi hstage hprompt hopens
    · exact absurd hstage (hwaits p)

theorem Sound.withInFlight (h : Sound known w) {inFlight : OrderedMap JsString ℕ}
    (hinFlight : ∀ hostId (k : ℕ), inFlight.get? hostId = some k →
      ∃ other, w.launches[k]? = some other ∧ other.host.id = hostId ∧
        ∀ j, other.stage ≠ .joined j) :
    Sound known { w with inFlight := inFlight } :=
  ⟨h.placed, hinFlight, h.shown, h.accepted, h.pending, h.active, h.opener, h.chosen⟩

theorem Sound.withKnownHosts (h : Sound known w) {knownHosts : List KnownHostRecord}
    (hchosen : ∀ record ∈ knownHosts, record ∈ known ∨ w.Chosen record) :
    Sound known { w with knownHosts := knownHosts } :=
  ⟨h.placed, h.inFlight, h.shown, h.accepted, h.pending, h.active, h.opener, hchosen⟩

theorem ensureTrustedHostKey_first (w : World) (host : HostRecord) (interactive : Bool) :
    (∀ j, w.ensureTrustedHostKey host interactive ≠ .joined j) ∧
      ∀ p, w.ensureTrustedHostKey host interactive ≠ .prompting p := by
  unfold World.ensureTrustedHostKey
  split_ifs
  all_goals exact ⟨nofun, nofun⟩

theorem ensureTrustedHostKey_placed (w : World) (host : HostRecord) (interactive : Bool) :
    w.Placed host (w.ensureTrustedHostKey host interactive) := by
  unfold World.ensureTrustedHostKey
  split_ifs with hsupports hpolicy hmatch hinteractive
  · intro hneeds _
    exact absurd (Bool.and_eq_true_iff.mp hneeds).1 (by simpa using hsupports)
  · intro hneeds _
    exact absurd (of_decide_eq_true (Bool.and_eq_true_iff.mp hneeds).2) hpolicy
  · exact fun _ _ => hmatch
  · exact fun _ hok => absurd hok (by decide)
  · trivial

theorem Sound.launchHostSession (h : Sound known w)
    (hsame : ∀ k ∈ w.inFlight.get? host.id, ∀ other ∈ w.launches[k]?, SameTrust host other.host) :
    Sound known (w.launchHostSession host) := by
  unfold World.launchHostSession
  split
  · next k hk =>
    obtain ⟨other, hother, -, hown⟩ := h.inFlight host.id k hk
    exact h.begins ⟨other, hother, hown, hsame k hk other hother⟩ nofun
  · next hnone =>
    have hfirst := ensureTrustedHostKey_first w host true
    have hbegins := h.begins (ensureTrustedHostKey_placed w host true) hfirst.2
    refine hbegins.withInFlight fun hostId k hk => ?_
    rw [OrderedMap.get?_set] at hk
    split_ifs at hk with hid
    · obtain rfl := Option.some.inj hk
      exact ⟨_, List.getElem?_concat_length, hid.symm, hfirst.1⟩
    · exact hbegins.inFlight hostId k hk

/-- A prompt is shown where none is active. -/
theorem Sound.shows (h : Sound known w) (hnone : w.activePrompt = none)
    {request : FingerprintTrustPromptRequest}
    (hcandidates : ∀ candidate ∈ request.candidates,
      candidate.hostname = request.hostname ∧ candidate.port = request.port) (l : ℕ) :
    Sound known { w with
      prompts := w.prompts ++ [⟨request, l, none⟩]
      pendingRequest := some w.prompts.length
      activePrompt := some w.prompts.length } := by
  have hcontinues : Continues w { w with
      prompts := w.prompts ++ [⟨request, l, none⟩]
      pendingRequest := some w.prompts.length
      activePrompt := some w.prompts.length } :=
    continues_of_prompts rfl (List.prefix_append _ _)
  have hpending : ∀ p, w.pendingRequest ≠ some p := by
    intro p hp
    rw [h.active p hp] at hnone
    cases hnone
  refine ⟨?_, h.inFlight, ?_, ?_, ?_, fun p hp => hp, ?_,
    fun record hrecord => (h.chosen record hrecord).imp_right hcontinues.chosen⟩
  · exact fun i launch hi => hcontinues.placed (h.placed i launch hi)
  · intro prompt hprompt
    rcases List.mem_append.mp hprompt with hprompt | hprompt
    · exact h.shown prompt hprompt
    · obtain rfl := List.mem_singleton.mp hprompt
      exact hcandidates
  · intro prompt hprompt
    rcases List.mem_append.mp hprompt with hprompt | hprompt
    · exact h.accepted prompt hprompt
    · obtain rfl := List.mem_singleton.mp hprompt
      exact nofun
  · intro p prompt hp
    rcases Indexed.getElem?_concat_some hp with hp | ⟨rfl, rfl⟩
    · have hlt := (List.getElem?_eq_some_iff.mp hp).1
      refine ⟨fun hanswer => absurd ((h.pending p prompt hp).mp hanswer) (hpending p), fun heq => ?_⟩
      exact absurd (Option.some.inj heq) (Nat.ne_of_gt hlt)
    · exact ⟨fun _ => rfl, fun _ => rfl⟩
  · intro i launch p prompt hi hstage hp hopens
    obtain ⟨own, hown, -⟩ : w.Placed launch.host (.prompting p) := hstage ▸ h.placed i launch hi
    rcases Indexed.getElem?_concat_some hp with hp | ⟨rfl, -⟩
    · rw [h.opener i launch p prompt hi hstage hp hopens] at hnone
      cases hnone
    · exact absurd (List.getElem?_eq_some_iff.mp hown).1 (Nat.lt_irrefl _)

theorem Sound.openPrompt (h : Sound known w) (hl : w.launches[l]? = some ⟨host, old⟩)
    {request : FingerprintTrustPromptRequest} (hshows : request.Shows host)
    (hcandidates : ∀ candidate ∈ request.candidates,
      candidate.hostname = request.hostname ∧ candidate.port = request.port)
    (hkey : ∀ p ∈ w.activePrompt, ∀ prompt ∈ w.prompts[p]?, prompt.request.key = request.key →
      prompt.request.Shows host) :
    Sound known (w.openPrompt l request) := by
  unfold World.openPrompt
  split
  · next p hactive =>
    split_ifs with hsame
    · obtain ⟨prompt, hprompt, heq⟩ := Option.map_eq_some_iff.mp hsame
      refine h.setStage _ hl nofun ⟨prompt, hprompt, hkey p hactive prompt hprompt heq⟩ ?_
      intro q _ hstage _ _
      obtain rfl := Stage.prompting.inj hstage
      exact hactive
    · exact h.setStage _ hl nofun nofun nofun
  · next hnone =>
    have hshown := h.shows hnone hcandidates l
    refine hshown.setStage (.prompting w.prompts.length) hl nofun ?_ ?_
    · exact ⟨⟨request, l, none⟩, List.getElem?_concat_length, hshows⟩
    · intro p _ hstage _ _
      obtain rfl := Stage.prompting.inj hstage
      rfl

theorem Sound.scanned (h : Sound known w) (response : Option (List ScannedKey))
    (hdistinct : Distinct w (.scanned l response)) : Sound known (w.scanned l response) := by
  unfold World.scanned
  split
  · next host hl =>
    split
    · exact h.setStage _ hl nofun (fun _ hok => absurd hok (by decide)) nofun
    · exact h.setStage _ hl nofun (fun _ hok => absurd hok (by decide)) nofun
    · next key keys =>
      refine h.openPrompt hl ⟨rfl, rfl, rfl⟩ ?_ (hdistinct ⟨host, .scanning⟩ hl)
      intro candidate hcandidate
      obtain ⟨scanned, -, rfl⟩ := List.mem_map.mp hcandidate
      exact ⟨rfl, rfl⟩
  · exact h

theorem Sound.clearPrompt (h : Sound known w) (choice : Option ℕ) :
    Sound known (w.clearPrompt choice) := by
  unfold World.clearPrompt
  split
  · exact h
  · next p hpending =>
    let answers := fun prompt : Prompt =>
      { prompt with answer := some (choice.bind fun i => prompt.request.candidates[i]?) }
    let next : World := { w with prompts := w.prompts.modify p answers, pendingRequest := none }
    have hunanswered : ∀ prompt, w.prompts[p]? = some prompt → prompt.answer = none :=
      fun prompt hp => (h.pending p prompt hp).mpr hpending
    have hcontinues : Continues w next := by
      refine ⟨fun k other hother hown => ⟨other, hother, hown, rfl⟩, fun q prompt hq => ?_⟩
      by_cases hqp : p = q
      · subst hqp
        refine ⟨answers prompt, ?_, rfl, ?_⟩
        · simp only [next, List.getElem?_modify, hq, if_true, Option.map_some, Option.map_eq_map]
        · rw [hunanswered prompt hq]
          exact nofun
      · refine ⟨prompt, ?_, rfl, fun answer hanswer => hanswer⟩
        simp [next, hq, hqp]
    have hnext : ∀ prompt' ∈ next.prompts, prompt' ∈ w.prompts ∨
        ∃ prompt ∈ w.prompts, prompt' = answers prompt := by
      intro prompt' hprompt'
      obtain ⟨q, hq⟩ := List.mem_iff_getElem?.mp hprompt'
      obtain ⟨prompt, hprompt, ⟨-, rfl⟩ | ⟨-, rfl⟩⟩ := Indexed.getElem?_modify_some hq
      · exact .inr ⟨prompt, List.mem_of_getElem? hprompt, rfl⟩
      · exact .inl (List.mem_of_getElem? hprompt)
    refine ⟨?_, h.inFlight, ?_, ?_, ?_, nofun, ?_,
      fun record hrecord => (h.chosen record hrecord).imp_right hcontinues.chosen⟩
    · exact fun i launch hi => hcontinues.placed (h.placed i launch hi)
    · intro prompt' hprompt'
      rcases hnext prompt' hprompt' with hold | ⟨prompt, hprompt, rfl⟩
      · exact h.shown prompt' hold
      · exact h.shown prompt hprompt
    · intro prompt' hprompt' entry hanswer
      rcases hnext prompt' hprompt' with hold | ⟨prompt, -, rfl⟩
      · exact h.accepted prompt' hold entry hanswer
      · obtain ⟨i, -, hi⟩ := Option.bind_eq_some_iff.mp (Option.some.inj hanswer)
        exact List.mem_of_getElem? hi
    · intro q prompt' hq
      refine ⟨fun hanswer => ?_, nofun⟩
      obtain ⟨prompt, hprompt, ⟨-, rfl⟩ | ⟨hne, rfl⟩⟩ := Indexed.getElem?_modify_some hq
      · cases hanswer
      · have heq := (h.pending q prompt' hprompt).mp hanswer
        exact absurd (Option.some.inj (heq.symm.trans hpending)) hne
    · intro i launch q prompt' hi hstage hq hopens
      obtain ⟨prompt, hprompt, ⟨-, rfl⟩ | ⟨-, rfl⟩⟩ := Indexed.getElem?_modify_some hq
      · exact h.opener i launch q prompt hi hstage hprompt hopens
      · exact h.opener i launch q prompt' hi hstage hprompt hopens

theorem Sound.promptReturns (h : Sound known w) (l : ℕ) : Sound known (w.promptReturns l) := by
  unfold World.promptReturns
  split
  · next host p hl =>
    split
    · next request opener accepted hprompt =>
      obtain ⟨own, hown, hshows⟩ : w.Placed host (.prompting p) := h.placed l _ hl
      obtain rfl := Option.some.inj (hprompt.symm.trans hown)
      have hanswered := h.setStage (.answered accepted) hl nofun
        (fun entry hentry => ⟨_, List.mem_of_getElem? hprompt, hshows, by rw [← hentry]⟩) nofun
      split_ifs with hopens
      · have hactive : w.activePrompt = some p := h.opener l _ p _ hl rfl hprompt hopens
        refine ⟨hanswered.placed, hanswered.inFlight, h.shown, h.accepted, h.pending, ?_, ?_,
          hanswered.chosen⟩
        · intro q hq
          obtain rfl := Option.some.inj (hactive.symm.trans (h.active q hq))
          exact absurd ((h.pending p _ hprompt).mpr hq) nofun
        · intro i launch q prompt hi hstage hq hqopens
          obtain rfl := Option.some.inj
            (hactive.symm.trans (hanswered.opener i launch q prompt hi hstage hq hqopens))
          obtain rfl := Option.some.inj (hprompt.symm.trans hq)
          obtain rfl : l = i := hopens.symm.trans hqopens
          rw [setStage_self hl] at hi
          obtain rfl := Option.some.inj hi
          cases hstage
      · exact hanswered
    · exact h
  · exact h

theorem Sound.settles (h : Sound known w) (l : ℕ) : Sound known (w.settles l) := by
  unfold World.settles
  split
  · next host result knownHosts hl =>
    have hsettled := h.setStage (.settled result knownHosts) hl nofun (h.placed l _ hl) nofun
    refine hsettled.withInFlight fun hostId k hk => hsettled.inFlight hostId k ?_
    rw [OrderedMap.get?_erase] at hk
    split_ifs at hk
    exact hk
  · exact h

theorem mem_trustKnownHost {platform : Platform} {knownHosts : List KnownHostRecord}
    {entry : KnownHostScanResult} {now : JsString} {record : KnownHostRecord} :
    record ∈ trustKnownHost platform knownHosts entry now ↔
      record = createKnownHostRecord entry now ∨
        (record ∈ knownHosts ∧ record.id ≠ createKnownHostId entry) := by
  rw [trustKnownHost, LocalConfig.sortKnownHosts, mem_sortBy, List.mem_cons, List.mem_filter,
    decide_eq_true_eq]

theorem findKnownHostMatch_trustKnownHost (platform : Platform)
    (knownHosts : List KnownHostRecord) {entry : KnownHostScanResult} {now : JsString}
    (hhostname : entry.hostname = host.hostname) (hport : entry.port = host.port) :
    (findKnownHostMatch (trustKnownHost platform knownHosts entry now)
      host.toBackendConnectionHost).isSome := by
  have hmem : createKnownHostRecord entry now ∈ trustKnownHost platform knownHosts entry now :=
    mem_trustKnownHost.mpr (.inl rfl)
  rw [findKnownHostMatch, List.find?_isSome]
  refine ⟨_, hmem, Bool.and_eq_true_iff.mpr ⟨?_, ?_⟩⟩
  · exact decide_eq_true hhostname
  · exact decide_eq_true hport

theorem Sound.trusts (h : Sound known w) (platform : Platform) (l : ℕ) (now : JsString) :
    Sound known (w.trusts platform l now) := by
  unfold World.trusts
  split
  · next host hl =>
    exact h.setStage _ hl nofun (fun _ hok => absurd hok (by decide)) nofun
  · next host accepted hl =>
    have hplaced : w.Placed host (.answered (some accepted)) := h.placed l _ hl
    obtain ⟨prompt, hprompt, hshows, hanswer⟩ := hplaced accepted rfl
    have haccepted := h.accepted prompt hprompt accepted hanswer
    obtain ⟨hhostname, hport⟩ := h.shown prompt hprompt accepted haccepted
    have hreturned := h.setStage (.returned ⟨true, none, some accepted⟩
      (trustKnownHost platform w.knownHosts accepted now)) hl nofun
      (fun _ _ => findKnownHostMatch_trustKnownHost platform w.knownHosts
        (hhostname.trans hshows.2.1) (hport.trans hshows.2.2)) nofun
    refine hreturned.withKnownHosts fun record hrecord => ?_
    rcases mem_trustKnownHost.mp hrecord with rfl | ⟨hrecord, -⟩
    · exact .inr ⟨prompt, hprompt, accepted, haccepted, now, hanswer, rfl, hhostname, hport⟩
    · exact hreturned.chosen record hrecord
  · exact h

theorem Sound.step (h : Sound known w) (platform : Platform) (action : Action)
    (hdistinct : Distinct w action) : Sound known (step platform w action) := by
  cases action with
  | launch host => exact h.launchHostSession hdistinct
  | scanned l response => exact h.scanned response hdistinct
  | clearPrompt choice => exact h.clearPrompt choice
  | promptReturns l => exact h.promptReturns l
  | trusts l now => exact h.trusts platform l now
  | settles l => exact h.settles l

end Steps

section Runs

instance (w : World) (action : Action) : Decidable (Distinct w action) :=
  match action with
  | .launch host =>
    inferInstanceAs (Decidable
      (∀ k ∈ w.inFlight.get? host.id, ∀ other ∈ w.launches[k]?, SameTrust host other.host))
  | .scanned l (some (_ :: _)) =>
    inferInstanceAs (Decidable (∀ launch ∈ w.launches[l]?, ∀ p ∈ w.activePrompt,
      ∀ prompt ∈ w.prompts[p]?,
        prompt.request.key = getPromptKey launch.host.id launch.host.hostname launch.host.port →
          prompt.request.hostId = launch.host.id ∧ prompt.request.hostname = launch.host.hostname ∧
            prompt.request.port = launch.host.port))
  | .scanned _ none | .scanned _ (some []) => .isTrue trivial
  | .clearPrompt _ | .promptReturns _ | .trusts _ _ | .settles _ => .isTrue trivial

def strictHost (id hostname : String) : HostRecord :=
  { plainHost id with hostname := js hostname, hostKeyPolicy := .requireTrusted }

def someKey : ScannedKey := ⟨js "ssh-ed25519", js "AAAA", js "SHA256:k"⟩

def unsorted : Platform := ⟨fun _ _ => .eq, fun _ => none⟩

def acceptedOnce : List Action :=
  [.launch (strictHost "h" "a"), .scanned 0 (some [someKey]), .clearPrompt (some 0),
    .promptReturns 0, .trusts 0 (js "now"), .settles 0]

/-- Every run of distinct steps keeps what the trust prompts promise. -/
theorem trustByChoice_run (platform : Platform) (known : List KnownHostRecord)
    (actions : List Action) (h : Allowed (step platform) Distinct (.initial known) actions) :
    TrustByChoice known (run (step platform) (.initial known) actions) := by
  have hstep : ∀ w action, Sound known w → Distinct w action → Sound known (step platform w action) :=
    fun w action hsound hdistinct => hsound.step platform action hdistinct
  exact (run_invariant hstep (sound_initial known) h).trustByChoice

theorem trustByChoice_run_acceptedOnce :
    TrustByChoice [] (run (step unsorted) (.initial []) acceptedOnce) :=
  trustByChoice_run unsorted [] acceptedOnce (by decide)

end Runs

section Overlapping

/-- The record of the host is edited while the host is in flight, and the host launched again. -/
def editedInBetween : List Action :=
  [.launch (strictHost "h" "a"), .launch (strictHost "h" "b"), .scanned 0 (some [someKey]),
    .clearPrompt (some 0), .promptReturns 0, .trusts 0 (js "now"), .settles 0]

/-- Two hosts whose ids and addresses join to one prompt key. -/
def twoScans : List Action :=
  [.launch (strictHost "db" "2001:db8::1"), .launch (strictHost "db:2001" "db8::1"),
    .scanned 0 (some [someKey])]

def oneAnswer : List Action :=
  [.clearPrompt (some 0), .promptReturns 0, .promptReturns 1, .trusts 0 (js "now"),
    .trusts 1 (js "now")]

def trustedFor (hostname : String) : KnownHostRecord :=
  createKnownHostRecord (scanResult (js hostname) 22 someKey) (js "now")

def answered : KnownHostScanResult := scanResult (js "2001:db8::1") 22 someKey

theorem scanned_joins {w : World} {l p : ℕ} {host : HostRecord} {prompt : Prompt}
    {key : ScannedKey} {keys : List ScannedKey} (hl : w.launches[l]? = some ⟨host, .scanning⟩)
    (hactive : w.activePrompt = some p) (hprompt : w.prompts[p]? = some prompt)
    (hkey : prompt.request.key = getPromptKey host.id host.hostname host.port) :
    w.scanned l (some (key :: keys)) = w.setStage l (.prompting p) := by
  simp [World.scanned, World.openPrompt, FingerprintTrustPromptRequest.key, hl, hactive, hprompt,
    ← hkey]

theorem key_db : getPromptKey (js "db") (js "2001:db8::1") 22 =
    getPromptKey (js "db:2001") (js "db8::1") 22 := rfl

/-- The second scan finds its key active, and waits for the prompt of the other host. -/
theorem sameKeyPrompts_joins :
    run (step unsorted) (.initial []) (twoScans ++ .scanned 1 (some [someKey]) :: oneAnswer) =
      run (step unsorted) ((run (step unsorted) (.initial []) twoScans).setStage 1 (.prompting 0))
        oneAnswer := by
  have hjoins : (run (step unsorted) (.initial []) twoScans).scanned 1 (some [someKey]) =
      (run (step unsorted) (.initial []) twoScans).setStage 1 (.prompting 0) :=
    scanned_joins rfl rfl rfl key_db
  rw [run_append, run_cons, ← hjoins]
  rfl

theorem found_without_record :
    ¬ TrustByChoice [] (run (step unsorted) (.initial []) editedInBetween) ∧
      ¬ TrustByChoice [] (run (step unsorted) (.initial [])
        (twoScans ++ .scanned 1 (some [someKey]) :: oneAnswer)) := by
  constructor
  · intro h
    have hlaunch : ⟨strictHost "h" "b", .joined 0⟩ ∈
        (run (step unsorted) (.initial []) editedInBetween).launches :=
      List.mem_of_getElem? (i := 1) rfl
    have hfound := h.found _ hlaunch rfl _ rfl _ [trustedFor "a"] (.inr rfl) rfl
    exact absurd hfound (by decide)
  · rw [sameKeyPrompts_joins]
    intro h
    have hlaunch : ⟨strictHost "db:2001" "db8::1", .returned ⟨true, none, some answered⟩
        [trustedFor "2001:db8::1"]⟩ ∈ (run (step unsorted)
          ((run (step unsorted) (.initial []) twoScans).setStage 1 (.prompting 0)) oneAnswer).launches :=
      List.mem_of_getElem? (i := 1) rfl
    have hfound := h.found _ hlaunch rfl _ rfl _ [trustedFor "2001:db8::1"] (.inl rfl) rfl
    exact absurd hfound (by decide)

end Overlapping

end HostTrust
