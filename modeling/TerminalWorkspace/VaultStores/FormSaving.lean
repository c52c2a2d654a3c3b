import TerminalWorkspace.VaultStores.HostForm
import TerminalWorkspace.VaultStores.PortText

/-! Saving the form of a host. What it shows overwrites the record, but for an identity that
is left blank; and what was saved is saved again as it is, but for a port that is written
with an exponent. -/
namespace VaultStores
open JsText JsNumbers Inventory
open RecordFile (trim trim_trim)

section Saved

theorem toNumber_defaultPort (protocol : HostProtocol) :
    toNumber (protocolDefaultPort protocol) = protocolDefaultPort protocol := by
  cases protocol <;> decide +kernel

theorem defaultPort_lt (protocol : HostProtocol) :
    (protocolDefaultPort protocol).natAbs < 10 ^ 21 := by
  cases protocol <;> decide

/-- The port of a host that is saved from a form. -/
def savedPort (protocol : HostProtocol) (text : JsString) : ℤ :=
  (((parseInt text).map toNumber).filter (· ≠ 0)).getD (protocolDefaultPort protocol)

theorem savedPort_cases (protocol : HostProtocol) (text : JsString) :
    savedPort protocol text = protocolDefaultPort protocol ∧
        (∀ n ∈ parseInt text, toNumber n = 0) ∨
      ∃ n ∈ parseInt text, toNumber n ≠ 0 ∧ savedPort protocol text = toNumber n := by
  rw [savedPort]
  cases parseInt text with
  | none => exact .inl ⟨rfl, by simp⟩
  | some n =>
    by_cases h : toNumber n = 0
    · exact .inl ⟨by simp [Option.filter, h], by simpa using h⟩
    · exact .inr ⟨n, rfl, h, by simp [Option.filter, h]⟩

theorem toNumber_savedPort (protocol : HostProtocol) (text : JsString) :
    toNumber (savedPort protocol text) = savedPort protocol text := by
  rcases savedPort_cases protocol text with ⟨h, -⟩ | ⟨n, -, -, h⟩
  · rw [h, toNumber_defaultPort]
  · rw [h, toNumber_idem]

theorem savedPort_lt_iff (protocol : HostProtocol) (text : JsString) :
    (savedPort protocol text).natAbs < 10 ^ 21 ↔
      ∀ n ∈ parseInt text, (toNumber n).natAbs < 10 ^ 21 := by
  rcases savedPort_cases protocol text with ⟨h, hzero⟩ | ⟨n, hn, -, h⟩
  · rw [h]
    refine ⟨fun _ n hn => ?_, fun _ => defaultPort_lt protocol⟩
    rw [hzero n hn]
    decide
  · rw [h]
    refine ⟨fun hlt m hm => ?_, fun hall => hall n hn⟩
    obtain rfl := Option.some.inj (hn.symm.trans hm)
    exact hlt

theorem savedPort_again_iff (protocol : HostProtocol) (text : JsString) :
    savedPort protocol (numberString (savedPort protocol text)) = savedPort protocol text ↔
      ∀ n ∈ parseInt text, (toNumber n).natAbs < 10 ^ 21 := by
  rw [← savedPort_lt_iff protocol text]
  have hnumber := toNumber_savedPort protocol text
  constructor
  · intro hsame
    by_contra hlarge
    have hdigit := parseInt_numberString_large hnumber (not_lt.mp hlarge)
    refine hlarge ?_
    rw [← hsame, savedPort_lt_iff]
    intro n hn
    rw [natAbs_toNumber]
    have hlt := hdigit n hn
    have hsmall : ∀ m < 10, magnitude m < 10 ^ 21 := by decide +kernel
    exact hsmall _ hlt
  · intro hsmall
    have hread := parseInt_numberString hnumber hsmall
    rcases savedPort_cases protocol text with ⟨h, -⟩ | ⟨n, -, hne, h⟩
    · rw [h] at hread ⊢
      rw [savedPort, hread]
      by_cases hzero : protocolDefaultPort protocol = 0
      · simp [Option.filter, hzero]
      · simp [Option.filter, hzero]
    · rw [h] at hread ⊢
      simp [savedPort, hread, Option.filter, hne]

end Saved

section Lens

/-- The same record, however the keys of its environment came in. -/
def SameHost (left right : HostRecord) : Prop :=
  { left with environment := right.environment } = right ∧
    objectEntries left.environment = objectEntries right.environment

/-- What the form shows of a saved host does not depend on the record that it was saved over. -/
def Overwrites (values : HostFormValues) (first second : Option HostRecord) : Prop :=
  ∀ fresh now fresh' now',
    hostToFormValues (createHostRecord values first fresh now) =
      hostToFormValues (createHostRecord values second fresh' now')

/-- Saving what the form shows of a saved host changes no more than the time of its update. -/
def SavedAgain (values : HostFormValues) (host : Option HostRecord) : Prop :=
  ∀ fresh now fresh' now',
    let saved := createHostRecord values host fresh now
    SameHost (createHostRecord (hostToFormValues saved) (some saved) fresh' now')
      { saved with updatedAt := now' }

def FaithfulForm (values : HostFormValues) (first second : Option HostRecord) : Prop :=
  Overwrites values first second ∧ SavedAgain values first ∧ SavedAgain values second

/-- The identity that a record is bound to, as the form shows it. -/
def boundIdentity (host : Option HostRecord) : JsString :=
  (host.bind (·.identityId.get?)).getD []

/-- The identity of the form. -/
def savedIdentity (values : HostFormValues) (host : Option HostRecord) : JsString :=
  if trim isSpace values.identityId = [] then boundIdentity host else trim isSpace values.identityId

theorem get?_listed {α : Type*} (value : Option α) : (listed value).get? = value := by
  cases value <;> rfl

theorem shown_identity (values : HostFormValues) (host : Option HostRecord)
    (fresh now : JsString) :
    (hostToFormValues (createHostRecord values host fresh now)).identityId =
      savedIdentity values host := by
  simp only [hostToFormValues, createHostRecord, get?_listed, savedIdentity, boundIdentity, truthy]
  split_ifs <;> simp

theorem overwrites_iff {values : HostFormValues} {first second : Option HostRecord} :
    Overwrites values first second ↔ savedIdentity values first = savedIdentity values second := by
  constructor
  · intro h
    have hidentity := congrArg HostFormValues.identityId (h [] [] [] [])
    rwa [shown_identity, shown_identity] at hidentity
  · intro h fresh now fresh' now'
    have hidentity : (hostToFormValues (createHostRecord values first fresh now)).identityId =
        (hostToFormValues (createHostRecord values second fresh' now')).identityId := by
      rw [shown_identity, shown_identity, h]
    exact congrArg (fun identityId =>
      { hostToFormValues (createHostRecord values first fresh now) with
        identityId := identityId }) hidentity

theorem truthy_getD (s : JsString) : truthy ((truthy s).getD []) = truthy s := by
  by_cases h : s = [] <;> simp [truthy, h]

theorem trim_truthy_getD {s other : JsString} (hother : trim isSpace other = other) :
    trim isSpace ((truthy (trim isSpace s)).getD other) =
      (truthy (trim isSpace s)).getD other := by
  unfold truthy
  split_ifs with h
  · exact hother
  · exact trim_trim _ _

theorem truthy_trim_truthy_getD (s : JsString) {other : JsString} (hother : trim isSpace other = other)
    (hne : other ≠ []) :
    (truthy (trim isSpace ((truthy (trim isSpace s)).getD other))).getD other =
      (truthy (trim isSpace s)).getD other := by
  rw [trim_truthy_getD hother]
  unfold truthy
  split_ifs with h h' h'
  · exact absurd h' hne
  · rfl
  · exact absurd h' h
  · rfl

theorem nodup_eraseDups (l : List JsString) : l.eraseDups.Nodup := by
  induction h : l.length using Nat.strong_induction_on generalizing l with
  | _ n ih =>
    cases l with
    | nil => exact List.nodup_nil
    | cons a l =>
      have hshort : (l.filter fun b => !b == a).length < n :=
        h ▸ Nat.lt_succ_of_le (List.length_filter_le _ l)
      rw [List.eraseDups_cons]
      refine List.nodup_cons.mpr ⟨fun hmem => ?_, ih _ hshort _ rfl⟩
      simpa using (List.mem_filter.mp (List.mem_eraseDups.mp hmem)).2

theorem eraseDups_of_nodup {l : List JsString} (h : l.Nodup) : l.eraseDups = l := by
  induction l with
  | nil => rfl
  | cons a l ih =>
    obtain ⟨hnew, hrest⟩ := List.nodup_cons.mp h
    have hfilter : (l.filter fun b => !b == a) = l :=
      List.filter_eq_self.mpr fun b hb => by
        have hne : b ≠ a := fun heq => hnew (by rwa [← heq])
        simpa using hne
    rw [List.eraseDups_cons, hfilter, ih hrest]

/-- Tags that were typed in come back from their text. -/
theorem tags_again (value : JsString) :
    normalizeTags (splitCommaList ((js ", ").intercalate
      ((normalizeTags (splitCommaList value)).filter fun tag =>
        (trim isSpace tag).map asciiLower ≠ js "favorite"))) =
      normalizeTags (splitCommaList value) := by
  have hshown : ((normalizeTags (splitCommaList value)).filter fun tag =>
      (trim isSpace tag).map asciiLower ≠ js "favorite") = normalizeTags (splitCommaList value) := by
    refine List.filter_eq_self.mpr fun tag htag => ?_
    have hkept := (List.mem_filter.mp htag).2
    simp only [Bool.and_eq_true] at hkept
    exact hkept.2
  have hpieces : ∀ tag ∈ normalizeTags (splitCommaList value), IsPiece ',' tag := fun tag htag =>
    isPiece_of_mem (List.mem_eraseDups.mp (List.mem_filter.mp htag).1)
  have hnodup : (normalizeTags (splitCommaList value)).Nodup := (nodup_eraseDups _).filter _
  have hcomma : js ", " = .scalar ',' :: [.scalar ' '] := rfl
  have hagain : splitCommaList ((js ", ").intercalate (normalizeTags (splitCommaList value))) =
      normalizeTags (splitCommaList value) := by
    rw [splitCommaList, hcomma, splitTrimmed_intercalate (by decide) (by decide) hpieces,
      eraseDups_of_nodup hnodup]
  rw [hshown, hagain]
  exact List.filter_eq_self.mpr fun tag htag => (List.mem_filter.mp htag).2

theorem resaved_eq (values : HostFormValues) (host : Option HostRecord)
    (fresh now fresh' now' : JsString) :
    let saved := createHostRecord values host fresh now
    createHostRecord (hostToFormValues saved) (some saved) fresh' now' =
      { saved with
        port := savedPort values.protocol (numberString saved.port)
        environment :=
          parseEnvironmentVariables ((js "\n").intercalate
            ((objectEntries saved.environment).map formatEnvironmentEntry))
        updatedAt := now'
        identityId :=
          listed ((truthy (trim isSpace (savedIdentity values host))).or saved.identityId.get?) } := by
  have hidentity := shown_identity values host fresh now
  have htags := tags_again values.tags
  have hjump := truthy_getD values.jumpHostId
  have hlocal := truthy_trim_truthy_getD values.username (show trim isSpace (js "local") = _ by decide)
    (by decide)
  have hroot := truthy_trim_truthy_getD values.sftpRoot (show trim isSpace (js "/home") = _ by decide)
    (by decide)
  simp only [createHostRecord, hostToFormValues] at hidentity ⊢
  rw [hidentity, htags]
  obtain ⟨protocol, hprotocol⟩ : ∃ protocol, values.protocol = protocol := ⟨_, rfl⟩
  cases protocol <;>
    simp [hprotocol, trim_trim, hlocal, hroot, hjump, get?_listed, savedPort,
      hostSupportsCredentialPrompt, hostSupportsJumpHosts, hostSupportsSftp,
      hostSupportsTrustedKeys, protocolRequiresUsername]

theorem listed_injective {α : Type*} : Function.Injective (listed : Option α → Optional α) :=
  Function.LeftInverse.injective get?_listed

/-- An identity is saved as it is shown, unless it was inherited with blanks around it. -/
theorem identity_again_iff (value : Option JsString) :
    (truthy (trim isSpace (value.getD []))).or value = value ↔
      trim isSpace (value.getD []) = value.getD [] ∨ trim isSpace (value.getD []) = [] := by
  by_cases hblank : trim isSpace (value.getD []) = []
  · simp [truthy, hblank]
  · cases value with
    | none => exact absurd rfl hblank
    | some identity =>
      rw [Option.getD_some] at hblank ⊢
      simp [truthy, hblank]

theorem savedAgain_iff {values : HostFormValues} {host : Option HostRecord} :
    SavedAgain values host ↔
      (∀ n ∈ parseInt values.port, (toNumber n).natAbs < 10 ^ 21) ∧
        (trim isSpace (savedIdentity values host) = savedIdentity values host ∨
          trim isSpace (savedIdentity values host) = []) := by
  have hidentity : ∀ fresh now, savedIdentity values host =
      (createHostRecord values host fresh now).identityId.get?.getD [] :=
    fun fresh now => (shown_identity values host fresh now).symm
  have hlisted : ∀ fresh now, (createHostRecord values host fresh now).identityId =
      listed (createHostRecord values host fresh now).identityId.get? :=
    fun fresh now => congrArg listed (get?_listed _).symm
  have hport : ∀ fresh now, (createHostRecord values host fresh now).port =
      savedPort values.protocol values.port := fun _ _ => rfl
  constructor
  · intro h
    have hsame := (h [] [] [] []).1
    rw [resaved_eq] at hsame
    have hports := congrArg (·.port) hsame
    have hids := congrArg (·.identityId) hsame
    simp only [hport] at hports
    simp only at hids
    refine ⟨(savedPort_again_iff _ _).mp hports, ?_⟩
    rw [hlisted [] [], hidentity [] []] at hids
    rw [hidentity [] []]
    exact (identity_again_iff _).mp (by simpa [get?_listed] using listed_injective hids)
  · rintro ⟨hports, hids⟩ fresh now fresh' now'
    have hsaved : savedPort values.protocol
        (numberString (createHostRecord values host fresh now).port) =
          (createHostRecord values host fresh now).port := (savedPort_again_iff _ _).mpr hports
    have hbound : listed ((truthy (trim isSpace (savedIdentity values host))).or
        (createHostRecord values host fresh now).identityId.get?) =
          (createHostRecord values host fresh now).identityId := by
      rw [hidentity fresh now] at hids ⊢
      rw [(identity_again_iff _).mpr hids, ← hlisted]
    have hresaved := resaved_eq values host fresh now fresh' now'
    dsimp only at hresaved ⊢
    rw [hresaved, hsaved, hbound]
    exact ⟨rfl, objectEntries_parse_format values.environment⟩

/-- Saving a form overwrites what it shows, and what was saved is saved again as it is, unless
the form leaves an identity blank that the record then keeps, or names a port that is written
with an exponent. -/
theorem faithfulForm_iff (values : HostFormValues) (first second : Option HostRecord) :
    FaithfulForm values first second ↔
      (trim isSpace values.identityId = [] →
        boundIdentity first = boundIdentity second ∧
          trim isSpace (boundIdentity first) ∈ [boundIdentity first, []]) ∧
        ∀ n ∈ parseInt values.port, (toNumber n).natAbs < 10 ^ 21 := by
  rw [FaithfulForm, overwrites_iff, savedAgain_iff, savedAgain_iff]
  by_cases hblank : trim isSpace values.identityId = []
  · simp only [savedIdentity, hblank, if_true, forall_const, List.mem_cons, List.not_mem_nil,
      or_false]
    constructor
    · rintro ⟨hsame, ⟨hports, hfirst⟩, -⟩
      exact ⟨⟨hsame, hfirst⟩, hports⟩
    · rintro ⟨⟨hsame, hfirst⟩, hports⟩
      exact ⟨hsame, ⟨hports, hfirst⟩, hports, hsame ▸ hfirst⟩
  · simp only [savedIdentity, hblank, if_false, trim_trim, true_or, and_true, true_and,
      false_implies, and_self]

/-- The production gateway, as its editor shows it after the identity was cleared. -/
def clearedGateway : HostFormValues := { hostToFormValues prodGateway with identityId := [] }

theorem cleared_identity_stays :
    ¬FaithfulForm clearedGateway (some prodGateway) none := by
  rintro ⟨hoverwrites, -⟩
  exact absurd (overwrites_iff.mp hoverwrites) (by decide)

end Lens

end VaultStores
