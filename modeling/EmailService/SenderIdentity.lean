/-
EmailService/SenderIdentity.lean

Whose address a user can show.

`layerChecks` reads one From field of a submitted message, the first, and
compares its address with the rights of the user.  The message is stored with
all its From fields (`fromFields_stored`), so the rights are kept exactly if the
fields after the first list no other addresses (`identities_granted_iff`).

The site itself may add a From field, through a policy script or a scanner;
`KeepsFrom` says that it does not.
-/
import EmailService.DataPhase

namespace EmailService.DataPhase

open GoStrings NetMail HeaderFields Dmarc List

variable (U : CaseTables) (v : Entitlements.Validator) (username : String) (raw : List UInt8)

/-- Every address in a From field of the message is one the user may send as. -/
def Granted : Prop :=
  ∀ f ∈ fromFields raw, ∀ a ∈ addresses f, v.authorizedToSendAs U username a = true

/-- The From field that `Header.Get` finds names one address, and the user may
send as it. -/
def FirstGranted : Prop :=
  NetMail.Readable raw ∧ headerFromDomain U raw ≠ "" ∧
    ∃ visible, parseAddress (text (NetMail.get (fields raw) fromKey)) = some visible ∧
      v.authorizedToSendAs U username visible.address = true

/-- The From fields besides the one that `Header.Get` finds. -/
def otherFrom (raw : List UInt8) : List Field := (fromFields raw).eraseP (·.key = fromKey)

/-- Nothing the site does to a message touches its From fields. -/
structure Site.KeepsFrom (S : Site) : Prop where
  marker : Foreign S.names.U S.marker
  policy : ∀ a, S.services.policyManager = some (.ok (some a)) → ∀ raw raw',
    applyPolicyHeaders S.names.U raw a.headers = some raw' → fromFields raw' = fromFields raw
  scan : ∀ m data folder, S.services.scan m = .ok (data, folder) →
    fromFields data = fromFields m.data

/-! ### The field that is read -/

section First

variable {U : CaseTables} {v : Entitlements.Validator} {username : String} {raw : List UInt8}

theorem isFrom_of_key {f : Field} (h : f.key = fromKey) : isFrom f = true := by
  unfold isFrom
  rw [h]
  decide

/-- `Header.Get` sees the From fields only. -/
theorem get_fromFields (raw : List UInt8) :
    NetMail.get (fromFields raw) fromKey = NetMail.get (fields raw) fromKey := by
  have hfilter : (fromFields raw).filter (·.key = fromKey) =
      (fields raw).filter (·.key = fromKey) := by
    rw [fromFields, filter_filter]
    refine filter_congr fun f _ => ?_
    by_cases h : f.key = fromKey
    · simp [h, isFrom_of_key h]
    · simp [h]
  unfold NetMail.get values
  rw [hfilter]

/-- The From fields are the one that is found and the others. -/
theorem exists_first (h : NetMail.get (fields raw) fromKey ≠ []) :
    ∃ first, first.value = NetMail.get (fields raw) fromKey ∧
      ∀ f, f ∈ fromFields raw ↔ f = first ∨ f ∈ otherFrom raw := by
  rw [← get_fromFields] at h ⊢
  have hmem : ∃ f ∈ fromFields raw, f.key = fromKey := by
    by_contra hnone
    push Not at hnone
    have hnil : (fromFields raw).filter (·.key = fromKey) = [] :=
      filter_eq_nil_iff.mpr fun f hf => by simpa using hnone f hf
    unfold NetMail.get values at h
    rw [hnil] at h
    exact h rfl
  obtain ⟨f, hf, hkey⟩ := hmem
  obtain ⟨first, before, after, hbefore, hfirst, hsplit, herase⟩ :=
    exists_of_eraseP (p := fun f : Field => f.key = fromKey) hf (decide_eq_true hkey)
  refine ⟨first, ?_, fun f => ?_⟩
  · have hnil : before.filter (·.key = fromKey) = [] :=
      filter_eq_nil_iff.mpr fun f hf => by simpa using hbefore f hf
    unfold NetMail.get values
    rw [hsplit, filter_append, hnil, nil_append,
      filter_cons_of_pos (p := fun f : Field => f.key = fromKey) hfirst]
    rfl
  · rw [otherFrom, herase, hsplit]
    simp only [mem_append, mem_cons]
    tauto

theorem get_ne_nil_of_headerFromDomain (h : headerFromDomain U raw ≠ "") :
    NetMail.get (fields raw) fromKey ≠ [] := by
  intro hnil
  apply h
  unfold headerFromDomain readMessage
  split_ifs
  · dsimp only
    rw [if_pos hnil]
  · rfl

/-- With the first field granted, it is for the others to be granted. -/
theorem FirstGranted.granted_iff (h : FirstGranted U v username raw) :
    Granted U v username raw ↔
      ∀ f ∈ otherFrom raw, ∀ a ∈ addresses f, v.authorizedToSendAs U username a = true := by
  obtain ⟨-, hdomain, visible, hvisible, hgrant⟩ := h
  obtain ⟨first, hvalue, hfields⟩ := exists_first (get_ne_nil_of_headerFromDomain hdomain)
  have hfirst : addresses first = [visible.address] := by
    rw [addresses, hvalue, parseAddressList_of_parseAddress hvisible]
    rfl
  constructor
  · exact fun hall f hf => hall f ((hfields f).mpr (.inr hf))
  · intro hothers f hf a ha
    rcases (hfields f).mp hf with rfl | hother
    · rw [hfirst, mem_singleton] at ha
      rw [ha]
      exact hgrant
    · exact hothers f hother a ha

end First

/-! ### The message that is stored -/

section Stored

variable {S : Site} {s : Session} {m m' : Msg} {b : List UInt8}

theorem LF_not_mem_utf8 {t : String} (h : '\n' ∉ t.toList) : 10 ∉ utf8 t := by
  intro hmem
  obtain ⟨c, hc, hb⟩ := mem_flatMap.mp hmem
  rcases Nat.lt_or_ge c.toNat 128 with hlt | hge
  · rw [Utf8.utf8EncodeChar_of_lt hlt, mem_singleton] at hb
    have hten : c.toNat = 10 := by
      have := congrArg UInt8.toNat hb
      simp only [UInt8.reduceToNat, UInt8.toNat_ofNat'] at this
      omega
    have hLF : c = '\n' := Char.ext (UInt32.toNat_inj.mp hten)
    exact h (hLF ▸ hc)
  · exact absurd (Utf8.le_of_mem_utf8EncodeChar hge hb) (by decide)

theorem LF_not_mem_sanitize (t : String) : '\n' ∉ (sanitizeHeaderValue t).toList := by
  simp [sanitizeHeaderValue]

theorem utf8_append (s t : String) : utf8 (s ++ t) = utf8 s ++ utf8 t := by
  rw [utf8, String.toList_append, Utf8.encode_append]
  rfl

variable {raw : List UInt8}

/-- The Received field before a message. -/
theorem fromFields_received (S : Site) (s : Session) (m : Msg) (h : startsBlank raw = false) :
    fromFields (S.received s m ++ raw) = fromFields raw := by
  have hsplit : ∃ v : String, '\n' ∉ v.toList ∧
      S.received s m = utf8 "Received" ++ 58 :: utf8 v ++ [10] := by
    refine ⟨" from " ++ sanitizeHeaderValue s.ehlo ++ " ([" ++ sanitizeHeaderValue m.clientIP ++
      "]) by " ++ sanitizeHeaderValue S.config.domain ++ "; " ++ S.services.date.text ++ "\r",
      ?_, ?_⟩
    · simp [LF_not_mem_sanitize, S.services.date.oneLine]
    · have hkey : utf8 "Received: from " = utf8 "Received" ++ 58 :: utf8 " from " := by decide
      have hend : utf8 "\r\n" = utf8 "\r" ++ [10] := by decide
      simp only [Site.received, utf8_append, hkey, hend, append_assoc, cons_append]
  obtain ⟨v, hv, hreceived⟩ := hsplit
  rw [hreceived, append_assoc, singleton_append]
  refine fromFields_prepend (by decide) ?_ (fun w => rfl) rfl h
  rw [mem_append, mem_cons, not_or, not_or]
  exact ⟨by decide, by decide, LF_not_mem_utf8 hv⟩

theorem foreign_originalIP (U : CaseTables) : Foreign U "X-Mailhub-Original-IP" :=
  foreign_of_head U (c := 'x') (by decide) (by decide) (by decide)

theorem foreign_authenticationResults (U : CaseTables) : Foreign U "Authentication-Results" :=
  foreign_of_head U (c := 'a') (by decide) (by decide) (by decide)

theorem startsBlank_of_readable (h : NetMail.Readable raw) : startsBlank raw = false := by
  by_contra hblank
  have hread : readHeader raw = ([], .malformed) := if_pos (by simpa using hblank)
  rcases h with h | ⟨h, -⟩ <;> rw [hread] at h <;> cases h

/-- `layerChecks` leaves the From fields alone. -/
theorem fromFields_layerChecks (h : S.layerChecks s m = .ok m') :
    fromFields m'.data = fromFields m.data := by
  obtain ⟨hreadable, -, -, m₁, hdata, hstored⟩ := Site.layerChecks_ok h
  have hblank := startsBlank_of_readable hreadable
  rw [hstored, fromFields_received, Site.stripped,
    fromFields_removeHeader _ (foreign_authenticationResults _),
    fromFields_removeHeader _ (foreign_originalIP _), hdata]
  rw [Site.stripped, hdata]
  exact startsBlank_removeHeader _ (startsBlank_removeHeader _ hblank _) _

theorem fromFields_filterMarker (hS : S.KeepsFrom) :
    fromFields (S.filterMarker s m).data = fromFields m.data := by
  unfold Site.filterMarker
  split
  · exact fromFields_removeHeader _ hS.marker _
  · rfl

/-- A marker is only found in a message that can be read. -/
theorem readable_of_filterMarker (h : NetMail.Readable (S.filterMarker s m).data) :
    NetMail.Readable m.data := by
  unfold Site.filterMarker at h
  split at h
  · next hmarker =>
    by_contra hnot
    obtain ⟨-, -, hheader⟩ := hmarker
    rw [hasHeader, readMessage, if_neg hnot] at hheader
    cases hheader
  · exact h

/-- **A message is stored with the From fields it was sent with.** -/
theorem fromFields_stored (hS : S.KeepsFrom) (hauth : s.authenticated = true)
    (h : S.data s b = .ok (some m)) : fromFields m.data = fromFields b := by
  obtain ⟨p⟩ := Site.passed_of_data h
  have hlayer : fromFields p.layered.data = fromFields b :=
    (fromFields_layerChecks p.layer).trans (fromFields_filterMarker hS)
  have hjudged : p.judged.data = p.layered.data := by
    rw [(Site.dmarcCheck_keeps p.judge).2, (Site.dkimCheck_keeps s p.admitted).2.1,
      (Site.admission_keeps p.admits).2]
  have hruled : fromFields p.ruled.data = fromFields p.plugged.data := by
    rcases (Site.policyCheck_keeps p.rule).2 with hsame | ⟨a, hmanager, hheaders⟩
    · rw [hsame]
    · exact hS.policy a hmanager _ _ hheaders
  obtain ⟨-, m₁, folder, hscan, hdata⟩ := Site.finish_keeps p.end_
  rw [hauth, if_pos rfl] at hdata
  rw [hS.scan m₁ _ folder hscan, hdata, hruled, (Site.pluginCheck_keeps p.plug).2, hjudged, hlayer]

end Stored

/-! ### A site that asks nobody -/

/-- A message with fewer hops than the limit. -/
theorem hops_allowed {S : Site} {n : ℕ} (h : S.config.maxHops = n + 1) : ¬ S.hopLimit ≤ n := by
  have hne : S.config.maxHops ≠ 0 := by omega
  rw [Site.hopLimit, if_neg hne, h]
  omega

/-- A server without optional services, with room for one more hop. -/
def quietSite (N : Names) (v : Entitlements.Validator) (b : List UInt8) : Site where
  names := N
  config := { maxHops := (values (fields b) (utf8 "Received")).length + 1 }
  validator := v
  services := {}

def userSession (username : String) : Session := { authenticated := true, username }

theorem quietSite_keepsFrom (N : Names) (v : Entitlements.Validator) (b : List UInt8) :
    (quietSite N v b).KeepsFrom where
  marker := by
    rw [Site.marker, if_pos (by rfl)]
    exact foreign_of_head N.U (c := 'x') (by decide) (by decide) (by decide)
  policy := nofun
  scan := by
    rintro m data folder ⟨⟩
    rfl

/-- It accepts every message whose first From field is granted. -/
theorem quietSite_accepts {N : Names} {v : Entitlements.Validator} {username : String}
    {b : List UInt8} (h : FirstGranted N.U v username b) :
    ∃ m, (quietSite N v b).data (userSession username) b = .ok (some m) := by
  obtain ⟨hreadable, hdomain, visible, hvisible, hgrant⟩ := h
  have hown : (quietSite N v b).ownIdentity (userSession username) b = true := by
    simp only [Site.ownIdentity, Bool.and_eq_true, decide_eq_true_eq]
    refine ⟨hdomain, ?_⟩
    rw [hvisible]
    exact hgrant
  have hlayer : (quietSite N v b).layerChecks (userSession username) { data := b } = .ok
      { data := (quietSite N v b).received (userSession username) { data := b } ++
          (quietSite N v b).stripped { data := b } } := by
    unfold Site.layerChecks
    rw [if_neg (not_not.mpr hreadable), if_neg (by simp [hown]),
      if_neg (hops_allowed rfl)]
    rfl
  exact ⟨_, by
    show (quietSite N v b).layerChecks (userSession username) { data := b } >>= _ = _
    rw [hlayer]
    rfl⟩

/-! ### Who may be shown -/

/-- **On sites that leave From fields alone, the messages that a user can get
accepted show only addresses the user may send as, exactly if the From fields
besides the first list no others**: the first is the only one that is checked. -/
theorem identities_granted_iff (N : Names) (v : Entitlements.Validator) (username : String)
    (b : List UInt8) :
    (∀ (S : Site) (s : Session) (m : Msg), S.names = N → S.validator = v → S.KeepsFrom →
      s.authenticated = true → s.username = username → S.data s b = .ok (some m) →
      Granted N.U v username m.data) ↔
    (FirstGranted N.U v username b →
      ∀ f ∈ otherFrom b, ∀ a ∈ addresses f, v.authorizedToSendAs N.U username a = true) := by
  constructor
  · intro h hfirst
    obtain ⟨m, hm⟩ := quietSite_accepts hfirst
    have hkeeps := quietSite_keepsFrom N v b
    have hgranted := h _ _ m rfl rfl hkeeps rfl rfl hm
    rw [Granted, fromFields_stored hkeeps rfl hm] at hgranted
    exact hfirst.granted_iff.mp hgranted
  · rintro h S s m rfl rfl hS hauth rfl hm
    obtain ⟨p⟩ := Site.passed_of_data hm
    obtain ⟨hreadable, hown, -⟩ := Site.layerChecks_ok p.layer
    have hfields := fromFields_filterMarker (s := s) (m := { s.msg with data := b }) hS
    have hread : NetMail.Readable b := readable_of_filterMarker hreadable
    have hget : NetMail.get (fields (S.filterMarker s { s.msg with data := b }).data) fromKey =
        NetMail.get (fields b) fromKey := by
      rw [← get_fromFields, hfields, get_fromFields]
    have hdomain : headerFromDomain S.names.U (S.filterMarker s { s.msg with data := b }).data =
        headerFromDomain S.names.U b := by
      simp only [headerFromDomain, readMessage, if_pos hreadable, if_pos hread, hget]
    have hfirst : FirstGranted S.names.U S.validator s.username b := by
      have hown' := hown hauth
      simp only [Site.ownIdentity, Bool.and_eq_true, decide_eq_true_eq, hdomain, hget] at hown'
      refine ⟨hread, hown'.1, ?_⟩
      rcases hvisible : parseAddress (text (NetMail.get (fields b) fromKey)) with - | visible
      · rw [hvisible] at hown'
        exact absurd hown'.2 (by simp)
      · rw [hvisible] at hown'
        exact ⟨visible, rfl, hown'.2⟩
    rw [Granted, fromFields_stored hS hauth hm]
    exact hfirst.granted_iff.mpr (h hfirst)

/-! ### A second From field -/

def aliceUser : Entitlements.User := { username := "alice", email := "alice@a.example" }

def aliceOnly : Entitlements.Validator where
  users username := if username = "alice" then some aliceUser else none
  domainOwnership _ := none
  repository := none

def asciiNames : Names where
  U := asciiTables
  etldPlusOne _ := none

/-- The From field of the sender, and then that of somebody else. -/
def twoAuthors : List UInt8 := utf8 "From: alice@a.example\r\nFrom: boss@b.example\r\n\r\nhi\r\n"

/-- A user gets a message accepted that shows somebody else's address. -/
theorem second_from_unchecked :
    ∃ m, (quietSite asciiNames aliceOnly twoAuthors).data (userSession "alice") twoAuthors =
        .ok (some m) ∧
      ∃ f ∈ fromFields m.data, "boss@b.example" ∈ addresses f ∧
        aliceOnly.authorizedToSendAs asciiTables "alice" "boss@b.example" = false := by
  have hfields : fromFields twoAuthors =
      [⟨fromKey, utf8 "alice@a.example"⟩, ⟨fromKey, utf8 "boss@b.example"⟩] := by decide +kernel
  have hfirst : FirstGranted asciiTables aliceOnly "alice" twoAuthors :=
    ⟨by decide +kernel, by decide +kernel, ⟨[], "alice@a.example"⟩, by decide +kernel,
      by decide +kernel⟩
  obtain ⟨m, hm⟩ := quietSite_accepts (N := asciiNames) hfirst
  refine ⟨m, hm, ⟨fromKey, utf8 "boss@b.example"⟩, ?_, by decide +kernel, by decide +kernel⟩
  rw [fromFields_stored (quietSite_keepsFrom _ _ _) rfl hm, hfields]
  exact mem_cons_of_mem _ mem_cons_self

end EmailService.DataPhase
