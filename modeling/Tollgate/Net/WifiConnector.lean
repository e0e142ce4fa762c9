import Tollgate.Net.Transports

/-!
# Switching the upstream network

`openwrt/wifi_connector.rs`: the station of a radio is the section `sta_{radio}` of the wireless
configuration. `switchUpstream` deletes the section of the old upstream, writes the one of the new,
commits, and then looks whether the new link comes up. There are three ways to fail after that; two
of them write the old section again.

`switch_restores_iff` says when a failed switch leaves the configuration as it was: only if the
radios are the same and the old section already held what the switch writes.
-/

set_option autoImplicit false
set_option relaxedAutoImplicit false

namespace Tollgate

open Std

/-! ### Operations -/

/-- `EncryptionType`. -/
inductive EncryptionType
  | none
  | wep
  | psk
  | psk2
  | psk2Ccmp
  | sae
  | saeMixed
  | wpa2Eap
  | unknown (raw : String)
  deriving DecidableEq, Repr

/-- `EncryptionType::to_uci_value`. -/
def EncryptionType.toUciValue : EncryptionType → String
  | .none => "none"
  | .wep => "wep"
  | .psk => "psk"
  | .psk2 | .psk2Ccmp | .unknown _ => "psk2"
  | .sae => "sae"
  | .saeMixed => "sae-mixed"
  | .wpa2Eap => "wpa2-eap"

/-- The name of the station of a radio. -/
def staName (radio : String) : String := "sta_" ++ radio

/-- The options of a station. -/
def staValues (radio ssid password : String) (encryption : EncryptionType) :
    List (String × OpValue) :=
  [("device", .single radio), ("mode", .single "sta"), ("ssid", .single ssid),
    ("network", .single "wwan")] ++
  if encryption = .none then [("encryption", .single "none")]
  else [("encryption", .single encryption.toUciValue), ("key", .single password)]

/-- `build_sta_uci_ops`. -/
def buildStaUciOps (name radio ssid password : String) (encryption : EncryptionType) :
    List UciOp :=
  [.comment ("STA for " ++ ssid ++ " on " ++ radio),
    .add "wireless" "wifi-iface" name (staValues radio ssid password encryption)]

/-- `build_switch_ops`. -/
def buildSwitchOps (fromRadio fromSsid toRadio toSsid toPassword : String)
    (toEncryption : EncryptionType) : List UciOp :=
  [.comment ("Switch upstream: " ++ fromSsid ++ " → " ++ toSsid),
    .delete "wireless" (staName fromRadio) none] ++
  buildStaUciOps (staName toRadio) toRadio toSsid toPassword toEncryption

/-- The operations of `fallback_to`. -/
def fallbackOps (radio ssid : String) : List UciOp :=
  [.comment ("Fallback to " ++ ssid),
    .add "wireless" "wifi-iface" (staName radio)
      [("device", .single radio), ("mode", .single "sta"), ("ssid", .single ssid),
        ("network", .single "wwan")],
    .commit "wireless",
    .shell "wifi reload"]

/-- The errors of `WifiConnectError` a switch can return. -/
inductive WifiConnectError
  | commandFailed (message : String)
  | dhcpTimeout (iface : String) (timeoutMs : ℕ)
  | verificationFailed (message : String)
  deriving DecidableEq, Repr

/-- How the checks of the new link turn out: `find_sta_interface`, `wait_for_sta_ip` and
`verify_connection`. -/
structure LinkChecks where
  find : Except WifiConnectError String
  wait : String → Except WifiConnectError Unit
  verify : String → Except WifiConnectError Unit

/-- `switch_upstream`, with the configuration it leaves. -/
def switchUpstream (fresh : List UciSection → String → String) (checks : LinkChecks)
    (store : UciStore) (fromRadio fromSsid toRadio toSsid toPassword : String)
    (toEncryption : EncryptionType) : UciStore × Except WifiConnectError Unit :=
  let switched := executeShell fresh store
    (buildSwitchOps fromRadio fromSsid toRadio toSsid toPassword toEncryption)
  let reloaded := executeShell fresh switched [.commit "wireless", .shell "wifi reload"]
  match checks.find with
  -- the error goes straight to the caller here, without a fallback
  | .error error => (reloaded, .error error)
  | .ok iface =>
    match checks.wait iface with
    | .ok () =>
      match checks.verify iface with
      | .ok () => (reloaded, .ok ())
      | .error error =>
        (executeShell fresh reloaded (fallbackOps fromRadio fromSsid), .error error)
    | .error error =>
      (executeShell fresh reloaded (fallbackOps fromRadio fromSsid), .error error)

/-! ### Sections by name -/

/-- The section of a name. -/
def findSection (sections : List UciSection) (name : String) : Option UciSection :=
  sections.find? fun uciSection ↦ uciSection.name = name

/-- A section is written: it gets the type and the values, on top of what it had. -/
def writeSection (before : Option UciSection) (name type : String)
    (values : List (String × OpValue)) : UciSection :=
  ⟨name, type, (before.map (·.anonymous)).getD false,
    values.foldl (fun options entry ↦ options.extend entry.1 entry.2)
      ((before.map (·.options)).getD ∅)⟩

theorem resolve_name {name : String} (hname : isUciName name = true)
    (sections : List UciSection) :
    resolve sections name = sections.findIdx? fun uciSection ↦ uciSection.name = name := by
  have hat : ∀ rest, name.toList ≠ '@' :: rest := by
    intro rest hlist
    simp [isUciName, hlist] at hname
  unfold resolve
  split
  · next rest hlist => exact absurd hlist (hat rest)
  · rfl

theorem findIdx?_eq_none_iff_findSection (sections : List UciSection) (name : String) :
    sections.findIdx? (fun uciSection ↦ decide (uciSection.name = name)) = none ↔
      findSection sections name = none := by
  rw [List.findIdx?_eq_none_iff, findSection, List.find?_eq_none]
  simp

theorem name_of_findSection {sections : List UciSection} {name : String} {found : UciSection}
    (hfound : findSection sections name = some found) : found.name = name := by
  simpa using List.find?_some hfound

theorem findSection_append (sections : List UciSection) (added : UciSection) (name : String) :
    findSection (sections ++ [added]) name =
      (findSection sections name).or (if added.name = name then some added else none) := by
  unfold findSection
  rw [List.find?_append]
  by_cases hname : added.name = name
  · simp [hname]
  · simp [hname]

/-- A change of a section found by name is seen under that name alone. -/
theorem findSection_modify {sections : List UciSection} {name : String} {place : ℕ}
    (hplace : sections.findIdx? (fun uciSection ↦ decide (uciSection.name = name)) = some place)
    {change : UciSection → UciSection}
    (hchange : ∀ uciSection, (change uciSection).name = uciSection.name) (other : String) :
    findSection (sections.modify place change) other =
      if other = name then (findSection sections name).map change
      else findSection sections other := by
  induction sections generalizing place with
  | nil => simp at hplace
  | cons uciSection rest ih =>
    rw [List.findIdx?_cons] at hplace
    by_cases hhead : uciSection.name = name
    · have hzero : 0 = place := by simpa [hhead] using hplace
      subst hzero
      by_cases hother : other = name
      · simp [findSection, hhead, hother, hchange]
      · have hdiffer : uciSection.name ≠ other := fun hequal ↦ hother (hequal ▸ hhead)
        simp [findSection, hother, hdiffer, hchange]
    · simp only [hhead, decide_false, Bool.false_eq_true, if_false,
        Option.map_eq_some_iff] at hplace
      obtain ⟨place, hplace, rfl⟩ := hplace
      have hrest := ih hplace
      unfold findSection at hrest ⊢
      rw [List.modify_succ_cons, List.find?_cons, List.find?_cons, List.find?_cons, hrest]
      by_cases hother : other = name
      · subst hother
        simp [hhead]
      · simp [hother]

/-- A section deleted by name is gone, and no other. -/
theorem findSection_eraseIdx {sections : List UciSection} {name : String} {place : ℕ}
    (hunique : (sections.map (·.name)).Nodup)
    (hplace : sections.findIdx? (fun uciSection ↦ decide (uciSection.name = name)) = some place)
    (other : String) :
    findSection (sections.eraseIdx place) other =
      if other = name then none else findSection sections other := by
  induction sections generalizing place with
  | nil => simp at hplace
  | cons uciSection rest ih =>
    obtain ⟨hfirst, hothers⟩ := List.nodup_cons.mp hunique
    rw [List.findIdx?_cons] at hplace
    by_cases hhead : uciSection.name = name
    · have hzero : 0 = place := by simpa [hhead] using hplace
      subst hzero
      unfold findSection
      rw [List.eraseIdx_cons_zero, List.find?_cons]
      by_cases hother : other = name
      · rw [if_pos hother, List.find?_eq_none]
        intro found hfound hequal
        rw [decide_eq_true_eq] at hequal
        exact hfirst (List.mem_map.mpr ⟨found, hfound, hequal.trans (hother.trans hhead.symm)⟩)
      · have hdiffer : uciSection.name ≠ other := fun hequal ↦ hother (hequal ▸ hhead)
        simp [hother, hdiffer]
    · simp only [hhead, decide_false, Bool.false_eq_true, if_false,
        Option.map_eq_some_iff] at hplace
      obtain ⟨place, hplace, rfl⟩ := hplace
      have hrest := ih hothers hplace
      unfold findSection at hrest ⊢
      rw [List.eraseIdx_cons_succ, List.find?_cons, List.find?_cons, hrest]
      by_cases hother : other = name
      · subst hother
        simp [hhead]
      · simp [hother]

/-! ### What the operations write -/

/-- The section of a name in the wireless configuration. -/
def UciStore.wireless (store : UciStore) (name : String) : Option UciSection :=
  store.working["wireless"]?.bind (findSection · name)

/-- The sections of the wireless configuration have names of their own. -/
def UciStore.Distinct (store : UciStore) : Prop :=
  ∃ sections, store.working["wireless"]? = some sections ∧ (sections.map (·.name)).Nodup

theorem wireless_deleteSection {store : UciStore} (hdistinct : store.Distinct) {name : String}
    (hname : isUciName name = true) (other : String) :
    ((store.deleteSection "wireless" name).getD store).wireless other =
      if other = name then none else store.wireless other := by
  obtain ⟨sections, hsections, hunique⟩ := hdistinct
  unfold UciStore.deleteSection UciStore.wireless
  rw [hsections, Option.bind_some, resolve_name hname]
  cases hplace : sections.findIdx? (fun uciSection ↦ decide (uciSection.name = name)) with
  | none =>
    rw [Option.map_none, Option.getD_none, hsections, Option.bind_some]
    by_cases hother : other = name
    · rw [if_pos hother, hother]
      exact (findIdx?_eq_none_iff_findSection sections name).mp hplace
    · rw [if_neg hother]
  | some place =>
    rw [Option.map_some, Option.getD_some, UciStore.getElem?_replace, Option.bind_some,
      Option.bind_some]
    exact findSection_eraseIdx hunique hplace other

theorem wireless_setSection {store : UciStore} (hpresent : store.working["wireless"]? ≠ none)
    {name : String} (hname : isUciName name = true) (type other : String) :
    ((store.setSection "wireless" name type).getD store).wireless other =
      if other = name then some (writeSection (store.wireless name) name type [])
      else store.wireless other := by
  obtain ⟨sections, hsections⟩ := Option.ne_none_iff_exists'.mp hpresent
  unfold UciStore.setSection UciStore.wireless
  rw [hsections, Option.bind_some, resolve_name hname]
  cases hplace : sections.findIdx? (fun uciSection ↦ decide (uciSection.name = name)) with
  | none =>
    simp only [hname, if_true, Option.getD_some, UciStore.getElem?_replace, Option.bind_some]
    have hnone := (findIdx?_eq_none_iff_findSection sections name).mp hplace
    rw [findSection_append]
    by_cases hother : other = name
    · subst hother
      simp [hnone, writeSection]
    · simp [hother, Ne.symm hother]
  | some place =>
    simp only [Option.getD_some, UciStore.getElem?_replace, Option.bind_some]
    have hmodify : findSection (sections.modify place fun uciSection ↦
        { uciSection with type := type }) other =
          if other = name then (findSection sections name).map fun uciSection ↦
            { uciSection with type := type }
          else findSection sections other := by
      refine findSection_modify hplace ?_ other
      exact fun _ ↦ rfl
    rw [hmodify]
    cases hfound : findSection sections name with
    | none =>
      rw [← findIdx?_eq_none_iff_findSection, hplace] at hfound
      exact absurd hfound (by simp)
    | some found =>
      have hsame := name_of_findSection hfound
      by_cases hother : other = name
      · simp [hother, writeSection, hsame]
      · simp [hother]

theorem wireless_update {store : UciStore} {name : String} (hname : isUciName name = true)
    (change : UciOptions → UciOptions) (other : String) :
    (store.update "wireless" name change).wireless other =
      if other = name then (store.wireless name).map fun uciSection ↦
        { uciSection with options := change uciSection.options }
      else store.wireless other := by
  unfold UciStore.update UciStore.modifyOptions UciStore.modifySection UciStore.wireless
  cases hsections : store.working["wireless"]? with
  | none => simp [hsections]
  | some sections =>
    rw [Option.bind_some, resolve_name hname]
    cases hplace : sections.findIdx? (fun uciSection ↦ decide (uciSection.name = name)) with
    | none =>
      have hnone := (findIdx?_eq_none_iff_findSection sections name).mp hplace
      by_cases hother : other = name
      · simp [hother, hsections, hnone]
      · simp [hother, hsections]
    | some place =>
      simp only [Option.map_some, Option.getD_some, UciStore.getElem?_replace, Option.bind_some]
      refine findSection_modify hplace ?_ other
      exact fun _ ↦ rfl

/-- Names of sections can stand in a path. -/
theorem isPart_of_isUciName {name : String} (hname : isUciName name = true) : IsPart name := by
  simp only [isUciName, Bool.and_eq_true, List.all_eq_true, Bool.or_eq_true,
    decide_eq_true_eq] at hname
  constructor
  · rw [isIdentifier_iff]
    refine ⟨by simpa using hname.1, fun character hmem ↦ ?_⟩
    rcases hname.2 character hmem with halphanum | hunderscore
    · simp only [Char.isAlphanum, Char.isAlpha, Char.isUpper, Char.isLower, Char.isDigit,
        Bool.or_eq_true, Bool.and_eq_true, decide_eq_true_eq] at halphanum
      simp only [isIdentifierChar, Bool.or_eq_true, Bool.and_eq_true, decide_eq_true_eq]
      rcases halphanum with (hupper | hlower) | hdigit
      · exact .inl (.inl (.inr hupper))
      · exact .inl (.inl (.inl hlower))
      · exact .inl (.inr hdigit)
    · rw [hunderscore]
      decide
  · intro hmem
    rcases hname.2 '.' hmem with hdot | hdot
    · exact absurd hdot (by decide)
    · exact absurd hdot (by decide)

/-- A section with a name and single values, as the shell adds it. -/
theorem wireless_add (fresh : List UciSection → String → String) {store : UciStore}
    (hpresent : store.working["wireless"]? ≠ none) {name : String} (hname : isUciName name = true)
    {values : List (String × OpValue)} (hkeys : ∀ entry ∈ values, IsPart entry.1)
    (hnul : ∀ entry ∈ values, ∀ text ∈ OpValue.elements (some entry.2), '\x00' ∉ text.toList)
    (other : String) :
    ((UciOp.add "wireless" "wifi-iface" name values).render.foldl (executeCommand fresh)
        store).wireless other =
      if other = name then some (writeSection (store.wireless name) name "wifi-iface" values)
      else store.wireless other := by
  have hnonempty : name ≠ "" := by
    intro hempty
    rw [hempty] at hname
    exact absurd hname (by decide)
  have hfixed : IsPart "wireless" ∧ IsPart "wifi-iface" :=
    ⟨⟨by simp [isIdentifier_iff, isIdentifierChar], by simp⟩,
      ⟨by simp [isIdentifier_iff, isIdentifierChar], by simp⟩⟩
  have hparts : ∀ part ∈ (UciOp.add "wireless" "wifi-iface" name values).names, IsPart part := by
    intro part hpart
    simp only [UciOp.names, hnonempty, if_false, List.mem_cons, List.mem_append, List.mem_map,
      List.not_mem_nil, or_false] at hpart
    rcases hpart with rfl | rfl | rfl | ⟨entry, hentry, rfl⟩
    · exact hfixed.1
    · exact hfixed.2
    · exact isPart_of_isUciName hname
    · exact hkeys entry hentry
  have hvalid : (UciOp.add "wireless" "wifi-iface" name values).Valid :=
    ⟨fun _ ↦ by simp, fun part hpart ↦ (hparts part hpart).identifier⟩
  have hplain : (UciOp.add "wireless" "wifi-iface" name values).Plain := by
    refine ⟨fun part hpart ↦ (hparts part hpart).undotted, ?_, ?_⟩
    · intro config typeName others hequal
      exact absurd (UciOp.add.inj hequal).2.2.1 hnonempty
    · intro text htext
      obtain ⟨entry, hentry, hmem⟩ := List.mem_flatMap.mp htext
      exact hnul entry hentry text hmem
  rw [foldl_render_add_named fresh store hnonempty hvalid hplain, wireless_update hname,
    wireless_setSection hpresent hname, wireless_setSection hpresent hname]
  by_cases hother : other = name
  · simp [hother, writeSection]
  · simp [hother]

/-! ### The switch step by step -/

theorem executeShell_cons (fresh : List UciSection → String → String) (store : UciStore)
    (op : UciOp) (rest : List UciOp) :
    executeShell fresh store (op :: rest) =
      executeShell fresh (op.render.foldl (executeCommand fresh) store) rest := by
  simp [executeShell, renderShell]

@[simp] theorem executeShell_nil (fresh : List UciSection → String → String) (store : UciStore) :
    executeShell fresh store [] = store := rfl

theorem executeShell_comment (fresh : List UciSection → String → String) (store : UciStore)
    (text : String) (rest : List UciOp) :
    executeShell fresh store (.comment text :: rest) = executeShell fresh store rest := by
  rw [executeShell_cons]
  show executeShell fresh (executeCommand fresh store ("# " ++ text)) rest = _
  rw [executeCommand_comment]

/-- A commit and a reload leave the working copy as it is. -/
theorem working_reload (fresh : List UciSection → String → String) (store : UciStore) :
    (executeShell fresh store [.commit "wireless", .shell "wifi reload"]).working =
      store.working := by
  have hconfig : IsIdentifier "wireless" := by simp [isIdentifier_iff, isIdentifierChar]
  have hshell : ∀ store : UciStore, executeCommand fresh store "wifi reload" = store :=
    fun _ ↦ rfl
  show (executeCommand fresh (executeCommand fresh store ("uci commit " ++ "wireless"))
    "wifi reload").working = _
  rw [hshell, executeCommand_commit fresh store hconfig, UciStore.commit]
  cases store.working["wireless"]? <;> rfl

theorem isPart_staKey {key : String}
    (hkey : key ∈ ["device", "mode", "ssid", "network", "encryption", "key"]) : IsPart key := by
  simp only [List.mem_cons, List.not_mem_nil, or_false] at hkey
  rcases hkey with rfl | rfl | rfl | rfl | rfl | rfl
  all_goals exact ⟨by simp [isIdentifier_iff, isIdentifierChar], by simp⟩

theorem keys_staValues (radio ssid password : String) (encryption : EncryptionType) :
    ∀ entry ∈ staValues radio ssid password encryption, IsPart entry.1 := by
  intro entry hentry
  apply isPart_staKey
  unfold staValues at hentry
  split at hentry
  · simp only [List.mem_append, List.mem_cons, List.not_mem_nil, or_false] at hentry
    rcases hentry with (rfl | rfl | rfl | rfl) | rfl <;> simp
  · simp only [List.mem_append, List.mem_cons, List.not_mem_nil, or_false] at hentry
    rcases hentry with (rfl | rfl | rfl | rfl) | rfl | rfl <;> simp

theorem nulFree_staValues {radio ssid password : String} (encryption : EncryptionType)
    (hradio : '\x00' ∉ radio.toList) (hssid : '\x00' ∉ ssid.toList)
    (hpassword : '\x00' ∉ password.toList) :
    ∀ entry ∈ staValues radio ssid password encryption,
      ∀ text ∈ OpValue.elements (some entry.2), '\x00' ∉ text.toList := by
  have hencryption : '\x00' ∉ encryption.toUciValue.toList := by
    cases encryption <;> simp [EncryptionType.toUciValue]
  intro entry hentry text htext
  unfold staValues at hentry
  split at hentry
  · simp only [List.mem_append, List.mem_cons, List.not_mem_nil, or_false] at hentry
    rcases hentry with (rfl | rfl | rfl | rfl) | rfl
    all_goals
      simp only [OpValue.elements, List.mem_cons, List.not_mem_nil, or_false] at htext
      subst htext
      first | assumption | simp
  · simp only [List.mem_append, List.mem_cons, List.not_mem_nil, or_false] at hentry
    rcases hentry with (rfl | rfl | rfl | rfl) | rfl | rfl
    all_goals
      simp only [OpValue.elements, List.mem_cons, List.not_mem_nil, or_false] at htext
      subst htext
      first | assumption | simp

/-- The commands of a switch succeed: the stations have names a section can have, the texts can be
passed to a program, and the sections of the configuration have names of their own. -/
structure Switchable (store : UciStore) (fromRadio fromSsid toRadio toSsid toPassword : String) :
    Prop where
  distinct : store.Distinct
  fromName : isUciName (staName fromRadio) = true
  toName : isUciName (staName toRadio) = true
  fromText : '\x00' ∉ fromSsid.toList
  toText : '\x00' ∉ toSsid.toList
  password : '\x00' ∉ toPassword.toList

theorem nul_notMem_radio {radio : String} (hname : isUciName (staName radio) = true) :
    '\x00' ∉ radio.toList := by
  intro hmem
  have hpath := (isPart_of_isUciName hname).identifier.isPathText
  refine nul_notMem_pathText hpath ?_
  rw [staName, String.toList_append]
  exact List.mem_append_right _ hmem

/-- The station a switch writes where there was none. -/
def staSection (radio ssid password : String) (encryption : EncryptionType) : UciSection :=
  writeSection none (staName radio) "wifi-iface" (staValues radio ssid password encryption)

section Switch

variable (fresh : List UciSection → String → String) {store : UciStore}
  {fromRadio fromSsid toRadio toSsid toPassword : String} (toEncryption : EncryptionType)

/-- After the operations of a switch the old station is gone and the new one is written. -/
theorem wireless_switch
    (hswitch : Switchable store fromRadio fromSsid toRadio toSsid toPassword) (other : String) :
    (executeShell fresh store (buildSwitchOps fromRadio fromSsid toRadio toSsid toPassword
        toEncryption)).wireless other =
      if other = staName toRadio then
        some (writeSection (if staName toRadio = staName fromRadio then none
          else store.wireless (staName toRadio)) (staName toRadio) "wifi-iface"
            (staValues toRadio toSsid toPassword toEncryption))
      else if other = staName fromRadio then none else store.wireless other := by
  have hwireless : IsPart "wireless" := ⟨by simp [isIdentifier_iff, isIdentifierChar], by simp⟩
  have hdeleted := fun name ↦ wireless_deleteSection hswitch.distinct hswitch.fromName name
  have hdelete := foldl_render_delete fresh store hwireless (isPart_of_isUciName hswitch.fromName)
  have hpresent : ((store.deleteSection "wireless" (staName fromRadio)).getD
      store).working["wireless"]? ≠ none := by
    obtain ⟨sections, hsections, -⟩ := hswitch.distinct
    unfold UciStore.deleteSection
    rw [hsections, Option.bind_some]
    cases resolve sections (staName fromRadio) with
    | none => simp [hsections]
    | some place => simp
  have hnul := nulFree_staValues toEncryption (nul_notMem_radio hswitch.toName) hswitch.toText
    hswitch.password
  unfold buildSwitchOps buildStaUciOps
  rw [List.cons_append, List.cons_append, List.nil_append, executeShell_comment, executeShell_cons,
    hdelete, executeShell_comment, executeShell_cons, executeShell_nil]
  rw [wireless_add fresh hpresent hswitch.toName (keys_staValues _ _ _ _) hnul, hdeleted, hdeleted]

/-- A fallback writes the old station again, with the values it knows. -/
theorem wireless_fallback (hpresent : store.working["wireless"]? ≠ none)
    (hname : isUciName (staName fromRadio) = true) (hssid : '\x00' ∉ fromSsid.toList)
    (other : String) :
    (executeShell fresh store (fallbackOps fromRadio fromSsid)).wireless other =
      if other = staName fromRadio then
        some (writeSection (store.wireless (staName fromRadio)) (staName fromRadio) "wifi-iface"
          [("device", .single fromRadio), ("mode", .single "sta"), ("ssid", .single fromSsid),
            ("network", .single "wwan")])
      else store.wireless other := by
  have hkeys : ∀ entry ∈ [("device", OpValue.single fromRadio), ("mode", .single "sta"),
      ("ssid", .single fromSsid), ("network", .single "wwan")], IsPart entry.1 := by
    intro entry hentry
    exact keys_staValues fromRadio fromSsid "" .none entry (List.mem_append_left _ hentry)
  have hnul : ∀ entry ∈ [("device", OpValue.single fromRadio), ("mode", .single "sta"),
      ("ssid", .single fromSsid), ("network", .single "wwan")],
        ∀ text ∈ OpValue.elements (some entry.2), '\x00' ∉ text.toList := by
    intro entry hentry
    exact nulFree_staValues .none (nul_notMem_radio hname) hssid (by simp : '\x00' ∉ "".toList)
      entry (List.mem_append_left _ hentry)
  unfold fallbackOps
  rw [executeShell_comment, executeShell_cons, UciStore.wireless, working_reload]
  exact wireless_add fresh hpresent hname hkeys hnul other

theorem staName_inj {first second : String} : staName first = staName second ↔ first = second := by
  unfold staName
  constructor
  · intro hequal
    have hlist := congrArg String.toList hequal
    rw [String.toList_append, String.toList_append] at hlist
    exact String.toList_injective (List.append_cancel_left hlist)
  · intro hequal
    rw [hequal]

/-- On the same radio the fallback changes back the network name and nothing else. -/
theorem writeSection_fallback (radio ssid otherSsid password : String)
    (encryption : EncryptionType) :
    writeSection (some (staSection radio otherSsid password encryption)) (staName radio)
        "wifi-iface" [("device", .single radio), ("mode", .single "sta"), ("ssid", .single ssid),
          ("network", .single "wwan")] =
      staSection radio ssid password encryption := by
  unfold staSection writeSection
  congr 1
  apply ExtTreeMap.ext_getElem?
  intro key
  have hextend := getElem?_foldl extendValue getElem?_extend
  simp only [Option.map_some, Option.getD_some, Option.map_none, Option.getD_none, hextend]
  by_cases hssid : key = "ssid"
  · subst hssid
    unfold valuesOf staValues
    split <;> rfl
  · have hsame : valuesOf (staValues radio otherSsid password encryption) key =
        valuesOf (staValues radio ssid password encryption) key := by
      simp [valuesOf, staValues, List.filter_cons, Ne.symm hssid]
    rw [hsame]
    by_cases hkey : key ∈ ["device", "mode", "network"]
    · simp only [List.mem_cons, List.not_mem_nil, or_false] at hkey
      unfold valuesOf staValues
      rcases hkey with rfl | rfl | rfl <;> split <;> rfl
    · simp only [List.mem_cons, List.not_mem_nil, or_false, not_or] at hkey
      simp [valuesOf, Ne.symm hssid, Ne.symm hkey.1, Ne.symm hkey.2.1, Ne.symm hkey.2.2]

end Switch

/-! ### Failed switches -/

/-- Every check of the new link succeeds. -/
def LinkChecks.Pass (checks : LinkChecks) : Prop :=
  ∃ iface, checks.find = .ok iface ∧ checks.wait iface = .ok () ∧ checks.verify iface = .ok ()

/-- The old station is as it was, and there is no new one beside it. -/
structure Restored (before after : UciStore) (fromRadio toRadio : String) : Prop where
  old : after.wireless (staName fromRadio) = before.wireless (staName fromRadio)
  new : toRadio ≠ fromRadio → after.wireless (staName toRadio) = none

section Failed

variable (fresh : List UciSection → String → String) {store : UciStore}
  {fromRadio fromSsid toRadio toSsid toPassword : String} (toEncryption : EncryptionType)

/-- The configuration when the checks of the new link begin. -/
def switched (store : UciStore) (fromRadio fromSsid toRadio toSsid toPassword : String) :
    UciStore :=
  executeShell fresh (executeShell fresh store
    (buildSwitchOps fromRadio fromSsid toRadio toSsid toPassword toEncryption))
    [.commit "wireless", .shell "wifi reload"]

theorem wireless_switched
    (hswitch : Switchable store fromRadio fromSsid toRadio toSsid toPassword) (other : String) :
    (switched fresh toEncryption store fromRadio fromSsid toRadio toSsid toPassword).wireless
        other =
      if other = staName toRadio then
        some (writeSection (if staName toRadio = staName fromRadio then none
          else store.wireless (staName toRadio)) (staName toRadio) "wifi-iface"
            (staValues toRadio toSsid toPassword toEncryption))
      else if other = staName fromRadio then none else store.wireless other := by
  rw [← wireless_switch fresh toEncryption hswitch, switched, UciStore.wireless, working_reload,
    UciStore.wireless]

/-- Without a fallback, the station must have been the new one. -/
theorem restored_switched_iff
    (hswitch : Switchable store fromRadio fromSsid toRadio toSsid toPassword)
    {station : UciSection} (hstation : store.wireless (staName fromRadio) = some station) :
    Restored store (switched fresh toEncryption store fromRadio fromSsid toRadio toSsid toPassword)
        fromRadio toRadio ↔
      toRadio = fromRadio ∧ station = staSection fromRadio toSsid toPassword toEncryption := by
  have hlookup := fun name ↦ wireless_switched fresh toEncryption hswitch name
  by_cases hradio : toRadio = fromRadio
  · subst hradio
    have hold := hlookup (staName toRadio)
    rw [if_pos rfl, if_pos rfl] at hold
    constructor
    · intro hrestored
      have hsame := hrestored.old
      rw [hold, hstation] at hsame
      exact ⟨rfl, (Option.some.inj hsame).symm⟩
    · rintro ⟨-, hwritten⟩
      refine ⟨?_, fun hdiffer ↦ absurd rfl hdiffer⟩
      rw [hold, hstation, hwritten]
      rfl
  · refine iff_of_false (fun hrestored ↦ ?_) (fun hsame ↦ hradio hsame.1)
    have hnew := hrestored.new hradio
    rw [hlookup, if_pos rfl] at hnew
    exact absurd hnew (by simp)

/-- With a fallback, the new one under the old network name. -/
theorem restored_fallback_iff
    (hswitch : Switchable store fromRadio fromSsid toRadio toSsid toPassword)
    {station : UciSection} (hstation : store.wireless (staName fromRadio) = some station) :
    Restored store (executeShell fresh (switched fresh toEncryption store fromRadio fromSsid toRadio
        toSsid toPassword) (fallbackOps fromRadio fromSsid)) fromRadio toRadio ↔
      toRadio = fromRadio ∧ station = staSection fromRadio fromSsid toPassword toEncryption := by
  have hlookup := fun name ↦ wireless_switched fresh toEncryption hswitch name
  have hpresent : (switched fresh toEncryption store fromRadio fromSsid toRadio toSsid
      toPassword).working["wireless"]? ≠ none := by
    intro hnone
    have hnew := hlookup (staName toRadio)
    rw [if_pos rfl, UciStore.wireless, hnone] at hnew
    exact absurd hnew (by simp)
  have hfallback := fun name ↦
    wireless_fallback fresh hpresent hswitch.fromName hswitch.fromText name
  by_cases hradio : toRadio = fromRadio
  · subst hradio
    have hold := hfallback (staName toRadio)
    have hnew := hlookup (staName toRadio)
    rw [if_pos rfl, if_pos rfl] at hnew
    have hwrite := writeSection_fallback toRadio fromSsid toSsid toPassword toEncryption
    rw [staSection] at hwrite
    rw [if_pos rfl, hnew, hwrite] at hold
    constructor
    · intro hrestored
      have hsame := hrestored.old
      rw [hold, hstation] at hsame
      exact ⟨rfl, (Option.some.inj hsame).symm⟩
    · rintro ⟨-, hwritten⟩
      refine ⟨?_, fun hdiffer ↦ absurd rfl hdiffer⟩
      rw [hold, hstation, hwritten]
  · refine iff_of_false (fun hrestored ↦ ?_) (fun hsame ↦ hradio hsame.1)
    have hdiffer : staName toRadio ≠ staName fromRadio := fun hequal ↦
      hradio (staName_inj.mp hequal)
    have hnew := hrestored.new hradio
    rw [hfallback, if_neg hdiffer, hlookup, if_pos rfl] at hnew
    exact absurd hnew (by simp)

/-- A switch that gets no address falls back. -/
theorem switchUpstream_of_wait {checks : LinkChecks} {iface : String} {error : WifiConnectError}
    (hfind : checks.find = .ok iface) (hwait : checks.wait iface = .error error) :
    switchUpstream fresh checks store fromRadio fromSsid toRadio toSsid toPassword toEncryption =
      (executeShell fresh (switched fresh toEncryption store fromRadio fromSsid toRadio toSsid
        toPassword) (fallbackOps fromRadio fromSsid), .error error) := by
  simp only [switchUpstream, hfind, hwait]
  rfl

end Failed

/-- A failed switch restores the configuration exactly if it did not fail, or the radio is the same
and the station was already the one that is written in the end. Without a fallback that is the new
station, with one the new station under the old network name.
Assumes: the commands succeed, and there is a station of the old radio. -/
theorem switch_restores_iff (fresh : List UciSection → String → String) (checks : LinkChecks)
    {store : UciStore} {fromRadio fromSsid toRadio toSsid toPassword : String}
    (toEncryption : EncryptionType)
    (hswitch : Switchable store fromRadio fromSsid toRadio toSsid toPassword)
    {station : UciSection} (hstation : store.wireless (staName fromRadio) = some station) :
    (∀ error, (switchUpstream fresh checks store fromRadio fromSsid toRadio toSsid toPassword
        toEncryption).2 = .error error →
      Restored store (switchUpstream fresh checks store fromRadio fromSsid toRadio toSsid toPassword
        toEncryption).1 fromRadio toRadio) ↔
      checks.Pass ∨ (toRadio = fromRadio ∧ station = staSection fromRadio
        (match checks.find with
          | .error _ => toSsid
          | .ok _ => fromSsid) toPassword toEncryption) := by
  cases hfind : checks.find with
  | error error =>
    have hresult : switchUpstream fresh checks store fromRadio fromSsid toRadio toSsid toPassword
        toEncryption =
          (switched fresh toEncryption store fromRadio fromSsid toRadio toSsid toPassword,
            .error error) := by
      simp only [switchUpstream, hfind]
      rfl
    have hpass : ¬ checks.Pass := by
      rintro ⟨iface, hok, -⟩
      rw [hfind] at hok
      exact absurd hok (by simp)
    simp only [hresult, or_iff_right hpass, Except.error.injEq, forall_eq']
    exact restored_switched_iff fresh toEncryption hswitch hstation
  | ok iface =>
    by_cases hpass : checks.Pass
    · refine iff_of_true (fun error herror ↦ ?_) (.inl hpass)
      obtain ⟨found, hok, hwait, hverify⟩ := hpass
      have hiface : iface = found := Except.ok.inj (hfind.symm.trans hok)
      rw [← hiface] at hwait hverify
      simp [switchUpstream, hfind, hwait, hverify] at herror
    · have hresult : ∃ error, switchUpstream fresh checks store fromRadio fromSsid toRadio toSsid
          toPassword toEncryption =
            (executeShell fresh (switched fresh toEncryption store fromRadio fromSsid toRadio toSsid
              toPassword) (fallbackOps fromRadio fromSsid), .error error) := by
        cases hwait : checks.wait iface with
        | error error => exact ⟨error, switchUpstream_of_wait fresh toEncryption hfind hwait⟩
        | ok _ =>
          cases hverify : checks.verify iface with
          | error error =>
            refine ⟨error, ?_⟩
            simp only [switchUpstream, hfind, hwait, hverify]
            rfl
          | ok _ => exact absurd ⟨iface, hfind, hwait, hverify⟩ hpass
      obtain ⟨error, hresult⟩ := hresult
      simp only [hresult, or_iff_right hpass, Except.error.injEq, forall_eq']
      exact restored_fallback_iff fresh toEncryption hswitch hstation

/-- A station of the first radio, and nothing else. -/
def homeStation (password : String) (encryption : EncryptionType) : UciStore :=
  ⟨(∅ : ExtTreeMap String (List UciSection)).insert "wireless"
    [staSection "radio0" "home" password encryption], ∅⟩

/-- No address is given out on the new network. -/
def noAddress : LinkChecks :=
  ⟨.ok "wlan0", fun iface ↦ .error (.dhcpTimeout iface 30000), fun _ ↦ .ok ()⟩

theorem wireless_homeStation (password : String) (encryption : EncryptionType) :
    (homeStation password encryption).wireless (staName "radio0") =
      some (staSection "radio0" "home" password encryption) := by
  have hsections : (homeStation password encryption).working["wireless"]? =
      some [staSection "radio0" "home" password encryption] := ExtTreeMap.getElem?_insert_self
  rw [UciStore.wireless, hsections]
  simp [findSection, staSection, writeSection]

theorem switchable_home (password : String) (encryption : EncryptionType) :
    Switchable (homeStation password encryption) "radio0" "home" "radio0" "cafe" "" where
  distinct := ⟨_, ExtTreeMap.getElem?_insert_self, List.nodup_singleton _⟩
  fromName := by simp [isUciName, staName]
  toName := by simp [isUciName, staName]
  fromText := by simp
  toText := by simp
  password := by simp

/-- An open station comes back after a switch to another open network. -/
theorem switch_restores_open_station :
    Restored (homeStation "" .none)
      (switchUpstream freshName noAddress (homeStation "" .none) "radio0" "home" "radio0" "cafe" ""
        .none).1 "radio0" "radio0" := by
  have hiff := switch_restores_iff freshName noAddress .none (switchable_home "" .none)
    (wireless_homeStation "" .none)
  exact hiff.mpr (.inr ⟨rfl, rfl⟩) (.dhcpTimeout "wlan0" 30000) rfl

/-- An encrypted one does not: its key is lost. -/
theorem switch_loses_key :
    (switchUpstream freshName noAddress (homeStation "secret" .psk2) "radio0" "home" "radio0" "cafe"
        "" .none).2 = .error (.dhcpTimeout "wlan0" 30000) ∧
      ¬ Restored (homeStation "secret" .psk2)
        (switchUpstream freshName noAddress (homeStation "secret" .psk2) "radio0" "home" "radio0"
          "cafe" "" .none).1 "radio0" "radio0" := by
  have hiff := restored_fallback_iff freshName .none (switchable_home "secret" .psk2)
    (wireless_homeStation "secret" .psk2)
  rw [switchUpstream_of_wait freshName .none (rfl : noAddress.find = .ok "wlan0") rfl]
  refine ⟨rfl, ?_⟩
  rw [hiff]
  intro hsame
  have hkey := congrArg (fun station : UciSection ↦ station.options["key"]?) hsame.2
  exact absurd hkey (by decide +kernel)

end Tollgate
