import Tollgate.Library.Transducer

/-!
# Lightning quotes

`v1_compat/ln_quotes.rs`: a store of quotes, tasks that each monitor one of them, and a janitor. A
monitor reads the record of its quote and asks for its status. If the invoice is paid it marks the
record as processing, mints the tokens, grants access, and marks the record as granted; each mark is
a write of the whole record as it was read. The store has one lock, which is held for a single read
or write.

Any number of monitors, other writers and the janitor take their steps in any order. What is to hold
of all of them is `GrantsOnce`. It fails if two monitors read a quote before either has marked it,
and if a quote is removed in between a monitor's read and its last write, which brings it back.
`quote_grants_once` proves it for the runs in which neither happens and in which no other writer
undoes a mark.
-/

set_option autoImplicit false
set_option relaxedAutoImplicit false

namespace Tollgate

open Std

/-! ### The store -/

/-- `QuoteState`. -/
inductive QuoteState
  | unpaid
  | paid
  | issued
  deriving DecidableEq, Repr

/-- `LightningQuoteRecord`. -/
structure LightningQuoteRecord where
  quoteId : String
  macAddress : String
  mintUrl : String
  amount : UInt64
  expiry : Int64
  allotment : UInt64
  createdAt : Int64
  completedAt : Option Int64
  sessionGranted : Bool
  processing : Bool
  invoice : String
  cachedState : Option QuoteState
  cachedStateAt : Option Int64
  deriving DecidableEq

/-- `InMemoryLightningQuoteStore`. -/
abbrev QuoteStore := ExtTreeMap String LightningQuoteRecord

namespace LightningQuoteRecord

/-- Why `list_stale` lists a record: it is old and nobody has worked on it, it was settled a while
ago, or its invoice has expired. -/
def isStale (maxAgeSecs now : Int64) (record : LightningQuoteRecord) : Bool :=
  (!record.processing && !record.sessionGranted && maxAgeSecs < now - record.createdAt) ||
  (record.sessionGranted && record.completedAt.any fun completed ↦ 600 < now - completed) ||
  (0 < record.expiry && record.expiry + 300 < now)

/-- A record that a monitor leaves alone. -/
def isBlocked (record : LightningQuoteRecord) : Bool :=
  record.processing || record.sessionGranted

end LightningQuoteRecord

/-- `list_stale`. -/
def QuoteStore.listStale (store : QuoteStore) (maxAgeSecs now : Int64) :
    List LightningQuoteRecord :=
  store.values.filter (LightningQuoteRecord.isStale maxAgeSecs now)

/-! ### Monitors, step by step -/

/-- Where the loop of `spawn_quote_monitor` is: asleep; about to ask for the status of the record it
has read; about to write the status down; in `mint_tokens` or in `grant_access`, with the record
marked as processing; about to take the mark back after a failure; about to write down that access
is granted; or at its end. -/
inductive MonitorStage
  | sleeping
  | fetched (record : LightningQuoteRecord)
  | reporting (record : LightningQuoteRecord) (quoteState : QuoteState) (now : Int64)
  | minting (record : LightningQuoteRecord)
  | granting (record : LightningQuoteRecord)
  | releasing (record : LightningQuoteRecord)
  | settling (record : LightningQuoteRecord) (allotment : UInt64)
  | exited
  deriving DecidableEq

/-- A task of `spawn_quote_monitor`. -/
structure QuoteMonitor where
  quoteId : String
  stage : MonitorStage
  deriving DecidableEq

namespace QuoteMonitor

/-- Between its read of the record and the write that follows. -/
def isReading (monitor : QuoteMonitor) : Bool :=
  match monitor.stage with
  | .fetched _ | .reporting _ _ _ => true
  | .sleeping | .minting _ | .granting _ | .releasing _ | .settling _ _ | .exited => false

/-- It has marked the record as processing and not yet written it again. -/
def isHolding (monitor : QuoteMonitor) : Bool :=
  match monitor.stage with
  | .minting _ | .granting _ | .releasing _ | .settling _ _ => true
  | .sleeping | .fetched _ | .reporting _ _ _ | .exited => false

/-- Between its read of the record and its last write. -/
def isOpen (monitor : QuoteMonitor) : Bool :=
  monitor.isReading || monitor.isHolding

/-- In `mint_tokens`. -/
def isMinting (monitor : QuoteMonitor) : Bool :=
  match monitor.stage with
  | .minting _ => true
  | .sleeping | .fetched _ | .reporting _ _ _ | .granting _ | .releasing _ | .settling _ _
  | .exited => false

/-- It has been granted access and has not yet written so. -/
def isSettling (monitor : QuoteMonitor) : Bool :=
  match monitor.stage with
  | .settling _ _ => true
  | .sleeping | .fetched _ | .reporting _ _ _ | .minting _ | .granting _ | .releasing _
  | .exited => false

/-- Its next step is a write. -/
def isWriting (monitor : QuoteMonitor) : Bool :=
  match monitor.stage with
  | .reporting _ _ _ | .releasing _ | .settling _ _ => true
  | .sleeping | .fetched _ | .minting _ | .granting _ | .exited => false

end QuoteMonitor

/-- The store, the monitors, and what the janitor has listed and not yet removed. `removed` is the
record of the quotes that have been removed so far. -/
structure Quotes where
  store : QuoteStore
  monitors : ExtTreeMap ℕ QuoteMonitor
  condemned : List String
  removed : List String

/-- One store operation or processor call of a monitor, of another task, or of the janitor. -/
inductive QuoteStep
  | spawn (monitor : ℕ) (quoteId : String)
  | poll (monitor : ℕ) (expired : Bool)
  | checkStatus (monitor : ℕ) (reply : Except String QuoteState) (now : Int64)
  | write (monitor : ℕ)
  | mintTokens (monitor : ℕ) (reply : Except String Unit)
  | grantAccess (monitor : ℕ) (reply : Except String UInt64)
  | update (quoteId : String) (record : LightningQuoteRecord)
  | remove (quoteId : String)
  | list (now : Int64)
  | purge

namespace Quotes

/-- Before anything has happened. -/
def start : Quotes :=
  ⟨∅, ∅, [], []⟩

def setStage (quotes : Quotes) (monitor : ℕ) (quoteId : String) (stage : MonitorStage) : Quotes :=
  { quotes with monitors := quotes.monitors.insert monitor ⟨quoteId, stage⟩ }

/-- `InMemoryLightningQuoteStore::update`, which is also its `insert`. -/
def put (quotes : Quotes) (quoteId : String) (record : LightningQuoteRecord) : Quotes :=
  { quotes with store := quotes.store.insert quoteId record }

/-- `InMemoryLightningQuoteStore::remove`. -/
def delete (quotes : Quotes) (quoteId : String) : Quotes :=
  { quotes with
    store := quotes.store.erase quoteId
    removed := if quotes.store.contains quoteId then quoteId :: quotes.removed else quotes.removed }

/-- A poll of a monitor that is asleep: the record is read, and the loop goes on with it unless
there is none or its marks say otherwise. -/
def poll (quotes : Quotes) (monitor : ℕ) (quoteId : String) (expired : Bool) : Quotes :=
  if expired then quotes.setStage monitor quoteId .exited
  else
    match quotes.store[quoteId]? with
    | none => quotes.setStage monitor quoteId .exited
    | some record =>
      if record.sessionGranted then quotes.setStage monitor quoteId .exited
      else if record.processing then quotes
      else quotes.setStage monitor quoteId (.fetched record)

/-- The write of the status. A paid or issued quote is marked as processing. -/
def report (quotes : Quotes) (monitor : ℕ) (quoteId : String) (record : LightningQuoteRecord)
    (quoteState : QuoteState) (now : Int64) : Quotes :=
  let record := { record with cachedState := some quoteState, cachedStateAt := some now }
  match quoteState with
  | .unpaid => (quotes.put quoteId record).setStage monitor quoteId .sleeping
  | .paid =>
    (quotes.put quoteId { record with processing := true }).setStage monitor quoteId
      (.minting { record with processing := true })
  | .issued =>
    (quotes.put quoteId { record with processing := true }).setStage monitor quoteId
      (.granting { record with processing := true })

/-- One step; its outputs are the quotes that `grant_access` succeeds for. A step that its monitor
is not ready for does nothing. -/
def step (quotes : Quotes) : QuoteStep → Quotes × List String
  | .spawn monitor quoteId =>
    match quotes.monitors[monitor]? with
    | some _ => (quotes, [])
    | none => (quotes.setStage monitor quoteId .sleeping, [])
  | .poll monitor expired =>
    match quotes.monitors[monitor]? with
    | some ⟨quoteId, .sleeping⟩ => (quotes.poll monitor quoteId expired, [])
    | _ => (quotes, [])
  | .checkStatus monitor reply now =>
    match quotes.monitors[monitor]? with
    | some ⟨quoteId, .fetched record⟩ =>
      match reply with
      | .error _ => (quotes.setStage monitor quoteId .sleeping, [])
      | .ok quoteState =>
        (quotes.setStage monitor quoteId (.reporting record quoteState now), [])
    | _ => (quotes, [])
  | .write monitor =>
    match quotes.monitors[monitor]? with
    | some ⟨quoteId, .reporting record quoteState now⟩ =>
      (quotes.report monitor quoteId record quoteState now, [])
    | some ⟨quoteId, .releasing record⟩ =>
      ((quotes.put quoteId { record with processing := false }).setStage monitor quoteId .sleeping,
        [])
    | some ⟨quoteId, .settling record allotment⟩ =>
      ((quotes.put quoteId
        { record with
          sessionGranted := true
          completedAt := record.cachedStateAt
          allotment := allotment
          cachedState := some .issued }).setStage monitor quoteId .exited, [])
    | _ => (quotes, [])
  | .mintTokens monitor reply =>
    match quotes.monitors[monitor]? with
    | some ⟨quoteId, .minting record⟩ =>
      match reply with
      | .error _ => (quotes.setStage monitor quoteId (.releasing record), [])
      | .ok () => (quotes.setStage monitor quoteId (.granting record), [])
    | _ => (quotes, [])
  | .grantAccess monitor reply =>
    match quotes.monitors[monitor]? with
    | some ⟨quoteId, .granting record⟩ =>
      match reply with
      | .error _ => (quotes.setStage monitor quoteId (.releasing record), [])
      | .ok allotment =>
        (quotes.setStage monitor quoteId (.settling record allotment), [quoteId])
    | _ => (quotes, [])
  | .update quoteId record => (quotes.put quoteId record, [])
  | .remove quoteId => (quotes.delete quoteId, [])
  | .list now =>
    match quotes.condemned with
    | [] =>
      ({ quotes with
        condemned := (quotes.store.listStale 1800 now).map LightningQuoteRecord.quoteId }, [])
    | _ :: _ => (quotes, [])
  | .purge =>
    match quotes.condemned with
    | [] => (quotes, [])
    | quoteId :: rest => ({ quotes.delete quoteId with condemned := rest }, [])

def machine : Transducer Quotes QuoteStep String where
  step := step

/-! ### What is to hold -/

/-- Nobody else holds a quote that a monitor mints tokens for. -/
def MintsAlone (quotes : Quotes) : Prop :=
  ∀ (first second : ℕ) (one another : QuoteMonitor), quotes.monitors[first]? = some one →
    quotes.monitors[second]? = some another → one.isMinting = true → another.isHolding = true →
      one.quoteId = another.quoteId → first = second

/-- A monitor writes the record of a quote that is not in the store. -/
def PutsBack (quotes : Quotes) : QuoteStep → Prop
  | .write monitor => ∃ entry, quotes.monitors[monitor]? = some entry ∧ entry.isWriting = true ∧
    entry.quoteId ∉ quotes.store
  | .spawn _ _ | .poll _ _ | .checkStatus _ _ _ | .mintTokens _ _ | .grantAccess _ _ | .update _ _
  | .remove _ | .list _ | .purge => False

/-- Access is granted at most once for a quote, tokens are never minted while another monitor holds
the quote, and no monitor brings a quote back. -/
structure GrantsOnce (steps : List QuoteStep) : Prop where
  once : ∀ quoteId, (machine.outputs start steps).count quoteId ≤ 1
  mintsAlone : machine.Throughout MintsAlone start steps
  staysRemoved : machine.Along (fun quotes step ↦ ¬ quotes.PutsBack step) start steps

/-- Somebody between his read of a quote and his last write. -/
def IsOpen (quotes : Quotes) (quoteId : String) : Prop :=
  ∃ (other : ℕ) (entry : QuoteMonitor), quotes.monitors[other]? = some entry ∧
    entry.quoteId = quoteId ∧ entry.isOpen = true

/-- Somebody who has marked a quote as processing and not yet written it again. -/
def IsHeld (quotes : Quotes) (quoteId : String) : Prop :=
  ∃ (other : ℕ) (entry : QuoteMonitor), quotes.monitors[other]? = some entry ∧
    entry.quoteId = quoteId ∧ entry.isHolding = true

/-- A write that brings a removed quote back, takes back that access was granted, or frees a quote
that a monitor holds. -/
def Undoes (quotes : Quotes) (quoteId : String) (record : LightningQuoteRecord) :
    Option LightningQuoteRecord → Prop
  | none => quoteId ∈ quotes.removed
  | some old =>
    old.sessionGranted = true ∧ record.sessionGranted = false ∨
      record.isBlocked = false ∧ quotes.IsHeld quoteId

/-- The steps that get in each other's way: a read of a quote while another monitor is between its
read and the write that follows; a removal while one is between its read and its last write; and a
write of somebody else that undoes what was done. -/
def Interferes (quotes : Quotes) : QuoteStep → Prop
  | .poll monitor expired =>
    expired = false ∧ ∃ (quoteId : String) (other : ℕ) (entry : QuoteMonitor),
      quotes.monitors[monitor]? = some ⟨quoteId, .sleeping⟩ ∧
      quotes.monitors[other]? = some entry ∧ entry.quoteId = quoteId ∧ entry.isReading = true
  | .remove quoteId => quotes.IsOpen quoteId
  | .purge => ∃ quoteId ∈ quotes.condemned.head?, quotes.IsOpen quoteId
  | .update quoteId record => quotes.Undoes quoteId record quotes.store[quoteId]?
  | .spawn _ _ | .checkStatus _ _ _ | .write _ | .mintTokens _ _ | .grantAccess _ _ | .list _ =>
    False

/-! ### Why it holds -/

/-- What keeps monitors apart, with the quotes that access was granted for so far. A quote has at
most one monitor between its read and its last write. As long as there is one the quote is in the
store, blocked if the monitor holds it, and access was not granted before it was this one's turn.
Once access was granted the store says so or will be told next, or the quote is gone. -/
structure Orderly (granted : List String) (quotes : Quotes) : Prop where
  alone : ∀ (first second : ℕ) (one another : QuoteMonitor),
    quotes.monitors[first]? = some one → quotes.monitors[second]? = some another →
      one.isOpen = true → another.isOpen = true → one.quoteId = another.quoteId → first = second
  present : ∀ (monitor : ℕ) (entry : QuoteMonitor), quotes.monitors[monitor]? = some entry →
    entry.isOpen = true → ∃ record, quotes.store[entry.quoteId]? = some record ∧
      (entry.isHolding = true → record.isBlocked = true)
  fresh : ∀ (monitor : ℕ) (entry : QuoteMonitor), quotes.monitors[monitor]? = some entry →
    entry.isOpen = true → entry.isSettling = true ∨ entry.quoteId ∉ granted
  settled : ∀ quoteId ∈ granted,
    (∃ (monitor : ℕ) (entry : QuoteMonitor), quotes.monitors[monitor]? = some entry ∧
      entry.quoteId = quoteId ∧ entry.isSettling = true) ∨
    (∃ record, quotes.store[quoteId]? = some record ∧ record.sessionGranted = true) ∨
    quotes.store[quoteId]? = none ∧ quoteId ∈ quotes.removed
  once : granted.Nodup

theorem getElem?_setStage (quotes : Quotes) (monitor : ℕ) (quoteId : String)
    (stage : MonitorStage) (other : ℕ) :
    (quotes.setStage monitor quoteId stage).monitors[other]? =
      if other = monitor then some ⟨quoteId, stage⟩ else quotes.monitors[other]? := by
  simp only [setStage, ExtTreeMap.getElem?_insert, Std.compare_eq_iff_eq, @eq_comm _ monitor]

theorem getElem?_put (quotes : Quotes) (quoteId : String) (record : LightningQuoteRecord)
    (other : String) :
    (quotes.put quoteId record).store[other]? =
      if other = quoteId then some record else quotes.store[other]? := by
  simp only [put, ExtTreeMap.getElem?_insert, Std.compare_eq_iff_eq, @eq_comm _ quoteId]

theorem getElem?_delete (quotes : Quotes) (quoteId other : String) :
    (quotes.delete quoteId).store[other]? =
      if other = quoteId then none else quotes.store[other]? := by
  simp only [delete, ExtTreeMap.getElem?_erase, Std.compare_eq_iff_eq, @eq_comm _ quoteId]

theorem isOpen_of_isHolding {entry : QuoteMonitor} (hholding : entry.isHolding = true) :
    entry.isOpen = true := by
  rw [QuoteMonitor.isOpen, hholding, Bool.or_true]

theorem isHolding_of_isSettling {entry : QuoteMonitor} (hsettling : entry.isSettling = true) :
    entry.isHolding = true := by
  cases hstage : entry.stage with
  | settling record allotment => rw [QuoteMonitor.isHolding, hstage]
  | _ => simp [QuoteMonitor.isSettling, hstage] at hsettling

section Orderly

variable {granted : List String} {quotes : Quotes} {monitor : ℕ} {quoteId : String}
  {old : MonitorStage}

/-- Assumes: order, and a monitor, perhaps a new one, that goes on to another stage and perhaps
writes the record of its quote. Order is kept if it opens the quote only where nobody has it open,
writes only what it had opened, finds there what it has to, and leaves the last stage only with
access granted. -/
theorem Orderly.advance (horderly : Orderly granted quotes)
    (hmonitor : quotes.monitors[monitor]?.getD ⟨quoteId, .sleeping⟩ = ⟨quoteId, old⟩)
    (stage : MonitorStage) (store : QuoteStore)
    (hopen : QuoteMonitor.isOpen ⟨quoteId, stage⟩ = true →
      QuoteMonitor.isOpen ⟨quoteId, old⟩ = true ∨ ¬ quotes.IsOpen quoteId)
    (hother : ∀ other, other ≠ quoteId → store[other]? = quotes.store[other]?)
    (hown : store[quoteId]? = quotes.store[quoteId]? ∨
      QuoteMonitor.isOpen ⟨quoteId, old⟩ = true)
    (hpresent : QuoteMonitor.isOpen ⟨quoteId, stage⟩ = true →
      ∃ record, store[quoteId]? = some record ∧
        (QuoteMonitor.isHolding ⟨quoteId, stage⟩ = true → record.isBlocked = true))
    (hfresh : QuoteMonitor.isOpen ⟨quoteId, stage⟩ = true →
      QuoteMonitor.isSettling ⟨quoteId, stage⟩ = true ∨ quoteId ∉ granted)
    (hsettled : QuoteMonitor.isSettling ⟨quoteId, old⟩ = true →
      QuoteMonitor.isSettling ⟨quoteId, stage⟩ = true ∨
        ∃ record, store[quoteId]? = some record ∧ record.sessionGranted = true) :
    Orderly granted (setStage { quotes with store := store } monitor quoteId stage) := by
  have hfound (hold : QuoteMonitor.isOpen ⟨quoteId, old⟩ = true) :
      quotes.monitors[monitor]? = some ⟨quoteId, old⟩ := by
    cases hentry : quotes.monitors[monitor]? with
    | none =>
      rw [hentry, Option.getD_none] at hmonitor
      rw [← hmonitor] at hold
      exact absurd hold Bool.false_ne_true
    | some entry => rwa [hentry, Option.getD_some, ← Option.some.injEq] at hmonitor
  have hentry_eq {entry : QuoteMonitor} (hentry : quotes.monitors[monitor]? = some entry) :
      entry = ⟨quoteId, old⟩ := by
    rwa [hentry, Option.getD_some] at hmonitor
  -- Nobody else has the quote open if the monitor has it open now.
  have halone (other : ℕ) (entry : QuoteMonitor) (hentry : quotes.monitors[other]? = some entry)
      (hne : other ≠ monitor) (hstage : QuoteMonitor.isOpen ⟨quoteId, stage⟩ = true)
      (hentryOpen : entry.isOpen = true) : entry.quoteId ≠ quoteId := by
    intro hsame
    rcases hopen hstage with hold | hnobody
    · exact hne (horderly.alone other monitor entry _ hentry (hfound hold) hentryOpen hold hsame)
    · exact hnobody ⟨other, entry, hentry, hsame, hentryOpen⟩
  refine ⟨?_, ?_, ?_, ?_, horderly.once⟩
  · intro first second one another hone hanother hfirst hsecond hsame
    rw [getElem?_setStage] at hone hanother
    split_ifs at hone with hm <;> split_ifs at hanother with hm'
    · rw [hm, hm']
    · obtain rfl := Option.some.inj hone
      exact absurd hsame.symm (halone second another hanother hm' hfirst hsecond)
    · obtain rfl := Option.some.inj hanother
      exact absurd hsame (halone first one hone hm hsecond hfirst)
    · exact horderly.alone first second one another hone hanother hfirst hsecond hsame
  · intro other entry hentry hentryOpen
    rw [getElem?_setStage] at hentry
    split_ifs at hentry with hm
    · obtain rfl := Option.some.inj hentry
      exact hpresent hentryOpen
    · obtain ⟨record, hrecord, hblocked⟩ := horderly.present other entry hentry hentryOpen
      refine ⟨record, ?_, hblocked⟩
      by_cases hsame : entry.quoteId = quoteId
      · rcases hown with hkept | hold
        · show store[entry.quoteId]? = some record
          rw [hsame, hkept, ← hsame, hrecord]
        · exact absurd
            (horderly.alone other monitor entry _ hentry (hfound hold) hentryOpen hold hsame) hm
      · exact (hother entry.quoteId hsame).trans hrecord
  · intro other entry hentry hentryOpen
    rw [getElem?_setStage] at hentry
    split_ifs at hentry with hm
    · obtain rfl := Option.some.inj hentry
      exact hfresh hentryOpen
    · exact horderly.fresh other entry hentry hentryOpen
  · intro other hgranted
    by_cases hlast : other = quoteId ∧ QuoteMonitor.isSettling ⟨quoteId, old⟩ = true
    · obtain ⟨rfl, hsettling⟩ := hlast
      rcases hsettled hsettling with hstill | hwritten
      · refine .inl ⟨monitor, ⟨other, stage⟩, ?_, rfl, hstill⟩
        rw [getElem?_setStage, if_pos rfl]
      · exact .inr (.inl hwritten)
    · have hkept : store[other]? = quotes.store[other]? := by
        by_cases hsame : other = quoteId
        · -- The monitor did not write, since access was granted before its turn.
          rw [hsame]
          refine hown.resolve_right fun hold ↦ ?_
          rcases horderly.fresh monitor _ (hfound hold) hold with hsettling | hnot
          · exact hlast ⟨hsame, hsettling⟩
          · exact hnot (hsame ▸ hgranted)
        · exact hother other hsame
      rcases horderly.settled other hgranted with
        ⟨holder, entry, hentry, hquote, hsettling⟩ | ⟨record, hrecord, hmarked⟩ | ⟨hnone, hgone⟩
      · refine .inl ⟨holder, entry, ?_, hquote, hsettling⟩
        rw [getElem?_setStage, if_neg, hentry]
        rintro rfl
        obtain rfl := hentry_eq hentry
        exact hlast ⟨hquote.symm, hsettling⟩
      · exact .inr (.inl ⟨record, hkept.trans hrecord, hmarked⟩)
      · exact .inr (.inr ⟨hkept.trans hnone, hgone⟩)

/-- Assumes: order, and a monitor, perhaps a new one, that goes back to sleep or ends without having
been granted access since it last wrote. Order is kept. -/
theorem Orderly.close (horderly : Orderly granted quotes)
    (hmonitor : quotes.monitors[monitor]?.getD ⟨quoteId, .sleeping⟩ = ⟨quoteId, old⟩)
    (hold : QuoteMonitor.isSettling ⟨quoteId, old⟩ = false) {stage : MonitorStage}
    (hstage : QuoteMonitor.isOpen ⟨quoteId, stage⟩ = false) :
    Orderly granted (quotes.setStage monitor quoteId stage) := by
  refine horderly.advance hmonitor stage quotes.store ?_ (fun _ _ ↦ rfl) (.inl rfl) ?_ ?_ ?_
  · exact fun hopen ↦ absurd (hstage ▸ hopen) Bool.false_ne_true
  · exact fun hopen ↦ absurd (hstage ▸ hopen) Bool.false_ne_true
  · exact fun hopen ↦ absurd (hstage ▸ hopen) Bool.false_ne_true
  · exact fun hsettling ↦ absurd (hold ▸ hsettling) Bool.false_ne_true

/-- Assumes: order, and a monitor that has its quote open and goes on with it, without a write and
without having been granted access. Order is kept. -/
theorem Orderly.proceed (horderly : Orderly granted quotes)
    (hmonitor : quotes.monitors[monitor]? = some ⟨quoteId, old⟩)
    (hopen : QuoteMonitor.isOpen ⟨quoteId, old⟩ = true)
    (hold : QuoteMonitor.isSettling ⟨quoteId, old⟩ = false) {stage : MonitorStage}
    (hholding : QuoteMonitor.isHolding ⟨quoteId, stage⟩ = QuoteMonitor.isHolding ⟨quoteId, old⟩) :
    Orderly granted (quotes.setStage monitor quoteId stage) := by
  have hfound : quotes.monitors[monitor]?.getD ⟨quoteId, .sleeping⟩ = ⟨quoteId, old⟩ := by
    rw [hmonitor, Option.getD_some]
  refine horderly.advance hfound stage quotes.store (fun _ ↦ .inl hopen) (fun _ _ ↦ rfl)
    (.inl rfl) (fun _ ↦ ?_) (fun _ ↦ ?_) fun hsettling ↦ ?_
  · rw [hholding]
    exact horderly.present monitor _ hmonitor hopen
  · refine .inr ((horderly.fresh monitor _ hmonitor hopen).resolve_left ?_)
    rw [hold]
    exact Bool.false_ne_true
  · exact absurd (hold ▸ hsettling) Bool.false_ne_true

/-- Assumes: order, and a monitor that has its quote open and writes the record. Order is kept if it
marks the record with what its next stage is, and with access granted if it was. -/
theorem Orderly.write (horderly : Orderly granted quotes)
    (hmonitor : quotes.monitors[monitor]? = some ⟨quoteId, old⟩)
    (hopen : QuoteMonitor.isOpen ⟨quoteId, old⟩ = true) {stage : MonitorStage}
    {record : LightningQuoteRecord}
    (hblocked : QuoteMonitor.isHolding ⟨quoteId, stage⟩ = true → record.isBlocked = true)
    (hfresh : QuoteMonitor.isOpen ⟨quoteId, stage⟩ = true →
      QuoteMonitor.isSettling ⟨quoteId, old⟩ = false)
    (hmarked : QuoteMonitor.isSettling ⟨quoteId, old⟩ = true → record.sessionGranted = true) :
    Orderly granted ((quotes.put quoteId record).setStage monitor quoteId stage) := by
  have hfound : quotes.monitors[monitor]?.getD ⟨quoteId, .sleeping⟩ = ⟨quoteId, old⟩ := by
    rw [hmonitor, Option.getD_some]
  have hrecord : (quotes.put quoteId record).store[quoteId]? = some record := by
    rw [getElem?_put, if_pos rfl]
  refine horderly.advance hfound stage (quotes.put quoteId record).store (fun _ ↦ .inl hopen) ?_
    (.inr hopen) (fun _ ↦ ⟨record, hrecord, hblocked⟩) (fun hstage ↦ ?_) fun hsettling ↦ ?_
  · intro other hne
    rw [getElem?_put, if_neg hne]
  · refine .inr ((horderly.fresh monitor _ hmonitor hopen).resolve_left ?_)
    rw [hfresh hstage]
    exact Bool.false_ne_true
  · exact .inr ⟨record, hrecord, hmarked hsettling⟩

/-- Assumes: order, and a poll that reads while no other monitor of the quote is between its read
and the write that follows. Order is kept. -/
theorem Orderly.poll (horderly : Orderly granted quotes)
    (hmonitor : quotes.monitors[monitor]? = some ⟨quoteId, .sleeping⟩) {expired : Bool}
    (halone : expired = false → ∀ (other : ℕ) (entry : QuoteMonitor),
      quotes.monitors[other]? = some entry → entry.quoteId = quoteId → entry.isReading = false) :
    Orderly granted (quotes.poll monitor quoteId expired) := by
  have hfound : quotes.monitors[monitor]?.getD ⟨quoteId, .sleeping⟩ = ⟨quoteId, .sleeping⟩ := by
    rw [hmonitor, Option.getD_some]
  rw [Quotes.poll]
  split_ifs with hexpired
  · exact horderly.close hfound rfl rfl
  · split
    · exact horderly.close hfound rfl rfl
    · next record hrecord =>
      split_ifs with hgranted hprocessing
      · exact horderly.close hfound rfl rfl
      · exact horderly
      · have hfree : record.isBlocked = false := by
          rw [LightningQuoteRecord.isBlocked, Bool.eq_false_iff.mpr hprocessing,
            Bool.eq_false_iff.mpr hgranted]
          rfl
        -- A monitor that held the quote would have it blocked.
        have hnobody : ¬ quotes.IsOpen quoteId := by
          rintro ⟨other, entry, hentry, rfl, hopen⟩
          have hreading := halone (Bool.eq_false_iff.mpr hexpired) other entry hentry rfl
          obtain ⟨found, hfound, hblocked⟩ := horderly.present other entry hentry hopen
          rw [QuoteMonitor.isOpen, hreading, Bool.false_or] at hopen
          obtain rfl := Option.some.inj (hrecord.symm.trans hfound)
          rw [hblocked hopen] at hfree
          exact Bool.false_ne_true hfree.symm
        refine horderly.advance hfound (.fetched record) quotes.store (fun _ ↦ .inr hnobody)
          (fun _ _ ↦ rfl) (.inl rfl) (fun _ ↦ ⟨record, hrecord, ?_⟩) (fun _ ↦ .inr ?_) ?_
        · exact fun hholding ↦ absurd hholding Bool.false_ne_true
        · intro hin
          rcases horderly.settled quoteId hin with
            ⟨other, entry, hentry, hquote, hsettling⟩ | ⟨found, hfound, hmarked⟩ | ⟨hnone, -⟩
          · exact hnobody ⟨other, entry, hentry, hquote,
              isOpen_of_isHolding (isHolding_of_isSettling hsettling)⟩
          · obtain rfl := Option.some.inj (hrecord.symm.trans hfound)
            exact hgranted hmarked
          · rw [hrecord] at hnone
            exact Option.some_ne_none _ hnone
        · exact fun hsettling ↦ absurd hsettling Bool.false_ne_true

/-- Assumes: order, and a monitor in `grant_access`, which succeeds. Order is kept, and access had
not been granted for the quote before. -/
theorem Orderly.grant (horderly : Orderly granted quotes) {record : LightningQuoteRecord}
    (hmonitor : quotes.monitors[monitor]? = some ⟨quoteId, .granting record⟩)
    (allotment : UInt64) :
    Orderly (granted ++ [quoteId])
      (quotes.setStage monitor quoteId (.settling record allotment)) := by
  have hnot : quoteId ∉ granted :=
    (horderly.fresh monitor _ hmonitor rfl).resolve_left Bool.false_ne_true
  have hfound : quotes.monitors[monitor]?.getD ⟨quoteId, .sleeping⟩ =
      ⟨quoteId, .granting record⟩ := by
    rw [hmonitor, Option.getD_some]
  have hnext : Orderly granted (quotes.setStage monitor quoteId (.settling record allotment)) := by
    refine horderly.advance hfound (.settling record allotment) quotes.store (fun _ ↦ .inl rfl)
      (fun _ _ ↦ rfl) (.inl rfl) (fun _ ↦ ?_) (fun _ ↦ .inl rfl) ?_
    · exact horderly.present monitor _ hmonitor rfl
    · exact fun hsettling ↦ absurd hsettling Bool.false_ne_true
  have hown : (quotes.setStage monitor quoteId (.settling record allotment)).monitors[monitor]? =
      some ⟨quoteId, .settling record allotment⟩ := by
    rw [getElem?_setStage, if_pos rfl]
  refine ⟨hnext.alone, hnext.present, fun other entry hentry hopen ↦ ?_, ?_, ?_⟩
  · by_cases hsettling : entry.isSettling = true
    · exact .inl hsettling
    · refine .inr fun hin ↦ ?_
      rcases List.mem_append.mp hin with hin | hin
      · exact (hnext.fresh other entry hentry hopen).resolve_left hsettling hin
      · -- Only the monitor itself has the quote open.
        obtain rfl := hnext.alone other monitor entry _ hentry hown hopen rfl
          (List.mem_singleton.mp hin)
        obtain rfl := Option.some.inj (hown.symm.trans hentry)
        exact hsettling rfl
  · intro other hin
    rcases List.mem_append.mp hin with hin | hin
    · exact hnext.settled other hin
    · exact .inl ⟨monitor, _, hown, (List.mem_singleton.mp hin).symm, rfl⟩
  · exact List.nodup_append.mpr ⟨horderly.once, List.nodup_singleton quoteId, fun one hone other
      hother hsame ↦ hnot ((List.mem_singleton.mp hother) ▸ hsame ▸ hone)⟩

/-- Assumes: order, and a write of somebody else that does not interfere. Order is kept. -/
theorem Orderly.update (horderly : Orderly granted quotes) {record : LightningQuoteRecord}
    (hclear : ¬ quotes.Interferes (.update quoteId record)) :
    Orderly granted (quotes.put quoteId record) := by
  refine ⟨horderly.alone, fun other entry hentry hopen ↦ ?_, horderly.fresh,
    fun other hgranted ↦ ?_, horderly.once⟩
  · obtain ⟨found, hfound, hblocked⟩ := horderly.present other entry hentry hopen
    rw [getElem?_put]
    split_ifs with hsame
    · refine ⟨record, rfl, fun hholding ↦ ?_⟩
      by_contra hfree
      rw [hsame] at hfound
      rw [Interferes, hfound] at hclear
      exact hclear (.inr ⟨Bool.eq_false_iff.mpr hfree, other, entry, hentry, hsame, hholding⟩)
    · exact ⟨found, hfound, hblocked⟩
  · rw [getElem?_put]
    rcases horderly.settled other hgranted with
      hsettling | ⟨found, hfound, hmarked⟩ | ⟨hnone, hgone⟩
    · exact .inl hsettling
    · refine .inr (.inl ?_)
      split_ifs with hsame
      · refine ⟨record, rfl, ?_⟩
        by_contra hcleared
        rw [hsame] at hfound
        rw [Interferes, hfound] at hclear
        exact hclear (.inl ⟨hmarked, Bool.eq_false_iff.mpr hcleared⟩)
      · exact ⟨found, hfound, hmarked⟩
    · refine .inr (.inr ⟨?_, hgone⟩)
      rw [if_neg, hnone]
      rintro rfl
      rw [Interferes, hnone] at hclear
      exact hclear hgone

/-- Assumes: order, and a quote that no monitor has open. Order is kept if it is removed. -/
theorem Orderly.delete (horderly : Orderly granted quotes) (hclosed : ¬ quotes.IsOpen quoteId) :
    Orderly granted (quotes.delete quoteId) := by
  refine ⟨horderly.alone, fun other entry hentry hopen ↦ ?_, horderly.fresh,
    fun other hgranted ↦ ?_, horderly.once⟩
  · rw [getElem?_delete, if_neg]
    · exact horderly.present other entry hentry hopen
    · exact fun hsame ↦ hclosed ⟨other, entry, hentry, hsame, hopen⟩
  · rw [getElem?_delete]
    have hremoved : quotes.removed ⊆ (quotes.delete quoteId).removed := by
      rw [Quotes.delete]
      split_ifs
      · exact List.subset_cons_self quoteId quotes.removed
      · exact List.Subset.refl quotes.removed
    rcases horderly.settled other hgranted with
      hsettling | ⟨found, hfound, hmarked⟩ | ⟨hnone, hgone⟩
    · exact .inl hsettling
    · split_ifs with hsame
      · refine .inr (.inr ⟨rfl, ?_⟩)
        have hcontains : quotes.store.contains quoteId = true := by
          rw [ExtTreeMap.contains_eq_isSome_getElem?, ← hsame, hfound]
          rfl
        rw [Quotes.delete, if_pos hcontains, hsame]
        exact List.mem_cons_self
      · exact .inr (.inl ⟨found, hfound, hmarked⟩)
    · refine .inr (.inr ⟨?_, hremoved hgone⟩)
      split_ifs
      · rfl
      · exact hnone

/-- Assumes: order, and a monitor that writes the status of its quote. Order is kept. -/
theorem Orderly.report (horderly : Orderly granted quotes) {record : LightningQuoteRecord}
    {quoteState : QuoteState} {now : Int64}
    (hmonitor : quotes.monitors[monitor]? = some ⟨quoteId, .reporting record quoteState now⟩) :
    Orderly granted (quotes.report monitor quoteId record quoteState now) := by
  have hnever : QuoteMonitor.isSettling ⟨quoteId, .reporting record quoteState now⟩ = false := rfl
  cases quoteState with
  | unpaid =>
    refine horderly.write hmonitor rfl (fun hholding ↦ ?_) (fun _ ↦ hnever) fun hsettling ↦ ?_
    · exact absurd hholding Bool.false_ne_true
    · exact absurd hsettling Bool.false_ne_true
  | paid =>
    refine horderly.write hmonitor rfl (fun _ ↦ rfl) (fun _ ↦ hnever) fun hsettling ↦ ?_
    exact absurd hsettling Bool.false_ne_true
  | issued =>
    refine horderly.write hmonitor rfl (fun _ ↦ rfl) (fun _ ↦ hnever) fun hsettling ↦ ?_
    exact absurd hsettling Bool.false_ne_true

/-- Assumes: order, and a step that does not interfere. Order is kept. -/
theorem Orderly.step (horderly : Orderly granted quotes) (step : QuoteStep)
    (hclear : ¬ quotes.Interferes step) :
    Orderly (granted ++ (quotes.step step).2) (quotes.step step).1 := by
  have hstill : Orderly (granted ++ []) quotes := by rwa [List.append_nil]
  cases step with
  | spawn monitor quoteId =>
    cases hmonitor : quotes.monitors[monitor]? with
    | some entry =>
      simp only [Quotes.step, hmonitor]
      exact hstill
    | none =>
      simp only [Quotes.step, hmonitor]
      exact hstill.close (by rw [hmonitor, Option.getD_none]) rfl rfl
  | poll monitor expired =>
    rcases hmonitor : quotes.monitors[monitor]? with _ | ⟨quoteId, stage⟩
    · simp only [Quotes.step, hmonitor]
      exact hstill
    · cases stage with
      | sleeping =>
        simp only [Quotes.step, hmonitor]
        refine hstill.poll hmonitor fun hexpired other entry hentry hquote ↦ ?_
        rw [← Bool.not_eq_true]
        exact fun hreading ↦
          hclear ⟨hexpired, quoteId, other, entry, hmonitor, hentry, hquote, hreading⟩
      | _ =>
        simp only [Quotes.step, hmonitor]
        exact hstill
  | checkStatus monitor reply now =>
    rcases hmonitor : quotes.monitors[monitor]? with _ | ⟨quoteId, stage⟩
    · simp only [Quotes.step, hmonitor]
      exact hstill
    · cases stage with
      | fetched record =>
        cases reply with
        | error message =>
          simp only [Quotes.step, hmonitor]
          exact hstill.close (by rw [hmonitor, Option.getD_some]) rfl rfl
        | ok quoteState =>
          simp only [Quotes.step, hmonitor]
          exact hstill.proceed hmonitor rfl rfl rfl
      | _ =>
        simp only [Quotes.step, hmonitor]
        exact hstill
  | write monitor =>
    rcases hmonitor : quotes.monitors[monitor]? with _ | ⟨quoteId, stage⟩
    · simp only [Quotes.step, hmonitor]
      exact hstill
    · cases stage with
      | reporting record quoteState now =>
        simp only [Quotes.step, hmonitor]
        exact hstill.report hmonitor
      | releasing record =>
        simp only [Quotes.step, hmonitor]
        refine hstill.write hmonitor rfl (fun hholding ↦ ?_) (fun _ ↦ rfl) fun hsettling ↦ ?_
        · exact absurd hholding Bool.false_ne_true
        · exact absurd hsettling Bool.false_ne_true
      | settling record allotment =>
        simp only [Quotes.step, hmonitor]
        refine hstill.write hmonitor rfl (fun hholding ↦ ?_) (fun hopen ↦ ?_) fun _ ↦ rfl
        · exact absurd hholding Bool.false_ne_true
        · exact absurd hopen Bool.false_ne_true
      | _ =>
        simp only [Quotes.step, hmonitor]
        exact hstill
  | mintTokens monitor reply =>
    rcases hmonitor : quotes.monitors[monitor]? with _ | ⟨quoteId, stage⟩
    · simp only [Quotes.step, hmonitor]
      exact hstill
    · cases stage with
      | minting record =>
        cases reply with
        | error message =>
          simp only [Quotes.step, hmonitor]
          exact hstill.proceed hmonitor rfl rfl rfl
        | ok value =>
          simp only [Quotes.step, hmonitor]
          exact hstill.proceed hmonitor rfl rfl rfl
      | _ =>
        simp only [Quotes.step, hmonitor]
        exact hstill
  | grantAccess monitor reply =>
    rcases hmonitor : quotes.monitors[monitor]? with _ | ⟨quoteId, stage⟩
    · simp only [Quotes.step, hmonitor]
      exact hstill
    · cases stage with
      | granting record =>
        cases reply with
        | error message =>
          simp only [Quotes.step, hmonitor]
          exact hstill.proceed hmonitor rfl rfl rfl
        | ok allotment =>
          simp only [Quotes.step, hmonitor]
          exact horderly.grant hmonitor allotment
      | _ =>
        simp only [Quotes.step, hmonitor]
        exact hstill
  | update quoteId record => exact hstill.update hclear
  | remove quoteId => exact hstill.delete hclear
  | list now =>
    cases hcondemned : quotes.condemned with
    | nil =>
      simp only [Quotes.step, hcondemned]
      exact ⟨hstill.alone, hstill.present, hstill.fresh, hstill.settled, hstill.once⟩
    | cons quoteId rest =>
      simp only [Quotes.step, hcondemned]
      exact hstill
  | purge =>
    cases hcondemned : quotes.condemned with
    | nil =>
      simp only [Quotes.step, hcondemned]
      exact hstill
    | cons quoteId rest =>
      have hclosed : ¬ quotes.IsOpen quoteId := by
        refine fun hopen ↦ hclear ⟨quoteId, ?_, hopen⟩
        rw [hcondemned]
        rfl
      have hnext := hstill.delete hclosed
      simp only [Quotes.step, hcondemned]
      exact ⟨hnext.alone, hnext.present, hnext.fresh, hnext.settled, hnext.once⟩

/-- Order excludes that tokens are minted twice. -/
theorem Orderly.mintsAlone (horderly : Orderly granted quotes) : quotes.MintsAlone := by
  intro first second one another hone hanother hminting hholding hquote
  refine horderly.alone first second one another hone hanother ?_ (isOpen_of_isHolding hholding)
    hquote
  cases hstage : one.stage with
  | minting record => rw [QuoteMonitor.isOpen, QuoteMonitor.isHolding, hstage, Bool.or_true]
  | _ => simp [QuoteMonitor.isMinting, hstage] at hminting

/-- Order excludes that a monitor brings a quote back. -/
theorem Orderly.not_putsBack (horderly : Orderly granted quotes) (step : QuoteStep) :
    ¬ quotes.PutsBack step := by
  cases step with
  | write monitor =>
    rintro ⟨entry, hentry, hwriting, habsent⟩
    have hopen : entry.isOpen = true := by
      cases hstage : entry.stage with
      | reporting record quoteState now =>
        rw [QuoteMonitor.isOpen, QuoteMonitor.isReading, hstage, Bool.true_or]
      | releasing record =>
        rw [QuoteMonitor.isOpen, QuoteMonitor.isHolding, hstage, Bool.or_true]
      | settling record allotment =>
        rw [QuoteMonitor.isOpen, QuoteMonitor.isHolding, hstage, Bool.or_true]
      | _ => simp [QuoteMonitor.isWriting, hstage] at hwriting
    obtain ⟨record, hrecord, -⟩ := horderly.present monitor entry hentry hopen
    rw [ExtTreeMap.getElem?_eq_none habsent] at hrecord
    exact Option.some_ne_none _ hrecord.symm
  | _ => exact id

end Orderly

/-! ### Runs -/

theorem orderly_start : Orderly [] start := by
  refine ⟨?_, ?_, ?_, ?_, List.nodup_nil⟩
  · intro first second one another hone
    simp [start] at hone
  · intro monitor entry hentry
    simp [start] at hentry
  · intro monitor entry hentry
    simp [start] at hentry
  · exact fun quoteId hgranted ↦ absurd hgranted List.not_mem_nil

/-- Assumes: a run in which no step interferes. It keeps order. -/
theorem orderly_final {steps : List QuoteStep}
    (hclear : machine.Along (fun quotes step ↦ ¬ quotes.Interferes step) start steps) :
    Orderly (machine.outputs start steps) (machine.final start steps) := by
  induction steps using List.reverseRecOn with
  | nil => exact orderly_start
  | append_singleton steps step ih =>
    rw [Transducer.along_append] at hclear
    rw [Transducer.outputs_append, Transducer.final_append]
    have hnext := (ih hclear.1).step step hclear.2.1
    rwa [← List.append_nil (Quotes.step _ step).2] at hnext

/-- Assumes: no monitor reads a quote while another one is between its read and the write that
follows, no quote is removed while a monitor is between its read and its last write, and no other
writer undoes a mark or brings a quote back. In every such run of any number of monitors, writers
and the janitor, access is granted at most once for a quote, tokens are never minted while another
monitor holds the quote, and no monitor brings a quote back. -/
theorem quote_grants_once (steps : List QuoteStep)
    (hclear : machine.Along (fun quotes step ↦ ¬ quotes.Interferes step) start steps) :
    GrantsOnce steps := by
  refine ⟨fun quoteId ↦ ?_, ?_, ?_⟩
  · exact List.nodup_iff_count_le_one.mp (orderly_final hclear).once quoteId
  · rintro before ⟨after, rfl⟩
    rw [Transducer.along_append] at hclear
    exact (orderly_final hclear.1).mintsAlone
  · rw [Transducer.along_iff_forall_cut]
    rintro before step after rfl
    rw [Transducer.along_append] at hclear
    exact (orderly_final hclear.1).not_putsBack step

/-! ### Two monitors of one quote -/

instance decidableIsOpen (quotes : Quotes) (quoteId : String) :
    Decidable (quotes.IsOpen quoteId) :=
  decidable_of_iff (∃ entry ∈ quotes.monitors.toList,
    entry.2.quoteId = quoteId ∧ entry.2.isOpen = true) (by
      simp only [IsOpen, Prod.exists, ExtTreeMap.mem_toList_iff_getElem?_eq_some])

instance decidableIsHeld (quotes : Quotes) (quoteId : String) :
    Decidable (quotes.IsHeld quoteId) :=
  decidable_of_iff (∃ entry ∈ quotes.monitors.toList,
    entry.2.quoteId = quoteId ∧ entry.2.isHolding = true) (by
      simp only [IsHeld, Prod.exists, ExtTreeMap.mem_toList_iff_getElem?_eq_some])

instance decidableUndoes (quotes : Quotes) (quoteId : String) (record : LightningQuoteRecord) :
    DecidablePred (quotes.Undoes quoteId record)
  | none => inferInstanceAs (Decidable (quoteId ∈ quotes.removed))
  | some _ => inferInstanceAs (Decidable (_ ∨ _))

instance decidableInterferes (quotes : Quotes) : DecidablePred quotes.Interferes
  | .poll monitor expired =>
    decidable_of_iff (expired = false ∧ ∃ entry ∈ quotes.monitors.toList,
      quotes.monitors[monitor]? = some ⟨entry.2.quoteId, .sleeping⟩ ∧
      entry.2.isReading = true) (by
        simp only [Interferes, Prod.exists, ExtTreeMap.mem_toList_iff_getElem?_eq_some]
        grind)
  | .remove quoteId => inferInstanceAs (Decidable (quotes.IsOpen quoteId))
  | .purge => inferInstanceAs (Decidable (∃ quoteId ∈ quotes.condemned.head?, _))
  | .update quoteId record => inferInstanceAs (Decidable (quotes.Undoes quoteId record _))
  | .spawn _ _ | .checkStatus _ _ _ | .write _ | .mintTokens _ _ | .grantAccess _ _ | .list _ =>
    instDecidableFalse

/-- A quote for ten sats. -/
def sampleRecord : LightningQuoteRecord where
  quoteId := "quote"
  macAddress := "aa:bb:cc:dd:ee:ff"
  mintUrl := "https://mint.example"
  amount := 10
  expiry := 0
  allotment := 0
  createdAt := 1000
  completedAt := none
  sessionGranted := false
  processing := false
  invoice := "lnbc"
  cachedState := none
  cachedStateAt := none

/-- The quote is in the store, with two monitors. -/
def watched : List QuoteStep :=
  [.update "quote" sampleRecord, .spawn 0 "quote", .spawn 1 "quote"]

/-- One monitor finds the quote unpaid and then processed by the other, and ends once access is
granted; the janitor removes the quote. -/
def inTurn : List QuoteStep :=
  watched ++ [.poll 0 false, .checkStatus 0 (.ok .unpaid) 1010, .write 0, .poll 1 false,
    .checkStatus 1 (.ok .paid) 1020, .write 1, .poll 0 false, .mintTokens 1 (.ok ()),
    .grantAccess 1 (.ok 600), .write 1, .poll 0 false, .list 2000, .purge]

theorem quote_grants_once_in_turn :
    GrantsOnce inTurn ∧ machine.outputs start inTurn = ["quote"] ∧
      (machine.final start inTurn).removed = ["quote"] := by
  refine ⟨quote_grants_once inTurn ?_, ?_, ?_⟩
  · decide +kernel
  · decide +kernel
  · decide +kernel

/-- Both monitors read the quote before either has marked it. -/
def bothRead : List QuoteStep :=
  watched ++ [.poll 0 false, .poll 1 false, .checkStatus 0 (.ok .paid) 1010,
    .checkStatus 1 (.ok .paid) 1010, .write 0, .write 1, .mintTokens 0 (.ok ()),
    .mintTokens 1 (.ok ()), .grantAccess 0 (.ok 600), .grantAccess 1 (.ok 600)]

/-- The quote is removed in between a read and the write that follows. -/
def removedInBetween : List QuoteStep :=
  watched ++ [.poll 0 false, .checkStatus 0 (.ok .unpaid) 1010, .remove "quote", .write 0]

/-- With both monitors at it, access is granted twice, after tokens were minted for a quote that the
other monitor held; and a quote that was removed is put back. -/
theorem quote_granted_twice_and_put_back :
    (¬ GrantsOnce bothRead ∧ machine.outputs start bothRead = ["quote", "quote"] ∧
      ¬ machine.Throughout MintsAlone start bothRead) ∧
    ¬ GrantsOnce removedInBetween ∧ "quote" ∈ (machine.final start removedInBetween).store := by
  have houtputs : machine.outputs start bothRead = ["quote", "quote"] := by decide +kernel
  refine ⟨⟨fun honce ↦ ?_, houtputs, fun halone ↦ ?_⟩, fun honce ↦ ?_, by decide +kernel⟩
  · have hcount := honce.once "quote"
    rw [houtputs] at hcount
    exact absurd hcount (by decide)
  · let marked : LightningQuoteRecord :=
      { sampleRecord with
        processing := true
        cachedState := some .paid
        cachedStateAt := some 1010 }
    have hfirst : (machine.final start (bothRead.take 9)).monitors[0]? =
        some ⟨"quote", .minting marked⟩ := by
      decide +kernel
    have hsecond : (machine.final start (bothRead.take 9)).monitors[1]? =
        some ⟨"quote", .minting marked⟩ := by
      decide +kernel
    have hsame := halone (bothRead.take 9) (List.take_prefix 9 bothRead) 0 1 _ _ hfirst hsecond
      rfl rfl rfl
    exact absurd hsame (by decide)
  · have hcut := (machine.along_iff_forall_cut _ start removedInBetween).mp honce.staysRemoved
      removedInBetween.dropLast (.write 0) [] rfl
    refine hcut ⟨⟨"quote", .reporting sampleRecord .unpaid 1010⟩, ?_, rfl, ?_⟩
    · decide +kernel
    · decide +kernel

end Quotes

end Tollgate
