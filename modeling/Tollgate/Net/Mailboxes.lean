import Tollgate.Library.Mailbox
import Tollgate.Net.Conformance

/-!
# The outbox of the driver

`Driver::enqueue` and `Driver::drain_outbox` on the map of queues that they share, keyed by the hex
text of the peer. The driver of the other modules keeps the same map by the peer's key:
`Driver.outbox_enqueue` and `Driver.outbox_drainOutbox` say so.

`Outbox.box_final` relates the map to the calls made so far: the queue of a peer is what a mailbox
makes of the bodies queued for that peer since its last drain.
-/

set_option autoImplicit false
set_option relaxedAutoImplicit false

namespace Tollgate

open Std Mailbox

/-- The body is a report, so a later one supersedes it. -/
def isReport (cbor : Minicbor) (message : Bytes) : Bool :=
  decide (cbor.peekType message = some .meteringReport)

/-- A queue is a mailbox in which reports pass. -/
theorem enqueue_eq_push (cbor : Minicbor) (queue : List Bytes) (message : Bytes) :
    enqueue cbor queue message = push (isReport cbor) queue message := by
  simp only [enqueue, push, isReport, decide_eq_true_eq, decide_not]

namespace Outbox

section Keyed

variable {Key : Type} [Ord Key] [TransOrd Key]

/-- `Driver::enqueue`. -/
def enqueue (cbor : Minicbor) (outbox : ExtTreeMap Key (List Bytes)) (peer : Key)
    (message : Bytes) : ExtTreeMap Key (List Bytes) :=
  outbox.insert peer (Tollgate.enqueue cbor (outbox[peer]?.getD []) message)

/-- `Driver::drain_outbox`. -/
def drainOutbox (outbox : ExtTreeMap Key (List Bytes)) (peer : Key) :
    ExtTreeMap Key (List Bytes) × List Bytes :=
  (outbox.erase peer, outbox[peer]?.getD [])

/-- The outbox under any sequence of calls; a drain returns what it removes, for its peer. -/
def machine (cbor : Minicbor) :
    Transducer (ExtTreeMap Key (List Bytes)) (Call Key Bytes) (Key × List Bytes) where
  step outbox
    | .post peer message => (enqueue cbor outbox peer message, [])
    | .collect peer => ((drainOutbox outbox peer).1, [(peer, (drainOutbox outbox peer).2)])

end Keyed

variable {Key : Type} [Ord Key] [TransOrd Key] [LawfulEqOrd Key] [DecidableEq Key]
  (cbor : Minicbor) (peer : Key)

/-- What the drains of a peer have returned, in their order. -/
def drainsOf (drains : List (Key × List Bytes)) : List (List Bytes) :=
  (drains.filter fun drain ↦ decide (drain.1 = peer)).map Prod.snd

/-- One call: the queue of a peer goes on holding what is pending for it. -/
theorem box_step (outbox : ExtTreeMap Key (List Bytes)) {bodies : List Bytes}
    (hbox : outbox[peer]?.getD [] = coalesce (isReport cbor) bodies) (call : Call Key Bytes) :
    ((machine cbor).step outbox call).1[peer]?.getD [] =
      coalesce (isReport cbor) (await peer bodies call) := by
  cases call with
  | post other message =>
    by_cases hsame : other = peer
    · subst hsame
      simp only [machine, enqueue, ExtTreeMap.getElem?_insert_self, Option.getD_some, hbox,
        enqueue_eq_push, await, Call.posts, if_true, coalesce, List.foldl_append,
        List.foldl_cons, List.foldl_nil]
    · simp only [machine, enqueue, ExtTreeMap.getElem?_insert, Std.compare_eq_iff_eq, hsame,
        if_false, await, Call.posts, List.append_nil, hbox]
  | collect other =>
    by_cases hsame : other = peer
    · simp [machine, drainOutbox, await, hsame, coalesce]
    · simp only [machine, drainOutbox, ExtTreeMap.getElem?_erase, Std.compare_eq_iff_eq, hsame,
        if_false, await, hbox]

/-- Along a run: the queue holds what is pending, and each drain has returned a batch. -/
theorem box_run (outbox : ExtTreeMap Key (List Bytes)) {bodies : List Bytes}
    (hbox : outbox[peer]?.getD [] = coalesce (isReport cbor) bodies)
    (calls : List (Call Key Bytes)) :
    ((machine cbor).final outbox calls)[peer]?.getD [] =
        coalesce (isReport cbor) (calls.foldl (await peer) bodies) ∧
      drainsOf peer ((machine cbor).outputs outbox calls) =
        (batchesFrom peer bodies calls).map (coalesce (isReport cbor)) := by
  induction calls generalizing outbox bodies with
  | nil => exact ⟨hbox, rfl⟩
  | cons call rest ih =>
    have hrest := ih _ (box_step cbor peer outbox hbox call)
    refine ⟨hrest.1, ?_⟩
    have hdrains := hrest.2
    rw [Transducer.outputs_cons, drainsOf, List.filter_append, List.map_append, ← drainsOf,
      ← drainsOf, hdrains]
    cases call with
    | post other message =>
      rw [batchesFrom]
      · rfl
      · intro _ hcall
        cases hcall
    | collect other =>
      by_cases hsame : other = peer
      · simp [machine, drainOutbox, drainsOf, batchesFrom, await, hsame, ← hbox]
      · simp [machine, drainOutbox, drainsOf, batchesFrom, await, hsame]

/-- What the calls made so far say about the queue of a peer and about its drains: both hold, of the
bodies queued for that peer, all but superseded reports, and no body that is not a report is lost or
returned twice. -/
structure KeepsAllButSuperseded (calls : List (Call Key Bytes)) : Prop where
  queued : Kept (isReport cbor) (pending peer calls)
    (((machine cbor).final ∅ calls)[peer]?.getD [])
  drained : List.Forall₂ (Kept (isReport cbor)) (batches peer calls)
    (drainsOf peer ((machine cbor).outputs ∅ calls))
  once : ((drainsOf peer ((machine cbor).outputs ∅ calls)).flatten ++
      ((machine cbor).final ∅ calls)[peer]?.getD []).filter (fun body ↦ !isReport cbor body) =
    (posted peer calls).filter fun body ↦ !isReport cbor body

theorem keepsAllButSuperseded (calls : List (Call Key Bytes)) :
    KeepsAllButSuperseded cbor peer calls := by
  have hempty : (∅ : ExtTreeMap Key (List Bytes))[peer]?.getD [] = coalesce (isReport cbor) [] := by
    simp [coalesce]
  obtain ⟨hqueue, hdrains⟩ := box_run cbor peer ∅ hempty calls
  have hdrained : List.Forall₂ (Kept (isReport cbor)) (batches peer calls)
      (drainsOf peer ((machine cbor).outputs ∅ calls)) := by
    rw [hdrains, List.forall₂_map_right_iff]
    exact List.forall₂_same.mpr fun batch _ ↦ kept_coalesce batch
  have hqueued : Kept (isReport cbor) (pending peer calls)
      (((machine cbor).final ∅ calls)[peer]?.getD []) := by
    rw [hqueue]
    exact kept_coalesce _
  refine ⟨hqueued, hdrained, ?_⟩
  have hlasting {batches drains : List (List Bytes)}
      (hkept : List.Forall₂ (Kept (isReport cbor)) batches drains) :
      drains.flatten.filter (fun body ↦ !isReport cbor body) =
        batches.flatten.filter fun body ↦ !isReport cbor body := by
    induction hkept with
    | nil => rfl
    | cons hfirst _ ih =>
      rw [List.flatten_cons, List.flatten_cons, List.filter_append, List.filter_append,
        hfirst.lasting, ih]
  rw [List.filter_append, hlasting hdrained, hqueued.lasting, ← List.filter_append,
    flatten_batches]

/-- At any time, for every peer by its hex text. -/
theorem outbox_keeps_all_but_superseded (cbor : Minicbor) (peerHex : String)
    (calls : List (Call String Bytes)) : KeepsAllButSuperseded cbor peerHex calls :=
  keepsAllButSuperseded cbor peerHex calls

end Outbox

/-- Another body in between two reports: the second report is all that is left of the two. -/
example :
    let report (elapsedMs : UInt64) :=
      Minicbor.derived.encodeMeteringReport (MeteringReport.new elapsedMs 1 0)
    (Outbox.machine Minicbor.derived).outputs ∅
        [.post "02ab" (report 1000), .post "02ab" [0xde, 0xad], .post "03cd" (report 1500),
          .post "02ab" (report 2000), .collect "02ab", .collect "02ab"] =
      [("02ab", [[0xde, 0xad], report 2000]), ("02ab", [])] := by
  decide

/-! ### The driver's own map -/

theorem Driver.outbox_enqueue (cbor : Minicbor) (driver : Driver) (peer : PeerId)
    (message : Bytes) :
    (driver.enqueue cbor peer message).outbox =
      Outbox.enqueue cbor driver.outbox peer message :=
  rfl

theorem Driver.outbox_drainOutbox (driver : Driver) (peer : PeerId) :
    (driver.drainOutbox peer).1.outbox = (Outbox.drainOutbox driver.outbox peer).1 ∧
      (driver.drainOutbox peer).2 = (Outbox.drainOutbox driver.outbox peer).2 :=
  ⟨rfl, rfl⟩

end Tollgate
