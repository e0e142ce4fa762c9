import Mathlib.Data.List.Induction

/-!
# Mailboxes that keep the latest of a kind

Bodies are posted to keyed boxes, and a box is emptied when its owner comes for it. A body of the
passing kind supersedes the earlier ones of that kind that are still in the box; all others wait to
be collected. `coalesce` is what a box makes of the bodies posted to it, `Kept` says what that is,
and `pending`, `batches` and `posted` read off a history of calls what is to be in a box, what has
been collected from it and what was ever posted to it.
-/

set_option autoImplicit false
set_option relaxedAutoImplicit false

namespace Tollgate

namespace Mailbox

variable {Key Body : Type*} (passing : Body → Bool)

/-- Put a body into a box. -/
def push (box : List Body) (body : Body) : List Body :=
  (if passing body then box.filter fun held ↦ !passing held else box) ++ [body]

/-- What a box holds after some bodies. -/
def coalesce (bodies : List Body) : List Body :=
  bodies.foldl (push passing) []

/-- What is held of some bodies: all that do not pass and the last of those that do, in their
order. -/
structure Kept (bodies held : List Body) : Prop where
  order : held.Sublist bodies
  lasting : held.filter (fun body ↦ !passing body) = bodies.filter fun body ↦ !passing body
  latest : held.filter passing = (bodies.filter passing).getLast?.toList

variable {passing}

/-- One more body. -/
theorem Kept.push {bodies held : List Body} (hkept : Kept passing bodies held) (body : Body) :
    Kept passing (bodies ++ [body]) (push passing held body) := by
  unfold Mailbox.push
  cases hpassing : passing body with
  | false =>
    rw [if_neg Bool.false_ne_true]
    refine ⟨hkept.order.append (List.Sublist.refl _), ?_, ?_⟩
    · rw [List.filter_append, List.filter_append, hkept.lasting]
    · rw [List.filter_append, List.filter_append, hkept.latest]
      simp [hpassing]
  | true =>
    rw [if_pos rfl]
    refine ⟨(List.filter_sublist.trans hkept.order).append (List.Sublist.refl _), ?_, ?_⟩
    · rw [List.filter_append, List.filter_append, List.filter_filter, ← hkept.lasting]
      simp
    · rw [List.filter_append, List.filter_append, List.filter_filter]
      simp [hpassing]

theorem kept_coalesce (bodies : List Body) : Kept passing bodies (coalesce passing bodies) := by
  induction bodies using List.reverseRecOn with
  | nil => exact ⟨List.Sublist.refl _, rfl, rfl⟩
  | append_singleton bodies body ih =>
    rw [coalesce, List.foldl_append]
    exact ih.push body

/-! ### Histories -/

/-- Post a body to a box, or collect what is in it. -/
inductive Call (Key Body : Type*)
  | post (key : Key) (body : Body)
  | collect (key : Key)
  deriving DecidableEq

variable [DecidableEq Key] (key : Key)

/-- The bodies a call posts to a box. -/
def Call.posts : Call Key Body → List Body
  | post other body => if other = key then [body] else []
  | collect _ => []

/-- All bodies ever posted to a box. -/
def posted (calls : List (Call Key Body)) : List Body :=
  calls.flatMap (Call.posts key)

/-- The bodies posted to a box since it was last emptied, after a call. -/
def await (bodies : List Body) (call : Call Key Body) : List Body :=
  match call with
  | .post _ _ => bodies ++ call.posts key
  | .collect other => if other = key then [] else bodies

/-- The bodies posted to a box since it was last emptied. -/
def pending (calls : List (Call Key Body)) : List Body :=
  calls.foldl (await key) []

/-- The bodies posted to a box between one time it was emptied and the next, starting from what is
pending. -/
def batchesFrom (bodies : List Body) : List (Call Key Body) → List (List Body)
  | [] => []
  | .collect other :: rest =>
    if other = key then bodies :: batchesFrom [] rest else batchesFrom bodies rest
  | call :: rest => batchesFrom (await key bodies call) rest

/-- The bodies posted to a box, one list for each time it was emptied. -/
def batches (calls : List (Call Key Body)) : List (List Body) :=
  batchesFrom key [] calls

/-- What was posted has been collected, or is pending. -/
theorem flatten_batchesFrom (bodies : List Body) (calls : List (Call Key Body)) :
    (batchesFrom key bodies calls).flatten ++ calls.foldl (await key) bodies =
      bodies ++ posted key calls := by
  induction calls generalizing bodies with
  | nil => simp [batchesFrom, posted]
  | cons call rest ih =>
    have hposted : posted key (call :: rest) = call.posts key ++ posted key rest :=
      List.flatMap_cons
    cases call with
    | post other body =>
      rw [List.foldl_cons, batchesFrom, ih, hposted, await, List.append_assoc]
      exact fun _ hcall ↦ nomatch hcall
    | collect other =>
      rw [List.foldl_cons, hposted, batchesFrom, await, Call.posts, List.nil_append]
      split_ifs
      · rw [List.flatten_cons, List.append_assoc, ih, List.nil_append]
      · exact ih bodies

theorem flatten_batches (calls : List (Call Key Body)) :
    (batches key calls).flatten ++ pending key calls = posted key calls :=
  flatten_batchesFrom key [] calls

end Mailbox

end Tollgate
