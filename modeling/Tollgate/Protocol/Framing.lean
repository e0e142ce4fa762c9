import Tollgate.Protocol.Message

/-!
# Framing

`codec.rs` puts each message body behind a two-byte little-endian length, and splits a buffer of
such frames back into its bodies. The decoding loop is modelled as it runs: an offset into the
buffer, an indexed read of the length, a slice for the body. A read or a slice outside the buffer
would panic, and the loop is given as many rounds as the buffer has bytes and one more, so that both
that and running on are outcomes of the model (`Run`), which the results have to rule out.

Every buffer is decoded (`exists_decodeFrames`), what is encoded decodes to the same bodies
(`decodeFrames_encodeAll`), what decodes is the encoding of its bodies
(`encodeAll_of_decodeFrames`), and a buffer cut inside a frame fails at the start of that frame
(`decodeFrames_cut`).
-/

set_option autoImplicit false
set_option relaxedAutoImplicit false

namespace Tollgate

/-- The longest body, the limit of a two-byte length. -/
def maxFrameLen : ℕ := 65535

inductive FrameError
  | tooLong
  | truncated (offset : ℕ)
  deriving DecidableEq, Repr

/-! ### Lengths -/

/-- The two bytes of a length, the low one first. -/
def leBytes (length : UInt16) : Bytes :=
  [UInt8.ofNat length.toNat, UInt8.ofNat (length.toNat / 256)]

/-- The length with the given two bytes. -/
def fromLeBytes (low high : UInt8) : UInt16 :=
  UInt16.ofNat (low.toNat + 256 * high.toNat)

theorem toNat_fromLeBytes (low high : UInt8) :
    (fromLeBytes low high).toNat = low.toNat + 256 * high.toNat := by
  have hlow := low.toNat_lt
  have hhigh := high.toNat_lt
  rw [fromLeBytes, UInt16.toNat_ofNat', Nat.mod_eq_of_lt (by omega)]

/-- A length that fits two bytes reads back. -/
theorem fromLeBytes_leBytes {length : ℕ} (hlength : length ≤ maxFrameLen) :
    ∃ low high, leBytes (UInt16.ofNat length) = [low, high] ∧
      (fromLeBytes low high).toNat = length := by
  refine ⟨_, _, rfl, ?_⟩
  unfold maxFrameLen at hlength
  rw [toNat_fromLeBytes, UInt16.toNat_ofNat', UInt8.toNat_ofNat', UInt8.toNat_ofNat']
  omega

/-- The bytes of a length that was read are the bytes it was read from. -/
theorem leBytes_fromLeBytes (low high : UInt8) :
    leBytes (UInt16.ofNat (fromLeBytes low high).toNat) = [low, high] := by
  have hlow := low.toNat_lt
  have hhigh := high.toNat_lt
  rw [UInt16.ofNat_toNat, leBytes, toNat_fromLeBytes]
  congr 1
  · rw [← UInt8.toNat_inj, UInt8.toNat_ofNat']
    omega
  · congr 1
    rw [← UInt8.toNat_inj, UInt8.toNat_ofNat']
    omega

/-! ### Encoding -/

/-- Append a body to `out` as a frame: the result, and `out` afterwards. -/
def encodeFrame (body out : Bytes) : Except FrameError Unit × Bytes :=
  if maxFrameLen < body.length then (.error .tooLong, out)
  else (.ok (), out ++ leBytes (UInt16.ofNat body.length) ++ body)

/-- One body in a fresh buffer. -/
def frame (body : Bytes) : Except FrameError Bytes :=
  let written := encodeFrame body []
  written.1.map fun _ ↦ written.2

/-- The bodies appended to `out` one after the other, as long as they are accepted. -/
def encodeAll (out : Bytes) : List Bytes → Except FrameError Bytes
  | [] => .ok out
  | body :: rest =>
    match encodeFrame body out with
    | (.ok _, written) => encodeAll written rest
    | (.error error, _) => .error error

/-- The bytes of a frame. -/
def framed (body : Bytes) : Bytes :=
  leBytes (UInt16.ofNat body.length) ++ body

theorem length_framed (body : Bytes) : (framed body).length = 2 + body.length := by
  rw [framed, List.length_append]
  rfl

/-- Bodies within the limit are all accepted, and their frames stand one after the other. -/
theorem encodeAll_eq {bodies : List Bytes} (hbodies : ∀ body ∈ bodies, body.length ≤ maxFrameLen)
    (out : Bytes) : encodeAll out bodies = .ok (out ++ bodies.flatMap framed) := by
  induction bodies generalizing out with
  | nil => rw [encodeAll, List.flatMap_nil, List.append_nil]
  | cons body rest ih =>
    have hbody := hbodies body List.mem_cons_self
    have hwritten : encodeFrame body out = (.ok (), out ++ framed body) := by
      rw [encodeFrame, if_neg (Nat.not_lt.mpr hbody), framed, List.append_assoc]
    simp only [encodeAll, hwritten]
    rw [ih (fun other hother ↦ hbodies other (List.mem_cons_of_mem _ hother)), List.flatMap_cons,
      List.append_assoc]

/-! ### Decoding -/

/-- How a computation that may index out of range, or run on, ends. -/
inductive Run (α : Type)
  | running
  | panicked
  | returned (value : α)
  deriving DecidableEq, Repr

/-- The slice from one index up to another, if it lies within the buffer. -/
def slice (buf : Bytes) (start «end» : ℕ) : Option Bytes :=
  if start ≤ «end» ∧ «end» ≤ buf.length then some ((buf.drop start).take («end» - start)) else none

/-- One round of the decoding loop: it returns, panics, or pushes a body and moves on. -/
inductive Round
  | returned (error : Option FrameError)
  | panicked
  | pushed (body : Bytes) (offset : ℕ)
  deriving DecidableEq, Repr

def decodeRound (buf : Bytes) (offset : ℕ) : Round :=
  if offset < buf.length then
    if buf.length - offset < 2 then .returned (some (.truncated offset))
    else
      match buf[offset]?, buf[offset + 1]? with
      | some low, some high =>
        let «end» := offset + 2 + (fromLeBytes low high).toNat
        if buf.length < «end» then .returned (some (.truncated offset))
        else
          match slice buf (offset + 2) «end» with
          | some body => .pushed body «end»
          | none => .panicked
      | _, _ => .panicked
  else .returned none

/-- The loop, for at most as many rounds as given. -/
def decodeLoop (buf : Bytes) : ℕ → ℕ → List Bytes → Run (Except FrameError (List Bytes))
  | 0, _, _ => .running
  | rounds + 1, offset, frames =>
    match decodeRound buf offset with
    | .returned none => .returned (.ok frames)
    | .returned (some error) => .returned (.error error)
    | .panicked => .panicked
    | .pushed body next => decodeLoop buf rounds next (frames ++ [body])

/-- Split a buffer of frames into their bodies. -/
def decodeFrames (buf : Bytes) : Run (Except FrameError (List Bytes)) :=
  decodeLoop buf (buf.length + 1) 0 []

/-! ### What stands at an offset -/

/-- A frame of which the end is missing, but not all of it. -/
def Cut (bytes : Bytes) : Prop :=
  bytes ≠ [] ∧ ∃ body missing, body.length ≤ maxFrameLen ∧ missing ≠ [] ∧
    bytes ++ missing = framed body

/-- Any bytes are none, start with a frame, or are a frame cut short. -/
theorem nil_or_framed_or_cut (bytes : Bytes) :
    bytes = [] ∨ (∃ body rest, body.length ≤ maxFrameLen ∧ bytes = framed body ++ rest) ∨
      Cut bytes := by
  match bytes with
  | [] => exact .inl rfl
  | [low] =>
    -- A first byte starts the frame of a body as long as it says.
    have hlow := low.toNat_lt
    refine .inr (.inr ⟨by simp, List.replicate low.toNat 0, 0 :: List.replicate low.toNat 0, ?_,
      by simp, ?_⟩)
    · rw [List.length_replicate, maxFrameLen]
      omega
    · have hlength : (fromLeBytes low 0).toNat = low.toNat := by
        rw [toNat_fromLeBytes]
        simp
      rw [framed, List.length_replicate, ← hlength, leBytes_fromLeBytes, hlength]
      rfl
  | low :: high :: tail =>
    have hbound : (fromLeBytes low high).toNat ≤ maxFrameLen := by
      have := (fromLeBytes low high).toNat_lt
      rw [maxFrameLen]
      omega
    by_cases hfits : (fromLeBytes low high).toNat ≤ tail.length
    · refine .inr (.inl ⟨tail.take (fromLeBytes low high).toNat,
        tail.drop (fromLeBytes low high).toNat, ?_, ?_⟩)
      · exact (List.length_take_le _ _).trans hbound
      · rw [framed, List.length_take, Nat.min_eq_left hfits, leBytes_fromLeBytes,
          List.append_assoc, List.take_append_drop]
        rfl
    · set lacking := (fromLeBytes low high).toNat - tail.length with hlacking
      have hlength : (tail ++ List.replicate lacking 0).length = (fromLeBytes low high).toNat := by
        rw [List.length_append, List.length_replicate]
        omega
      refine .inr (.inr ⟨by simp, tail ++ List.replicate lacking 0, List.replicate lacking 0,
        hlength.le.trans hbound, ?_, ?_⟩)
      · rw [Ne, List.replicate_eq_nil_iff]
        omega
      · rw [framed, hlength, leBytes_fromLeBytes]
        rfl

/-- Any bytes are whole frames and then nothing, or a frame cut short. -/
theorem exists_frames_append (bytes : Bytes) :
    ∃ (bodies : List Bytes) (rest : Bytes), bytes = bodies.flatMap framed ++ rest ∧
      (∀ body ∈ bodies, body.length ≤ maxFrameLen) ∧ (rest = [] ∨ Cut rest) := by
  obtain hnil | ⟨body, rest, hbody, hsplit⟩ | hcut := nil_or_framed_or_cut bytes
  · exact ⟨[], [], hnil, by simp, .inl rfl⟩
  · have hshorter : rest.length < bytes.length := by
      rw [hsplit, List.length_append, length_framed]
      omega
    obtain ⟨bodies, last, hrest, hbodies, hlast⟩ := exists_frames_append rest
    refine ⟨body :: bodies, last, ?_, ?_, hlast⟩
    · rw [hsplit, List.flatMap_cons, List.append_assoc, ← hrest]
    · rw [List.forall_mem_cons]
      exact ⟨hbody, hbodies⟩
  · exact ⟨[], bytes, rfl, by simp, .inr hcut⟩
termination_by bytes.length

/-! ### One round -/

section Rounds

variable (before : Bytes)

theorem decodeRound_nil : decodeRound before before.length = .returned none :=
  if_neg (Nat.lt_irrefl _)

/-- A round in front of a frame takes its body and moves past it. -/
theorem decodeRound_framed {body : Bytes} (hbody : body.length ≤ maxFrameLen) (rest : Bytes) :
    decodeRound (before ++ (framed body ++ rest)) before.length =
      .pushed body (before.length + 2 + body.length) := by
  obtain ⟨low, high, hbytes, hlength⟩ := fromLeBytes_leBytes hbody
  have htotal : (before ++ (framed body ++ rest)).length =
      before.length + (2 + body.length + rest.length) := by
    rw [List.length_append, List.length_append, length_framed]
  have hlow : (before ++ (framed body ++ rest))[before.length]? = some low := by
    simp [framed, hbytes]
  have hhigh : (before ++ (framed body ++ rest))[before.length + 1]? = some high := by
    simp [framed, hbytes]
  have hslice : slice (before ++ (framed body ++ rest)) (before.length + 2)
      (before.length + 2 + body.length) = some body := by
    rw [slice, if_pos (by omega), Nat.add_sub_cancel_left, ← List.drop_drop, List.drop_left' rfl,
      framed, hbytes]
    simp
  unfold decodeRound
  rw [if_pos (by omega), if_neg (by omega), hlow, hhigh]
  simp only [hlength, hslice]
  exact if_neg (by omega)

/-- A round in front of a frame that is cut short refuses it. -/
theorem decodeRound_cut {bytes : Bytes} (hcut : Cut bytes) :
    decodeRound (before ++ bytes) before.length = .returned (some (.truncated before.length)) := by
  obtain ⟨hne, body, missing, hbody, hmissing, hframe⟩ := hcut
  have hpos : 0 < bytes.length := List.length_pos_of_ne_nil hne
  have hlacking : 0 < missing.length := List.length_pos_of_ne_nil hmissing
  have hsum : bytes.length + missing.length = 2 + body.length := by
    rw [← List.length_append, hframe, length_framed]
  have htotal : (before ++ bytes).length = before.length + bytes.length := List.length_append
  unfold decodeRound
  rw [if_pos (by omega)]
  by_cases hshort : bytes.length < 2
  · rw [if_pos (by omega)]
  · obtain ⟨low, high, hbytes, hlength⟩ := fromLeBytes_leBytes hbody
    -- Both bytes of the length are there, and it counts what is missing too.
    have hat (index : ℕ) (hindex : index < bytes.length) :
        (before ++ bytes)[before.length + index]? = (framed body)[index]? := by
      rw [List.getElem?_append_right (by omega), Nat.add_sub_cancel_left, ← hframe,
        List.getElem?_append_left hindex]
    have hlow : (before ++ bytes)[before.length]? = some low := by
      refine (hat 0 hpos).trans ?_
      simp [framed, hbytes]
    have hhigh : (before ++ bytes)[before.length + 1]? = some high := by
      refine (hat 1 (by omega)).trans ?_
      simp [framed, hbytes]
    rw [if_neg (by omega), hlow, hhigh]
    simp only [hlength]
    exact if_pos (by omega)

/-! ### The loop -/

/-- Assumes: bodies within the limit. The loop takes the frames in front of it one by one. -/
theorem decodeLoop_frames {bodies : List Bytes}
    (hbodies : ∀ body ∈ bodies, body.length ≤ maxFrameLen) (rest : Bytes) (rounds : ℕ)
    (frames : List Bytes) :
    decodeLoop (before ++ (bodies.flatMap framed ++ rest)) (bodies.length + rounds) before.length
        frames =
      decodeLoop (before ++ bodies.flatMap framed ++ rest) rounds
        (before ++ bodies.flatMap framed).length (frames ++ bodies) := by
  induction bodies generalizing before frames with
  | nil => simp
  | cons body others ih =>
    obtain ⟨hbody, hothers⟩ := List.forall_mem_cons.mp hbodies
    have hnext : before.length + 2 + body.length = (before ++ framed body).length := by
      rw [List.length_append, length_framed, Nat.add_assoc]
    have hround := decodeRound_framed before hbody (others.flatMap framed ++ rest)
    have hloop := ih (before ++ framed body) hothers (frames ++ [body])
    rw [List.flatMap_cons, List.append_assoc, List.length_cons,
      show others.length + 1 + rounds = others.length + rounds + 1 by omega, decodeLoop, hround]
    simp only [hnext]
    rw [← List.append_assoc before (framed body), hloop]
    simp only [List.append_assoc, List.cons_append, List.nil_append]

end Rounds

theorem length_le_length_flatMap (bodies : List Bytes) :
    bodies.length ≤ (bodies.flatMap framed).length := by
  induction bodies with
  | nil => exact Nat.zero_le _
  | cons body others ih =>
    rw [List.flatMap_cons, List.length_append, length_framed, List.length_cons]
    omega

section Frames

variable {bodies : List Bytes} (hbodies : ∀ body ∈ bodies, body.length ≤ maxFrameLen)
include hbodies

/-- Decoding starts by taking the whole frames in front, and has rounds left after them. -/
theorem decodeFrames_eq_decodeLoop (rest : Bytes) :
    ∃ rounds, decodeFrames (bodies.flatMap framed ++ rest) =
      decodeLoop (bodies.flatMap framed ++ rest) (rounds + 1) (bodies.flatMap framed).length
        bodies := by
  have hrounds := length_le_length_flatMap bodies
  have hfuel : (bodies.flatMap framed ++ rest).length + 1 =
      bodies.length + ((bodies.flatMap framed ++ rest).length - bodies.length + 1) := by
    rw [List.length_append]
    omega
  refine ⟨(bodies.flatMap framed ++ rest).length - bodies.length, ?_⟩
  rw [decodeFrames, hfuel]
  exact decodeLoop_frames [] hbodies rest _ []

theorem decodeFrames_flatMap :
    decodeFrames (bodies.flatMap framed) = .returned (.ok bodies) := by
  obtain ⟨rounds, hloop⟩ := decodeFrames_eq_decodeLoop hbodies []
  rw [List.append_nil] at hloop
  rw [hloop, decodeLoop, decodeRound_nil]

/-- What is encoded decodes to the same bodies. -/
theorem decodeFrames_encodeAll :
    ∃ buf, encodeAll [] bodies = .ok buf ∧ decodeFrames buf = .returned (.ok bodies) :=
  ⟨bodies.flatMap framed, encodeAll_eq hbodies [], decodeFrames_flatMap hbodies⟩

theorem decodeFrames_flatMap_cut {rest : Bytes} (hcut : Cut rest) :
    decodeFrames (bodies.flatMap framed ++ rest) =
      .returned (.error (.truncated (bodies.flatMap framed).length)) := by
  obtain ⟨rounds, hloop⟩ := decodeFrames_eq_decodeLoop hbodies rest
  rw [hloop, decodeLoop, decodeRound_cut _ hcut]

/-- A part of a buffer of frames that does not end where a frame does is some whole frames and a
piece of the next. -/
theorem exists_cut_of_kept {kept : Bytes} (hkept : kept <+: bodies.flatMap framed)
    (hinside : ∀ whole, whole <+: bodies → whole.flatMap framed ≠ kept) :
    ∃ before body after rest, bodies = before ++ body :: after ∧
      kept = before.flatMap framed ++ rest ∧ Cut rest ∧ rest <+: framed body ∧
      rest.length < (framed body).length := by
  induction bodies generalizing kept with
  | nil => exact absurd (List.prefix_nil.mp hkept).symm (hinside [] List.nil_prefix)
  | cons body others ih =>
    obtain ⟨hbody, hothers⟩ := List.forall_mem_cons.mp hbodies
    rw [List.flatMap_cons] at hkept
    by_cases hshort : kept.length < (framed body).length
    · have hpiece : kept <+: framed body :=
        List.prefix_of_prefix_length_le hkept (List.prefix_append _ _) hshort.le
      obtain ⟨missing, hmissing⟩ := hpiece
      refine ⟨[], body, others, kept, rfl, rfl, ⟨?_, body, missing, hbody, ?_, hmissing⟩,
        ⟨missing, hmissing⟩, hshort⟩
      · exact (hinside [] List.nil_prefix).symm
      · rintro rfl
        rw [List.append_nil] at hmissing
        exact absurd (congrArg List.length hmissing) hshort.ne
    · obtain ⟨tail, rfl⟩ : framed body <+: kept :=
        List.prefix_of_prefix_length_le (List.prefix_append _ _) hkept (Nat.not_lt.mp hshort)
      have hrest : tail <+: others.flatMap framed := (List.prefix_append_right_inj _).mp hkept
      obtain ⟨before, cutBody, after, rest, rfl, rfl, hcut, hpiece, hless⟩ :=
        ih hothers hrest fun whole hwhole heq ↦ by
          refine hinside (body :: whole) (List.cons_prefix_cons.mpr ⟨rfl, hwhole⟩) ?_
          rw [List.flatMap_cons, heq]
      refine ⟨body :: before, cutBody, after, rest, rfl, ?_, hcut, hpiece, hless⟩
      rw [List.flatMap_cons, List.append_assoc]

end Frames

/-- Every buffer is decoded: no index or slice is out of range, and the loop ends. -/
theorem exists_decodeFrames (buf : Bytes) : ∃ result, decodeFrames buf = .returned result := by
  obtain ⟨bodies, rest, rfl, hbodies, rfl | hcut⟩ := exists_frames_append buf
  · rw [List.append_nil]
    exact ⟨_, decodeFrames_flatMap hbodies⟩
  · exact ⟨_, decodeFrames_flatMap_cut hbodies hcut⟩

/-- What decodes is the encoding of its bodies, byte for byte. -/
theorem encodeAll_of_decodeFrames {buf : Bytes} {frames : List Bytes}
    (hdecode : decodeFrames buf = .returned (.ok frames)) :
    (∀ body ∈ frames, body.length ≤ maxFrameLen) ∧ encodeAll [] frames = .ok buf := by
  obtain ⟨bodies, rest, rfl, hbodies, rfl | hcut⟩ := exists_frames_append buf
  · rw [List.append_nil] at hdecode ⊢
    rw [decodeFrames_flatMap hbodies, Run.returned.injEq, Except.ok.injEq] at hdecode
    rw [← hdecode]
    exact ⟨hbodies, encodeAll_eq hbodies []⟩
  · rw [decodeFrames_flatMap_cut hbodies hcut] at hdecode
    cases hdecode

/-! ### Cut buffers -/

/-- The bytes end where a frame does: they are the encoding of the first few bodies. -/
def EndsAtFrame (bodies : List Bytes) (kept : Bytes) : Prop :=
  ∃ whole, whole <+: bodies ∧ encodeAll [] whole = .ok kept

/-- The bytes end inside a frame that starts at `offset`: the bodies before it are encoded in
`offset` bytes, and the frame itself goes on behind the end. -/
def EndsInsideFrame (bodies : List Bytes) (kept : Bytes) (offset : ℕ) : Prop :=
  ∃ before body after start through, bodies = before ++ body :: after ∧
    encodeAll [] before = .ok start ∧ encodeAll start [body] = .ok through ∧
    offset = start.length ∧ start <+: kept ∧ kept <+: through ∧
    start.length < kept.length ∧ kept.length < through.length

/-- Assumes: bodies within the limit. A buffer cut inside a frame fails at the start of that
frame. -/
theorem decodeFrames_cut {bodies : List Bytes}
    (hbodies : ∀ body ∈ bodies, body.length ≤ maxFrameLen) {buf kept : Bytes}
    (hbuf : encodeAll [] bodies = .ok buf) (hkept : kept <+: buf)
    (hinside : ¬ EndsAtFrame bodies kept) :
    ∃ offset, EndsInsideFrame bodies kept offset ∧
      decodeFrames kept = .returned (.error (.truncated offset)) := by
  rw [encodeAll_eq hbodies [], Except.ok.injEq, List.nil_append] at hbuf
  have hwhole (whole : List Bytes) (hpart : whole <+: bodies) :
      whole.flatMap framed ≠ kept := fun heq ↦ by
    refine hinside ⟨whole, hpart, ?_⟩
    rw [← heq]
    exact encodeAll_eq (fun body hbody ↦ hbodies body (hpart.subset hbody)) []
  obtain ⟨before, body, after, rest, rfl, rfl, hcut, hpiece, hless⟩ :=
    exists_cut_of_kept hbodies (hbuf ▸ hkept) hwhole
  have hbefore : ∀ body ∈ before, body.length ≤ maxFrameLen :=
    fun body hbody ↦ hbodies body (List.mem_append_left _ hbody)
  have hbody : ∀ other ∈ [body], other.length ≤ maxFrameLen :=
    List.forall_mem_singleton.mpr (hbodies body (List.mem_append_right _ List.mem_cons_self))
  refine ⟨_, ⟨before, body, after, before.flatMap framed, before.flatMap framed ++ framed body,
    rfl, encodeAll_eq hbefore [], ?_, rfl, List.prefix_append _ _, ?_, ?_, ?_⟩,
    decodeFrames_flatMap_cut hbefore hcut⟩
  · rw [encodeAll_eq hbody, List.flatMap_singleton]
  · exact (List.prefix_append_right_inj _).mpr hpiece
  · rw [List.length_append]
    have := List.length_pos_of_ne_nil hcut.1
    omega
  · rw [List.length_append, List.length_append]
    omega

/-! ### The format -/

/-- Framing is a bijection between lists of bodies within the limit and the buffers that decode.
What is encoded decodes to the same bodies, and cut inside a frame it fails where that frame starts;
what decodes encodes to the same buffer; a longer body is refused and nothing is written for it; and
decoding returns on every buffer. -/
theorem framing_bijective :
    (∀ bodies : List Bytes, (∀ body ∈ bodies, body.length ≤ maxFrameLen) →
      ∃ buf, encodeAll [] bodies = .ok buf ∧ decodeFrames buf = .returned (.ok bodies) ∧
        ∀ kept, kept <+: buf → ¬ EndsAtFrame bodies kept →
          ∃ offset, EndsInsideFrame bodies kept offset ∧
            decodeFrames kept = .returned (.error (.truncated offset))) ∧
    (∀ buf frames, decodeFrames buf = .returned (.ok frames) →
      (∀ body ∈ frames, body.length ≤ maxFrameLen) ∧ encodeAll [] frames = .ok buf) ∧
    (∀ body out, maxFrameLen < body.length → encodeFrame body out = (.error .tooLong, out)) ∧
    ∀ buf, ∃ result, decodeFrames buf = .returned result := by
  refine ⟨fun bodies hbodies ↦ ?_, fun buf frames hdecode ↦ ?_, fun body out hlong ↦ if_pos hlong,
    exists_decodeFrames⟩
  · obtain ⟨buf, hbuf, hdecode⟩ := decodeFrames_encodeAll hbodies
    exact ⟨buf, hbuf, hdecode, fun kept hkept ↦ decodeFrames_cut hbodies hbuf hkept⟩
  · exact encodeAll_of_decodeFrames hdecode

/-- Two frames, cut in the length of the second. -/
theorem framing_bijective_on_two_frames :
    encodeAll [] [[1, 2], []] = .ok [2, 0, 1, 2, 0, 0] ∧
      ∃ offset, EndsInsideFrame [[1, 2], []] [2, 0, 1, 2, 0] offset ∧
        decodeFrames [2, 0, 1, 2, 0] = .returned (.error (.truncated offset)) := by
  have hbodies : ∀ body ∈ ([[1, 2], []] : List Bytes), body.length ≤ maxFrameLen := by decide
  have hencode : encodeAll [] [[1, 2], []] = .ok [2, 0, 1, 2, 0, 0] := by decide +kernel
  have hinside : ¬ EndsAtFrame [[1, 2], []] [2, 0, 1, 2, 0] := by
    have hinits : ∀ whole ∈ ([[1, 2], []] : List Bytes).inits,
        encodeAll [] whole ≠ .ok [2, 0, 1, 2, 0] := by
      decide +kernel
    rintro ⟨whole, hwhole, hencoded⟩
    exact hinits whole ((List.mem_inits _ _).mpr hwhole) hencoded
  obtain ⟨buf, hbuf, -, hcuts⟩ := framing_bijective.1 _ hbodies
  obtain rfl : buf = [2, 0, 1, 2, 0, 0] := Except.ok.inj (hbuf.symm.trans hencode)
  exact ⟨hencode, hcuts _ (by decide) hinside⟩

end Tollgate
