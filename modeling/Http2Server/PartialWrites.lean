import Http2Server.Requests

/-!
# Short writes

`sendData` takes an `SSL_write` of fewer bytes than it was given for a success
and only logs it, though partial writes are enabled. `complete_iff` says when an
answer that succeeded has gone out whole.
-/

namespace Http2Server.FrameHandler

open Hpack

/-- Every write for the buffers takes all of its bytes. -/
def Whole (env : Env) : Nat → List Bytes → Prop
  | _, [] => True
  | n, buffer :: rest => (buffer.length : Int) ≤ env.sslWrite n buffer ∧ Whole env (n + 1) rest

instance decidableWhole (env : Env) : ∀ n buffers, Decidable (Whole env n buffers)
  | _, [] => inferInstanceAs (Decidable True)
  | n, buffer :: rest =>
    have := decidableWhole env (n + 1) rest
    inferInstanceAs (Decidable ((buffer.length : Int) ≤ env.sslWrite n buffer ∧ _))

/-- The bytes that go out for the buffers. -/
def writtenFor (env : Env) (weight : Int) (n : Nat) (buffers : List Bytes) : Bytes :=
  (Session.attempts env weight n buffers).flatMap Sent.written

theorem writtenFor_passed {env : Env} {n : Nat} {buffer : Bytes}
    (h : 0 ≤ env.sslWrite n buffer) (weight : Int) (rest : List Bytes) :
    writtenFor env weight n (buffer :: rest) =
      buffer.take (env.sslWrite n buffer).toNat ++ writtenFor env weight (n + 1) rest := by
  rw [writtenFor, Session.attempts_passed h, List.flatMap_cons]
  rfl

/-- No more goes out than there is. -/
theorem length_writtenFor {env : Env} (weight : Int) {n : Nat} {buffers : List Bytes}
    (h : Session.Succeed env n buffers) :
    (writtenFor env weight n buffers).length ≤ buffers.flatten.length := by
  induction buffers generalizing n with
  | nil => exact Nat.le_refl _
  | cons buffer rest ih =>
    have later := ih h.2
    rw [writtenFor_passed h.1, List.flatten_cons, List.length_append, List.length_append,
      List.length_take]
    omega

/-- Where no write fails, all of the buffers go out if none is short. -/
theorem writtenFor_iff {env : Env} (weight : Int) {n : Nat} {buffers : List Bytes}
    (h : Session.Succeed env n buffers) :
    writtenFor env weight n buffers = buffers.flatten ↔ Whole env n buffers := by
  induction buffers generalizing n with
  | nil => exact iff_of_true rfl trivial
  | cons buffer rest ih =>
    rw [writtenFor_passed h.1, List.flatten_cons, Whole]
    by_cases whole : (buffer.length : Int) ≤ env.sslWrite n buffer
    · rw [List.take_of_length_le (by omega), List.append_cancel_left_eq, ih h.2]
      exact (and_iff_right whole).symm
    · refine iff_of_false ?_ fun both => whole both.1
      intro same
      have lengths := congrArg List.length same
      have later := length_writtenFor weight h.2
      rw [List.length_append, List.length_append, List.length_take] at lengths
      have passed := h.1
      omega

/-- The buffers of `encodeFrames` for a request that has content. -/
def answerBuffers (env : Env) (strm : Stream) : Option (List Bytes) :=
  (strm.headers.first (ascii ":path")).bind fun path =>
    (env.binder.getContent env.files path).bind fun content =>
      if content.data = [] then none else okBuffers strm path content

/-- An answer succeeds only where there are buffers, and no write of them fails. -/
theorem respondGet_answer (env : Env) (s : Session) (strm : Stream) :
    ((respondGet env s strm).1 = .returned true ↔
      ∃ buffers, answerBuffers env strm = some buffers ∧
        Session.Succeed env s.sent.length buffers) ∧
      ∀ buffers, answerBuffers env strm = some buffers →
        (respondGet env s strm).2 =
          (s.log (.respondGet strm.id)).afterSend env strm.weight buffers := by
  unfold answerBuffers
  cases requested : strm.headers.first (ascii ":path") with
  | none => simp [respondGet, requested]
  | some path =>
    rw [respondGet_eq env s strm requested, Option.bind_some]
    cases env.binder.getContent env.files path with
    | none => simp
    | some content =>
      rw [Option.bind_some]
      by_cases empty : content.data = []
      · simp [empty]
      · simp only [empty, ↓reduceIte]
        cases okBuffers strm path content with
        | none => simp
        | some buffers =>
          simp only [Option.some.injEq, exists_eq_left', forall_eq', and_true, Exit.returned.injEq]
          exact decide_eq_true_iff

/-- If `respondGet` returns true, the buffers have gone out whole. -/
def Complete (env : Env) (s : Session) (strm : Stream) : Prop :=
  (respondGet env s strm).1 = .returned true →
    ∃ buffers, answerBuffers env strm = some buffers ∧
      (respondGet env s strm).2.written = s.written ++ buffers.flatten

/-- **Short writes.** An answer that succeeds is complete exactly where no write
of its buffers is short, or one of them fails. -/
theorem complete_iff (env : Env) (s : Session) (strm : Stream) :
    Complete env s strm ↔ ∀ buffers, answerBuffers env strm = some buffers →
      Session.Succeed env s.sent.length buffers → Whole env s.sent.length buffers := by
  obtain ⟨succeeds, after⟩ := respondGet_answer env s strm
  rw [Complete, succeeds]
  cases packed : answerBuffers env strm with
  | none => simp
  | some buffers =>
    have written : (respondGet env s strm).2.written =
        s.written ++ writtenFor env strm.weight s.sent.length buffers := by
      rw [after buffers packed, Session.written, Session.afterSend, List.flatMap_append]
      rfl
    simp only [Option.some.injEq, exists_eq_left', forall_eq', written, List.append_cancel_left_eq]
    exact forall_congr' fun ok => writtenFor_iff strm.weight ok

/-- A request for `/`. -/
def rootRequest : Stream := { id := 1, headers := [⟨ascii ":path", ascii "/"⟩] }

/-- The first write takes nine bytes, the others all of theirs. -/
def shortEnv : Env :=
  { siteEnv with sslWrite := fun n data => if n = 0 then 9 else data.length }

theorem rootRequest_incomplete : ¬ Complete shortEnv {} rootRequest := by
  intro complete
  have returned : (respondGet shortEnv {} rootRequest).1 = .returned true := by decide +kernel
  obtain ⟨buffers, packed, written⟩ := complete returned
  have short : (respondGet shortEnv {} rootRequest).2.written.length <
      ((answerBuffers shortEnv rootRequest).getD []).flatten.length := by decide +kernel
  rw [packed, written] at short
  exact absurd short (by simp [Session.written])

end Http2Server.FrameHandler
