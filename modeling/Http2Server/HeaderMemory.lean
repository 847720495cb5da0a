import Http2Server.Hpack.Expansion
import Http2Server.Memory
import Http2Server.OneContext
import Mathlib.Algebra.BigOperators.Ring.Finset

/-!
# The headers that a connection holds

A block whose decoding throws stays where it is, and its headers with the stream: the next
HEADERS frame has it decoded once more. So there can be more headers than bytes, but no more than
there are bytes for every frame that ends a block.

- `handleFrame_heads`: what a frame does to the headers of a stream.
- `Afforded.handleFrame`: what is paid for before a frame and with it.
- `headers_le_received`: how many headers there are, and how long.
-/

namespace Http2Server

open FrameHandler Hpack

/-- The headers of a stream, none if it is unknown. -/
def Session.heads (s : Session) (sid : Nat) : Headers :=
  ((s.streams sid).map Stream.headers).getD []

/-- The header block that a stream has not completed yet. -/
def Session.fragments (s : Session) (sid : Nat) : Bytes :=
  ((s.streams sid).map Stream.headerFragments).getD []

/-- A frame pays for its payload, and nine bytes if it may end a block. -/
def Frame.paid (f : Frame) : Nat := f.fee fun f => f.hasFlag Flag.endHeaders = true

/-! ## One frame -/

section
variable {env : Env} {s : Session} {f : Frame}

theorem completed_heads {strm : Stream} (completes : completed s f = some strm) :
    strm.headers = s.heads f.sid ∧ strm.headerFragments = s.fragments f.sid ++ f.payload := by
  obtain ⟨_, ⟨_, rfl⟩ | ⟨_, old, found, _, rfl⟩⟩ := completed_cases completes
  · unfold openStream Session.heads Session.fragments
    cases s.streams f.sid <;> exact ⟨rfl, rfl⟩
  · simp [Session.heads, Session.fragments, found, continueStream]

theorem received_heads (strm : Stream) :
    (received s strm).headers = strm.headers ++ (decoded s strm).headers ∧
      (received s strm).headerFragments.length ≤ strm.headerFragments.length := by
  unfold received
  dsimp only
  split
  · exact ⟨rfl, Nat.le_refl _⟩
  · exact ⟨rfl, Nat.zero_le _⟩

/-- The headers that a frame leaves its stream with. -/
theorem turns_heads {left : Option Stream} (turns : Turns s f left) :
    (left.map Stream.headers).getD [] = [] ∨
      (left.map Stream.headers).getD [] = s.heads f.sid ∨
      ∃ strm, completed s f = some strm ∧
        (left.map Stream.headers).getD [] = s.heads f.sid ++ (decoded s strm).headers := by
  have known {strm : Stream} (found : s.streams f.sid = some strm) :
      s.heads f.sid = strm.headers := by
    rw [Session.heads, found]
    rfl
  cases turns with
  | same => exact .inr (.inl rfl)
  | data type found => exact .inr (.inl (known found).symm)
  | priority type read found => exact .inr (.inl (known found).symm)
  | opened type =>
    refine .inr (.inl ?_)
    unfold openStream Session.heads
    cases s.streams f.sid <;> rfl
  | continued type found => exact .inr (.inl (known found).symm)
  | @block strm completes =>
    refine .inr (.inr ⟨strm, completes, ?_⟩)
    rw [Option.map_some, Option.getD_some, (received_heads strm).1, (completed_heads completes).1]
  | ended ends => exact .inl rfl

theorem turns_fragments {left : Option Stream} (turns : Turns s f left) :
    ((left.map Stream.headerFragments).getD []).length ≤
      (s.fragments f.sid).length + f.payload.length := by
  have known {strm : Stream} (found : s.streams f.sid = some strm) :
      s.fragments f.sid = strm.headerFragments := by
    rw [Session.fragments, found]
    rfl
  cases turns with
  | same => exact Nat.le_add_right _ _
  | data type found =>
    rw [known found]
    exact Nat.le_add_right _ _
  | priority type read found =>
    rw [known found]
    exact Nat.le_add_right _ _
  | opened type =>
    rw [← List.length_append]
    unfold openStream Session.fragments
    cases s.streams f.sid <;> exact Nat.le_refl _
  | continued type found =>
    rw [known found, ← List.length_append]
    exact Nat.le_refl _
  | @block strm completes =>
    rw [← List.length_append, ← (completed_heads completes).2]
    exact (received_heads strm).2
  | ended ends => exact Nat.zero_le _

/-- A frame adds headers to its own stream only, those of the block that it completes. -/
theorem handleFrame_heads (env : Env) (s : Session) (f : Frame) (sid : Nat) :
    (handleFrame env s f).2.heads sid = [] ∨
      (handleFrame env s f).2.heads sid = s.heads sid ∨
      sid = f.sid ∧ ∃ strm, completed s f = some strm ∧
        (handleFrame env s f).2.heads sid = s.heads sid ++ (decoded s strm).headers := by
  by_cases own : sid = f.sid
  · subst own
    have turns := dispatch_turns env (s.log (.handleFrame f)) f
    obtain none | same | ⟨strm, completes, more⟩ := turns_heads turns
    · exact .inl none
    · exact .inr (.inl same)
    · exact .inr (.inr ⟨rfl, strm, completes, more⟩)
  · by_cases away : f.type = FrameType.goAway.code
    · refine .inl ?_
      rw [handleFrame, dispatch, away, FrameType.ofCode_code]
      rfl
    · refine .inr (.inl ?_)
      have other : (handleFrame env s f).2.streams sid = s.streams sid :=
        dispatch_other env (s.log (.handleFrame f)) f own away
      rw [Session.heads, other, Session.heads]

theorem handleFrame_fragments (env : Env) (s : Session) (f : Frame) (sid : Nat) :
    ((handleFrame env s f).2.fragments sid).length ≤
      (s.fragments sid).length + f.payload.length := by
  by_cases own : sid = f.sid
  · subst own
    exact turns_fragments (s := s.log (.handleFrame f)) (dispatch_turns env _ f)
  · by_cases away : f.type = FrameType.goAway.code
    · have gone : (handleFrame env s f).2.fragments sid = [] := by
        rw [handleFrame, dispatch, away, FrameType.ofCode_code]
        rfl
      rw [gone]
      exact Nat.zero_le _
    · have other : (handleFrame env s f).2.streams sid = s.streams sid :=
        dispatch_other env (s.log (.handleFrame f)) f own away
      rw [Session.fragments, other]
      exact Nat.le_add_right _ _

/-- How many headers a frame adds. -/
def grown (s : Session) (f : Frame) : Nat :=
  ((completed s f).map fun strm => (decoded s strm).headers.length).getD 0

theorem handleFrame_heads_length (env : Env) (s : Session) (f : Frame) (sid : Nat) :
    ((handleFrame env s f).2.heads sid).length ≤
      (s.heads sid).length + if sid = f.sid then grown s f else 0 := by
  obtain none | same | ⟨rfl, strm, completes, more⟩ := handleFrame_heads env s f sid
  · rw [none]
    exact Nat.zero_le _
  · rw [same]
    exact Nat.le_add_right _ _
  · rw [more, List.length_append, if_pos rfl, grown, completes]
    exact Nat.le_refl _

theorem handleFrame_heads_total (env : Env) (s : Session) (f : Frame) (sids : Finset Nat) :
    ∑ sid ∈ sids, ((handleFrame env s f).2.heads sid).length ≤
      ∑ sid ∈ sids, (s.heads sid).length + grown s f := by
  calc ∑ sid ∈ sids, ((handleFrame env s f).2.heads sid).length
      ≤ ∑ sid ∈ sids, ((s.heads sid).length + if sid = f.sid then grown s f else 0) :=
        Finset.sum_le_sum fun sid _ => handleFrame_heads_length env s f sid
    _ = ∑ sid ∈ sids, (s.heads sid).length + if f.sid ∈ sids then grown s f else 0 := by
        rw [Finset.sum_add_distrib, Finset.sum_ite_eq']
    _ ≤ ∑ sid ∈ sids, (s.heads sid).length + grown s f := by
        split <;> omega

/-! ## What is paid for -/

/-- What so many bytes can pay for. -/
structure Afforded (paid : Nat) (s : Session) : Prop where
  fragments : ∀ sid, (s.fragments sid).length ≤ paid
  few : ∀ sids : Finset Nat, 9 * ∑ sid ∈ sids, (s.heads sid).length ≤ paid ^ 2
  strings : ∀ sid, ∀ h ∈ s.heads sid, h.Within (8 * paid + 135)
  table : ∀ h ∈ s.hpackDecoder.dynamic, h.Within (8 * paid + 135)

variable {paid : Nat}

theorem Afforded.more {paid' : Nat} (afforded : Afforded paid s) (wider : paid ≤ paid') :
    Afforded paid' s where
  fragments sid := (afforded.fragments sid).trans wider
  few sids := (afforded.few sids).trans (Nat.pow_le_pow_left wider 2)
  strings sid h member := (afforded.strings sid h member).mono (by omega)
  table h member := (afforded.table h member).mono (by omega)

/-- The block that a frame completes. -/
theorem Afforded.block (afforded : Afforded paid s) {strm : Stream}
    (completes : completed s f = some strm) :
    (∀ h ∈ (decoded s strm).headers, h.Within (8 * (paid + f.paid) + 135)) ∧
      (∀ h ∈ (decoded s strm).table.dynamic, h.Within (8 * (paid + f.paid) + 135)) ∧
      (decoded s strm).headers.length ≤ paid + f.paid := by
  have before := afforded.fragments f.sid
  have length : strm.headerFragments.length ≤ paid + f.paid := by
    rw [(completed_heads completes).2, List.length_append, Frame.paid, Frame.fee]
    omega
  have table : ∀ h ∈ s.hpackDecoder.dynamic, h.Within (8 * (paid + f.paid) + 135) :=
    fun h member => (afforded.table h member).mono (by omega)
  have small : 8 * strm.headerFragments.length ≤ 8 * (paid + f.paid) + 135 := by omega
  obtain ⟨headers, entries, many⟩ := decodeLowmem_within (by omega) small table
  exact ⟨headers, entries, many.trans length⟩

theorem Afforded.grown (afforded : Afforded paid s) :
    9 * grown s f ≤ f.paid * (paid + f.paid) := by
  unfold Http2Server.grown
  cases completes : completed s f with
  | none => exact Nat.zero_le _
  | some strm =>
    obtain ⟨_, _, many⟩ := afforded.block completes
    have nine : 9 ≤ f.paid := by
      rw [Frame.paid, Frame.fee, if_pos (completed_cases completes).1]
      exact Nat.le_add_right _ _
    exact Nat.mul_le_mul nine many

/-- One frame. -/
theorem Afforded.handleFrame (env : Env) (afforded : Afforded paid s) (f : Frame) :
    Afforded (paid + f.paid) (FrameHandler.handleFrame env s f).2 := by
  constructor
  · intro sid
    have before := afforded.fragments sid
    have after := handleFrame_fragments env s f sid
    have payload : f.payload.length ≤ f.paid := Nat.le_add_left _ _
    omega
  · intro sids
    have before := afforded.few sids
    have added := afforded.grown (f := f)
    have total := handleFrame_heads_total env s f sids
    have square : (paid + f.paid) ^ 2 = paid ^ 2 + f.paid * (paid + f.paid) + paid * f.paid := by
      ring
    omega
  · intro sid
    have before : ∀ h ∈ s.heads sid, h.Within (8 * (paid + f.paid) + 135) :=
      fun h member => (afforded.strings sid h member).mono (by omega)
    obtain none | same | ⟨_, strm, completes, more⟩ := handleFrame_heads env s f sid
    · simp [none]
    · rwa [same]
    · rw [more, List.forall_mem_append]
      exact ⟨before, (afforded.block completes).1⟩
  · cases completes : completed s f with
    | none =>
      rw [handleFrame_no_block completes]
      exact fun h member => (afforded.table h member).mono (by omega)
    | some strm =>
      rw [handleFrame_table completes]
      exact (afforded.block completes).2.1

theorem Afforded.handleFrames (env : Env) (fs : List Frame) (afforded : Afforded paid s) :
    Afforded (paid + (fs.map Frame.paid).sum) (FrameHandler.handleFrames env fs s).2 := by
  induction fs generalizing s paid with
  | nil => exact afforded
  | cons f fs ih =>
    have first := afforded.handleFrame env f
    rw [FrameHandler.handleFrames, List.map_cons, List.sum_cons, ← Nat.add_assoc]
    rcases handled : FrameHandler.handleFrame env s f with ⟨_ | _ | _, s'⟩ <;> rw [handled] at first
    · exact ih first
    · exact first.more (Nat.le_add_right _ _)
    · exact first.more (Nat.le_add_right _ _)

theorem Afforded.same {s' : Session} (afforded : Afforded paid s)
    (streams : s'.streams = s.streams) (table : s'.hpackDecoder = s.hpackDecoder) :
    Afforded paid s' := by
  have heads (sid : Nat) : s'.heads sid = s.heads sid := by
    rw [Session.heads, streams, Session.heads]
  have fragments (sid : Nat) : s'.fragments sid = s.fragments sid := by
    rw [Session.fragments, streams, Session.fragments]
  constructor
  · simpa only [fragments] using afforded.fragments
  · simpa only [heads] using afforded.few
  · simpa only [heads] using afforded.strings
  · simpa only [table] using afforded.table

end

/-! ## Connections -/

theorem region_kept (env : Env) (c : Client) (data : Bytes) :
    (region env c data).1.streams = c.session.streams ∧
      (region env c data).1.hpackDecoder = c.session.hpackDecoder := by
  unfold region
  dsimp only
  split
  · unfold applySettings sendFrame
    split <;> exact ⟨rfl, rfl⟩
  · exact ⟨rfl, rfl⟩

section
variable (env : Env) {paid : Nat} {c : Client}

theorem Afforded.doRequest (afforded : Afforded paid c.session) {read : ReadResult}
    (fits : read.Fits) :
    Afforded (paid + read.received) (Http2Server.doRequest env c read).2.session := by
  cases read with
  | failed errno =>
    rw [Http2Server.doRequest]
    dsimp only
    split <;> exact afforded.same rfl rfl
  | closed => exact afforded.same rfl rfl
  | bytes data =>
    obtain ⟨buffer, whole⟩ := doRequest_bytes env c data
    obtain ⟨streams, table⟩ := region_kept env c data
    have before := afforded.same streams table
    rw [whole]
    split
    · exact before.more (Nat.le_add_right _ _)
    · next frames parsed =>
      have inside := length_region env c data
      have fit : data.length ≤ 4096 := fits
      have other : ¬ ({} : Frame).hasFlag Flag.endHeaders = true := by decide
      have fees : (frames.map Frame.paid).sum ≤ (region env c data).2.length :=
        Frame.fee_toFrames other (by omega) parsed
      exact (before.handleFrames env frames).more
        (Nat.add_le_add_left (fees.trans inside) paid)

theorem Afforded.doRequests {reads : List ReadResult} (fit : ∀ read ∈ reads, read.Fits)
    (afforded : Afforded paid c.session) :
    Afforded (paid + (reads.map ReadResult.received).sum)
      (Http2Server.doRequests env reads c).2.session := by
  induction reads generalizing c paid with
  | nil => exact afforded
  | cons read reads ih =>
    rw [List.forall_mem_cons] at fit
    have first := afforded.doRequest env fit.1
    rw [Http2Server.doRequests, List.map_cons, List.sum_cons, ← Nat.add_assoc]
    rcases done : Http2Server.doRequest env c read with ⟨_ | _ | _, c'⟩ <;> rw [done] at first
    · exact ih fit.2 first
    · exact first.more (Nat.le_add_right _ _)
    · exact first.more (Nat.le_add_right _ _)

end

theorem afforded_new : Afforded 0 {} where
  fragments sid := Nat.le_refl _
  few sids := by
    have none : ∑ sid ∈ sids, (({} : Session).heads sid).length = 0 :=
      Finset.sum_eq_zero fun _ _ => rfl
    rw [none]
    exact Nat.zero_le _
  strings sid h member := by cases member
  table h member := by cases member

/-- The bytes of names and values. -/
def Headers.bytes (hs : Headers) : Nat := (hs.map fun h => h.name.length + h.value.length).sum

theorem Headers.bytes_le {limit : Nat} {hs : Headers} (within : ∀ h ∈ hs, h.Within limit) :
    5 * hs.bytes ≤ 2 * limit * hs.length := by
  induction hs with
  | nil => exact Nat.zero_le _
  | cons h hs ih =>
    rw [List.forall_mem_cons] at within
    obtain ⟨⟨name, value⟩, others⟩ := within
    have rest := ih others
    rw [bytes, List.map_cons, List.sum_cons, ← bytes, List.length_cons, Nat.mul_succ]
    omega

/-- **Headers.** However a connection goes and ends: with R bytes received, there are R² / 9
headers at most, on any number of streams, none of their strings is longer than 8/5 R + 27 bytes,
and so they are no more than R² (16 R + 270) / 45 bytes. -/
theorem headers_le_received (env : Env) (reads : List ReadResult)
    (fit : ∀ read ∈ reads, read.Fits) (sids : Finset Nat) :
    let s := (doRequests env reads {}).2.session
    let R := (reads.map ReadResult.received).sum
    9 * ∑ sid ∈ sids, (s.heads sid).length ≤ R ^ 2 ∧
      (∀ sid, ∀ h ∈ s.heads sid, h.Within (8 * R + 135)) ∧
      45 * ∑ sid ∈ sids, (s.heads sid).bytes ≤ (16 * R + 270) * R ^ 2 := by
  intro s R
  have afforded : Afforded R s := by
    have all := Afforded.doRequests env fit (c := {}) afforded_new
    rwa [Nat.zero_add] at all
  have few := afforded.few sids
  refine ⟨few, afforded.strings, ?_⟩
  have each : 5 * ∑ sid ∈ sids, (s.heads sid).bytes ≤
      2 * (8 * R + 135) * ∑ sid ∈ sids, (s.heads sid).length := by
    rw [Finset.mul_sum, Finset.mul_sum]
    exact Finset.sum_le_sum fun sid _ => Headers.bytes_le (afforded.strings sid)
  calc 45 * ∑ sid ∈ sids, (s.heads sid).bytes
      = 9 * (5 * ∑ sid ∈ sids, (s.heads sid).bytes) := by ring
    _ ≤ 9 * (2 * (8 * R + 135) * ∑ sid ∈ sids, (s.heads sid).length) :=
        Nat.mul_le_mul_left 9 each
    _ = (16 * R + 270) * (9 * ∑ sid ∈ sids, (s.heads sid).length) := by ring
    _ ≤ (16 * R + 270) * R ^ 2 := Nat.mul_le_mul_left _ few

/-! ## Blocks that stay -/

/-- Fields by index, and a literal whose name has an index that nothing has. -/
def stuckBlock (k : Nat) : Bytes := List.replicate k 0x82 ++ [0x0f, 0x7f]

/-- HEADERS that add some bytes to a block and have it decoded. -/
def decoding (payload : Bytes) : Frame :=
  { type := FrameType.headers.code, flags := Flag.endHeaders, sid := 1, payload }

def repeated (k n : Nat) : List Frame := decoding (stuckBlock k) :: List.replicate n (decoding [])

theorem decodeLowmem_stuck {t : Table} (empty : t.dynamic = []) (k : Nat) :
    decodeLowmem t (stuckBlock k) = ⟨.threw, List.replicate k (entry ":method" "GET"), t⟩ := by
  induction k with
  | zero =>
    have none : t.lookup 142 = none := by simp [Table.lookup, empty]
    have turn : decodeField t 0x0f [0x7f] = .threw := by
      have literal : decodeField t 0x0f [0x7f] = readLiteral t false 142 [] := rfl
      rw [literal, readLiteral, none]
      rfl
    simp [stuckBlock, decodeLowmem, decodeFields, turn]
  | succ k ih =>
    have turn : decodeField t 0x82 (stuckBlock k) =
        .read t (some (entry ":method" "GET")) (stuckBlock k) := rfl
    rw [stuckBlock, List.replicate_succ, List.cons_append, ← stuckBlock, decodeLowmem_read turn, ih]
    rfl

/-- A stream with the block, and so many headers. -/
structure Stuck (k m : Nat) (s : Session) : Prop where
  block : s.fragments 1 = stuckBlock k
  heads : (s.heads 1).length = m
  table : s.hpackDecoder.dynamic = []

/-- The whole block is decoded, and is still there. -/
theorem decoding_stuck (env : Env) {s : Session} {k : Nat} {payload : Bytes}
    (block : s.fragments 1 ++ payload = stuckBlock k) (empty : s.hpackDecoder.dynamic = []) :
    (handleFrame env s (decoding payload)).1 = .returned true ∧
      Stuck k ((s.heads 1).length + k) (handleFrame env s (decoding payload)).2 := by
  generalize sent : decoding payload = f
  have type : f.type = FrameType.headers.code := by rw [← sent]; rfl
  have ends : f.hasFlag Flag.endHeaders = true := by
    rw [← sent]
    exact (by decide : (Flag.endHeaders &&& Flag.endHeaders == Flag.endHeaders) = true)
  have more : f.hasFlag Flag.endStream = false := by
    rw [← sent]
    exact (by decide : (Flag.endHeaders &&& Flag.endStream == Flag.endStream) = false)
  have own : f.sid = 1 := by rw [← sent]; rfl
  have completes : completed s f = some (openStream s f) := by
    simp only [completed, ends, type, FrameType.ofCode_code, ↓reduceIte]
  obtain ⟨heads, fragments⟩ := completed_heads completes
  have whole : (openStream s f).headerFragments = stuckBlock k := by
    rw [fragments, own, ← sent]
    exact block
  have threw : decoded s (openStream s f) =
      ⟨.threw, List.replicate k (entry ":method" "GET"), s.hpackDecoder⟩ := by
    rw [decoded, whole, decodeLowmem_stuck empty]
  have same : openStream (s.log (.handleFrame f)) f = openStream s f := rfl
  have stream := processEndHeader_stream env (s.log (.handleFrame f)) (openStream s f)
  have exit : (processEndHeader env (s.log (.handleFrame f)) (openStream s f)).1 =
      .returned false := by
    have logged : decodeLowmem (s.log (.handleFrame f)).hpackDecoder
      (openStream s f).headerFragments = _ := threw
    simp only [processEndHeader, logged, ↓reduceIte]
  have handled : (handleFrame env s f).1 = .returned true ∧
      (handleFrame env s f).2.streams 1 = some (received s (openStream s f)) := by
    simp only [handleFrame, dispatch, type, FrameType.ofCode_code, handleHeadersFrame, ends, more,
      same, exit, stream, own, ↓reduceIte, reduceCtorEq, Bool.false_eq_true]
    exact ⟨trivial, Session.setStream_same ..⟩
  refine ⟨handled.1, ?_, ?_, ?_⟩
  · rw [Session.fragments, handled.2, Option.map_some, Option.getD_some, received, threw]
    exact whole
  · rw [Session.heads, handled.2, Option.map_some, Option.getD_some, (received_heads _).1, threw,
      heads, own, List.length_append, List.length_replicate]
  · rw [handleFrame_table completes, threw]
    exact empty

theorem repeated_stuck (env : Env) {s : Session} {k m : Nat} (stuck : Stuck k m s) (n : Nat) :
    Stuck k (m + n * k) (handleFrames env (List.replicate n (decoding [])) s).2 := by
  induction n generalizing s m with
  | zero =>
    rw [Nat.zero_mul]
    exact stuck
  | succ n ih =>
    have whole : s.fragments 1 ++ [] = stuckBlock k := by rw [List.append_nil, stuck.block]
    obtain ⟨returned, next⟩ := decoding_stuck env whole stuck.table
    rw [List.replicate_succ, handleFrames]
    rcases handled : handleFrame env s (decoding []) with ⟨e, s'⟩
    rw [handled] at returned next
    cases returned
    have rest := ih next
    rw [stuck.heads] at rest
    rwa [Nat.succ_mul, Nat.add_comm (n * k), ← Nat.add_assoc]

/-- **Growth.** And there can be as many as that: of a block of k + 2 bytes and n + 1 frames, k
headers for each of the frames. -/
theorem repeated_heads (env : Env) (k n : Nat) :
    ((handleFrames env (repeated k n) {}).2.heads 1).length = (n + 1) * k ∧
      ((repeated k n).map fun f => f.bytes.length).sum = 9 * (n + 1) + (k + 2) := by
  constructor
  · obtain ⟨returned, first⟩ := decoding_stuck env (s := {}) (k := k) (List.nil_append _) rfl
    rw [repeated, handleFrames]
    rcases handled : handleFrame env {} (decoding (stuckBlock k)) with ⟨e, s⟩
    rw [handled] at returned first
    cases returned
    have all := (repeated_stuck env first n).heads
    rw [all, Nat.succ_mul, Nat.add_comm (n * k)]
    simp [Session.heads]
  · simp only [repeated, List.map_cons, List.map_replicate, List.sum_cons, List.sum_replicate_nat,
      Frame.length_bytes, decoding, stuckBlock, List.length_append, List.length_replicate,
      List.length_cons, List.length_nil]
    ring

/-- 131 bytes. -/
def repeatedRead : ReadResult := .bytes ((repeated 12 12).flatMap Frame.bytes)

theorem headers_le_received_repeated :
    ((doRequests siteEnv [repeatedRead] {}).2.session.heads 1).length = 156 ∧
      9 * ∑ sid ∈ {1}, ((doRequests siteEnv [repeatedRead] {}).2.session.heads sid).length ≤
        131 ^ 2 := by
  have fit : ∀ read ∈ [repeatedRead], read.Fits := by
    intro read member
    rw [List.mem_singleton.mp member]
    show ((repeated 12 12).flatMap Frame.bytes).length ≤ bufferSize
    decide +kernel
  have brought : ([repeatedRead].map ReadResult.received).sum = 131 := by decide +kernel
  rw [← brought]
  exact ⟨by decide +kernel, (headers_le_received siteEnv _ fit {1}).1⟩

end Http2Server
