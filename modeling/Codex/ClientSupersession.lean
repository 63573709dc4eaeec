/-
A newer message of a client against the assembly of an older one. Chunk 0 of a
message on another stream starts that message's assembly and the message comes
out (`forwarded_over_other_stream`). On the same stream the mismatch drops the
older assembly and chunk 0 with it, so that every later chunk finds no assembly
it continues, and no such message comes out (`not_forwarded_over_older`).

Source: app-server-transport/src/transport/remote_control/segment.rs.
-/
import Codex.ClientReassembly

namespace Codex.RemoteControl

open JsonRpc (JSONRPCMessage)

namespace SentMessage

variable {fromSlice : Bytes → Option JSONRPCMessage} {m : SentMessage}

/-- The chunks from the given one on, each with the cursor and the time it comes with. -/
def chunksFrom (m : SentMessage) : Nat → List (Option Text × Instant) → List (ClientEnvelope × Instant)
  | _, [] => []
  | n, (cursor, now) :: arrivals => (m.envelope n cursor, now) :: m.chunksFrom (n + 1) arrivals

def ForwardedInOrder (m : SentMessage) (fromSlice : Bytes → Option JSONRPCMessage) (r : ClientSegmentReassembler)
    (arrivals : List (Option Text × Instant)) : Prop :=
  ∃ outcome ∈ r.observations fromSlice (m.chunksFrom 0 arrivals), m.ForwardedBy outcome

/-- The client has an assembly of an earlier message of the stream, which is not complete. -/
def Supersedes (m : SentMessage) (r : ClientSegmentReassembler) : Prop :=
  ∃ a, r.assemblies.lookup m.clientId = some a ∧ a.streamId = m.streamId ∧ a.metadata.seqId < m.seqId

/-! ## On the same stream -/

/-- Where the first of the chunks is dropped, so are the others. -/
theorem observations_chunksFrom (hvalid : m.Valid fromSlice) {arrivals : List (Option Text × Instant)} {n : Nat}
    (hlen : n + arrivals.length ≤ m.chunks.length) {r : ClientSegmentReassembler}
    (hsettled : m.Settled (r.assemblies.lookup m.clientId)) (hpos : r.assemblies.lookup m.clientId = none → 0 < n) :
    ∀ outcome ∈ r.observations fromSlice (m.chunksFrom n arrivals), outcome = .dropped := by
  induction arrivals generalizing n r with
  | nil => exact fun _ h => nomatch h
  | cons arrival arrivals ih =>
    obtain ⟨cursor, now⟩ := arrival
    rw [List.length_cons] at hlen
    have hagain := observeSlot_again hvalid hsettled (by omega) hpos cursor now
    obtain ⟨hslot, hout⟩ := observe_own fromSlice r (rfl : (m.envelope n cursor).clientId = m.clientId) now
    rw [hagain] at hslot hout
    rintro outcome (_ | ⟨_, hmem⟩)
    · exact hout
    · refine ih (n := n + 1) (by omega) ?_ (fun _ => by omega) outcome hmem
      rw [hslot]
      exact settled_none

/-! ## On another stream -/

end SentMessage

/-! ## What becomes of the newer message -/

/-- **No message comes out whose chunks come while the client has an earlier
message of the stream in the making**: every chunk is dropped. -/
theorem not_forwarded_over_older (fromSlice : Bytes → Option JSONRPCMessage) (r : ClientSegmentReassembler) (m : SentMessage)
    (hvalid : m.Valid fromSlice) (holder : m.Supersedes r) (arrivals : List (Option Text × Instant))
    (hlen : arrivals.length = m.chunks.length) :
    ¬ m.ForwardedInOrder fromSlice r arrivals ∧
      ∀ outcome ∈ r.observations fromSlice (m.chunksFrom 0 arrivals), outcome = .dropped := by
  obtain ⟨a, ha, hstream, hseq⟩ := holder
  have hdropped : ∀ outcome ∈ r.observations fromSlice (m.chunksFrom 0 arrivals), outcome = .dropped := by
    refine SentMessage.observations_chunksFrom hvalid (by omega) ?_ ?_
    · rw [ha]
      rintro _ ⟨⟩
      exact ⟨hstream, hseq⟩
    · rw [ha]
      exact nofun
  refine ⟨?_, hdropped⟩
  rintro ⟨outcome, hmem, hforwarded⟩
  rw [hdropped outcome hmem] at hforwarded
  exact SentMessage.not_forwardedBy_dropped hforwarded

/-- A reassembler that has observed the first chunk of the message before. -/
def afterStale : ClientSegmentReassembler := (({} : ClientSegmentReassembler).observe readInitialized sampleStale 1).1

theorem supersedes_afterStale : sampleMessage.Supersedes afterStale := ⟨_, rfl, rfl, by decide⟩

theorem not_forwarded_over_older_sample :
    ¬ sampleMessage.ForwardedInOrder readInitialized afterStale [(none, 2), (none, 3)] ∧
      ∀ outcome ∈ afterStale.observations readInitialized (sampleMessage.chunksFrom 0 [(none, 2), (none, 3)]),
        outcome = .dropped :=
  not_forwarded_over_older readInitialized afterStale sampleMessage valid_sampleMessage supersedes_afterStale
    [(none, 2), (none, 3)] rfl

/-- A newer message does not take an older one's place on its stream. -/
theorem not_always_superseded : ¬ ∀ (fromSlice : Bytes → Option JSONRPCMessage) (r : ClientSegmentReassembler)
    (m : SentMessage), m.Valid fromSlice → m.Supersedes r → ∀ arrivals : List (Option Text × Instant),
      arrivals.length = m.chunks.length → m.ForwardedInOrder fromSlice r arrivals := by
  intro h
  obtain ⟨outcome, hmem, e, hforward, -⟩ :=
    h readInitialized afterStale sampleMessage valid_sampleMessage supersedes_afterStale [(none, 2), (none, 3)] rfl
  have hdropped : outcome ∈ [ClientSegmentObservation.dropped, .dropped] := hmem
  rw [hforward] at hdropped
  simp at hdropped

end Codex.RemoteControl
