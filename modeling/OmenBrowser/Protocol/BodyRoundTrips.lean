import OmenBrowser.Protocol.ModerationAudit
import OmenBrowser.Protocol.ProjectionBodies
import OmenBrowser.Protocol.RevisionBodies

/- The typed bodies, all together.

   Every acknowledgement, snapshot and page that can be written is read back, and whatever is
   read can be written and is read back, except for one kind of value: an acknowledgement of a
   revision that says it changed something and gives event id zero. -/
namespace Omen.Protocol
open Wire RoundTrip ModerationAuditPage

theorem typed_bodies_round_trip (ack : MessageRevisionAck) :
    ((ReadsBack MessageRevisionAck.intoFrameBody MessageRevisionAck.fromFrameBody ack ↔
        ¬(ack.validate = .ok () ∧ ack.revisionEventId = some 0)) ∧
      ∀ body, Rewrites MessageRevisionAck.intoFrameBody MessageRevisionAck.fromFrameBody body) ∧
    ((∀ ack, ReadsBack ReactionAck.intoFrameBody ReactionAck.fromFrameBody ack) ∧
      ∀ body, Rewrites ReactionAck.intoFrameBody ReactionAck.fromFrameBody body) ∧
    ((∀ ack, ReadsBack PinAck.intoFrameBody PinAck.fromFrameBody ack) ∧
      ∀ body, Rewrites PinAck.intoFrameBody PinAck.fromFrameBody body) ∧
    ((∀ snapshot,
        ReadsBack MessageRevisionSnapshot.intoFrameBody MessageRevisionSnapshot.fromFrameBody
          snapshot) ∧
      ∀ body,
        Rewrites MessageRevisionSnapshot.intoFrameBody MessageRevisionSnapshot.fromFrameBody body) ∧
    ((∀ snapshot,
        ReadsBack ReactionSnapshot.intoFrameBody ReactionSnapshot.fromFrameBody snapshot) ∧
      ∀ body, Rewrites ReactionSnapshot.intoFrameBody ReactionSnapshot.fromFrameBody body) ∧
    ((∀ snapshot, ReadsBack PinSnapshot.intoFrameBody PinSnapshot.fromFrameBody snapshot) ∧
      ∀ body, Rewrites PinSnapshot.intoFrameBody PinSnapshot.fromFrameBody body) ∧
    ((∀ page,
        ReadsBack intoFrameValues fromFrameValues page) ∧
      ∀ values,
        Rewrites intoFrameValues fromFrameValues values) := by
  refine ⟨⟨?_, ?_⟩, ⟨?_, ?_⟩, ⟨?_, ?_⟩, ⟨?_, ?_⟩, ⟨?_, ?_⟩, ⟨?_, ?_⟩, ?_, ?_⟩
  · exact MessageRevisionAck.readsBack_iff ack
  · exact MessageRevisionAck.rewrites
  · exact ReactionAck.readsBack
  · exact ReactionAck.rewrites
  · exact PinAck.readsBack
  · exact PinAck.rewrites
  · exact SnapshotFormat.readsBack messageRevisionSnapshot_lawful
  · exact SnapshotFormat.rewrites messageRevisionSnapshot_lawful
  · exact SnapshotFormat.readsBack reactionSnapshot_lawful
  · exact SnapshotFormat.rewrites reactionSnapshot_lawful
  · exact SnapshotFormat.readsBack pinSnapshot_lawful
  · exact SnapshotFormat.rewrites pinSnapshot_lawful
  · exact readsBack
  · exact rewrites

/-- A change of message 42 that was given event id zero. -/
def ackOfEventZero : MessageRevisionAck :=
  { targetEventId := 42
    action := .correct
    actorUserId := 7
    changed := true
    revisionEventId := some 0
    revisionNumber := 1 }

theorem ackOfEventZero_unreadable :
    ∃ body, ackOfEventZero.intoFrameBody = .ok body ∧
      MessageRevisionAck.fromFrameBody body = .error .invalidEventId ∧
      ¬ReadsBack MessageRevisionAck.intoFrameBody MessageRevisionAck.fromFrameBody
        ackOfEventZero := by
  refine ⟨_, rfl, rfl, fun hreads => ?_⟩
  cases hreads _ rfl

end Omen.Protocol
