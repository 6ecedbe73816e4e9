import OmenBrowser.Server.UploadSteps

/- Runs of the server over requests about uploads.

   Requests of any identities and links come in any order, each with its own failures and readings of
   the clocks; links are closed, the rest of the server changes rooms, members and events, and the
   server is restarted, which keeps the tables and the files and forgets what is in memory.
   `uploadStep_cases` says what a step does to the files, the index and the stages. -/
namespace Omen.Server
open Wire Sql Ints Omen.Protocol

variable {stage : ChannelUploadStage} {a : Except ServerError UploadAnswer}

inductive UploadRequest where
  | offer (peer : ServerPeer) (seq : UInt32) (roomId : Option UInt32) (body : FrameBody)
      (media : Bool)
  | resource (peer : ServerPeer) (resourceId : String) (data : Bytes) (media : Bool)
  | channel (linkId : LinkId) (peer : ServerPeer) (frame : ChannelAttachmentFrame) (media : Bool)
  | linkClosed (linkId : LinkId)
  | elsewhere (rooms : Table RoomUploadRow.roomId) (database : Database)
  | restart

structure UploadInput where
  request : UploadRequest
  faults : Faults
  readings : Readings

inductive UploadReply where
  | offered (frames : List Frame)
  | answered (answer : UploadAnswer)
  | silent

/-- What is in memory is gone. -/
def UploadServer.restart (s : UploadServer) : UploadServer :=
  { s with
    verified := []
    pending := Sql.Table.empty
    stages := Sql.Table.empty
    buckets := Sql.Table.empty
    tempSequence := 0 }

def uploadStep (limits : UploadLimits) (s : UploadServer) (i : UploadInput) :
    Except ServerError UploadReply × UploadServer :=
  match i.request with
  | .offer peer seq roomId body media =>
    let result := handleOffer limits i.faults i.readings peer seq roomId body media s
    (result.1.map .offered, result.2)
  | .resource peer resourceId data media =>
    let result := handleUploadResourceWithRoomMediaPolicy limits i.faults i.readings peer resourceId
      data media s
    (result.1.map .answered, result.2)
  | .channel linkId peer frame media =>
    let result := handleChannelUploadFrame limits i.faults i.readings linkId peer frame media s
    (result.1.map .answered, result.2)
  | .linkClosed linkId => (.ok .silent, s.discardChannelUploadsForLink linkId)
  -- who an id stands for does not change
  | .elsewhere rooms database =>
    (.ok .silent, { s with rooms, database := { database with users := s.database.users } })
  | .restart => (.ok .silent, s.restart)

variable {limits : UploadLimits} {s s' : UploadServer} {i : UploadInput}

/-- Where a publication starts: from the state as it is, or behind a stage that was closed. -/
def Committing (s : UploadServer) (own : List UploadPath) (t : UploadServer) : Prop :=
  (own = [] ∧ t = s) ∨
    ∃ stage ∈ s.stages.rows, own = [stage.path] ∧ t = s.removeStage stage.key

/-- What a step does to the files, the index and the stages. -/
inductive UploadEffect (limits : UploadLimits) (i : UploadInput) (s : UploadServer) :
    Except ServerError UploadAnswer → UploadServer → Prop where
  | aside {a : Except ServerError UploadAnswer} {s' : UploadServer} (h : Aside s s')
      (hquiet : Unpublishing a) : UploadEffect limits i s a s'
  | elsewhere (rooms : Table RoomUploadRow.roomId) (database : Database) :
      UploadEffect limits i s (.ok .quiet) { s with
        rooms
        database := { database with users := s.database.users } }
  | opened {linkId : LinkId} {peer : ServerPeer} {resourceId : String} {totalBytes : UInt64}
      {path : UploadPath} {s' : UploadServer}
      (h : Opens limits linkId peer resourceId totalBytes s s' path) :
      UploadEffect limits i s (.ok .quiet) s'
  | wrote {stage : ChannelUploadStage} {identity bytes : Bytes} {offset : UInt64}
      (h : stage ∈ s.stages.rows) (htakes : stage.Takes identity offset bytes) :
      UploadEffect limits i s (.ok .quiet) { s with
        disk := s.disk.extend stage.path bytes
        stages := s.stages.updateWhere (fun t => t.key == stage.key) (·.advance bytes)
          (fun _ => rfl) }
  | brokeOff {stage : ChannelUploadStage} {bytes : Bytes} {e : ServerError}
      (h : stage ∈ s.stages.rows) (hfault : i.faults.file (.write stage.path) = true) :
      UploadEffect limits i s (.error e) { s with disk := s.disk.extend stage.path bytes }
  | dropped {gone : ChannelUploadStage → Bool} {a : Except ServerError UploadAnswer}
      {s' : UploadServer} (hquiet : Unpublishing a) (hstages : s'.stages = s.stages.deleteWhere gone)
      (hfiles : ∀ q, s'.disk.read q =
        if (∃ stage ∈ s.stages.rows, gone stage = true ∧ stage.path = q) then none
        else s.disk.read q)
      (hrest : Aside s { s' with disk := s.disk, stages := s.stages }) : UploadEffect limits i s a s'
  | left {stage : ChannelUploadStage} {e : ServerError} {s' : UploadServer}
      (h : stage ∈ s.stages.rows) (hdisk : s'.disk = s.disk)
      (hstages : s'.stages = (s.removeStage stage.key).stages)
      (hrest : Aside s { s' with stages := s.stages }) : UploadEffect limits i s (.error e) s'
  | takenBack {identity : Bytes} {own : List UploadPath} {resourceId : String}
      {upload : PendingUpload} {t : UploadServer} {a : Except ServerError UploadAnswer}
      {s' : UploadServer} (h : Committing s own t) (hoffered : Offered s identity resourceId upload)
      (hback : TakenBack identity own upload i.readings a t s') : UploadEffect limits i s a s'
  | published {identity : Bytes} {own : List UploadPath} {resourceId : String}
      {upload : PendingUpload} {content : Bytes} {t : UploadServer}
      {a : Except ServerError UploadAnswer} {s' : UploadServer} (h : Committing s own t)
      (hown : ∀ p ∈ own, p.identity = identity ∧ s.disk.read p = some content)
      (hoffered : Offered s identity resourceId upload)
      (hlength : content.length = upload.incomingBytes.toNat)
      (hpublished : Publishes limits i.faults i.readings identity own resourceId upload content a t s') :
      UploadEffect limits i s a s'
  | restarted : UploadEffect limits i s (.ok .quiet) s.restart

/-- The stages with a key are the one. -/
theorem stage_of_key {other : ChannelUploadStage} (h : stage ∈ s.stages.rows)
    (hother : other ∈ s.stages.rows) (hkey : (other.key == stage.key) = true) : other = stage :=
  List.inj_on_of_nodup_map s.stages.unique hother h (beq_iff_eq.mp hkey)

theorem UploadEffect.dropStage {t : UploadServer} (h : stage ∈ s.stages.rows)
    (hquiet : Unpublishing a) (haside : Aside (s.removeStage stage.key) t) :
    UploadEffect limits i s a (t.erase stage.path) := by
  have hstages : (t.erase stage.path).stages =
      s.stages.deleteWhere (fun other => other.key == stage.key) := haside.stages
  refine .dropped hquiet hstages (fun q => ?_) ?_
  · have hpath : (∃ other ∈ s.stages.rows, (other.key == stage.key) = true ∧ other.path = q) ↔
        q = stage.path := by
      constructor
      · rintro ⟨other, hother, hkey, rfl⟩
        rw [stage_of_key h hother hkey]
      · rintro rfl
        exact ⟨stage, h, beq_self_eq_true _, rfl⟩
    have hdisk : t.disk = s.disk := haside.disk
    show (t.disk.erase stage.path).read q = _
    rw [Disk.read_erase, hdisk]
    simp only [hpath]
  · exact ⟨rfl, haside.uploads, rfl, haside.rooms, haside.database, haside.ids, haside.verified⟩

variable {media : Bool} {peer : ServerPeer}

theorem UploadEffect.of_commit {resourceId : String} {totalBytes : UInt64} (h : stage ∈ s.stages.rows)
    (hcommit : commitChannelStage limits i.faults i.readings peer resourceId stage.path totalBytes
      media (s.removeStage stage.key) = (a, s'))
    : UploadEffect limits i s a s' := by
  have hcommitting : Committing s [stage.path] (s.removeStage stage.key) :=
    .inr ⟨stage, h, rfl, rfl⟩
  rcases commitStage_cases hcommit with ⟨t, haside, hend⟩ | ⟨upload, hoffered, hlength, hend⟩
  · rcases hend with ⟨⟨frame, rfl⟩, rfl⟩ | ⟨⟨e, rfl⟩, rfl | rfl⟩
    · exact .dropStage h (.refused _) haside
    · refine .left h haside.disk haside.stages ?_
      exact ⟨haside.disk, haside.uploads, rfl, haside.rooms, haside.database, haside.ids,
        haside.verified⟩
    · exact .dropStage h (.error _) haside
  · rcases hend with hback | ⟨content, hcontent, hidentity, hcount, hpublished⟩
    · exact .takenBack hcommitting hoffered hback
    · refine .published hcommitting ?_ hoffered (hlength ▸ hcount) hpublished
      intro p hp
      rw [List.mem_singleton.mp hp]
      exact ⟨hidentity, hcontent⟩

theorem channelFrame_effect {linkId : LinkId} {frame : ChannelAttachmentFrame}
    (h : handleChannelUploadFrame limits i.faults i.readings linkId peer frame media s = (a, s')) :
    UploadEffect limits i s a s' := by
  have hmem {resourceId : String} {stage : ChannelUploadStage}
      (hfound : s.stages.find? (linkId, resourceId) = some stage) : stage ∈ s.stages.rows :=
    (Table.find?_eq_some.mp hfound).1
  cases frame with
  | start resourceId totalBytes =>
    rcases startChannelUpload_cases h with ⟨haside, hquiet⟩ | ⟨rfl, path, hopens⟩
    · exact .aside haside hquiet
    · exact .opened hopens
  | data resourceId offset bytes =>
    rcases dataChannelUpload_cases h with ⟨⟨e, rfl⟩, rfl, _⟩ | ⟨stage, hfound, hend⟩
    · exact .aside (Aside.refl _) (.error _)
    · rcases hend with ⟨⟨e, rfl⟩, _, rfl⟩ | ⟨htakes, ⟨⟨e, rfl⟩, hfault, rfl⟩ | ⟨rfl, rfl⟩⟩
      · exact .dropStage (hmem hfound) (.error _) (Aside.refl _)
      · exact .brokeOff (hmem hfound) hfault
      · exact .wrote (hmem hfound) htakes
  | finish resourceId totalBytes digest =>
    rcases finishChannelUpload_cases h with ⟨⟨e, rfl⟩, rfl, _⟩ | ⟨stage, hfound, hend⟩
    · exact .aside (Aside.refl _) (.error _)
    · rcases hend with ⟨⟨frame, rfl⟩, rfl⟩ | ⟨⟨e, rfl⟩, rfl, _⟩ | ⟨_, hcommit⟩
      · exact .dropStage (hmem hfound) (.refused _) (Aside.refl _)
      · exact .left (hmem hfound) rfl rfl (Aside.refl s)
      · exact .of_commit (hmem hfound) hcommit
  | cancel resourceId =>
    obtain ⟨rfl, rfl | ⟨stage, hfound, rfl⟩⟩ := cancelChannelUpload_cases h
    · exact .aside (Aside.refl _) .quiet
    · exact .dropStage (hmem hfound) .quiet (Aside.refl _)

/-- The files of these stages are gone. -/
theorem read_discarded (d : Disk UploadPath) (gone : List ChannelUploadStage) (q : UploadPath) :
    Disk.read (d.deleteWhere (fun f => gone.any (fun stage => stage.path == f.path))) q =
      if ∃ stage ∈ gone, stage.path = q then none else d.read q := by
  have hread := Disk.read_deleteWhere d (fun path => gone.any (fun stage => stage.path == path)) q
  simp only [List.any_eq_true, beq_iff_eq] at hread
  exact hread

theorem linkClosed_effect (linkId : LinkId) :
    UploadEffect limits i s (.ok .quiet) (s.discardChannelUploadsForLink linkId) := by
  have hstages : (s.discardChannelUploadsForLink linkId).stages =
      s.stages.deleteWhere (fun stage => stage.key.1 == linkId) := rfl
  refine .dropped .quiet hstages (fun q => ?_) (Aside.refl s)
  refine (read_discarded s.disk _ q).trans ?_
  have hgone : (∃ stage ∈ s.stages.rows.filter (fun stage => stage.key.1 == linkId), stage.path = q) ↔
      ∃ stage ∈ s.stages.rows, (stage.key.1 == linkId) = true ∧ stage.path = q := by
    simp only [List.mem_filter, and_assoc]
  split
  · next h => rw [if_pos (hgone.mp h)]
  · next h => rw [if_neg fun he => h (hgone.mpr he)]

/-- What a request ends with, as far as uploads go. -/
def UploadReply.answer : UploadReply → UploadAnswer
  | .answered answer => answer
  | _ => .quiet

/-- What a step does to the files, the index and the stages. -/
theorem uploadStep_cases (limits : UploadLimits) (s : UploadServer) (i : UploadInput) :
    UploadEffect limits i s ((uploadStep limits s i).1.map UploadReply.answer)
      (uploadStep limits s i).2 := by
  have hmap {α : Type} (x : Except ServerError α) (f : α → UploadReply) :
      (x.map f).map UploadReply.answer = x.map (fun a => (f a).answer) := by
    cases x <;> rfl
  have hanswered (x : Except ServerError UploadAnswer) :
      x.map (fun a => (UploadReply.answered a).answer) = x := by cases x <;> rfl
  unfold uploadStep
  cases i.request with
  | offer peer seq roomId body media =>
    refine .aside (handleOffer_aside s) ?_
    simp only [hmap]
    intro resourceId upload stored event h
    cases hr : (handleOffer limits i.faults i.readings peer seq roomId body media s).1 with
    | ok | error => rw [hr] at h; cases h
  | resource peer resourceId data media =>
    simp only [hmap, hanswered]
    rcases handleResource_cases (Prod.mk.eta.symm : handleUploadResourceWithRoomMediaPolicy limits
      i.faults i.readings peer resourceId data media s = (_, _)) with ⟨haside, hquiet⟩ |
      ⟨upload, hoffered, hlength, hback | hpublished⟩
    · exact .aside haside hquiet
    · exact .takenBack (.inl ⟨rfl, rfl⟩) hoffered hback
    · exact .published (.inl ⟨rfl, rfl⟩) (List.forall_mem_nil _) hoffered hlength hpublished
  | channel linkId peer frame media =>
    simp only [hmap, hanswered]
    exact channelFrame_effect rfl
  | linkClosed linkId => exact linkClosed_effect linkId
  | elsewhere rooms database => exact .elsewhere rooms database
  | restart => exact .restarted

end Omen.Server
