import OmenBrowser.Server.StageInvariant
import OmenBrowser.Server.UploadQuota

/- What channel uploads in parts deliver (`server/src/session.rs`).

   Beside the run stands what was sent to each stage: the data frames accepted since its start. A
   finish publishes those bytes, whatever failed on the way; a frame that is refused closes its stage
   or leaves it as it was, unless a write of it broke off behind its first byte. -/
namespace Omen.Server
open Wire Sql Ints Omen.Protocol Table

variable {limits : UploadLimits} {s s' : UploadServer} {i : UploadInput} {resourceId : String}
  {upload : PendingUpload} {stored : StoredUpload}
  {peer : ServerPeer} {media : Bool} {r : Except ServerError UploadAnswer} {linkId : LinkId}
  {digest : AttachmentDigest} {bytes : Bytes} {b stage : ChannelUploadStage}

/-! What was sent. -/

/-- The data frames that were accepted for a stage since it was opened. -/
abbrev Sent := LinkId × String → List ChannelAttachmentFrame

/-- A start that opens a stage starts anew; a data frame that is accepted is added. -/
def noteSent (s : UploadServer) (i : UploadInput) (r : Except ServerError UploadReply) (sent : Sent) :
    Sent := fun key =>
  match i.request with
  | .channel linkId _ (.start resourceId _) _ =>
    if key = (linkId, resourceId) ∧ (s.stages.find? key).isNone = true then [] else sent key
  | .channel linkId _ (.data resourceId offset bytes) _ =>
    if key = (linkId, resourceId) ∧ r.toBool = true then
      sent key ++ [.data resourceId offset bytes]
    else sent key
  | _ => sent key

/-- A step, and what was sent up to it. -/
def sentStep (limits : UploadLimits) (p : UploadServer × Sent) (i : UploadInput) :
    Except ServerError UploadReply × (UploadServer × Sent) :=
  ((uploadStep limits p.1 i).1,
    ((uploadStep limits p.1 i).2, noteSent p.1 i (uploadStep limits p.1 i).1 p.2))

/-- Every stage has taken in what was sent to it, in order and without gap or overlap. -/
def ReceivedOf (s : UploadServer) (sent : Sent) : Prop :=
  ∀ a ∈ s.stages.rows, ChannelAttachmentFrame.reassemble a.key.2 0 (sent a.key) = some a.hashed

/-! The stages after a request. -/

/-- A request that is not about a stage leaves the stages, or closes some. -/
theorem handleResource_stages {data : Bytes}
    (h : handleUploadResourceWithRoomMediaPolicy limits i.faults i.readings peer resourceId data media
      s = (r, s'))
    : s'.stages = s.stages := by
  rcases handleResource_cases h with ⟨haside, _⟩ | ⟨upload, _, _, hback | ⟨stored, s₁, hdone, hend⟩⟩
  · exact haside.stages
  · exact hback.rest.stages
  · rcases hend with ⟨_, _, rfl⟩ | ⟨_, _, database, _, rfl⟩
    · exact hdone.stages
    · exact hdone.stages

theorem commitStage_stages {staged : UploadPath} {incomingBytes : UInt64}
    (h : commitChannelStage limits i.faults i.readings peer resourceId staged incomingBytes media s =
      (r, s'))
    : s'.stages = s.stages := by
  rcases commitStage_cases h with ⟨t, haside, ⟨_, rfl⟩ | ⟨_, rfl | rfl⟩⟩ |
    ⟨upload, _, _, hback | ⟨content, _, _, _, stored, s₁, hdone, hend⟩⟩
  · exact haside.stages
  · exact haside.stages
  · exact haside.stages
  · exact hback.rest.stages
  · rcases hend with ⟨_, _, rfl⟩ | ⟨_, _, database, _, rfl⟩
    · exact hdone.stages
    · exact hdone.stages

variable {offset totalBytes : UInt64} {frame : ChannelAttachmentFrame} {sent : Sent} {file : Bytes}

/-- A finish closes the stage it is about. -/
theorem finish_stages
    (h : finishChannelUpload limits i.faults i.readings linkId peer resourceId totalBytes digest media
      s = (r, s')) :
    s'.stages = s.stages.deleteWhere (fun a => a.key == (linkId, resourceId)) := by
  rcases finishChannelUpload_cases h with ⟨_, rfl, hnone⟩ | ⟨stage, hfound, hend⟩
  · apply ext
    symm
    refine List.filter_eq_self.mpr fun a ha => ?_
    simpa using find?_eq_none.mp hnone a ha
  · have hkey : stage.key = (linkId, resourceId) := (find?_eq_some.mp hfound).2
    rw [← hkey]
    rcases hend with ⟨_, rfl⟩ | ⟨_, rfl, _⟩ | ⟨_, hcommit⟩
    · rfl
    · rfl
    · exact commitStage_stages hcommit

/-- A cancel closes the stage it is about. -/
theorem cancel_stages (h : cancelChannelUpload linkId resourceId s = (r, s')) :
    s'.stages.rows.Sublist s.stages.rows := by
  obtain ⟨_, rfl | ⟨stage, _, rfl⟩⟩ := cancelChannelUpload_cases h
  · exact List.Sublist.refl _
  · exact sublist_deleteWhere _ _

/-- Bytes for a stage close it, or are added to it, or leave it. -/
theorem data_stages
    (h : dataChannelUpload i.faults linkId peer resourceId offset bytes s = (r, s')) :
    ((∃ e, r = .error e) ∧ s'.stages.rows.Sublist s.stages.rows) ∨
      (r = .ok .quiet ∧ ∃ stage, s.stages.find? (linkId, resourceId) = some stage ∧
        stage.Takes peer.identityHash offset bytes ∧
        s'.stages.rows = s.stages.rows.map (fun a => if a.key == stage.key then a.advance bytes
          else a)) := by
  rcases dataChannelUpload_cases h with ⟨he, rfl, _⟩ | ⟨stage, hfound, hend⟩
  · exact .inl ⟨he, List.Sublist.refl _⟩
  · rcases hend with ⟨he, _, rfl⟩ | ⟨htakes, ⟨he, _, rfl⟩ | ⟨rfl, rfl⟩⟩
    · exact .inl ⟨he, sublist_deleteWhere _ _⟩
    · exact .inl ⟨he, List.Sublist.refl _⟩
    · exact .inr ⟨rfl, stage, hfound, htakes, rfl⟩

/-- What a step does to the stages, by what it is about. -/
inductive StagesAfter (limits : UploadLimits) (s : UploadServer) (i : UploadInput)
    (r : Except ServerError UploadReply) (s' : UploadServer) : Prop where
  | closed (hrows : s'.stages.rows.Sublist s.stages.rows)
      (hrequest : ∀ linkId peer resourceId offset bytes media, i.request = .channel linkId peer
        (.data resourceId offset bytes) media → ∃ e, r = .error e)
  | opened {linkId : LinkId} {peer : ServerPeer} {resourceId : String} {totalBytes : UInt64}
      {media : Bool} {path : UploadPath}
      (hrequest : i.request = .channel linkId peer (.start resourceId totalBytes) media)
      (hopens : Opens limits linkId peer resourceId totalBytes s s' path)
  | advanced {linkId : LinkId} {peer : ServerPeer} {resourceId : String} {offset : UInt64}
      {bytes : Bytes} {media : Bool} {stage : ChannelUploadStage}
      (hrequest : i.request = .channel linkId peer (.data resourceId offset bytes) media)
      (haccepted : r.toBool = true) (hfound : s.stages.find? (linkId, resourceId) = some stage)
      (htakes : stage.Takes peer.identityHash offset bytes)
      (hrows : s'.stages.rows = s.stages.rows.map (fun a =>
        if a.key == stage.key then a.advance bytes else a))

theorem uploadStep_channel (hrequest : i.request = .channel linkId peer frame media)
    (h : handleChannelUploadFrame limits i.faults i.readings linkId peer frame media s = (r, s')) :
    uploadStep limits s i = (r.map .answered, s') := by
  simp only [uploadStep, hrequest, h]

theorem uploadStep_stages (limits : UploadLimits) (s : UploadServer) (i : UploadInput) :
    StagesAfter limits s i (uploadStep limits s i).1 (uploadStep limits s i).2 := by
  cases hrequest : i.request with
  | offer peer seq roomId body media =>
    refine .closed ?_ (by rw [hrequest]; exact nofun)
    simp only [uploadStep, hrequest]
    rw [(handleOffer_aside s).stages]
  | resource peer resourceId data media =>
    refine .closed ?_ (by rw [hrequest]; exact nofun)
    rcases h : handleUploadResourceWithRoomMediaPolicy limits i.faults i.readings peer resourceId data
      media s with ⟨r, s'⟩
    simp only [uploadStep, hrequest, h]
    rw [handleResource_stages h]
  | linkClosed linkId =>
    refine .closed ?_ (by rw [hrequest]; exact nofun)
    simp only [uploadStep, hrequest]
    exact sublist_deleteWhere _ _
  | elsewhere rooms database =>
    refine .closed ?_ (by rw [hrequest]; exact nofun)
    simp only [uploadStep, hrequest]
    exact List.Sublist.refl _
  | restart =>
    refine .closed ?_ (by rw [hrequest]; exact nofun)
    simp only [uploadStep, hrequest]
    exact List.nil_sublist _
  -- only these open a stage, or add to one
  | channel linkId peer frame media =>
    cases frame with
    | start resourceId totalBytes =>
      rcases h : startChannelUpload limits i.faults i.readings linkId peer resourceId totalBytes s with
        ⟨r, s'⟩
      rw [uploadStep_channel hrequest h]
      rcases startChannelUpload_cases h with ⟨haside, _⟩ | ⟨_, path, hopens⟩
      · exact .closed (by rw [haside.stages]) (by rw [hrequest]; exact nofun)
      · exact .opened hrequest hopens
    | data resourceId offset bytes =>
      rcases h : dataChannelUpload i.faults linkId peer resourceId offset bytes s with ⟨r, s'⟩
      rw [uploadStep_channel hrequest h]
      rcases data_stages h with ⟨⟨e, rfl⟩, hrows⟩ | ⟨rfl, stage, hfound, htakes, hrows⟩
      · exact .closed hrows fun _ _ _ _ _ _ _ => ⟨e, rfl⟩
      · exact .advanced hrequest rfl hfound htakes hrows
    | finish resourceId totalBytes digest =>
      rcases h : finishChannelUpload limits i.faults i.readings linkId peer resourceId totalBytes digest
        media s with ⟨r, s'⟩
      rw [uploadStep_channel hrequest h]
      refine .closed ?_ (by rw [hrequest]; exact nofun)
      rw [finish_stages h]
      exact sublist_deleteWhere _ _
    | cancel resourceId =>
      rcases h : cancelChannelUpload linkId resourceId s with ⟨r, s'⟩
      rw [uploadStep_channel hrequest h]
      exact .closed (cancel_stages h) (by rw [hrequest]; exact nofun)

/-- What was sent to the stages that stay open is what they took in. -/
theorem ReceivedOf.step (h : ReceivedOf s sent) (hkept : StagesKept s) :
    ReceivedOf (uploadStep limits s i).2 (noteSent s i (uploadStep limits s i).1 sent) := by
  have hafter := uploadStep_stages limits s i
  generalize (uploadStep limits s i).1 = r at hafter ⊢
  generalize (uploadStep limits s i).2 = s' at hafter ⊢
  intro a ha
  cases hafter with
  -- no stage is new, and a stage that took bytes is gone
  | closed hrows hrequest =>
    have hmem := hrows.subset ha
    have hsent : noteSent s i r sent a.key = sent a.key := by
      unfold noteSent
      split
      · rw [if_neg]
        rintro ⟨_, hnone⟩
        rw [find?_eq_some.mpr ⟨hmem, rfl⟩] at hnone
        cases hnone
      · next hr =>
        obtain ⟨e, rfl⟩ := hrequest _ _ _ _ _ _ hr
        rw [if_neg fun hbool => Bool.false_ne_true hbool.2]
      · rfl
    rw [hsent]
    exact h a hmem
  | @opened linkId peer resourceId totalBytes media path hrequest hopens =>
    simp only [noteSent, hrequest]
    rcases hopens.mem_stages.mp ha with rfl | ha
    · have hfresh : (s.stages.find? (linkId, resourceId)).isNone = true := by rw [hopens.fresh]; rfl
      rw [if_pos ⟨rfl, hfresh⟩]
      rfl
    · rw [if_neg]
      · exact h a ha
      · rintro ⟨_, hnone⟩
        rw [find?_eq_some.mpr ⟨ha, rfl⟩] at hnone
        cases hnone
  | @advanced linkId peer resourceId offset bytes media stage hrequest haccepted hfound htakes hrows =>
    obtain ⟨hstage, hkey⟩ := find?_eq_some.mp hfound
    rw [hrows] at ha
    obtain ⟨b, hb, rfl⟩ := List.mem_map.mp ha
    simp only [noteSent, hrequest]
    by_cases hsame : (b.key == stage.key) = true
    · obtain rfl := stage_of_key hstage hb hsame
      rw [if_pos (beq_self_eq_true _)]
      have hkeyAdvance : (b.advance bytes).key = b.key := rfl
      rw [hkeyAdvance, if_pos ⟨hkey, haccepted⟩]
      -- bytes are taken at the offset the stage has reached, so nothing is skipped
      have hoffset : offset.toNat = 0 + b.hashed.length := by
        rw [Nat.zero_add, hkept.counted b hstage, htakes.2.2.1]
      have hid : b.key.2 = resourceId := by rw [hkey]
      have hreceived := h b hstage
      rw [hid] at hreceived ⊢
      exact ChannelAttachmentFrame.reassemble_concat hreceived hoffset
    · rw [if_neg hsame, if_neg]
      · exact h b hb
      · rintro ⟨hother, _⟩
        exact hsame (beq_iff_eq.mpr (hother.trans hkey.symm))

/-! Runs. -/

/-- The frame is for the stage, and the write of its bytes fails behind the first of them. -/
def BreaksOff (i : UploadInput) (stage : ChannelUploadStage) : Prop :=
  match i.request with
  | .channel _ peer (.data _ offset bytes) _ =>
    stage.Takes peer.identityHash offset bytes ∧ i.faults.file (.write stage.path) = true ∧
      Disk.partialWrite i.faults.written bytes ≠ []
  | _ => False

/-- The request failed, or was answered with a refusal. -/
def Refused (r : Except ServerError UploadReply) : Prop :=
  (∃ e, r = .error e) ∨ ∃ frame, r = .ok (.answered (.refused frame))

/-- The stage is gone, or it and its file are as they were. -/
def GoneOrAsBefore (s s' : UploadServer) (stage : ChannelUploadStage) : Prop :=
  s'.stages.find? stage.key = none ∨
    (s'.stages.find? stage.key = some stage ∧ s'.disk.read stage.path = s.disk.read stage.path)

/-- What one request does to the stages. -/
structure StageStep (limits : UploadLimits) (p : UploadServer × Sent) (i : UploadInput) : Prop where
  bounds : StagesBounded (uploadStep limits p.1 i).2
  started : ∀ b ∈ (uploadStep limits p.1 i).2.stages.rows, p.1.stages.find? b.key = none →
    ∃ peer totalBytes media,
      i.request = .channel b.key.1 peer (.start b.key.2 totalBytes) media ∧
        b.identityHash = peer.identityHash ∧ b.expectedBytes = totalBytes ∧ b.writtenBytes = 0
  owner : ∀ a ∈ p.1.stages.rows, ∀ b ∈ (uploadStep limits p.1 i).2.stages.rows, b.key = a.key →
    b ≠ a → ∃ peer offset bytes media,
      i.request = .channel a.key.1 peer (.data a.key.2 offset bytes) media ∧
        peer.identityHash = a.identityHash ∧ b = a.advance bytes
  refused : ∀ linkId peer frame media stage, i.request = .channel linkId peer frame media →
    p.1.stages.find? (linkId, frame.resourceId) = some stage → Refused (uploadStep limits p.1 i).1 →
    (GoneOrAsBefore p.1 (uploadStep limits p.1 i).2 stage ↔ ¬BreaksOff i stage)
  published : ∀ linkId peer resourceId totalBytes digest media id upload stored event,
    i.request = .channel linkId peer (.finish resourceId totalBytes digest) media →
    (uploadStep limits p.1 i).1 = .ok (.answered (.published id upload stored event)) →
    ∃ content, (uploadStep limits p.1 i).2.disk.read stored.path = some content ∧
      ChannelAttachmentFrame.reassemble resourceId 0 (p.2 (linkId, resourceId)) = some content ∧
      content.length = totalBytes.toNat ∧ limits.sha256 content = digest

theorem stageStep_started (hb : b ∈ (uploadStep limits s i).2.stages.rows)
    (hnew : s.stages.find? b.key = none) :
    ∃ peer totalBytes media,
      i.request = .channel b.key.1 peer (.start b.key.2 totalBytes) media ∧
        b.identityHash = peer.identityHash ∧ b.expectedBytes = totalBytes ∧ b.writtenBytes = 0 := by
  have hold : ∀ a ∈ s.stages.rows, a.key ≠ b.key := find?_eq_none.mp hnew
  have hafter := uploadStep_stages limits s i
  generalize (uploadStep limits s i).1 = r at hafter
  generalize (uploadStep limits s i).2 = s' at hafter hb
  cases hafter with
  | closed hrows _ => exact absurd rfl (hold b (hrows.subset hb))
  | @opened linkId peer resourceId totalBytes media path hrequest hopens =>
    rcases hopens.mem_stages.mp hb with rfl | hb
    · exact ⟨peer, totalBytes, media, hrequest, rfl, rfl, rfl⟩
    · exact absurd rfl (hold b hb)
  | advanced _ _ _ _ hrows =>
    rw [hrows] at hb
    obtain ⟨c, hc, rfl⟩ := List.mem_map.mp hb
    refine absurd ?_ (hold c hc)
    split
    · rfl
    · rfl

theorem stageStep_owner {a : ChannelUploadStage} (ha : a ∈ s.stages.rows)
    (hb : b ∈ (uploadStep limits s i).2.stages.rows) (hkey : b.key = a.key) (hne : b ≠ a) :
    ∃ peer offset bytes media,
      i.request = .channel a.key.1 peer (.data a.key.2 offset bytes) media ∧
        peer.identityHash = a.identityHash ∧ b = a.advance bytes := by
  have hafter := uploadStep_stages limits s i
  generalize (uploadStep limits s i).1 = r at hafter
  generalize (uploadStep limits s i).2 = s' at hafter hb
  cases hafter with
  | closed hrows _ => exact absurd (eq_of_key (hrows.subset hb) ha hkey) hne
  | opened _ hopens =>
    rcases hopens.mem_stages.mp hb with rfl | hb
    · exact absurd hkey.symm (find?_eq_none.mp hopens.fresh a ha)
    · exact absurd (eq_of_key hb ha hkey) hne
  | @advanced linkId peer resourceId offset bytes media stage hrequest _ hfound htakes hrows =>
    obtain ⟨hstage, hstageKey⟩ := find?_eq_some.mp hfound
    rw [hrows] at hb
    obtain ⟨c, hc, rfl⟩ := List.mem_map.mp hb
    by_cases hsame : (c.key == stage.key) = true
    · rw [if_pos hsame] at hkey ⊢
      obtain rfl : c = a := eq_of_key hc ha hkey
      obtain rfl := stage_of_key hstage hc hsame
      refine ⟨peer, offset, bytes, media, ?_, htakes.2.1.symm, rfl⟩
      rw [hrequest, hstageKey]
    · rw [if_neg hsame] at hkey hne
      exact absurd (eq_of_key hc ha hkey) hne

/-! Refused frames. -/

theorem removeStage_gone (s : UploadServer) (key : LinkId × String) :
    (s.removeStage key).stages.find? key = none :=
  find?_eq_none.mpr fun _ ha => beq_eq_false_iff_ne.mp (mem_deleteWhere.mp ha).2

/-- A write leaves the file of a stage as it was where it wrote nothing. -/
theorem read_extend_self {path : UploadPath} (d : Disk UploadPath) (h : d.read path = some file) :
    (d.extend path bytes).read path = d.read path ↔ bytes = [] := by
  rw [Disk.read_extend, if_pos rfl, h, Option.map_some, Option.some.injEq]
  constructor
  · exact fun happend => List.append_right_eq_self.mp happend
  · rintro rfl
    exact List.append_nil file

theorem data_refused {e : ServerError} (hkept : StagesKept s)
    (hfound : s.stages.find? (linkId, resourceId) = some stage)
    (h : dataChannelUpload i.faults linkId peer resourceId offset bytes s = (.error e, s')) :
    GoneOrAsBefore s s' stage ↔ ¬(stage.Takes peer.identityHash offset bytes ∧
      i.faults.file (.write stage.path) = true ∧
        Disk.partialWrite i.faults.written bytes ≠ []) := by
  obtain ⟨hstage, hkey⟩ := find?_eq_some.mp hfound
  have hself : s.stages.find? stage.key = some stage := hkey ▸ hfound
  rcases dataChannelUpload_cases h with ⟨_, rfl, hempty⟩ | ⟨stage', hfound', hend⟩
  · -- nothing was taken
    refine iff_of_true (.inr ⟨hself, rfl⟩) fun hbreaks => ?_
    rcases hempty with hempty | hnone
    · exact hbreaks.1.1 hempty
    · rw [hfound] at hnone
      cases hnone
  · obtain rfl : stage' = stage := Option.some.inj (hfound'.symm.trans hfound)
    rcases hend with ⟨_, htakes, rfl⟩ | ⟨htakes, ⟨_, hfault, rfl⟩ | ⟨hr, _⟩⟩
    · exact iff_of_true (.inl (removeStage_gone s _)) fun hbreaks => htakes hbreaks.1
    · -- the stage is there, so its file has to be as it was
      obtain ⟨file, hfile, _⟩ := hkept.files stage' hstage
      rw [GoneOrAsBefore]
      simp only [hself, reduceCtorEq, false_or, true_and, htakes, hfault, not_not, ne_eq]
      exact read_extend_self s.disk hfile
    · cases hr

theorem stageStep_refused (hkept : StagesKept s)
    (hrequest : i.request = .channel linkId peer frame media)
    (hfound : s.stages.find? (linkId, frame.resourceId) = some stage)
    (hrefused : Refused (uploadStep limits s i).1) :
    GoneOrAsBefore s (uploadStep limits s i).2 stage ↔ ¬BreaksOff i stage := by
  obtain ⟨hstage, hkey⟩ := find?_eq_some.mp hfound
  have hself : s.stages.find? stage.key = some stage := hkey ▸ hfound
  have hquiet : ¬Refused (.ok (.answered .quiet)) := by
    rintro (⟨e, h⟩ | ⟨frame, h⟩)
    · cases h
    · cases h
  cases frame with
  | start resourceId totalBytes =>
    rcases h : startChannelUpload limits i.faults i.readings linkId peer resourceId totalBytes s with
      ⟨r, s'⟩
    rw [uploadStep_channel hrequest h] at hrefused ⊢
    simp only [BreaksOff, hrequest, not_false_eq_true, iff_true]
    rcases startChannelUpload_cases h with ⟨haside, _⟩ | ⟨rfl, _⟩
    · refine .inr ⟨?_, by rw [haside.disk]⟩
      rw [haside.stages]
      exact hself
    · exact absurd hrefused hquiet
  | data resourceId offset bytes =>
    rcases h : dataChannelUpload i.faults linkId peer resourceId offset bytes s with ⟨r, s'⟩
    rw [uploadStep_channel hrequest h] at hrefused ⊢
    simp only [BreaksOff, hrequest]
    cases r with
    | error e => exact data_refused hkept hfound h
    | ok answer =>
      rcases data_stages h with ⟨⟨e, he⟩, _⟩ | ⟨hanswer, _⟩
      · cases he
      · cases hanswer
        exact absurd hrefused hquiet
  -- only bytes that break off leave a stage that is neither gone nor as before
  | finish resourceId totalBytes digest =>
    rcases h : finishChannelUpload limits i.faults i.readings linkId peer resourceId totalBytes digest
      media s with ⟨r, s'⟩
    rw [uploadStep_channel hrequest h]
    simp only [BreaksOff, hrequest, not_false_eq_true, iff_true]
    refine .inl ?_
    rw [finish_stages h]
    refine find?_eq_none.mpr fun a ha heq => ?_
    have hother := (mem_deleteWhere.mp ha).2
    rw [heq, hkey] at hother
    exact absurd hother (by simp [ChannelAttachmentFrame.resourceId])
  | cancel resourceId =>
    rcases h : cancelChannelUpload linkId resourceId s with ⟨r, s'⟩
    rw [uploadStep_channel hrequest h] at hrefused
    obtain ⟨rfl, _⟩ := cancelChannelUpload_cases h
    exact absurd hrefused hquiet

/-! Published stages. -/

/-- As many bytes as were counted are the bytes that were counted. -/
theorem ChannelUploadStage.Holds.eq (h : stage.Holds file)
    (hlength : file.length = stage.hashed.length) : file = stage.hashed := by
  rcases h with h | hmore
  · exact h
  · exact absurd hlength (Nat.ne_of_gt hmore)

theorem stageStep_published {id : String} {event : ServerRoomEvent} (hkept : StagesKept s)
    (hreceived : ReceivedOf s sent)
    (hrequest : i.request = .channel linkId peer (.finish resourceId totalBytes digest) media)
    (hdone : (uploadStep limits s i).1 = .ok (.answered (.published id upload stored event))) :
    ∃ content, (uploadStep limits s i).2.disk.read stored.path = some content ∧
      ChannelAttachmentFrame.reassemble resourceId 0 (sent (linkId, resourceId)) = some content ∧
      content.length = totalBytes.toNat ∧ limits.sha256 content = digest := by
  rcases h : finishChannelUpload limits i.faults i.readings linkId peer resourceId totalBytes digest
    media s with ⟨r, s'⟩
  rw [uploadStep_channel hrequest h] at hdone ⊢
  have hr : r = .ok (.published id upload stored event) := by
    cases r with
    | error e => cases hdone
    | ok answer =>
      have hanswer := UploadReply.answered.inj (Except.ok.inj hdone)
      rw [hanswer]
  subst hr
  rcases finishChannelUpload_cases h with ⟨⟨e, he⟩, _⟩ | ⟨stage, hfound, hend⟩
  · cases he
  · obtain ⟨hstage, hkey⟩ := find?_eq_some.mp hfound
    rcases hend with ⟨⟨frame, hf⟩, _⟩ | ⟨⟨e, he⟩, _⟩ | ⟨hcomplete, hcommit⟩
    · cases hf
    · cases he
    · obtain ⟨_, _, hwritten, hdigest⟩ := hcomplete
      rcases commitStage_cases hcommit with ⟨t, _, ⟨⟨frame, hf⟩, _⟩ | ⟨⟨e, he⟩, _⟩⟩ |
        ⟨upload', _, _, hback | ⟨content, hread, _, hlength, stored', s₁, hpublished, hend⟩⟩
      · cases hf
      · cases he
      · obtain ⟨e, he⟩ := hback.error
        cases he
      · rcases hend with ⟨⟨e, he⟩, _⟩ | ⟨event', hr, database, _, rfl⟩
        · cases he
        · obtain ⟨_, _, rfl, _⟩ := UploadAnswer.published.inj (Except.ok.inj hr)
          obtain ⟨file, hfile, hholds⟩ := hkept.files stage hstage
          obtain rfl : file = content := Option.some.inj (hfile.symm.trans hread)
          -- as many bytes as were counted, so the file has nothing beside them
          have hcontent : file = stage.hashed := by
            refine hholds.eq ?_
            rw [hlength, hkept.counted stage hstage, hwritten]
          refine ⟨file, ?_, ?_, hlength, hcontent ▸ hdigest⟩
          · show s₁.disk.read stored.path = some file
            rw [hpublished.files, if_neg fun hq => (hpublished.of_evicted hq).1 rfl, if_pos rfl]
          · have hsent := hreceived stage hstage
            rw [hkey] at hsent
            rw [hcontent]
            exact hsent

theorem stageStep_of_kept {p : UploadServer × Sent} (hkept : StagesKept p.1)
    (hreceived : ReceivedOf p.1 p.2) (hbounds : StagesBounded (uploadStep limits p.1 i).2) :
    StageStep limits p i where
  bounds := hbounds
  started _ hb hnew := stageStep_started hb hnew
  owner _ ha _ hb hkey hne := stageStep_owner ha hb hkey hne
  refused _ _ _ _ _ hrequest hfound hrefused := stageStep_refused hkept hrequest hfound hrefused
  published _ _ _ _ _ _ _ _ _ _ hrequest hdone :=
    stageStep_published hkept hreceived hrequest hdone

/-- From an empty index, in every run whose ledger can drop the rows of evicted files: the stages are
bounded, only who started a stage advances it, a frame that is refused closes its stage or leaves it
as it was just where no write of it broke off, and a published upload holds what was sent. -/
theorem channel_uploads_deliver (limits : UploadLimits) (s : UploadServer) (inputs : List UploadInput)
    (huploads : s.uploads.rows = []) (hstages : s.stages.rows = [])
    (hrecords : ∀ i ∈ inputs, i.faults.store .removeEvicted = none) :
    Machine.Meets (sentStep limits) (StageStep limits) (s, fun _ => []) inputs := by
  have hkept : StagesKept s := by
    constructor
    · refine ⟨?_, fun linkId => ?_, ?_⟩
      · rw [hstages]; exact Nat.zero_le _
      · rw [hstages]; exact Nat.zero_le _
      · rw [hstages]; exact nofun
    · rw [hstages]; exact nofun
    · rw [hstages]; exact nofun
    · rw [hstages]; exact nofun
    · rw [hstages]; exact nofun
    · rw [huploads]; exact nofun
    · rw [huploads]; exact nofun
    · rw [huploads]; exact nofun
  have hreceived : ReceivedOf s (fun _ => []) := by
    intro a ha
    rw [hstages] at ha
    cases ha
  have hstep : ∀ (p : UploadServer × Sent) (i : UploadInput), StagesKept p.1 ∧ ReceivedOf p.1 p.2 →
      i.faults.store .removeEvicted = none →
      StagesKept (uploadStep limits p.1 i).2 := fun p i hp hi =>
    (uploadStep_cases limits p.1 i).stagesKept hp.1 hi
  refine Machine.meets_of_invariant (I := fun p : UploadServer × Sent => StagesKept p.1 ∧ ReceivedOf p.1 p.2)
    (fun p i hp hi => ?_) (fun p i hp hi => ?_) (Machine.meets_of_forall hrecords) ⟨hkept, hreceived⟩
  · exact ⟨hstep p i hp hi, hp.2.step hp.1⟩
  · exact stageStep_of_kept hp.1 hp.2 (hstep p i hp hi).bounds

/-! Five bytes in two frames. -/

def uploaderLink : LinkId := Vector.replicate 16 1

/-- Two offers of a user whose directory was found clean when they were accepted. -/
def acceptedOffers : UploadServer := { twoOffers with verified := [1] }

def stageInput (frame : ChannelAttachmentFrame) (faults : Faults) : UploadInput :=
  { request := .channel uploaderLink uploader frame false, faults, readings := Readings.at 3 }

def twoFrames (faults : Faults) : List UploadInput :=
  [stageInput (.start "new" 5) Faults.none, stageInput (.data "new" 0 [1, 2, 3]) faults,
   stageInput (.data "new" 3 [4, 5]) Faults.none,
   stageInput (.finish "new" 5 (eightByteLimits.sha256 [1, 2, 3, 4, 5])) Faults.none]

/-- The run publishes the five bytes. -/
theorem channel_uploads_deliver_two_frames :
    Machine.Meets (sentStep eightByteLimits) (StageStep eightByteLimits) (acceptedOffers, fun _ => [])
        (twoFrames Faults.none) ∧
      (Machine.run (sentStep eightByteLimits) (acceptedOffers, fun _ => [])
        (twoFrames Faults.none)).2.1.disk.read ⟨[1], "new"⟩ = some [1, 2, 3, 4, 5] := by
  refine ⟨channel_uploads_deliver eightByteLimits acceptedOffers (twoFrames Faults.none) rfl rfl ?_,
    by decide +kernel⟩
  intro i hi
  simp only [twoFrames, List.mem_cons, List.not_mem_nil, or_false] at hi
  rcases hi with rfl | rfl | rfl | rfl
  · rfl
  · rfl
  · rfl
  · rfl

/-- Writes fail behind their first byte. -/
def writesOne : Faults :=
  { Faults.none with
    file := fun
      | .write _ => true
      | _ => false
    written := 1 }

/-- The state behind the start, and behind the bytes whose write breaks off. -/
def behindStart : UploadServer :=
  (uploadStep eightByteLimits acceptedOffers (twoFrames writesOne)[0]).2

def behindWrite : Except ServerError UploadReply × UploadServer :=
  uploadStep eightByteLimits behindStart (twoFrames writesOne)[1]

/-- Bytes of a frame that was refused stay in the file of the stage, which stays open. -/
theorem channel_uploads_leave_bytes :
    ¬∀ (limits : UploadLimits) (s : UploadServer) (inputs : List UploadInput),
      s.uploads.rows = [] → s.stages.rows = [] →
      (∀ i ∈ inputs, i.faults.store = Faults.none.store) →
      Machine.Meets (uploadStep limits) (fun s i => ∀ linkId peer frame media stage,
        i.request = .channel linkId peer frame media →
        s.stages.find? (linkId, frame.resourceId) = some stage → Refused (uploadStep limits s i).1 →
        GoneOrAsBefore s (uploadStep limits s i).2 stage) s inputs := by
  intro h
  have hstore : ∀ i ∈ twoFrames writesOne, i.faults.store = Faults.none.store := by
    intro i hi
    simp only [twoFrames, List.mem_cons, List.not_mem_nil, or_false] at hi
    rcases hi with rfl | rfl | rfl | rfl
    · rfl
    · rfl
    · rfl
    · rfl
  have hmeets := h eightByteLimits acceptedOffers (twoFrames writesOne) rfl rfl hstore
  -- the stage is open, and nothing is in its file yet
  obtain ⟨stage, hfound⟩ : ∃ stage, behindStart.stages.find? (uploaderLink, "new") = some stage :=
    Option.isSome_iff_exists.mp (by decide +kernel)
  have hkey : stage.key = (uploaderLink, "new") := (find?_eq_some.mp hfound).2
  have hpath : stage.path = stagePath [1] 0 := by
    have hpaths : (behindStart.stages.find? (uploaderLink, "new")).map ChannelUploadStage.path =
        some (stagePath [1] 0) := by decide +kernel
    rw [hfound] at hpaths
    exact Option.some.inj hpaths
  have hfails : Refused behindWrite.1 := by
    have herror : behindWrite.1.toBool = false := by decide +kernel
    cases hr : behindWrite.1 with
    | error e => exact .inl ⟨e, rfl⟩
    | ok reply =>
      rw [hr] at herror
      cases herror
  rcases hmeets.2.1 uploaderLink uploader (.data "new" 0 [1, 2, 3]) false stage rfl hfound hfails with
    hgone | ⟨_, hsame⟩
  · have hopen : (behindWrite.2.stages.find? (uploaderLink, "new")).isSome = true := by decide +kernel
    have hnone : behindWrite.2.stages.find? (uploaderLink, "new") = none := hkey ▸ hgone
    rw [hnone] at hopen
    cases hopen
  · -- one byte of the three that were refused
    have hbefore : behindStart.disk.read (stagePath [1] 0) = some [] := by decide +kernel
    have hafter : behindWrite.2.disk.read (stagePath [1] 0) = some [1] := by decide +kernel
    rw [hpath] at hsame
    rw [show behindWrite.2.disk.read (stagePath [1] 0) = _ from hsame] at hafter
    cases hbefore.symm.trans hafter

end Omen.Server
