import OmenBrowser.Server.UploadOutcomes

/- What a request about uploads does, one lemma for each kind (`server/src/session.rs`).

   A request publishes nothing, takes back what it had written, or publishes one upload. The files,
   the index and the stages after it are said in terms of those before it. -/
namespace Omen.Server
open Wire Sql Ints Omen.Protocol Act Table UploadServer Except UploadFileRow

variable {limits : UploadLimits} {faults : Faults} {readings : Readings} {s s' : UploadServer}
  {peer : ServerPeer} {resourceId : String} {upload : PendingUpload} {media : Bool}
  {staged : UploadPath} {incomingBytes : UInt64} {e : ServerError}
  {identity content : Bytes} {own : List UploadPath} {stored : StoredUpload}
  {plan : UploadQuotaPlan} {r : Except ServerError UploadAnswer} {seq : UInt32}
  {offer : UploadOfferBody} {reservation : Option RateReservation} {path : UploadPath}

/-- The paths of the uploads that have to go for these bytes to fit. -/
def UploadServer.evictions (s : UploadServer) (limits : UploadLimits) (u : UserId) (n : Nat) :
    List UploadPath :=
  (evictedRows limits.quotaBytes.toNat
    (saturatingCount (totalBytes ((s.entries u).map byteLen)) n) (s.entries u)).map
    UploadFileRow.path

/-- From `s` to `s'` an upload with this content was published and its evictions carried out. -/
structure UploadDone (limits : UploadLimits) (faults : Faults) (readings : Readings)
    (identity : Bytes) (own : List UploadPath) (resourceId : String) (upload : PendingUpload)
    (content : Bytes) (stored : StoredUpload) (s s' : UploadServer) : Prop where
  enabled : limits.quotaBytes.toNat ≠ 0
  fits : stored.bytes ≤ limits.quotaBytes.toNat
  length : content.length = stored.bytes
  path : stored.path = nextUploadPath s.taken identity upload.filename readings.millis
  evicted : ∃ disk : Disk UploadPath, (∀ q, disk.read q = if q = stored.path then some content
      else if q ∈ own then none else s.disk.read q) ∧
    stored.evicted = (evictFiles faults stored.path (s.evictions limits upload.userId stored.bytes)
      disk).1
  files : ∀ q, s'.disk.read q = if q ∈ stored.evicted then none else if q = stored.path then
    some content else if q ∈ own then none else s.disk.read q
  uploads : s'.uploads =
    if faults.store .removeEvicted = none then
      ((s.setUpload (of resourceId upload readings.recorded stored)).dropUploads
        upload.userId resourceId stored.evicted).uploads
    else (s.setUpload (of resourceId upload readings.recorded stored)).uploads
  stages : s'.stages = s.stages
  rooms : s'.rooms = s.rooms
  database : s'.database = { s.database with users := s'.database.users }
  ids : ∀ u identity, s.database.Resolves u identity → s'.database.Resolves u identity
  trusted : faults.store .removeEvicted = none →
    upload.userId ∈ s'.verified ∧ ∀ u ∈ s.verified, u ∈ s'.verified

/-- What is beside a publication, and before it, is beside the whole. -/
theorem UploadDone.of_aside {s₁ : UploadServer} (haside : Aside s s₁)
    (h : UploadDone limits faults readings identity own resourceId upload content stored s₁ s') :
    UploadDone limits faults readings identity own resourceId upload content stored s s' where
  enabled := h.enabled
  fits := h.fits
  length := h.length
  path := by rw [h.path, haside.taken]
  evicted := by
    obtain ⟨disk, hread, hevicted⟩ := h.evicted
    refine ⟨disk, ?_, ?_⟩
    · rw [← haside.disk]
      exact hread
    · rw [hevicted, evictions, evictions, haside.entries]
  files := by rw [← haside.disk]; exact h.files
  uploads := by
    rw [h.uploads, setUpload, setUpload, dropUploads,
      dropUploads, haside.uploads]
  stages := h.stages.trans haside.stages
  rooms := h.rooms.trans haside.rooms
  database := by rw [h.database, haside.database]
  ids u i hu := h.ids u i (haside.ids u i hu)
  trusted hop := ⟨(h.trusted hop).1, fun u hu => (h.trusted hop).2 u (haside.verified u hu)⟩

variable {t : UploadServer} {data : Bytes} {roomId : UInt32} {user : ServerUser}

/-- The rows of the evicted files go, and the publication is done. -/
theorem uploadDone_of_publish {disk : Disk UploadPath} (haside : Aside s t)
    (hplan : Planned limits s upload.userId stored.bytes plan)
    (hverified : upload.userId ∈ t.verified)
    (hpath : stored.path = nextUploadPath s.taken identity upload.filename readings.millis)
    (hlength : content.length = stored.bytes)
    (hread : ∀ q, disk.read q = if q = stored.path then some content
      else if q ∈ own then none else s.disk.read q)
    (hevicted : stored.evicted = (evictFiles faults stored.path plan.evict disk).1) :
    UploadDone limits faults readings identity own resourceId upload content stored s
      (cleanLedger faults upload.userId resourceId stored.evicted (t.publish faults plan.evict
        (of resourceId upload readings.recorded stored) disk)).2 := by
  have hevict : plan.evict = s.evictions limits upload.userId stored.bytes := hplan.evict
  have hfiles : ∀ q, (evictFiles faults stored.path plan.evict disk).2.read q =
      if q ∈ stored.evicted then none else if q = stored.path then some content
        else if q ∈ own then none else s.disk.read q := by
    intro q
    rw [evictFiles_eq.2 q, hread, hevicted]
  have htable : (t.setUpload (of resourceId upload readings.recorded stored)).uploads =
      (s.setUpload (of resourceId upload readings.recorded stored)).uploads := by
    rw [setUpload, setUpload, haside.uploads]
  -- removing the rows of evicted files touches the table of uploads alone
  rw [cleanLedger_eq]
  refine
    { enabled := hplan.enabled
      fits := hplan.fits
      length := hlength
      path := hpath
      evicted := ⟨disk, hread, hevict ▸ hevicted⟩
      files := ?_
      uploads := ?_
      stages := ?_
      rooms := ?_
      database := ?_
      ids := ?_
      trusted := ?_ }
  · split
    · exact hfiles
    · exact hfiles
  · split
    · show ((t.setUpload _).dropUploads _ _ _).uploads = ((s.setUpload _).dropUploads _ _ _).uploads
      rw [dropUploads, dropUploads, htable]
    · exact htable
  · split
    · exact haside.stages
    · exact haside.stages
  · split
    · exact haside.rooms
    · exact haside.rooms
  · split
    · exact haside.database
    · exact haside.database
  · split
    · exact haside.ids
    · exact haside.ids
  · intro hop
    rw [if_pos hop]
    exact ⟨hverified, haside.verified⟩

/-! What was offered. -/

/-- The resource id was offered by the identity, for this upload. -/
def Offered (s : UploadServer) (identity : Bytes) (resourceId : String) (upload : PendingUpload) :
    Prop :=
  ∃ entry ∈ s.pending.rows, entry.resourceId = resourceId ∧ entry.identityHash = identity ∧
    entry.upload = upload

/-- An offer that is taken was there, for the identity, and is gone. -/
theorem takePendingUpload_found
    (h : takePendingUpload readings resourceId peer s = (.ok (.found upload), s')) :
    Offered s peer.identityHash resourceId upload ∧
      ∀ entry ∈ s'.pending.rows, entry.resourceId ≠ resourceId := by
  obtain ⟨htaken, hs⟩ := Prod.mk.inj h
  have htaken := ok.inj htaken
  unfold PendingUploads.takeForIdentity at htaken hs
  cases hfound : (s.pending.purgeExpired readings.unixSeconds).find? resourceId with
  | none =>
    simp only [hfound] at htaken
    cases htaken
  | some entry =>
    simp only [hfound] at htaken hs
    split at htaken
    · next howner =>
      rw [if_pos howner] at hs
      obtain ⟨hmem, hid⟩ := find?_eq_some.mp hfound
      refine ⟨⟨entry, (mem_deleteWhere.mp hmem).1, hid, howner,
        PendingUploadTake.found.inj htaken⟩, ?_⟩
      rw [← hs]
      intro other hother
      exact beq_eq_false_iff_ne.mp (mem_deleteWhere.mp hother).2
    · cases htaken

/-- An upload that may be published was offered by the identity, with this length. -/
theorem admitResource_ok
    (h : admitResource limits faults readings peer resourceId data media s = (.ok (.ok upload), s')) :
    Offered s peer.identityHash resourceId upload ∧ data.length = upload.incomingBytes.toNat := by
  obtain ⟨taken, s₁, htake, h⟩ := bind_eq_ok.mp h
  cases taken with
  | notFound | identityMismatch => cases h
  | found upload' =>
    simp only at h
    split at h
    · cases h
    · next hlength =>
      obtain ⟨refusal, s₂, _, h⟩ := bind_eq_ok.mp h
      obtain ⟨hrefusal, _⟩ := Prod.mk.inj h
      cases refusal with
      | some frame => cases hrefusal
      | none =>
        cases hrefusal
        exact ⟨(takePendingUpload_found htake).1, not_not.mp hlength⟩

theorem admitStage_ok (h : admitStage limits faults readings peer resourceId staged incomingBytes media
      s = (.ok (.ok upload), s')) :
    Offered s peer.identityHash resourceId upload ∧ upload.incomingBytes = incomingBytes := by
  obtain ⟨taken, s₁, htake, h⟩ := bind_eq_ok.mp h
  cases taken with
  | notFound | identityMismatch => cases h
  | found upload' =>
    simp only at h
    split at h
    · cases h
    · next hlength =>
      obtain ⟨refusal, s₂, _, h⟩ := bind_eq_ok.mp h
      cases refusal with
      | some frame => cases h
      | none =>
        obtain ⟨hupload, _⟩ := Prod.mk.inj h
        cases hupload
        exact ⟨(takePendingUpload_found htake).1, not_not.mp hlength⟩

/-! Requests. -/

/-- The room event of an upload can be appended. -/
def EventAppends (limits : UploadLimits) (faults : Faults) (readings : Readings)
    (resourceId : String) (upload : PendingUpload) (bytes : Nat) (s : UploadServer) : Prop :=
  faults.store .appendEvent = none ∧ ∃ r, appendEventInTransaction upload.roomId.toNat
    (some upload.userId) (.upload resourceId upload.filename bytes) limits.historyRetention
    readings.event s.database = .ok r

/-- The room event of an upload was appended. -/
def EventAppended (limits : UploadLimits) (readings : Readings) (resourceId : String)
    (upload : PendingUpload) (stored : StoredUpload) (event : ServerRoomEvent) (s s' : UploadServer) :
    Prop :=
  ∃ database, appendEventInTransaction upload.roomId.toNat (some upload.userId)
      (.upload resourceId upload.filename stored.bytes) limits.historyRetention readings.event
      s.database = .ok (event, database) ∧
    s' = { s with database }

/-- Behind a publication the event is appended, or the request fails. -/
theorem announce_cases (h : announce limits faults readings resourceId upload stored s = (r, s')) :
    ((∃ e, r = .error e) ∧ ¬EventAppends limits faults readings resourceId upload stored.bytes s' ∧
        s' = (cleanLedger faults upload.userId resourceId stored.evicted s).2) ∨
      ∃ event, r = .ok (.published resourceId upload stored event) ∧
        EventAppended limits readings resourceId upload stored event
          (cleanLedger faults upload.userId resourceId stored.evicted s).2 s' := by
  unfold announce at h
  have hclean : cleanLedger faults upload.userId resourceId stored.evicted s =
      (.ok (), (cleanLedger faults upload.userId resourceId stored.evicted s).2) := by
    rw [cleanLedger_eq]
  rw [bind_ok hclean] at h
  cases r with
  | error e =>
    rcases bind_eq_error.mp h with h | ⟨_, _, _, h⟩
    · rcases storeOp_error h with ⟨hop, hs⟩ | ⟨_, h⟩
      · exact .inl ⟨⟨e, rfl⟩, fun happends => hop happends.1, hs⟩
      · obtain ⟨hfail, hs⟩ := onLedger_error.mp h
        refine .inl ⟨⟨e, rfl⟩, ?_, hs⟩
        rintro ⟨_, answer, hdone⟩
        rw [← hs] at hfail
        cases hdone.symm.trans hfail
    · cases h
  | ok answer =>
    obtain ⟨event, s₁, happend, h⟩ := bind_eq_ok.mp h
    obtain ⟨_, happend⟩ := storeOp_ok.mp happend
    obtain ⟨hanswer, rfl⟩ := Prod.mk.inj h
    cases hanswer
    exact .inr ⟨event, rfl, onLedger_ok.mp happend⟩

/-- Nothing was published under any id. -/
def Unpublishing (r : Except ServerError UploadAnswer) : Prop :=
  ∀ resourceId upload stored event, r ≠ .ok (.published resourceId upload stored event)

theorem Unpublishing.error (e : ServerError) : Unpublishing (.error e) := fun _ _ _ _ h => nomatch h

theorem Unpublishing.quiet : Unpublishing (.ok .quiet) := fun _ _ _ _ h => nomatch h

theorem Unpublishing.refused (frame : Frame) : Unpublishing (.ok (.refused frame)) :=
  fun _ _ _ _ h => nomatch h

/-- What was written was taken back, along with a file that was under the picked name. -/
structure TakenBack (identity : Bytes) (own : List UploadPath) (upload : PendingUpload)
    (readings : Readings) (r : Except ServerError UploadAnswer) (s s' : UploadServer) : Prop where
  error : ∃ e, r = .error e
  files : ∃ gone : List UploadPath, (∀ q, s'.disk.read q = if q ∈ gone then none else s.disk.read q) ∧
    ∀ q ∈ gone, q ∈ own ∨ q = nextUploadPath s.taken identity upload.filename readings.millis
  rest : Aside s { s' with disk := s.disk }

/-- An upload was published, and its event appended or the request failed. -/
def Publishes (limits : UploadLimits) (faults : Faults) (readings : Readings) (identity : Bytes)
    (own : List UploadPath) (resourceId : String) (upload : PendingUpload) (content : Bytes)
    (r : Except ServerError UploadAnswer) (s s' : UploadServer) : Prop :=
  ∃ stored s₁, UploadDone limits faults readings identity own resourceId upload content stored s s₁ ∧
    (((∃ e, r = .error e) ∧ ¬EventAppends limits faults readings resourceId upload stored.bytes s' ∧
        s' = s₁) ∨
      ∃ event, r = .ok (.published resourceId upload stored event) ∧
        EventAppended limits readings resourceId upload stored event s₁ s')

theorem publishes_of_announce
    (hdone : UploadDone limits faults readings identity own resourceId upload content stored s
      (cleanLedger faults upload.userId resourceId stored.evicted t).2)
    (h : announce limits faults readings resourceId upload stored t = (r, s')) :
    Publishes limits faults readings identity own resourceId upload content r s s' :=
  ⟨stored, _, hdone, announce_cases h⟩

/-- An upload that arrives whole. -/
theorem handleResource_cases
    (h : handleUploadResourceWithRoomMediaPolicy limits faults readings peer resourceId data media s =
      (r, s')) :
    (Aside s s' ∧ Unpublishing r) ∨
      ∃ upload, Offered s peer.identityHash resourceId upload ∧
        data.length = upload.incomingBytes.toNat ∧
        (TakenBack peer.identityHash [] upload readings r s s' ∨
          Publishes limits faults readings peer.identityHash [] resourceId upload data r s s') := by
  unfold handleUploadResourceWithRoomMediaPolicy at h
  rcases hadmitted : admitResource limits faults readings peer resourceId data media s with
    ⟨admitted, s₁⟩
  have haside : Aside s s₁ := admitResource_aside.of_eq hadmitted
  rcases admitted with e | frame | upload
  · rw [bind_error hadmitted] at h
    cases h
    exact .inl ⟨haside, .error _⟩
  · rw [bind_ok hadmitted] at h
    cases h
    exact .inl ⟨haside, .refused _⟩
  · rw [bind_ok hadmitted] at h
    simp only at h
    obtain ⟨hoffered, hlength⟩ := admitResource_ok hadmitted
    rcases hpublish : publishResource limits faults readings peer resourceId upload data s₁ with
      ⟨stored, s₂⟩
    cases stored with
    | error e =>
      rw [bind_error hpublish] at h
      cases h
      -- failed before a file was there, or the file that was made is removed
      rcases publishResource_error hpublish with hprepare | ⟨plan, path, temp, t, hprepare, _, hdisk,
        hrest⟩
      · exact .inl ⟨haside.trans _ _ _ (prepareUpload_aside.of_eq hprepare), .error _⟩
      · obtain ⟨_, _, hpath, _⟩ := prepareUpload_ok hprepare
        rw [haside.disk] at hrest hdisk
        rw [haside.taken] at hpath
        refine .inr ⟨upload, hoffered, hlength, .inl ⟨⟨e, rfl⟩, ⟨[path], fun q => ?_, fun q hq => ?_⟩,
          haside.trans _ _ _ hrest⟩⟩
        · simp only [hdisk, List.mem_singleton]
        · exact .inr ((List.mem_singleton.mp hq).trans hpath)
    | ok stored =>
      rw [bind_ok hpublish] at h
      obtain ⟨plan, temp, t, hprepare, _, _, disk, hread, hstored, rfl⟩ := publishResource_ok hpublish
      obtain ⟨hplan, hverified, hpath, _, _⟩ := prepareUpload_ok hprepare
      have hbytes : data.length = stored.bytes := by rw [hstored]
      rw [hbytes] at hplan
      have hdone : UploadDone limits faults readings peer.identityHash [] resourceId upload data stored
          s₁ _ :=
        uploadDone_of_publish (prepareUpload_aside.of_eq hprepare) hplan hverified hpath hbytes
          (by simpa using hread) (congrArg StoredUpload.evicted hstored)
      exact .inr ⟨upload, hoffered, hlength, .inr (publishes_of_announce (hdone.of_aside haside) h)⟩

/-- The commit of a stage, whose file goes or stays where nothing is published. -/
theorem commitStage_cases
    (h : commitChannelStage limits faults readings peer resourceId staged incomingBytes media s =
      (r, s')) :
    (∃ t, Aside s t ∧ (((∃ frame, r = .ok (.refused frame)) ∧ s' = t.erase staged) ∨
        ((∃ e, r = .error e) ∧ (s' = t ∨ s' = t.erase staged)))) ∨
      ∃ upload, Offered s peer.identityHash resourceId upload ∧ upload.incomingBytes = incomingBytes ∧
        (TakenBack peer.identityHash [staged] upload readings r s s' ∨
          ∃ content, s.disk.read staged = some content ∧ staged.identity = peer.identityHash ∧
            content.length = incomingBytes.toNat ∧
            Publishes limits faults readings peer.identityHash [staged] resourceId upload content r s
              s') := by
  unfold commitChannelStage at h
  rcases hadmitted : admitStage limits faults readings peer resourceId staged incomingBytes media s with
    ⟨admitted, s₁⟩
  rcases admitted with e | frame | upload
  · rw [bind_error hadmitted] at h
    obtain ⟨rfl, rfl⟩ := Prod.mk.inj h
    rcases admitStage_eq hadmitted with ⟨haside, _⟩ | ⟨_, _, _, hr, _⟩
    · exact .inl ⟨s₁, haside, .inr ⟨⟨e, rfl⟩, .inl rfl⟩⟩
    · cases hr
  · rw [bind_ok hadmitted] at h
    cases h
    rcases admitStage_eq hadmitted with ⟨_, hne⟩ | ⟨t, _, haside, _, hs⟩
    · exact absurd rfl (hne frame)
    · exact .inl ⟨t, haside, .inl ⟨⟨frame, rfl⟩, hs⟩⟩
  · rw [bind_ok hadmitted] at h
    simp only at h
    have haside : Aside s s₁ := by
      rcases admitStage_eq hadmitted with ⟨haside, _⟩ | ⟨_, _, _, hr, _⟩
      · exact haside
      · cases hr
    obtain ⟨hoffered, hlength⟩ := admitStage_ok hadmitted
    rcases hpublish : publishStage limits faults readings peer resourceId upload staged incomingBytes
      s₁ with ⟨stored, s₂⟩
    cases stored with
    | error e =>
      rw [bind_error hpublish] at h
      cases h
      rcases publishStage_error hpublish with hprepare | ⟨plan, path, t, hprepare, hfault, hrest⟩
      · obtain ⟨t, ht, hs⟩ := prepareStaged_error hprepare
        exact .inl ⟨t, haside.trans _ _ _ ht, .inr ⟨⟨e, rfl⟩, hs⟩⟩
      · obtain ⟨_, _, _, hpath, _⟩ := prepareStaged_ok hprepare
        rw [haside.disk] at hrest hfault
        rw [haside.taken] at hpath
        refine .inr ⟨upload, hoffered, hlength, .inl ⟨⟨e, rfl⟩, ?_, haside.trans _ _ _ hrest⟩⟩
        -- taken back before the file was moved, or behind that: then it has the new path
        rcases hfault with ⟨_, hdisk⟩ | ⟨_, _, hdisk⟩
        · refine ⟨[staged], fun q => ?_, fun q hq => .inl hq⟩
          simp only [hdisk, List.mem_singleton]
        · refine ⟨[path, staged], fun q => ?_, fun q hq => ?_⟩
          · simp only [hdisk, List.mem_cons, List.not_mem_nil, or_false]
          · rcases List.mem_cons.mp hq with rfl | hq
            · exact .inr hpath
            · exact .inl hq
    | ok stored =>
      rw [bind_ok hpublish] at h
      obtain ⟨plan, t, content, hprepare, _, _, _, hcontent, disk, hread, hstored, rfl⟩ :=
        publishStage_ok hpublish
      obtain ⟨haside', hplan, hverified, hpath, hidentity, bytes, hbytes, hcount⟩ :=
        prepareStaged_ok hprepare
      -- what was checked is what was moved
      obtain rfl := Option.some.inj (hbytes.symm.trans hcontent)
      have hstoredBytes : incomingBytes.toNat = stored.bytes := by rw [hstored]
      rw [hstoredBytes] at hplan
      have hdone : UploadDone limits faults readings peer.identityHash [staged] resourceId upload bytes
          stored s₁ _ :=
        uploadDone_of_publish haside' hplan hverified hpath (hcount.trans hstoredBytes)
          (by simpa using hread) (congrArg StoredUpload.evicted hstored)
      refine .inr ⟨upload, hoffered, hlength, .inr ⟨bytes, ?_, hidentity, hcount,
        publishes_of_announce (hdone.of_aside haside) h⟩⟩
      rw [← haside.disk]
      exact hbytes

/-! Offers. -/

theorem acceptOffer_aside :
    Act.Steps Aside (acceptOffer limits readings peer user seq roomId offer plan reservation) := by
  refine .bind (fun s => Aside.of_eq rfl fun _ hu => hu) fun _ => ?_
  refine .bind (.read _) fun admitted => ?_
  cases admitted with
  | none | some =>
    exact .bind (fun s => Aside.of_eq rfl fun _ hu => hu) fun _ => .pure _

theorem planOffer_aside :
    Act.Steps Aside (planOffer limits faults readings peer user seq roomId offer reservation) := by
  have hrelease : Act.Steps Aside (modify (fun s : UploadServer => { s with
      buckets := reservation.elim s.buckets (·.release s.buckets) }) : Uploading Unit) :=
    fun s => Aside.of_eq rfl fun _ hu => hu
  refine .bind (fun s => ?_) fun decision => ?_
  · rcases h : (plannerOf limits faults user.userId peer.identityHash offer.incomingBytes.toNat).undoing
      (fun s => { s with buckets := reservation.elim s.buckets (·.release s.buckets) }) s with ⟨r, s'⟩
    cases r with
    | ok d => exact plannerOf_aside.of_eq (undoing_ok.mp h)
    | error e =>
      obtain ⟨t, ht, rfl⟩ := undoing_error.mp h
      exact (plannerOf_aside.of_eq ht).trans _ _ _ (Aside.of_eq rfl fun _ hu => hu)
  · cases decision with
    | disabled | tooLarge => exact .bind hrelease fun _ => .pure _
    | accepted plan => exact acceptOffer_aside

/-- An offer publishes nothing. -/
theorem handleOffer_aside {roomId : Option UInt32} {body : FrameBody} :
    Act.Steps Aside (handleOffer limits faults readings peer seq roomId body media) := by
  cases roomId with
  | none => exact pure_aside
  | some roomId =>
    refine .bind (read_aside) fun room => .ite (pure_aside) ?_
    refine .bind ensureUploader_aside fun user => ?_
    cases user with
    | none => exact pure_aside
    | some user =>
      refine .ite (pure_aside) (.bind (read_aside) fun member => ?_)
      refine .ite (pure_aside) (.bind (read_aside) fun content => ?_)
      cases content with
      | some rejection => exact pure_aside
      | none =>
        simp only [offerIn]
        cases uploadOfferBody body with
        | none => exact pure_aside
        | some offer =>
          simp only
          cases offerRejection limits seq roomId offer with
          | some rejection => exact pure_aside
          | none =>
            refine .bind ?_ fun policy => ?_
            · exact .ite (read_aside) (pure_aside)
            · cases policy with
              | some rejection => exact pure_aside
              | none =>
                refine .ite (pure_aside) ?_
                refine .bind (.read _) fun reserved => ?_
                refine .bind
                  (.modify fun s => Aside.of_eq rfl fun _ hu => hu) fun _ => ?_
                cases reserved.1 with
                | rejected => exact pure_aside
                | admitted reservation => exact planOffer_aside

section Channel
variable {linkId : LinkId} {totalBytes offset : UInt64} {bytes : Bytes}
  {r : Except ServerError UploadAnswer}

/-- The stage an upload is opened with. -/
def ChannelUploadStage.opened (linkId : LinkId) (resourceId : String) (identity : Bytes)
    (path : UploadPath) (totalBytes : UInt64) : ChannelUploadStage :=
  { key := (linkId, resourceId), identityHash := identity, path
    expectedBytes := totalBytes, writtenBytes := 0, hashed := [] }

/-- A start opens a stage for what the identity offered, with a new file, where there is room. -/
structure Opens (limits : UploadLimits) (linkId : LinkId) (peer : ServerPeer) (resourceId : String)
    (totalBytes : UInt64) (s s' : UploadServer) (path : UploadPath) : Prop where
  offered : ∃ upload, Offered s peer.identityHash resourceId upload ∧
    upload.incomingBytes = totalBytes
  free : s.taken path = false
  named : ∃ sequence, path = stagePath peer.identityHash sequence
  fresh : s.stages.find? (linkId, resourceId) = none
  room : s.stages.rows.length < channelUploadMaxItems
  roomOnLink : s.stages.rows.countP (fun stage => stage.key.1 == linkId) <
    channelUploadMaxItemsPerLink
  disk : s'.disk = s.disk.put path []
  stages : s'.stages = s.stages.insertOrIgnore
    (ChannelUploadStage.opened linkId resourceId peer.identityHash path totalBytes)
  rest : Aside s { s' with disk := s.disk, stages := s.stages }

/-- A taken path is there. -/
theorem read_of_not_taken (h : s.taken path = false) : s.disk.read path = none := by
  rw [taken, Bool.or_eq_false_iff, Option.isSome_eq_false_iff,
    Option.isNone_iff_eq_none] at h
  exact h.2

theorem Opens.rows (h : Opens limits linkId peer resourceId totalBytes s s' path) :
    s'.stages.rows =
      ChannelUploadStage.opened linkId resourceId peer.identityHash path totalBytes ::
        s.stages.rows := by
  obtain ⟨t, ht⟩ := exists_insert (find?_eq_none.mp h.fresh :
    ∀ q ∈ s.stages.rows, q.key ≠
      (ChannelUploadStage.opened linkId resourceId peer.identityHash path totalBytes).key)
  rw [h.stages, insertOrIgnore, ht]
  exact (insert_ok.mp ht).1

theorem Opens.mem_stages (h : Opens limits linkId peer resourceId totalBytes s s' path)
    {stage : ChannelUploadStage} :
    stage ∈ s'.stages.rows ↔
      stage = ChannelUploadStage.opened linkId resourceId peer.identityHash path totalBytes ∨
        stage ∈ s.stages.rows := by
  rw [h.rows, List.mem_cons]

theorem createChannelUploadStage_cases {path : Except ServerError UploadPath}
    (h : createChannelUploadStage faults identity s = (path, s')) :
    (∃ e, path = .error e ∧ Aside s s' ∧ s'.pending = s.pending) ∨
      ∃ p, path = .ok p ∧ s.taken p = false ∧ (∃ sequence, p = stagePath identity sequence) ∧
        ∃ sequence, s' = { s with tempSequence := sequence, disk := s.disk.put p [] } := by
  unfold createChannelUploadStage ensureSafeIdentityDir at h
  split at h
  · cases h
    exact .inl ⟨_, rfl, Aside.refl s, rfl⟩
  · rw [pure_bind, read_bind, modify_bind] at h
    cases hp : (freePath s.taken (stagePath identity) 32 s.tempSequence).1 with
    | none =>
      simp only [hp] at h
      cases h
      exact .inl ⟨_, rfl, Aside.of_eq rfl fun _ hu => hu, rfl⟩
    | some p =>
      simp only [hp] at h
      obtain ⟨hfree, hnamed⟩ := freePath_free (Prod.ext hp rfl)
      rcases hcreate : onDisk (Disk.create .io (faults.file (.create p)) p)
        { s with tempSequence := (freePath s.taken (stagePath identity) 32 s.tempSequence).2 } with
        ⟨created, t⟩
      obtain ⟨disk, hdisk, rfl⟩ := onDisk_eq.mp hcreate
      cases created with
      | error e =>
        obtain ⟨_, rfl⟩ := Disk.create_error hdisk
        rw [bind_error hcreate] at h
        cases h
        exact .inl ⟨e, rfl, Aside.of_eq rfl fun _ hu => hu, rfl⟩
      | ok _ =>
        obtain ⟨_, _, rfl⟩ := Disk.create_ok.mp hdisk
        rw [bind_ok hcreate] at h
        cases h
        exact .inr ⟨p, rfl, hfree, hnamed, _, rfl⟩

theorem startChannelUpload_cases
    (h : startChannelUpload limits faults readings linkId peer resourceId totalBytes s = (r, s')) :
    (Aside s s' ∧ Unpublishing r) ∨
      r = .ok .quiet ∧ ∃ path, Opens limits linkId peer resourceId totalBytes s s' path := by
  unfold startChannelUpload at h
  rw [modify_bind, read_bind] at h
  simp only [id] at h
  -- expired offers are removed first, whatever follows
  have hpurged : Aside s { s with pending := s.pending.purgeExpired readings.unixSeconds } :=
    Aside.of_eq rfl fun _ hu => hu
  cases hupload : (s.pending.purgeExpired readings.unixSeconds).getForIdentity resourceId
    peer.identityHash with
  | none =>
    simp only [hupload] at h
    cases h
    exact .inl ⟨hpurged, .refused _⟩
  | some upload =>
    simp only [hupload] at h
    split at h
    · cases h
      exact .inl ⟨hpurged, .refused _⟩
    · next hsize =>
      split at h
      · cases h
        exact .inl ⟨hpurged, .refused _⟩
      · split at h
        · cases h
          exact .inl ⟨hpurged, .quiet⟩
        · next hfresh =>
          split at h
          · cases h
            exact .inl ⟨hpurged, .refused _⟩
          · next hroom =>
            rcases hcreate : createChannelUploadStage faults peer.identityHash
              { s with pending := s.pending.purgeExpired readings.unixSeconds } with ⟨path, t⟩
            rcases createChannelUploadStage_cases hcreate with ⟨e, rfl, haside, _⟩ |
              ⟨p, rfl, hfree, hnamed, sequence, rfl⟩
            · rw [bind_error hcreate] at h
              cases h
              exact .inl ⟨hpurged.trans _ _ _ haside, .error _⟩
            · rw [bind_ok hcreate] at h
              cases h
              simp only [not_or, not_le] at hroom hsize
              -- an offer that was not purged was there before
              have hoffered : Offered s peer.identityHash resourceId upload := by
                obtain ⟨entry, hentry, rfl⟩ := Option.map_eq_some_iff.mp hupload
                obtain ⟨hfound, howner⟩ := Option.filter_eq_some_iff.mp hentry
                obtain ⟨hmem, hid⟩ := find?_eq_some.mp hfound
                exact ⟨entry, (mem_deleteWhere.mp hmem).1, hid, beq_iff_eq.mp howner, rfl⟩
              refine .inr ⟨rfl, p, ⟨upload, hoffered, not_not.mp hsize.1⟩, hfree, hnamed, ?_, hroom.1,
                hroom.2, rfl, rfl, Aside.of_eq rfl fun _ hu => hu⟩
              simpa using hfresh

/-- A stage that is gone with its file. -/
def UploadServer.dropStage (s : UploadServer) (stage : ChannelUploadStage) : UploadServer :=
  (s.removeStage stage.key).erase stage.path

variable (stage : ChannelUploadStage)

/-- The stage takes these bytes next. -/
def ChannelUploadStage.Takes (identity : Bytes) (offset : UInt64) (bytes : Bytes) : Prop :=
  bytes ≠ [] ∧ stage.identityHash = identity ∧ offset = stage.writtenBytes ∧
    offset.toNat + bytes.length ≤ stage.expectedBytes.toNat

/-- Bytes for a stage: they are written to it, or refused; then the stage is gone, or as it was but
for what a write that failed had written. -/
theorem dataChannelUpload_cases
    (h : dataChannelUpload faults linkId peer resourceId offset bytes s = (r, s')) :
    ((∃ e, r = .error e) ∧ s' = s ∧ (bytes = [] ∨ s.stages.find? (linkId, resourceId) = none)) ∨
      ∃ stage, s.stages.find? (linkId, resourceId) = some stage ∧
        (((∃ e, r = .error e) ∧ ¬stage.Takes peer.identityHash offset bytes ∧
            s' = s.dropStage stage) ∨
          (stage.Takes peer.identityHash offset bytes ∧
            (((∃ e, r = .error e) ∧ faults.file (.write stage.path) = true ∧ s' = { s with
                disk := s.disk.extend stage.path (Disk.partialWrite faults.written bytes) }) ∨
              (r = .ok .quiet ∧ s' = { s with
                disk := s.disk.extend stage.path bytes
                stages := s.stages.updateWhere (fun t => t.key == stage.key) (·.advance bytes)
                  (fun _ => rfl) })))) := by
  unfold dataChannelUpload at h
  split at h
  · next hempty =>
    cases h
    exact .inl ⟨⟨_, rfl⟩, rfl, .inl hempty⟩
  · next hbytes =>
    rw [read_bind] at h
    cases hfound : s.stages.find? (linkId, resourceId) with
    | none =>
      simp only [hfound] at h
      cases h
      exact .inl ⟨⟨_, rfl⟩, rfl, .inr rfl⟩
    | some stage =>
      simp only [hfound] at h
      have hkey : stage.key = (linkId, resourceId) := (find?_eq_some.mp hfound).2
      refine .inr ⟨stage, rfl, ?_⟩
      split at h
      · -- another identity, a gap or bytes too many: the stage goes, with its file
        next hcheck =>
        cases h
        refine .inl ⟨⟨_, rfl⟩, fun htakes => ?_, by rw [dropStage, hkey]⟩
        obtain ⟨_, hidentity, hoffset, hfit⟩ := htakes
        rcases hcheck with hcheck | hcheck | hcheck
        · exact hcheck hidentity
        · exact hcheck hoffset
        · exact absurd hfit (Nat.not_le.mpr hcheck)
      · next hcheck =>
        simp only [not_or, not_not, not_lt] at hcheck
        refine .inr ⟨⟨hbytes, hcheck⟩, ?_⟩
        rcases happend : onDisk (Disk.append .io (faults.file (.write stage.path)) faults.written
          stage.path bytes) s with ⟨appended, t⟩
        obtain ⟨disk, hdisk, rfl⟩ := onDisk_eq.mp happend
        cases appended with
        | error e =>
          -- the stage stays, and so do the bytes that were written
          obtain ⟨_, hfault, rfl⟩ := Disk.append_error hdisk
          rw [bind_error happend] at h
          cases h
          exact .inl ⟨⟨e, rfl⟩, hfault, rfl⟩
        | ok _ =>
          obtain ⟨_, rfl⟩ := Disk.append_ok.mp hdisk
          rw [bind_ok happend] at h
          cases h
          exact .inr ⟨rfl, by rw [hkey]⟩

/-- The stage is complete, and its bytes are those announced. -/
def ChannelUploadStage.Complete (limits : UploadLimits) (identity : Bytes) (totalBytes : UInt64)
    (digest : AttachmentDigest) : Prop :=
  stage.identityHash = identity ∧ stage.expectedBytes = totalBytes ∧
    stage.writtenBytes = totalBytes ∧ limits.sha256 stage.hashed = digest

/-- The end of a Channel upload: its stage is closed, and committed where it is complete. -/
theorem finishChannelUpload_cases {digest : AttachmentDigest}
    (h : finishChannelUpload limits faults readings linkId peer resourceId totalBytes digest media s =
      (r, s')) :
    ((∃ e, r = .error e) ∧ s' = s ∧ s.stages.find? (linkId, resourceId) = none) ∨
      ∃ stage, s.stages.find? (linkId, resourceId) = some stage ∧
        (((∃ frame, r = .ok (.refused frame)) ∧ s' = s.dropStage stage) ∨
          ((∃ e, r = .error e) ∧ s' = s.removeStage stage.key ∧
            (faults.file (.flush stage.path) = true ∨ faults.file (.syncFile stage.path) = true)) ∨
          (stage.Complete limits peer.identityHash totalBytes digest ∧
            commitChannelStage limits faults readings peer resourceId stage.path totalBytes media
              (s.removeStage stage.key) = (r, s'))) := by
  unfold finishChannelUpload at h
  rw [read_bind] at h
  cases hfound : s.stages.find? (linkId, resourceId) with
  | none =>
    simp only [hfound] at h
    cases h
    exact .inl ⟨⟨_, rfl⟩, rfl, rfl⟩
  | some stage =>
    simp only [hfound] at h
    have hkey : stage.key = (linkId, resourceId) := (find?_eq_some.mp hfound).2
    -- the stage is removed before anything is checked
    rw [modify_bind, ← hkey] at h
    refine .inr ⟨stage, rfl, ?_⟩
    split at h
    · cases h
      exact .inl ⟨⟨_, rfl⟩, rfl⟩
    · next hcheck =>
      simp only [not_or, not_not] at hcheck
      have hsync (fails : Bool) (t : UploadServer) : onDisk (Disk.sync .io fails) t =
          (if fails then .error .io else .ok (), t) := by
        cases fails
        · rfl
        · rfl
      -- a flush or a sync that fails leaves the file
      cases hflush : faults.file (.flush stage.path) with
      | true =>
        rw [bind_error ((hsync _ _).trans (by rw [hflush]; rfl))] at h
        cases h
        exact .inr (.inl ⟨⟨_, rfl⟩, rfl, .inl rfl⟩)
      | false =>
        rw [bind_ok ((hsync _ _).trans (by rw [hflush]; rfl))] at h
        cases hfile : faults.file (.syncFile stage.path) with
        | true =>
          rw [bind_error ((hsync _ _).trans (by rw [hfile]; rfl))] at h
          cases h
          exact .inr (.inl ⟨⟨_, rfl⟩, rfl, .inr rfl⟩)
        | false =>
          rw [bind_ok ((hsync _ _).trans (by rw [hfile]; rfl))] at h
          rw [hkey]
          rw [hkey] at h
          exact .inr (.inr ⟨hcheck, h⟩)

theorem cancelChannelUpload_cases (h : cancelChannelUpload linkId resourceId s = (r, s')) :
    r = .ok .quiet ∧ (s' = s ∨ ∃ stage, s.stages.find? (linkId, resourceId) = some stage ∧
      s' = s.dropStage stage) := by
  unfold cancelChannelUpload at h
  rw [read_bind] at h
  cases hfound : s.stages.find? (linkId, resourceId) with
  | none =>
    simp only [hfound] at h
    cases h
    exact ⟨rfl, .inl rfl⟩
  | some stage =>
    simp only [hfound] at h
    have hkey : stage.key = (linkId, resourceId) := (find?_eq_some.mp hfound).2
    cases h
    exact ⟨rfl, .inr ⟨stage, rfl, by rw [dropStage, hkey]⟩⟩

end Channel

end Omen.Server
